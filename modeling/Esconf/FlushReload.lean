import Esconf.LockedReading
import Esconf.XmlPolicy

/-! Flushing a channel and loading it again: what comes back, and when it is the channel. -/

namespace Esconf

open NamedTree

/-- A user value that is absent, a scalar, or an array of scalars; strings may be NULL, and
a list of strings is such an array too. -/
inductive SavedValue : GValue → Prop where
  | unset : SavedValue .invalid
  | scalar {value : GValue} (scalar : ScalarValue value) : SavedValue value
  | null : SavedValue (.string none)
  | array (elements : List GValue)
      (scalars : ∀ element ∈ elements, ScalarValue element ∨ element = .string none) :
      SavedValue (.ptrArray elements)
  | strv (list : List CString) (clean : ∀ text ∈ list, CleanText text) : SavedValue (.strv list)

/-- A tree as it is saved: what is locked has no user value. -/
structure Savable (tree : PropTree) : Prop extends Tidy tree where
  values : ∀ path, path ≠ [] → SavedValue (tree.slot path).value
  locks : ∀ path, path ≠ [] → (tree.slot path).locked = true → (tree.slot path).value = .invalid

/-- A value that is written as the text of another: a NULL string, as "(null)", alone or in
an array, and a list of strings, as an array. -/
def writtenAsOther : GValue → Bool
  | .string none => true
  | .ptrArray elements => elements.any fun element => element == .string none
  | .strv _ => true
  | _ => false

section Values

variable {host : Host}

theorem rereadScalar_null :
    rereadScalar host (.string none) = .string (some "(null)".toList) := by
  have typed : gtypeFromString "string".toList = .string := by decide
  have clean : normalizeAttribute "(null)".toList = "(null)".toList :=
    normalizeAttribute_clean (by decide)
  rw [rereadScalar, spelling, plainAttribute]
  dsimp only
  rw [typed, clean]
  rfl

theorem ScalarValue.not_null {value : GValue} (scalar : ScalarValue value) :
    value ≠ .string none := by
  rintro rfl
  cases scalar

theorem rereadScalar_eq_iff {element : GValue}
    (scalar : ScalarValue element ∨ element = .string none) :
    rereadScalar host element = element ↔ element ≠ .string none := by
  rcases scalar with scalar | rfl
  · exact iff_of_true (rereadScalar_scalar scalar) scalar.not_null
  · apply iff_of_false
    · rw [rereadScalar_null]
      intro same
      cases same
    · exact fun different => different rfl

theorem SavedValue.reread_eq_iff {value : GValue} (saved : SavedValue value) :
    reread host value = value ↔ writtenAsOther value = false := by
  cases saved with
  | unset => exact iff_of_true rfl rfl
  | scalar scalar =>
      have same : reread host value = rereadScalar host value := by
        cases scalar <;> rfl
      have plain : writtenAsOther value = false := by
        cases scalar <;> rfl
      rw [same, rereadScalar_scalar scalar]
      exact iff_of_true rfl plain
  | null =>
      have same : reread host (.string none) = rereadScalar host (.string none) := rfl
      rw [same, rereadScalar_eq_iff (Or.inr rfl)]
      exact iff_of_false (fun different => different rfl) Bool.noConfusion
  | array elements scalars =>
      have each : elements.map (rereadScalar host) = elements ↔
          ∀ element ∈ elements, rereadScalar host element = element := by
        conv_lhs => rhs; rw [← List.map_id elements]
        exact List.map_inj_left
      change GValue.ptrArray (elements.map (rereadScalar host)) = _ ↔
        (elements.any fun element => element == .string none) = false
      rw [GValue.ptrArray.injEq, each, List.any_eq_false]
      apply forall_congr'
      intro element
      apply imp_congr_right
      intro member
      rw [rereadScalar_eq_iff (scalars element member), beq_iff_eq]
  | strv list clean =>
      apply iff_of_false
      · intro same
        cases same
      · exact Bool.noConfusion

theorem SavedValue.readable {value : GValue} (saved : SavedValue value) :
    rereads value = true ∧ formattable value = true := by
  cases saved with
  | scalar scalar => cases scalar <;> exact ⟨rfl, rfl⟩
  | array elements scalars =>
      have each : ∀ element ∈ elements, scalarRereads element = true ∧ knownType element = true := by
        intro element member
        rcases scalars element member with scalar | rfl
        · cases scalar <;> exact ⟨rfl, rfl⟩
        · exact ⟨rfl, rfl⟩
      exact ⟨List.all_eq_true.mpr fun element member => (each element member).1,
        List.all_eq_true.mpr fun element member => (each element member).2⟩
  | _ => exact ⟨rfl, rfl⟩

theorem SavedValue.prints {value : GValue} (saved : SavedValue value) : Prints host value := by
  have scalars : ∀ item, ScalarValue item ∨ item = .string none → isFloating item = false := by
    intro item scalar
    rcases scalar with scalar | rfl
    · cases scalar <;> rfl
    · rfl
  have none : ∀ item, isFloating item = false → isFloating item = true → PrintsDoubles host := by
    intro item plain floating
    rw [plain] at floating
    cases floating
  cases saved with
  | scalar scalar =>
      refine ⟨none _ (scalars _ (Or.inl scalar)), ?_⟩
      intro item member
      cases scalar <;> cases member
  | array elements each =>
      exact ⟨none _ rfl, fun item member => none item (scalars item (each item member))⟩
  | strv list clean =>
      refine ⟨none _ rfl, ?_⟩
      intro item member
      obtain ⟨text, _, rfl⟩ := List.mem_map.mp member
      exact none _ rfl
  | _ => exact ⟨none _ rfl, nofun⟩

end Values

namespace Savable

variable {host : Host} {tree : PropTree}

theorem flushed (saved : Savable tree) (channelName : CString) :
    ∃ text, flushText host channelName tree = .ok text := by
  apply flushText_of_flushable
  rw [saved.toTidy.flushable_iff]
  exact fun path full => (saved.values path full).readable.2

theorem prints (saved : Savable tree) :
    ∀ child ∈ tree.children, All (fun prop => Prints host prop.value) child := by
  apply saved.distinct.all_children
  intro path node full here
  have slot : tree.slot path = node.data := lookup_of_descend here
  rw [← slot]
  exact (saved.values path full).prints

theorem dry (saved : Savable tree) {locked : List CString → Bool}
    (locks : ∀ path, path ≠ [] → locked path = (tree.slot path).locked) :
    ∀ opening ∈ openingsAll locked [] none tree.children, opening.spills locked = false := by
  intro opening member
  have full := ((mem_openings saved.distinct).mp (List.mem_map_of_mem member)).1
  rw [Opening.spills, locks _ full, openings_value saved.distinct member]
  cases lock : (tree.slot opening.path).locked with
  | false => rfl
  | true =>
      rw [saved.locks _ full lock]
      rfl

end Savable

/-- Writing a channel and merging the text as the user file over a tree that has all but
the user values gives every path its slot again exactly if none of these is written as
another value. -/
theorem flush_reload_iff (host : Host) (channelName : CString) (tree : PropTree)
    (base : EsconfChannel) (saved : Savable tree)
    (accepted : esconfChannelIsValid channelName = none) (unlocked : base.locked = false)
    (none : NoUserValues base)
    (others : ∀ path, path ≠ [] →
      base.properties.slot path = (tree.slot path).withValue .invalid)
    (markup : GMarkupNormalizes host (documentTags host channelName tree)) :
    ∃ text, flushText host channelName tree = .ok text ∧
      ∀ disk filename, disk filename = some text →
        ∃ after, mergeFile host disk filename false base = some (true, after) ∧
          after.locked = false ∧
          ((∀ path, path ≠ [] → after.properties.slot path = tree.slot path) ↔
            ∀ path, path ≠ [] → writtenAsOther (tree.slot path).value = false) := by
  obtain ⟨text, written⟩ := @Savable.flushed host tree saved channelName
  refine ⟨text, written, ?_⟩
  intro disk filename stored
  have parsed := written_delivered (acceptedName_plain accepted).2.2 saved.prints markup written
  have locks : ∀ path, path ≠ [] →
      (base.properties.slot path).locked = (tree.slot path).locked := by
    intro path full
    rw [others path full]
    rfl
  obtain ⟨handled, read, _, complete, values⟩ := locked_document_read saved.toTidy
    (fun path full => (saved.values path full).prints)
    (fun path full => (saved.values path full).readable.1) accepted unlocked none fun _ => rfl
  have dry := saved.dry locks
  -- What is locked has no values in the file, so that nothing stops the reading.
  obtain ⟨state, rfl⟩ := complete (readAll_complete dry _)
  have user := parseEvents_user host (userReading_start unlocked)
    (writtenDocument host channelName tree).events
  rw [read] at user
  refine ⟨state.channel, ?_, user.channelUnlocked, ?_⟩
  · rw [mergeFile, stored]
    dsimp only
    rw [parsed]
    dsimp only
    rw [read]
    rfl
  · apply forall_congr'
    intro path
    apply imp_congr_right
    intro full
    have value : (state.properties.slot path).value = reread host (tree.slot path).value := by
      refine (values path).trans ?_
      rw [(readAll_tree host saved.distinct).mpr (locksKeep_plain dry) path full]
      split
      · next lock =>
          rw [saved.locks path full ((locks path full).symm.trans lock)]
          rfl
      · rfl
    -- The rest of the slot is that of the base, whatever the file says.
    have slots := user.overlay.slots path
    rw [others path full] at slots
    rw [← (saved.values path full).reread_eq_iff, ← value]
    constructor
    · intro same
      exact congrArg EsconfProperty.value same
    · intro same
      have system : (state.properties.slot path).systemValue = (tree.slot path).systemValue :=
        slots.1
      have lock : (state.properties.slot path).locked = (tree.slot path).locked := slots.2.1
      change EsconfProperty.mk (state.properties.slot path).value
        (state.properties.slot path).systemValue (state.properties.slot path).locked = _
      rw [same, system, lock]

theorem slot_nodesDoPropReset (tree : PropTree) (path : List CString) :
    PropTree.slot (nodesDoPropReset tree) path = (tree.slot path).withValue .invalid := by
  rw [PropTree.slot, lookup, nodesDoPropReset, descend_mapData]
  cases found : descend tree path with
  | none => rw [PropTree.slot, lookup_of_missing found]; rfl
  | some node =>
      rw [PropTree.slot, lookup_of_descend found, Option.map_some, Option.map_some, mapData_data]
      rfl

/-- An array over a default, with a locked default below it. -/
def savedTree : PropTree :=
  .node "/".toList .blank
    [.node "a".toList ⟨.ptrArray [.int (-1), .string (some "x".toList)], .int 5, false⟩
      [.node "b".toList ⟨.invalid, .boolean true, true⟩ []]]

/-- What is read from the file "in", which gives "a" the type of a string and no value. -/
def nullTree : PropTree :=
  .node "/".toList .blank [.node "a".toList ⟨.string none, .invalid, false⟩ []]

def nullFile : ChannelDocument where
  attributes := channelAttributesOf "c"
  properties := [.property (attributesOf "a" "string" none) [] []]

def nullText : CString := channelText ["<property name='a' type='string'/>"]

def savedHost (tree : PropTree) : Host :=
  .bare [(tagsText (.bare []) (documentTags (.bare []) "c".toList tree),
      deliveredEvents (documentTags (.bare []) "c".toList tree)),
    (nullText, nullFile.events)]

theorem noUserValues_stripped (tree : PropTree) :
    NoUserValues ⟨nodesDoPropReset tree, false, false⟩ := by
  intro path
  have same := slot_nodesDoPropReset tree path
  change (PropTree.slot (nodesDoPropReset tree) path).value = .invalid
  rw [same]
  rfl

theorem savable_of_walk {tree : PropTree} (distinct : Distinct tree)
    (each : ∀ visited ∈ preorder [] tree,
      ((∀ name ∈ visited.1, name ≠ [] ∧ '/' ∉ name ∧ CleanText name) ∧
        (partsName visited.1).length < maxPropPath) ∧
      SavedValue visited.2.value ∧
      (visited.2.locked = true → visited.2.value = .invalid)) : Savable tree := by
  have tidy := tidy_of_names distinct fun visited member => (each visited member).1
  have slots : ∀ path, SavedValue (tree.slot path).value ∧
      ((tree.slot path).locked = true → (tree.slot path).value = .invalid) := by
    intro path
    cases found : descend tree path with
    | none =>
        have blank : tree.slot path = .blank := lookup_of_missing found
        rw [blank]
        exact ⟨.unset, fun _ => rfl⟩
    | some node =>
        have slot : tree.slot path = node.data := lookup_of_descend found
        rw [slot]
        exact (each (path, node.data)
          ((mem_preorder distinct).mpr ⟨path, node, rfl, found, rfl⟩)).2
  exact ⟨tidy, fun path _ => (slots path).1, fun path _ => (slots path).2⟩

theorem savable_savedTree : Savable savedTree := by
  apply savable_of_walk
  · refine .node (by decide) fun child member => ?_
    rw [List.mem_singleton.mp member]
    refine .node (by decide) fun child member => ?_
    rw [List.mem_singleton.mp member]
    exact .node (by decide) nofun
  · have array : SavedValue (.ptrArray [.int (-1), .string (some "x".toList)]) := by
      refine .array _ (List.forall_mem_cons.mpr ⟨Or.inl (.int _), ?_⟩)
      exact List.forall_mem_singleton.mpr (Or.inl (.string _ (by decide)))
    refine List.forall_mem_cons.mpr ⟨⟨by decide, .unset, fun _ => rfl⟩, ?_⟩
    refine List.forall_mem_cons.mpr ⟨⟨by decide, array, fun lock => by cases lock⟩, ?_⟩
    exact List.forall_mem_singleton.mpr ⟨by decide, .unset, fun _ => rfl⟩

theorem savable_nullTree : Savable nullTree := by
  apply savable_of_walk
  · refine .node (by decide) fun child member => ?_
    rw [List.mem_singleton.mp member]
    exact .node (by decide) nofun
  · refine List.forall_mem_cons.mpr ⟨⟨by decide, .unset, fun _ => rfl⟩, ?_⟩
    exact List.forall_mem_singleton.mpr ⟨by decide, .null, fun lock => by cases lock⟩

theorem savedHost_markup (tree : PropTree) (each : tree = savedTree ∨ tree = nullTree) :
    GMarkupNormalizes (savedHost tree) (documentTags (savedHost tree) "c".toList tree) := by
  intro _ _
  have same : documentTags (savedHost tree) "c".toList tree =
      documentTags (.bare []) "c".toList tree := by
    rcases each with rfl | rfl <;> rfl
  rw [same]
  exact Host.bare_markupParse _ _ _

theorem flush_reload_nested :
    ∃ text, flushText (savedHost savedTree) "c".toList savedTree = .ok text ∧
      ∀ disk filename, disk filename = some text →
        ∃ after, mergeFile (savedHost savedTree) disk filename false
            ⟨nodesDoPropReset savedTree, false, false⟩ = some (true, after) ∧
          after.locked = false ∧
          ∀ path, path ≠ [] → after.properties.slot path = savedTree.slot path := by
  have kept : All (fun prop => writtenAsOther prop.value = false) savedTree := by
    refine .node rfl fun child member => ?_
    rw [List.mem_singleton.mp member]
    refine .node (by decide) fun child member => ?_
    rw [List.mem_singleton.mp member]
    exact .node rfl nofun
  have plain : ∀ path, path ≠ [] → writtenAsOther (savedTree.slot path).value = false :=
    fun path _ => kept.lookup rfl path
  obtain ⟨text, written, reload⟩ := flush_reload_iff (savedHost savedTree) "c".toList savedTree
    ⟨nodesDoPropReset savedTree, false, false⟩ savable_savedTree (by decide) rfl
    (noUserValues_stripped savedTree) (fun path _ => slot_nodesDoPropReset savedTree path)
    (savedHost_markup savedTree (Or.inl rfl))
  refine ⟨text, written, ?_⟩
  intro disk filename stored
  obtain ⟨after, merged, free, same⟩ := reload disk filename stored
  exact ⟨after, merged, free, same.mpr plain⟩

/-- A string without a value is loaded as NULL, written as "(null)" and read as that. -/
theorem null_string_printed : ∃ loaded text after,
    mergeFile (savedHost nullTree) (fun _ => some nullText) "in".toList false .root =
      some (true, loaded) ∧
    Savable loaded.properties ∧
    GMarkupNormalizes (savedHost nullTree)
      (documentTags (savedHost nullTree) "c".toList loaded.properties) ∧
    flushText (savedHost nullTree) "c".toList loaded.properties = .ok text ∧
    mergeFile (savedHost nullTree) (fun _ => some text) "in".toList false .root =
      some (true, after) ∧
    (loaded.properties.slot ["a".toList]).value = .string none ∧
    (after.properties.slot ["a".toList]).value = .string (some "(null)".toList) := by
  exact ⟨⟨nullTree, false, false⟩, _, _, rfl, savable_nullTree,
    savedHost_markup nullTree (Or.inr rfl), rfl, rfl, rfl, rfl⟩

end Esconf
