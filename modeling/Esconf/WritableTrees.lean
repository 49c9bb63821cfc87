import Esconf.FlushChannel
import Esconf.PropTreeNames
import Esconf.XmlDocument

/-! Trees that can be written: the operations that keep them so, and where their
text names a property. -/

namespace Esconf

open NamedTree

theorem hasDoubleSlash_suffix {front back : CString} (clean : hasDoubleSlash (front ++ back) = false) :
    hasDoubleSlash back = false := by
  induction front with
  | nil => exact clean
  | cons c rest ih =>
      rw [List.cons_append, hasDoubleSlash, Bool.or_eq_false_iff] at clean
      exact ih clean.2

theorem named_of_clean {parts : List CString} (clean : hasDoubleSlash (partsName parts) = false)
    (ends : (partsName parts).getLast? ≠ some '/') : ∀ part ∈ parts, part ≠ [] := by
  induction parts with
  | nil => simp
  | cons part rest ih =>
      have shape : partsName (part :: rest) = ('/' :: part) ++ partsName rest := rfl
      rw [shape] at clean ends
      have later : ∀ other ∈ rest, other ≠ [] := by
        apply ih (hasDoubleSlash_suffix clean)
        intro slash
        rw [List.getLast?_append, slash] at ends
        exact ends rfl
      intro other member empty
      rcases List.mem_cons.mp member with rfl | inside
      · subst empty
        cases rest with
        | nil => exact ends rfl
        | cons next rest =>
            have slashes : hasDoubleSlash ('/' :: '/' :: (next ++ partsName rest)) = true := by
              simp [hasDoubleSlash]
            exact Bool.false_ne_true (clean.symm.trans slashes)
      · exact later other inside empty

theorem partsName_depth {path : List CString} (named : ∀ name ∈ path, name ≠ []) :
    path.length * 2 ≤ (partsName path).length := by
  induction path with
  | nil => simp
  | cons name rest ih =>
      have first := List.length_pos_of_ne_nil (named name List.mem_cons_self)
      have later := ih fun other member => named other (List.mem_cons_of_mem _ member)
      rw [partsName, SeparatedWords.join_cons]
      simp only [List.length_cons, List.cons_append, List.length_append]
      rw [partsName] at later
      omega

theorem propertyTailError_ends {previous : Char} {rest : CString}
    (accepted : propertyTailError previous rest = none) :
    (previous :: rest).getLast? ≠ some '/' := by
  induction rest generalizing previous with
  | nil =>
      intro slash
      have same : previous = '/' := Option.some.inj slash
      rw [propertyTailError, if_pos same] at accepted
      cases accepted
  | cons c rest ih =>
      rw [propertyTailError] at accepted
      split at accepted
      · cases accepted
      split at accepted
      · cases accepted
      · rw [List.getLast?_cons_cons]
        exact ih accepted

theorem propertyTailError_chars {previous : Char} {rest : CString}
    (accepted : propertyTailError previous rest = none) : ∀ c ∈ rest, isPropertyChar c = true := by
  induction rest generalizing previous with
  | nil =>
      intro c member
      cases member
  | cons first rest ih =>
      rw [propertyTailError] at accepted
      split at accepted
      · cases accepted
      split at accepted
      · cases accepted
      · next allowed _ =>
          intro c member
          rcases List.mem_cons.mp member with rfl | later
          · simpa using allowed
          · exact ih accepted c later

theorem accepted_chars {name : CString} (accepted : esconfPropertyIsValid name = none) :
    ∀ c ∈ name, isPropertyChar c = true := by
  obtain ⟨rest, rfl, _, clean⟩ := accepted_shape accepted
  rw [List.forall_mem_cons]
  exact ⟨rfl, propertyTailError_chars clean⟩

theorem named_of_property {property : CString} (accepted : esconfPropertyIsValid property = none) :
    ∀ part ∈ nameParts property, part ≠ [] := by
  have valid := propNameIsValid_of_property accepted
  have whole := partsName_nameParts valid
  obtain ⟨c, rest, same, clean⟩ := propNameIsValid_iff.mp valid
  apply named_of_clean
  · rw [whole]
    exact clean
  · rw [whole]
    subst same
    rw [esconfPropertyIsValid, if_neg (by simp), if_neg (by simp)] at accepted
    exact propertyTailError_ends accepted

theorem flushableAll_iff {depth : Nat} {nodes : List PropTree} :
    flushableAll depth nodes = true ↔ ∀ child ∈ nodes, flushable depth child = true := by
  induction nodes with
  | nil => simp [flushableAll]
  | cons child rest ih => simp [flushableAll, ih]

theorem clampDepth_fits {depth : Nat} (fits : depth * 2 < maxPropPath) :
    clampDepth depth = depth := by
  unfold clampDepth
  rw [if_neg]
  omega

theorem flushable_node {depth : Nat} (fits : depth * 2 < maxPropPath) {name : CString}
    {prop : EsconfProperty} {children : List PropTree} :
    flushable depth (.node name prop children) = true ↔
      formattable prop.value = true ∧ flushableAll (depth + 1) children = true := by
  simp [flushable, clampDepth_fits fits, fits]

theorem fits_next {depth : Nat} (fits : depth * 2 < maxPropPath) {child : PropTree}
    (written : flushable (depth + 1) child = true) : (depth + 1) * 2 < maxPropPath := by
  obtain ⟨name, prop, children⟩ := child
  simp only [flushable, Bool.and_eq_true, decide_eq_true_eq] at written
  have room := written.1.1
  unfold clampDepth at room
  split at room
  · next deep =>
      have limit : maxPropPath = 4096 := rfl
      omega
  · exact room

theorem flushableAll_alterFirst {depth : Nat} {name : CString}
    {f : PropTree → Option PropTree} {children : List PropTree}
    (written : flushableAll depth children = true)
    (keeps : ∀ child changed, flushable depth child = true → f child = some changed →
      flushable depth changed = true) :
    flushableAll depth (alterFirst name f children) = true := by
  rw [flushableAll_iff] at written ⊢
  intro changed member
  rcases alterFirst_mem member with old | ⟨child, found, image⟩
  · exact written changed old
  · exact keeps child changed (written child (child?_mem found)) image

theorem flushable_alterAt {f : PropTree → PropTree} {path : List CString} {depth : Nat}
    {tree tree' : PropTree} (fits : depth * 2 < maxPropPath)
    (written : flushable depth tree = true)
    (keeps : ∀ sub, (depth + path.length) * 2 < maxPropPath →
      flushable (depth + path.length) sub = true →
      flushable (depth + path.length) (f sub) = true)
    (done : alterAt (fun sub => some (f sub)) path tree = some tree') :
    flushable depth tree' = true := by
  induction path generalizing depth tree tree' with
  | nil =>
      cases done
      exact keeps tree fits written
  | cons name rest ih =>
      obtain ⟨key, prop, children⟩ := tree
      cases done
      rw [flushable_node fits] at written ⊢
      refine ⟨written.1, flushableAll_alterFirst written.2 ?_⟩
      intro child changed before image
      apply ih (fits_next fits before) before _ image
      intro sub
      have level : depth + 1 + rest.length = depth + (name :: rest).length := by
        rw [List.length_cons]
        omega
      rw [level]
      exact keeps sub

theorem flushableAll_change {f : PropTree → PropTree} {path : List CString} {tree : PropTree}
    (full : path ≠ []) (written : flushableAll 1 tree.children = true)
    (keeps : ∀ sub, path.length * 2 < maxPropPath → flushable path.length sub = true →
      flushable path.length (f sub) = true) :
    flushableAll 1 (change f path tree).children = true := by
  cases path with
  | nil => exact absurd rfl full
  | cons name rest =>
      obtain ⟨key, prop, children⟩ := tree
      apply flushableAll_alterFirst written
      intro child changed before image
      apply flushable_alterAt (by decide) before _ image
      intro sub
      rw [Nat.add_comm]
      exact keeps sub

theorem flushableAll_update {g : EsconfProperty → EsconfProperty} {path : List CString}
    {tree : PropTree} (full : path ≠ []) (written : flushableAll 1 tree.children = true)
    (known : ∀ prop, formattable (g prop).value = true) :
    flushableAll 1 (update g path tree).children = true := by
  apply flushableAll_change full written
  intro sub fits before
  obtain ⟨key, prop, children⟩ := sub
  rw [flushable_node fits] at before
  rw [withData, flushable_node fits]
  exact ⟨known prop, before.2⟩

theorem flushable_leaf {depth : Nat} (fits : depth * 2 < maxPropPath) {name : CString}
    {prop : EsconfProperty} (known : formattable prop.value = true) :
    flushable depth (.node name prop []) = true :=
  (flushable_node fits).mpr ⟨known, rfl⟩

theorem flushableAll_graft {path : List CString} {name : CString} {prop : EsconfProperty}
    {tree : PropTree} (fits : (path.length + 1) * 2 < maxPropPath)
    (written : flushableAll 1 tree.children = true) (known : formattable prop.value = true) :
    flushableAll 1 (graft path (.node name prop []) tree).children = true := by
  have added : ∀ (depth : Nat) (children : List PropTree), depth * 2 < maxPropPath →
      flushableAll depth children = true →
      flushableAll depth (children ++ [.node name prop []]) = true := by
    intro depth children room before
    rw [flushableAll_iff] at before ⊢
    intro child member
    rcases List.mem_append.mp member with old | new
    · exact before child old
    · rw [List.mem_singleton.mp new]
      exact flushable_leaf room known
  by_cases top : path = []
  · subst top
    obtain ⟨key, data, children⟩ := tree
    exact added 1 children (by decide) written
  · apply flushableAll_change top written
    intro sub room before
    obtain ⟨key, data, children⟩ := sub
    rw [flushable_node room] at before
    rw [withChild, flushable_node room]
    exact ⟨before.1, added _ _ fits before.2⟩

theorem flushableAll_addPropertyWithin {fuel : Nat} {tree grown : PropTree}
    {parts : List CString} {prop : EsconfProperty} (plain : SeparatedWords.Plain '/' parts)
    (named : ∀ name ∈ parts, name ≠ []) (short : (partsName parts).length < maxPropPath)
    (known : formattable prop.value = true) (written : flushableAll 1 tree.children = true)
    (done : addPropertyWithin fuel tree (partsName parts) prop = some grown) :
    flushableAll 1 grown.children = true := by
  induction fuel generalizing parts prop grown with
  | zero => cases done
  | succ fuel ih =>
      rw [addPropertyWithin] at done
      split at done
      · next valid =>
          rcases List.eq_nil_or_concat parts with rfl | ⟨front, last, rfl⟩
          · cases valid
          rw [List.concat_eq_append] at *
          obtain ⟨plainFront, plainLast⟩ := SeparatedWords.plain_append.mp plain
          have lastPlain : '/' ∉ last := plainLast last (by simp)
          have whole : gStrlcpy (partsName (front ++ [last])) maxPropPath =
              partsName (front ++ [last]) := List.take_of_length_le (by omega)
          have deep := partsName_depth named
          rw [List.length_append, List.length_singleton] at deep
          have fits : (front.length + 1) * 2 < maxPropPath := Nat.lt_of_le_of_lt deep short
          rw [whole, uptoLastSlash_snoc front last lastPlain] at done
          dsimp only at done
          split at done
          · cases done
            exact flushableAll_graft (by decide) written known
          · next full =>
              have nonempty : front ≠ [] := by
                intro empty
                rw [empty] at full
                exact full rfl
              have names := nameParts_partsName plainFront (propNameIsValid_front nonempty valid)
              have shorter : (partsName front).length < maxPropPath := by
                rw [partsName_snoc, List.length_append] at short
                omega
              rw [names] at done
              split at done
              · cases done
                exact flushableAll_graft fits written known
              · cases done
                apply flushableAll_graft fits _ known
                cases inner : addPropertyWithin fuel tree (partsName front) .blank with
                | none => exact written
                | some middle =>
                    exact ih plainFront (fun name member => named name (by simp [member])) shorter
                      rfl inner
      · cases done

theorem flushableAll_addProperty {tree grown : PropTree} {name : CString} {value : GValue}
    {locked : Bool} (valid : propNameIsValid name = true)
    (named : ∀ part ∈ nameParts name, part ≠ []) (short : name.length < maxPropPath)
    (known : formattable value = true) (written : flushableAll 1 tree.children = true)
    (done : proptreeAddProperty tree name value locked = some grown) :
    flushableAll 1 grown.children = true := by
  have whole := partsName_nameParts valid
  unfold proptreeAddProperty at done
  rw [← whole] at done short
  exact flushableAll_addPropertyWithin (nameParts_plain name) named short known written done

theorem formattable_formatted {value : GValue} (known : formattable value = true) :
    formattable (formattedValue value) = true := by
  cases value <;> exact known

theorem flushableAll_formatted {depth : Nat} {nodes : List PropTree}
    (each : ∀ child ∈ nodes, ∀ depth, flushable depth child = true →
      flushable depth (mapData formattedProperty child) = true)
    (written : flushableAll depth nodes = true) :
    flushableAll depth (mapDataAll formattedProperty nodes) = true := by
  rw [flushableAll_iff] at written ⊢
  intro changed member
  obtain ⟨child, old, same⟩ := mem_mapDataAll member
  rw [← same]
  exact each child old depth (written child old)

theorem flushable_formatted (node : PropTree) :
    ∀ depth, flushable depth node = true →
      flushable depth (mapData formattedProperty node) = true := by
  induction node using byChildren with
  | step name prop children ih =>
      intro depth written
      rw [mapData]
      simp only [flushable, Bool.and_eq_true] at written ⊢
      exact ⟨⟨written.1.1, formattable_formatted written.1.2⟩, flushableAll_formatted ih written.2⟩

section Text

variable (host : Host)

def propertyOpening (depth : Nat) (name tag : CString) : CString :=
  spacesAt depth ++ "<property name=\"".toList ++ host.markupEscape name ++ "\"".toList ++ tag

def NamesProperty (text name : CString) (value : GValue) : Prop :=
  ∃ depth tag, formatXmlValue host value = some tag ∧ propertyOpening host depth name tag <:+: text

variable {host}

theorem NamesProperty.within {inner text name : CString} {value : GValue}
    (names : NamesProperty host inner name value) (inside : inner <:+: text) :
    NamesProperty host text name value := by
  obtain ⟨depth, tag, formatted, opening⟩ := names
  exact ⟨depth, tag, formatted, opening.trans inside⟩

theorem writeNodes_inside {depth : Nat} {nodes : List PropTree} {child : PropTree}
    {text : CString} (member : child ∈ nodes) (written : writeNodes host depth nodes = .ok text) :
    ∃ inner, writeNode host depth child = .ok inner ∧ inner <:+: text := by
  induction nodes generalizing text with
  | nil => cases member
  | cons head rest ih =>
      rw [writeNodes] at written
      cases first : writeNode host depth head with
      | error stop =>
          rw [first] at written
          cases written
      | ok front =>
          rw [first] at written
          cases second : writeNodes host depth rest with
          | error stop =>
              rw [Except.bind, second] at written
              cases written
          | ok back =>
              rw [Except.bind, second] at written
              cases written
              rcases List.mem_cons.mp member with rfl | later
              · exact ⟨front, first, List.infix_append_left⟩
              · obtain ⟨inner, done, inside⟩ := ih later second
                exact ⟨inner, done, List.infix_append_of_infix_right inside⟩

theorem formatXmlTag_plain (host : Host) (spaces : CString) {value : GValue} {tag : CString}
    (plain : formatXmlValue host value = some tag) :
    formatXmlTag host spaces value = .ok (tag, false) := by
  unfold formatXmlTag
  rw [plain]

theorem writeNode_parts {depth : Nat} {name : CString} {prop : EsconfProperty}
    {children : List PropTree} {text : CString}
    (written : writeNode host depth (.node name prop children) = .ok text) :
    ∃ tag below rest, formatXmlTag host (spacesAt depth) prop.value = .ok tag ∧
      writeNodes host (clampDepth depth + 1) children = .ok below ∧
      text = propertyOpening host depth name tag.1 ++
        (if tag.2 then [] else if children.isEmpty then "/>\n".toList else ">\n".toList) ++
          (below ++ rest) := by
  rw [writeNode] at written
  split at written
  · cases formatted : formatXmlTag host (spacesAt depth) prop.value with
    | error stop =>
        rw [formatted] at written
        cases written
    | ok tag =>
        rw [formatted] at written
        cases nodes : writeNodes host (clampDepth depth + 1) children with
        | error stop =>
            rw [Except.bind, nodes] at written
            cases written
        | ok below =>
            rw [Except.bind, nodes] at written
            cases written
            exact ⟨tag, below, _, rfl, rfl, List.append_assoc _ _ _⟩
  · cases written

theorem writeNode_names {path : List CString} {depth : Nat} {tree sub : PropTree}
    {text tag : CString} (written : writeNode host depth tree = .ok text)
    (found : descend tree path = some sub) (plain : formatXmlValue host sub.data.value = some tag) :
    NamesProperty host text sub.key sub.data.value := by
  induction path generalizing depth tree text with
  | nil =>
      cases found
      obtain ⟨name, prop, children⟩ := sub
      obtain ⟨opened, below, rest, formatted, _, same⟩ := writeNode_parts written
      have plainTag := (formatXmlTag_plain host (spacesAt depth) plain).symm.trans formatted
      cases plainTag
      refine ⟨depth, tag, plain, ?_⟩
      rw [same]
      exact List.infix_append_of_infix_left List.infix_append_left
  | cons name rest ih =>
      obtain ⟨key, prop, children⟩ := tree
      obtain ⟨child, here, deeper⟩ := Option.bind_eq_some_iff.mp found
      obtain ⟨opened, below, after, _, nodes, same⟩ := writeNode_parts written
      obtain ⟨inner, done, inside⟩ := writeNodes_inside (child?_mem here) nodes
      apply (ih done deeper).within
      rw [same]
      exact List.infix_append_of_infix_right (List.infix_append_of_infix_left inside)

theorem flushText_names {channelName : CString} {properties : PropTree} {text tag : CString}
    (written : flushText host channelName properties = .ok text) {path : List CString}
    {name : CString} {value : GValue}
    (value_at : (properties.slot (path ++ [name])).value = value)
    (plain : formatXmlValue host value = some tag) :
    NamesProperty host text name value := by
  cases nodes : writeNodes host 1 properties.children with
  | error stop =>
      rw [flushText, nodes] at written
      cases written
  | ok body =>
      rw [flushText, nodes] at written
      cases written
      cases found : descend properties (path ++ [name]) with
      | none =>
          rw [PropTree.slot, lookup_of_missing found] at value_at
          rw [← value_at] at plain
          cases plain
      | some sub =>
          have key := descend_key found
          rw [PropTree.slot, lookup_of_descend found] at value_at
          rw [← key, ← value_at]
          rw [← value_at] at plain
          cases steps : path ++ [name] with
          | nil => simp at steps
          | cons first rest =>
              rw [steps] at found
              obtain ⟨child, here, deeper⟩ := Option.bind_eq_some_iff.mp found
              obtain ⟨inner, done, inside⟩ := writeNodes_inside (child?_mem here) nodes
              apply (writeNode_names done deeper plain).within
              exact List.infix_append_of_infix_left (List.infix_append_of_infix_right inside)

end Text

end Esconf
