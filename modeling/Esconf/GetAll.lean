import Esconf.Backend
import Esconf.PropTreeNames
import Esconf.Library.Assignments

/-! `esconf_backend_perchannel_xml_get_all` against
`esconf_backend_perchannel_xml_get`: the walk that shares one path buffer gives
every name a getter succeeds for, and no other. -/

namespace Esconf

open NamedTree

/-- The table after `g_hash_table_insert` of each entry: the last one under a key stays. -/
def hashTable (entries : List (CString × GValue)) (key : CString) : Option GValue :=
  Assignments.last entries key

def tableEntry (visited : List CString × EsconfProperty) : Option (CString × GValue) :=
  if visited.2.effective.isSet then some (partsName visited.1, visited.2.effective) else none

theorem tableEntry_some {visited : List CString × EsconfProperty} {key : CString} {value : GValue} :
    tableEntry visited = some (key, value) ↔
      partsName visited.1 = key ∧ visited.2.effective = value ∧ value.isSet = true := by
  unfold tableEntry
  split
  · next set =>
      rw [Option.some.injEq, Prod.mk.injEq]
      constructor
      · intro same
        exact ⟨same.1, same.2, by rw [← same.2]; exact set⟩
      · intro same
        exact ⟨same.1, same.2.1⟩
  · next unset =>
      constructor
      · intro none
        cases none
      · intro same
        exact absurd (by rw [same.2.1]; exact same.2.2) unset

theorem cutLast_snoc {front : List CString} {last : CString} (plain : '/' ∉ last) :
    cutLast (partsName (front ++ [last])) = partsName front := by
  have slash : '/' ∈ partsName (front ++ [last]) := by
    rw [partsName_snoc]
    simp
  rw [cutLast, if_pos slash, uptoLastSlash_snoc front last plain]

def FitsBuffer (path : List CString) : Prop :=
  SeparatedWords.Plain '/' path ∧ (partsName path).length < maxPropPath

theorem proptreeNodesToHashTable_walk {children : List PropTree} {front : List CString}
    (walks : ∀ child ∈ children, proptreeNodeToHashTable (partsName front) child =
      ((preorder (front ++ [child.key]) child).filterMap tableEntry, partsName front)) :
    proptreeNodesToHashTable (partsName front) children =
      ((preorderAll front children).filterMap tableEntry, partsName front) := by
  induction children with
  | nil => rw [proptreeNodesToHashTable, preorderAll, List.filterMap_nil]
  | cons child rest ih =>
      have later := ih fun other member => walks other (List.mem_cons_of_mem _ member)
      rw [proptreeNodesToHashTable, walks child List.mem_cons_self, preorderAll,
        List.filterMap_append]
      simp only [later]

theorem proptreeNodeToHashTable_walk (node : PropTree) : ∀ front : List CString,
    (∀ visited ∈ preorder (front ++ [node.key]) node, FitsBuffer visited.1) →
    proptreeNodeToHashTable (partsName front) node =
      ((preorder (front ++ [node.key]) node).filterMap tableEntry, partsName front) := by
  induction node using byChildren with
  | step name prop children ih =>
      intro front fits
      have here : FitsBuffer (front ++ [name]) := fits (front ++ [name], prop) List.mem_cons_self
      have plain : '/' ∉ name := here.1 name (by simp)
      have own : (if prop.effective.isSet then
          [(partsName front ++ "/".toList ++ name, prop.effective)] else []) =
            (tableEntry (front ++ [name], prop)).toList := by
        have full : partsName front ++ "/".toList ++ name = partsName (front ++ [name]) := by
          rw [partsName_snoc, List.append_assoc]
          rfl
        rw [tableEntry, full]
        split <;> rfl
      rw [key_node, preorder, List.filterMap_cons]
      cases children with
      | nil =>
          rw [proptreeNodeToHashTable, own, preorderAll, List.filterMap_nil]
          cases tableEntry (front ++ [name], prop) <;> rfl
      | cons first rest =>
          rw [proptreeNodeToHashTable, own]
          have inner : name.head? ≠ some '/' := by
            intro slash
            exact plain (List.mem_of_mem_head? slash)
          have below := proptreeNodesToHashTable_walk fun child member =>
            ih child member (front ++ [name]) fun visited inside =>
              fits visited (List.mem_cons_of_mem _ (mem_preorderAll.mpr ⟨child, member, inside⟩))
          rw [proptreeNodesToHashTable, Prod.mk.injEq] at below
          simp only [if_neg inner, gStrlcat_snoc here.2]
          rw [below.2, cutLast_snoc plain, List.append_assoc, below.1]
          cases tableEntry (front ++ [name], prop) <;> rfl

theorem proptreeNodeToHashTable_root {tree : PropTree} (root : tree.key = "/".toList)
    (blank : tree.data = .blank) (fits : ∀ visited ∈ preorder [] tree, FitsBuffer visited.1) :
    (proptreeNodeToHashTable [] tree).1 = (preorder [] tree).filterMap tableEntry := by
  obtain ⟨name, prop, children⟩ := tree
  rw [key_node] at root
  rw [data_node] at blank
  subst root blank
  have unset : tableEntry ([], .blank) = none := rfl
  rw [preorder, List.filterMap_cons, unset]
  cases children with
  | nil =>
      rw [proptreeNodeToHashTable]
      rfl
  | cons first rest =>
      have walks : ∀ child ∈ first :: rest, proptreeNodeToHashTable (partsName []) child =
          ((preorder ([] ++ [child.key]) child).filterMap tableEntry, partsName []) := by
        intro child member
        apply proptreeNodeToHashTable_walk child []
        intro visited inside
        exact fits visited
          (List.mem_cons_of_mem _ (mem_preorderAll.mpr ⟨child, member, inside⟩))
      have below := proptreeNodesToHashTable_walk walks
      rw [proptreeNodesToHashTable, Prod.mk.injEq] at below
      rw [proptreeNodeToHashTable]
      exact below.1

/-- A base names the whole channel, or the property itself or one above it. -/
def Covers (base property : CString) : Prop :=
  base = [] ∨ base = "/".toList ∨ property = base ∨ (base ++ "/".toList) <+: property

theorem effectiveAt_set {channel : EsconfChannel} {property : CString} {value : GValue}
    (set : value.isSet = true) :
    effectiveAt channel property = value ↔
      ∃ node, propNameIsValid property = true ∧
        descend channel.properties (nameParts property) = some node ∧
        node.data.effective = value := by
  unfold effectiveAt
  constructor
  · intro found
    cases looked : proptreeLookup channel.properties property with
    | none =>
        rw [looked] at found
        rw [← found] at set
        cases set
    | some prop =>
        rw [looked] at found
        obtain ⟨valid, node, here, held⟩ := proptreeLookup_some.mp looked
        exact ⟨node, valid, here, by rw [held]; exact found⟩
  · intro reached
    obtain ⟨node, valid, here, held⟩ := reached
    rw [proptreeLookup_some.mpr ⟨valid, node, here, rfl⟩]
    exact held

theorem perchannelXmlGet_loaded (host : Host) {xbpx : EsconfBackendPerchannelXml}
    {channelName : CString} {channel : EsconfChannel}
    (loaded : xbpx.channels.lookup channelName = some channel) (property : CString)
    (value : GValue) :
    perchannelXmlGet host xbpx channelName property = some (.ok value, xbpx) ↔
      effectiveAt channel property = value ∧ value.isSet = true := by
  rw [perchannelXmlGet, onChannel_loaded host loaded]
  constructor
  · intro got
    split at got
    · next set =>
        cases got
        exact ⟨rfl, set⟩
    · cases got
  · intro found
    rw [found.1, if_pos found.2]

namespace WellNamed

variable {tree : PropTree} (named : WellNamed tree)

include named

theorem fitsBuffer {path : List CString} {top : PropTree} (found : descend tree path = some top) :
    ∀ visited ∈ preorder path top, FitsBuffer visited.1 := by
  intro visited inside
  obtain ⟨more, node, same, below, _⟩ := (mem_preorder (named.distinct.descend found)).mp inside
  have here : descend tree (path ++ more) = some node := by
    rw [descend_append, found]
    exact below
  rw [same]
  exact ⟨named.plain _ node here, named.short _ node here⟩

theorem mem_tableEntries {path : List CString} {top : PropTree}
    (found : descend tree path = some top) {key : CString} {value : GValue} :
    (key, value) ∈ (preorder path top).filterMap tableEntry ↔
      ∃ node, path <+: nameParts key ∧ propNameIsValid key = true ∧
        descend tree (nameParts key) = some node ∧ node.data.effective = value ∧
        value.isSet = true := by
  rw [List.mem_filterMap]
  constructor
  · intro entered
    obtain ⟨visited, inside, entry⟩ := entered
    obtain ⟨full, held, set⟩ := tableEntry_some.mp entry
    obtain ⟨more, node, same, below, data⟩ := (mem_preorder (named.distinct.descend found)).mp inside
    have here : descend tree visited.1 = some node := by
      rw [same, descend_append, found]
      exact below
    have below_root : visited.1 ≠ [] := by
      intro top
      rw [top, descend_nil, Option.some.injEq] at here
      rw [← data, ← here, named.blank] at held
      rw [← held] at set
      cases set
    have valid := named.valid visited.1 node below_root here
    have parts : nameParts key = visited.1 := by
      rw [← full]
      exact nameParts_partsName (named.plain _ node here) valid
    refine ⟨node, ?_, by rw [← full]; exact valid, by rw [parts]; exact here, ?_, set⟩
    · rw [parts, same]
      exact List.prefix_append path more
    · rw [data]
      exact held
  · intro reached
    obtain ⟨node, above, valid, here, held, set⟩ := reached
    obtain ⟨more, same⟩ := above
    refine ⟨(nameParts key, node.data), ?_, tableEntry_some.mpr
      ⟨partsName_nameParts valid, held, set⟩⟩
    apply (mem_preorder (named.distinct.descend found)).mpr
    refine ⟨more, node, same.symm, ?_, rfl⟩
    rw [← same, descend_append, found] at here
    exact here

/-- The table of a walk gives each key the value the getter finds there. -/
theorem hashTable_walk {path : List CString} {top : PropTree}
    (found : descend tree path = some top) (key : CString) (value : GValue) :
    hashTable ((preorder path top).filterMap tableEntry) key = some value ↔
      ∃ node, path <+: nameParts key ∧ propNameIsValid key = true ∧
        descend tree (nameParts key) = some node ∧ node.data.effective = value ∧
        value.isSet = true := by
  rw [← named.mem_tableEntries found]
  apply Assignments.last_eq_some
  intro key first second one two
  obtain ⟨node, _, _, here, held, _⟩ := (named.mem_tableEntries found).mp one
  obtain ⟨node', _, _, here', held', _⟩ := (named.mem_tableEntries found).mp two
  rw [here, Option.some.injEq] at here'
  rw [← held, ← held', here']

end WellNamed

theorem covers_iff_parts {base property : CString} (valid : propNameIsValid base = true)
    (valid' : propNameIsValid property = true) :
    Covers base property ↔ nameParts base <+: nameParts property := by
  rw [← below_iff_parts valid valid']
  obtain ⟨c, rest, shape, _⟩ := propNameIsValid_iff.mp valid
  constructor
  · intro covered
    rcases covered with rfl | rfl | below
    · cases shape
    · cases shape
    · exact below
  · intro below
    exact Or.inr (Or.inr below)

theorem getAll_below {channel : EsconfChannel} (named : WellNamed channel.properties)
    {base : CString} (valid : propNameIsValid base = true) {top : PropTree}
    (found : descend channel.properties (nameParts base) = some top) :
    (proptreeNodeToHashTable (uptoLastSlash (gStrlcpy base maxPropPath)) top).1 =
      (preorder (nameParts base) top).filterMap tableEntry := by
  have short := named.short (nameParts base) top found
  rw [partsName_nameParts valid] at short
  have whole : gStrlcpy base maxPropPath = base := List.take_of_length_le (by omega)
  rcases List.eq_nil_or_concat (nameParts base) with empty | ⟨front, last, parts⟩
  · exact absurd empty (nameParts_ne_nil valid)
  · rw [List.concat_eq_append] at parts
    have fits := named.fitsBuffer found
    have plain : '/' ∉ last := named.plain _ top found last (by rw [parts]; simp)
    have cut : uptoLastSlash base = partsName front := by
      rw [← partsName_nameParts valid, parts, uptoLastSlash_snoc front last plain]
    rw [parts] at found fits ⊢
    have key := descend_key found
    rw [← key] at fits ⊢
    rw [whole, cut, proptreeNodeToHashTable_walk top front fits]

/-- A recursion that fails exactly for a name without a node, and otherwise fills
the table with what a getter gives for the names the base covers, and no more. -/
theorem getAll_enumerates (host : Host) {xbpx : EsconfBackendPerchannelXml}
    {channelName : CString} {channel : EsconfChannel}
    (loaded : xbpx.channels.lookup channelName = some channel)
    (named : WellNamed channel.properties) (base : CString)
    (asked : base = [] ∨ base = "/".toList ∨ propNameIsValid base = true) :
    ∃ reply, perchannelXmlGetAll host xbpx channelName base = some (reply, xbpx) ∧
      ((∃ error, reply = .error error) ↔
        propNameIsValid base = true ∧ proptreeLookupNode channel.properties base = none) ∧
      ∀ entries, reply = .ok entries → ∀ property value,
        hashTable entries property = some value ↔ Covers base property ∧
          perchannelXmlGet host xbpx channelName property = some (.ok value, xbpx) := by
  rw [perchannelXmlGetAll, onChannel_loaded host loaded]
  -- A getter succeeds at the nodes with a value that is set.
  have getter : ∀ property value,
      perchannelXmlGet host xbpx channelName property = some (.ok value, xbpx) ↔
        ∃ node, propNameIsValid property = true ∧
          descend channel.properties (nameParts property) = some node ∧
          node.data.effective = value ∧ value.isSet = true := by
    intro property value
    rw [perchannelXmlGet_loaded host loaded]
    constructor
    · intro got
      obtain ⟨node, valid, here, held⟩ := (effectiveAt_set got.2).mp got.1
      exact ⟨node, valid, here, held, got.2⟩
    · intro reached
      obtain ⟨node, valid, here, held, set⟩ := reached
      exact ⟨(effectiveAt_set set).mpr ⟨node, valid, here, held⟩, set⟩
  by_cases longer : 2 ≤ base.length
  · have valid : propNameIsValid base = true := by
      rcases asked with rfl | rfl | valid
      · exact absurd longer (by decide)
      · exact absurd longer (by decide)
      · exact valid
    rw [if_pos longer]
    cases looked : proptreeLookupNode channel.properties base with
    | none =>
        refine ⟨_, rfl, ⟨fun _ => ⟨valid, rfl⟩, fun _ => ⟨_, rfl⟩⟩, ?_⟩
        intro entries filled
        cases filled
    | some top =>
        obtain ⟨_, found⟩ := proptreeLookupNode_some.mp looked
        refine ⟨_, rfl, ⟨fun failed => ?_, fun missing => ?_⟩, ?_⟩
        · obtain ⟨error, failed⟩ := failed
          cases failed
        · cases missing.2
        · intro entries filled property value
          cases filled
          rw [getAll_below named valid found, named.hashTable_walk found, getter]
          constructor
          · intro reached
            obtain ⟨node, below, valid', here, held⟩ := reached
            exact ⟨(covers_iff_parts valid valid').mpr below, node, valid', here, held⟩
          · intro reached
            obtain ⟨covered, node, valid', here, held⟩ := reached
            exact ⟨node, (covers_iff_parts valid valid').mp covered, valid', here, held⟩
  -- Otherwise the walk starts at the root, which enters nothing itself.
  · have whole : base = [] ∨ base = "/".toList := by
      rcases asked with empty | slash | valid
      · exact Or.inl empty
      · exact Or.inr slash
      · obtain ⟨c, rest, shape, _⟩ := propNameIsValid_iff.mp valid
        rw [shape, List.length_cons, List.length_cons] at longer
        omega
    have invalid : propNameIsValid base ≠ true := by
      rcases whole with rfl | rfl <;> decide
    have covered : ∀ property, Covers base property := by
      intro property
      rcases whole with empty | slash
      · exact Or.inl empty
      · exact Or.inr (Or.inl slash)
    rw [if_neg longer]
    refine ⟨_, rfl, ⟨fun failed => ?_, fun missing => absurd missing.1 invalid⟩, ?_⟩
    · obtain ⟨error, failed⟩ := failed
      cases failed
    · intro entries filled property value
      cases filled
      rw [proptreeNodeToHashTable_root named.root named.blank (named.fitsBuffer (descend_nil _)),
        named.hashTable_walk (descend_nil _), getter]
      constructor
      · intro reached
        obtain ⟨node, _, rest⟩ := reached
        exact ⟨covered property, node, rest⟩
      · intro reached
        obtain ⟨_, node, rest⟩ := reached
        exact ⟨node, List.nil_prefix, rest⟩

def branches : PropTree :=
  .node "/".toList .blank
    [.node "a".toList ⟨.int 1, .invalid, false⟩ [.node "x".toList ⟨.int 2, .int 3, false⟩ []],
      .node "b".toList .blank [.node "y".toList ⟨.invalid, .int 4, true⟩ []]]

theorem wellNamed_branches : WellNamed branches := by
  have leaf : ∀ name (prop : EsconfProperty), Distinct (.node name prop [] : PropTree) :=
    fun name prop => .node List.nodup_nil nofun
  have branch : ∀ name prop child (only : EsconfProperty),
      Distinct (.node name prop [.node child only []] : PropTree) := by
    intro name prop child only
    refine .node (List.nodup_singleton _) ?_
    intro below member
    rw [List.mem_singleton.mp member]
    exact leaf child only
  apply wellNamed_of_names rfl rfl
  · refine .node (by decide) ?_
    intro child member
    rcases List.mem_pair.mp member with rfl | rfl
    · exact branch _ _ _ _
    · exact branch _ _ _ _
  · decide

theorem getAll_enumerates_branches :
    ∃ entries, perchannelXmlGetAll (.bare []) (.idle (.singleton "c".toList ⟨branches, false, false⟩))
        "c".toList "/a".toList =
          some (.ok entries, .idle (.singleton "c".toList ⟨branches, false, false⟩)) ∧
      hashTable entries "/a/x".toList = some (.int 2) := by
  have loaded : (EsconfBackendPerchannelXml.idle (.singleton "c".toList
      ⟨branches, false, false⟩)).channels.lookup "c".toList = some ⟨branches, false, false⟩ := rfl
  obtain ⟨reply, got, _, table⟩ := getAll_enumerates (.bare []) loaded wellNamed_branches
    "/a".toList (Or.inr (Or.inr (by decide)))
  have entries := got
  cases entries
  refine ⟨_, rfl, (table _ rfl "/a/x".toList (.int 2)).mpr ⟨?_, rfl⟩⟩
  exact Or.inr (Or.inr (Or.inr ⟨"x".toList, rfl⟩))

end Esconf
