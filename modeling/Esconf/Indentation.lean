import Esconf.AddedNames
import Esconf.Library.TreeHeights
import Esconf.PropertyGrammar

/-! The buffer for the indentation in `esconf_backend_perchannel_xml_write_node`, and how deep
the trees are that sets make. -/

namespace Esconf

open NamedTree

/-- The depths and nodes that `esconf_backend_perchannel_xml_write_node` is called with when a
channel is flushed, as long as no call fails. -/
inductive Invoked (properties : PropTree) : Nat → PropTree → Prop where
  | top {child : PropTree} (member : child ∈ properties.children) : Invoked properties 1 child
  | child {depth : Nat} {parent child : PropTree} (above : Invoked properties depth parent)
      (member : child ∈ parent.children) : Invoked properties (clampDepth depth + 1) child

/-- The index of the terminating zero is inside of `spaces`. -/
def ZeroFits (depth : Nat) : Prop := clampDepth depth * 2 < maxPropPath

/-- The tree that `esconf_backend_perchannel_xml_set` leaves. -/
def setTree (properties : PropTree) (property : CString) (value : GValue) : PropTree :=
  match proptreeLookup properties property with
  | some curProp =>
    if curProp.locked then properties
    else if GValue.isEqual curProp.effective value then properties
    else update (·.withValue value) (nameParts property) properties
  | none => (proptreeAddProperty properties property value false).getD properties

def setTrees (sets : List (CString × GValue)) : PropTree :=
  sets.foldl (fun properties set => setTree properties set.1 set.2) .root

/-- The slashes of a name that its copy in `tmp` has. -/
def copiedSlashes (name : CString) : Nat := (gStrlcpy name maxPropPath).count '/'

theorem setIn_tree {xbpx : EsconfBackendPerchannelXml} {key channelName property : CString}
    {channel : EsconfChannel} {value : GValue} (there : xbpx.channels.lookup key = some channel) :
    ∃ dirty, (setIn xbpx key channel channelName property value).2.channels.lookup key =
      some { channel with properties := setTree channel.properties property value, dirty } := by
  unfold setIn setTree
  cases looked : proptreeLookup channel.properties property with
  | none => exact ⟨true, AList.lookup_insert _⟩
  | some curProp =>
      dsimp only
      split
      · exact ⟨channel.dirty, there⟩
      · split
        · exact ⟨channel.dirty, there⟩
        · exact ⟨true, AList.lookup_insert _⟩

theorem flushable_of_invoked {properties : PropTree} (node : PropTree) : ∀ depth,
    (∀ depth node, Invoked properties depth node → ZeroFits depth ∧ formattable node.data.value = true) →
    Invoked properties depth node → flushable depth node = true := by
  induction node using byChildren with
  | step name prop children ih =>
      intro depth good invoked
      obtain ⟨fits, known⟩ := good depth _ invoked
      rw [flushable, Bool.and_eq_true, Bool.and_eq_true, decide_eq_true_eq]
      refine ⟨⟨fits, known⟩, flushableAll_iff.mpr ?_⟩
      exact fun child member => ih child member _ good (.child invoked member)

/-- A channel can be written exactly if every invocation stays inside the buffer and finds a
value it does not refuse. -/
theorem flushableAll_iff_invoked {properties : PropTree} :
    flushableAll 1 properties.children = true ↔ ∀ depth node, Invoked properties depth node →
      ZeroFits depth ∧ formattable node.data.value = true := by
  constructor
  · intro written
    have each : ∀ depth node, Invoked properties depth node → flushable depth node = true := by
      intro depth node invoked
      induction invoked with
      | top member => exact flushableAll_iff.mp written _ member
      | @child depth parent node above member ih =>
          obtain ⟨name, prop, children⟩ := parent
          rw [flushable, Bool.and_eq_true] at ih
          exact flushableAll_iff.mp ih.2 node member
    intro depth node invoked
    have done := each depth node invoked
    obtain ⟨name, prop, children⟩ := node
    rw [flushable, Bool.and_eq_true, Bool.and_eq_true, decide_eq_true_eq] at done
    exact done.1
  · intro good
    exact flushableAll_iff.mpr fun child member =>
      flushable_of_invoked child 1 good (.top member)

theorem clampDepth_of_le {depth : Nat} (low : depth ≤ 2048) : clampDepth depth = depth := by
  unfold clampDepth
  rw [if_neg]
  have limit : maxPropPath = 4096 := rfl
  omega

theorem Invoked.height_le {properties : PropTree} (low : height properties ≤ 2048) {depth : Nat}
    {node : PropTree} (invoked : Invoked properties depth node) :
    depth + height node ≤ height properties := by
  induction invoked with
  | top member =>
      have lower := height_lt_of_mem member
      rw [← height_eq] at lower
      omega
  | child above member ih =>
      have lower := height_lt_of_mem member
      rw [← height_eq] at lower
      rw [clampDepth_of_le (by omega)]
      omega

theorem exists_invoked {properties : PropTree} (low : height properties ≤ 2048) :
    ∀ depth, depth < height properties →
      ∃ node, Invoked properties (depth + 1) node ∧ depth + 1 + height node = height properties := by
  have child : ∀ node : PropTree, 0 < height node →
      ∃ child ∈ node.children, height node = height child + 1 := by
    intro node reaches
    rw [height_eq] at reaches ⊢
    apply exists_mem_height
    intro empty
    rw [empty] at reaches
    exact Nat.lt_irrefl 0 reaches
  intro depth
  induction depth with
  | zero =>
      intro reaches
      obtain ⟨first, member, higher⟩ := child properties reaches
      exact ⟨first, .top member, by omega⟩
  | succ depth ih =>
      intro reaches
      obtain ⟨parent, above, sum⟩ := ih (by omega)
      obtain ⟨next, member, higher⟩ := child parent (by omega)
      have invoked := Invoked.child above member
      rw [clampDepth_of_le (by omega)] at invoked
      exact ⟨next, invoked, by omega⟩

/-- At the depth 2048, which is not clamped, the zero is written behind the buffer. -/
theorem invoked_fit_iff {properties : PropTree} (low : height properties ≤ 2048) :
    (∀ depth node, Invoked properties depth node → ZeroFits depth) ↔ height properties < 2048 := by
  have limit : maxPropPath = 4096 := rfl
  constructor
  · intro fit
    by_contra high
    obtain ⟨node, invoked, _⟩ := exists_invoked low 2047 (by omega)
    have fits : clampDepth 2048 * 2 < maxPropPath := fit _ node invoked
    rw [clampDepth_of_le (Nat.le_refl _)] at fits
    omega
  · intro less depth node invoked
    have bound := invoked.height_le low
    unfold ZeroFits
    rw [clampDepth_of_le (by omega)]
    omega

/-- Without two slashes in a row at most every other character is one. -/
theorem count_slashes_le {word : CString} (clean : hasDoubleSlash word = false) :
    2 * word.count '/' ≤ word.length + 1 ∧
      (word.head? ≠ some '/' → 2 * word.count '/' ≤ word.length) := by
  induction word with
  | nil => exact ⟨Nat.zero_le _, fun _ => Nat.le_refl _⟩
  | cons c rest ih =>
      rw [hasDoubleSlash, Bool.or_eq_false_iff] at clean
      obtain ⟨most, fewer⟩ := ih clean.2
      by_cases slash : c = '/'
      · subst slash
        have next : rest.head? ≠ some '/' := by simpa using clean.1
        have later := fewer next
        rw [List.count_cons_self, List.length_cons]
        exact ⟨by omega, fun other => absurd rfl other⟩
      · rw [List.count_cons_of_ne slash, List.length_cons]
        exact ⟨by omega, fun _ => by omega⟩

theorem copiedSlashes_le {name : CString} (valid : propNameIsValid name = true) :
    copiedSlashes name ≤ 2048 := by
  obtain ⟨_, _, _, clean⟩ := propNameIsValid_iff.mp valid
  have most := (count_slashes_le (hasDoubleSlash_take clean (maxPropPath - 1))).1
  have size := List.length_take_le (maxPropPath - 1) name
  have limit : maxPropPath = 4096 := rfl
  unfold copiedSlashes gStrlcpy
  omega

/-- The node that is added is below the one whose name is left in `tmp`. -/
theorem copiedSlashes_eq {name : CString} (valid : propNameIsValid name = true)
    {above : List CString} (plain : SeparatedWords.Plain '/' above)
    (same : uptoLastSlash (gStrlcpy name maxPropPath) = partsName above) :
    copiedSlashes name = above.length + 1 ∧ (partsName above).length + 1 < maxPropPath := by
  obtain ⟨c, rest, shape, _⟩ := propNameIsValid_iff.mp valid
  have slash : '/' ∈ gStrlcpy name maxPropPath := by
    rw [shape]
    exact List.mem_cons_self
  constructor
  · rw [copiedSlashes, SeparatedWords.count_beforeLast slash]
    change (uptoLastSlash _).count '/' + 1 = _
    rw [same, partsName, SeparatedWords.count_join plain]
  · obtain ⟨front, piece, split, clean⟩ := SeparatedWords.exists_last slash
    have cut : front = partsName above := by
      rw [← same, split]
      exact (SeparatedWords.beforeLast_snoc front piece clean).symm
    have size : (gStrlcpy name maxPropPath).length ≤ maxPropPath - 1 := List.length_take_le _ _
    rw [split, List.length_append, List.length_cons, cut] at size
    have limit : maxPropPath = 4096 := rfl
    omega

theorem copiedSlashes_partsName {above : List CString} (plain : SeparatedWords.Plain '/' above)
    (short : (partsName above).length + 1 < maxPropPath) :
    copiedSlashes (partsName above) = above.length := by
  have whole : gStrlcpy (partsName above) maxPropPath = partsName above :=
    List.take_of_length_le (by omega)
  rw [copiedSlashes, whole]
  exact SeparatedWords.count_join plain

theorem addPropertyWithin_isSome {fuel : Nat} {proptree : PropTree} {name : CString}
    {prop : EsconfProperty} (valid : propNameIsValid name = true) :
    ∃ grown, addPropertyWithin (fuel + 1) proptree name prop = some grown := by
  rw [addPropertyWithin, if_pos valid]
  dsimp only
  split
  · exact ⟨_, rfl⟩
  · split <;> exact ⟨_, rfl⟩

theorem addPropertyWithin_height {fuel : Nat} {proptree grown : PropTree} {name : CString}
    {prop : EsconfProperty} (enough : (nameParts name).length ≤ fuel)
    (done : addPropertyWithin fuel proptree name prop = some grown) :
    height grown = max (height proptree) (copiedSlashes name) := by
  induction fuel generalizing name prop grown with
  | zero => cases done
  | succ fuel ih =>
      rw [addPropertyWithin] at done
      split at done
      · next valid =>
          have full := nameParts_ne_nil valid
          obtain ⟨front, last, split⟩ : ∃ front last, nameParts name = front ++ [last] :=
            ⟨_, _, (List.dropLast_append_getLast full).symm⟩
          obtain ⟨above, below, depth, same, _⟩ := cut_parts valid split
          have plain : SeparatedWords.Plain '/' above :=
            fun part member => nameParts_plain name part (below.subset member)
          obtain ⟨slashes, short⟩ := copiedSlashes_eq valid plain same
          -- The new leaf is one level below the node above.
          have leaf : ∀ {tree parent : PropTree}, descend tree above = some parent →
              height (graft above (.node (pastLastSlash name) prop []) tree) =
                max (height tree) (copiedSlashes name) := by
            intro tree parent found
            rw [height_graft _ found, height, heights, slashes]
          simp only [same] at done
          split at done
          · next top =>
              cases done
              have none : above = [] := by
                cases above with
                | nil => rfl
                | cons first rest => cases top
              subst none
              exact leaf rfl
          · next nonempty =>
              have inside : above ≠ [] := fun none => nonempty (by rw [none]; rfl)
              obtain ⟨validAbove, names⟩ := names_above valid below inside
              rw [names] at done
              split at done
              · next parent found =>
                  cases done
                  have there := (proptreeLookupNode_some.mp found).2
                  rw [names] at there
                  exact leaf there
              · next missing =>
                  cases done
                  rw [proptreeLookupNode, if_pos validAbove, names] at missing
                  have fewer : above.length ≤ fuel := by
                    rw [split, List.length_append, List.length_singleton] at enough
                    omega
                  obtain ⟨middle, inner, ⟨key, here⟩, _⟩ := addPropertyWithin_spec .blank fewer plain
                    validAbove (partsName_dropLast inside short) missing
                  have higher := ih (by rw [names]; exact fewer) inner
                  rw [copiedSlashes_partsName plain short] at higher
                  rw [inner, Option.getD_some, leaf here, higher, slashes]
                  omega
      · cases done

theorem setTree_height {properties : PropTree} {property : CString} {value : GValue}
    (valid : propNameIsValid property = true) :
    height (setTree properties property value) =
      max (height properties) (copiedSlashes property) := by
  have written := partsName_nameParts valid
  unfold setTree
  cases looked : proptreeLookup properties property with
  | none =>
      obtain ⟨c, rest, shape, _⟩ := propNameIsValid_iff.mp valid
      have enough : (nameParts property).length ≤ property.length := by
        have bound := partsName_length (nameParts property)
        rwa [written] at bound
      obtain ⟨grown, done⟩ : ∃ grown, proptreeAddProperty properties property value false =
          some grown := by
        rw [proptreeAddProperty, shape]
        rw [shape] at valid
        exact addPropertyWithin_isSome valid
      dsimp only
      rw [done, Option.getD_some]
      exact addPropertyWithin_height enough done
  | some curProp =>
      obtain ⟨_, found, there, _⟩ := proptreeLookup_some.mp looked
      have deep := length_add_height_le there
      have slashes : copiedSlashes property ≤ (nameParts property).length := by
        have all := SeparatedWords.count_join (nameParts_plain property)
        change (partsName (nameParts property)).count '/' = _ at all
        rw [written] at all
        rw [← all]
        exact (List.take_sublist _ _).count_le _
      have same : ∀ tree : PropTree, height tree = height properties →
          height tree = max (height properties) (copiedSlashes property) := by
        intro tree kept
        omega
      dsimp only
      split
      · exact same _ rfl
      · split
        · exact same _ rfl
        · exact same _ (height_update _ _ _)

theorem height_foldl {sets : List (CString × GValue)}
    (accepted : ∀ set ∈ sets, esconfPropertyIsValid set.1 = none) {properties : PropTree}
    (low : height properties ≤ 2048) :
    height (sets.foldl (fun properties set => setTree properties set.1 set.2) properties) ≤ 2048 ∧
      (height (sets.foldl (fun properties set => setTree properties set.1 set.2) properties) < 2048 ↔
        height properties < 2048 ∧ ∀ set ∈ sets, copiedSlashes set.1 < 2048) := by
  induction sets generalizing properties with
  | nil => simp [low]
  | cons set rest ih =>
      have valid := propNameIsValid_of_property (accepted set List.mem_cons_self)
      have risen := @setTree_height properties set.1 set.2 valid
      have bound := copiedSlashes_le valid
      have start : height (setTree properties set.1 set.2) ≤ 2048 := by omega
      obtain ⟨most, iff⟩ :=
        ih (fun other member => accepted other (List.mem_cons_of_mem _ member)) start
      rw [List.foldl_cons, List.forall_mem_cons]
      refine ⟨most, iff.trans ?_⟩
      rw [risen, ← and_assoc]
      exact and_congr_left fun _ => by omega

abbrev letters (n : Nat) : List CString := List.replicate n ['a']

theorem partsName_letters_length (n : Nat) : (partsName (letters n)).length = 2 * n := by
  induction n with
  | zero => rfl
  | succ n ih =>
      have shape : partsName (letters (n + 1)) = '/' :: 'a' :: partsName (letters n) := rfl
      rw [shape, List.length_cons, List.length_cons, ih]
      omega

theorem letters_plain (n : Nat) : SeparatedWords.Plain '/' (letters n) := by
  intro part member
  rw [List.eq_of_mem_replicate member]
  decide

theorem letters_accepted (n : Nat) : esconfPropertyIsValid (partsName (letters (n + 1))) = none := by
  have letter : IsComponent ['a'] := isComponent_letter (by decide) (by decide)
  have derives : Derives (letters (n + 1)) (partsName (letters (n + 1))) := by
    refine ⟨List.replicate_succ_ne_nil, ?_, rfl⟩
    intro part member
    rw [List.eq_of_mem_replicate member]
    exact letter
  exact accepted_of_derives derives

/-- Every invocation writes its zero into the buffer exactly if no name has 2048 slashes among
the characters that fit into the buffer for names. -/
theorem indentation_fits_iff {sets : List (CString × GValue)}
    (accepted : ∀ set ∈ sets, esconfPropertyIsValid set.1 = none) :
    (∀ depth node, Invoked (setTrees sets) depth node → ZeroFits depth) ↔
      ∀ set ∈ sets, copiedSlashes set.1 < maxPropPath / 2 := by
  have flat : height PropTree.root = 0 := rfl
  obtain ⟨low, iff⟩ := @height_foldl sets accepted .root (flat ▸ Nat.zero_le _)
  rw [setTrees, invoked_fit_iff low, iff, flat]
  exact and_iff_right (Nat.zero_lt_succ _)

theorem boundary_name_fits : copiedSlashes (partsName (letters 2047)) = 2047 ∧
    ∀ depth node, Invoked (setTrees [(partsName (letters 2047), .int 1)]) depth node →
      ZeroFits depth := by
  have slashes : copiedSlashes (partsName (letters 2047)) = 2047 := by
    rw [copiedSlashes_partsName (letters_plain 2047) (by rw [partsName_letters_length]; decide)]
    exact List.length_replicate
  refine ⟨slashes, (indentation_fits_iff fun set member => ?_).mpr fun set member => ?_⟩
  · rw [List.mem_singleton.mp member]
    exact letters_accepted 2046
  · rw [List.mem_singleton.mp member, slashes]
    decide

section Deep

def deepName : CString := partsName (List.replicate 2048 ['a'])

theorem deepName_accepted : esconfPropertyIsValid deepName = none := letters_accepted 2047

theorem deepName_slashes : copiedSlashes deepName = 2048 := by
  have valid := propNameIsValid_of_property deepName_accepted
  have shape : deepName = partsName (letters 2047 ++ [['a']]) := by
    rw [deepName, ← List.replicate_succ']
  have short : (partsName (letters 2047)).length + 1 < maxPropPath := by
    rw [partsName_letters_length]
    decide
  have cut := uptoLastSlash_cut ['a'] (by decide) short
  rw [← shape] at cut
  rw [(copiedSlashes_eq valid (letters_plain 2047) cut).1, List.length_replicate]

/-- A set of the name leaves a node below which no more of the buffer is left: its zero is
written behind the buffer, and the channel cannot be flushed. -/
theorem deep_name_overruns :
    esconfPropertyIsValid deepName = none ∧
      (∃ depth node, Invoked (setTrees [(deepName, .int 1)]) depth node ∧ ¬ZeroFits depth) ∧
      ∀ host channelName,
        (flushText host channelName (setTrees [(deepName, .int 1)])).isOk = false := by
  have accepted : ∀ set ∈ [(deepName, GValue.int 1)], esconfPropertyIsValid set.1 = none := by
    intro set member
    rw [List.mem_singleton.mp member]
    exact deepName_accepted
  have flat : height PropTree.root = 0 := rfl
  obtain ⟨low, iff⟩ := @height_foldl _ accepted .root (flat ▸ Nat.zero_le _)
  have high : ¬∀ depth node, Invoked (setTrees [(deepName, .int 1)]) depth node → ZeroFits depth := by
    rw [setTrees, invoked_fit_iff low, iff]
    intro fits
    have less := fits.2 _ (List.mem_singleton_self _)
    rw [deepName_slashes] at less
    exact Nat.lt_irrefl _ less
  refine ⟨deepName_accepted, by simpa only [not_forall, exists_prop] using high, ?_⟩
  intro host channelName
  rw [flushText_isOk, Bool.eq_false_iff]
  intro written
  exact high fun depth node invoked => (flushableAll_iff_invoked.mp written depth node invoked).1

end Deep

end Esconf
