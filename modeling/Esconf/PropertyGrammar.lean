import Esconf.WritableTrees

/-! The grammar of property names: what `esconf_property_is_valid` accepts, and what
`esconf_proptree_lookup_node` makes of it. -/

namespace Esconf

open NamedTree

def IsComponentChar (c : Char) : Prop :=
  'A' ≤ c ∧ c ≤ 'Z' ∨ 'a' ≤ c ∧ c ≤ 'z' ∨ '0' ≤ c ∧ c ≤ '9' ∨ c ∈ "_-\x7b\x7d<>|,[].:".toList

def IsComponent (part : CString) : Prop := part ≠ [] ∧ ∀ c ∈ part, IsComponentChar c

/-- One or more components, each behind a slash. -/
def Derives (parts : List CString) (name : CString) : Prop :=
  parts ≠ [] ∧ (∀ part ∈ parts, IsComponent part) ∧ name = parts.flatMap ('/' :: ·)

/-- The rounds of the outer loop of `esconf_proptree_lookup_node`: the node whose children are
searched and the component they are searched for. -/
def lookupRounds (parent : PropTree) : List CString → List (PropTree × CString)
  | [] => []
  | part :: rest =>
    (parent, part) ::
      match child? part parent.children with
      | none => []
      | some child => if rest.isEmpty then [] else lookupRounds child rest

/-- Each round is one level deeper than the one before it and looks for the next component, and
the last component is reached exactly if there is a node. -/
structure DescendsAlong (proptree : PropTree) (name : CString) (parts : List CString) : Prop where
  level : ∀ round parent part, (lookupRounds proptree (nameParts name))[round]? = some (parent, part) →
    parts[round]? = some part ∧ part ≠ [] ∧ descend proptree (parts.take round) = some parent
  node : proptreeLookupNode proptree name = descend proptree parts
  whole : (descend proptree parts).isSome = true →
    (lookupRounds proptree (nameParts name)).length = parts.length

theorem isPropertyChar_iff {c : Char} :
    isPropertyChar c = true ↔ IsComponentChar c ∨ c = '/' := by
  simp only [isPropertyChar, isNameChar, IsComponentChar, Bool.or_eq_true, Bool.and_eq_true,
    decide_eq_true_eq]
  have marks : c ∈ "_-\x7b\x7d<>|,[].:".toList ↔
      c ∈ ['_', '-', '{', '}', '|', ',', '[', ']', '.', ':'] ∨ c ∈ ['<', '>'] := by
    have listed : "_-\x7b\x7d<>|,[].:".toList =
        ['_', '-', '{', '}', '<', '>', '|', ',', '[', ']', '.', ':'] := rfl
    rw [listed]
    simp only [List.mem_cons, List.not_mem_nil, or_false]
    grind
  have slashes : c ∈ ['/', '<', '>'] ↔ c ∈ ['<', '>'] ∨ c = '/' := by
    simp only [List.mem_cons, List.not_mem_nil, or_false]
    grind
  rw [marks, slashes]
  grind

theorem isComponent_letter {c : Char} (first : 'a' ≤ c) (last : c ≤ 'z') : IsComponent [c] := by
  refine ⟨List.cons_ne_nil _ _, ?_⟩
  intro other member
  rw [List.mem_singleton.mp member]
  exact Or.inr (Or.inl ⟨first, last⟩)

theorem slash_no_componentChar : ¬IsComponentChar '/' := by
  unfold IsComponentChar
  decide

theorem IsComponent.plain {part : CString} (component : IsComponent part) : '/' ∉ part :=
  fun slash => slash_no_componentChar (component.2 '/' slash)

theorem propertyTailError_component {part : CString} (component : IsComponent part) :
    ∀ previous, ∃ last, last ≠ '/' ∧
      ∀ rest, propertyTailError previous (part ++ rest) = propertyTailError last rest := by
  obtain ⟨full, allowed⟩ := component
  induction part with
  | nil => exact absurd rfl full
  | cons c more ih =>
      intro previous
      have this : IsComponentChar c := allowed c List.mem_cons_self
      have apart : c ≠ '/' := by
        rintro rfl
        exact slash_no_componentChar this
      have passes : ∀ rest, propertyTailError previous (c :: rest) = propertyTailError c rest := by
        intro rest
        rw [propertyTailError, isPropertyChar_iff.mpr (Or.inl this), Bool.not_true,
          if_neg Bool.false_ne_true, if_neg (fun both => apart both.1)]
      by_cases none : more = []
      · subst none
        exact ⟨c, apart, passes⟩
      · obtain ⟨last, ends, later⟩ :=
          ih none (fun d member => allowed d (List.mem_cons_of_mem _ member)) c
        exact ⟨last, ends, fun rest => (passes (more ++ rest)).trans (later rest)⟩

/-- After a component the others are accepted, each with its slash. -/
theorem propertyTailError_join {parts : List CString} (components : ∀ part ∈ parts, IsComponent part)
    {previous : Char} (inside : previous ≠ '/') :
    propertyTailError previous (parts.flatMap ('/' :: ·)) = none := by
  induction parts generalizing previous with
  | nil =>
      rw [List.flatMap_nil, propertyTailError, if_neg inside]
  | cons part rest ih =>
      obtain ⟨last, ends, passed⟩ :=
        propertyTailError_component (components part List.mem_cons_self) '/'
      have allowed : isPropertyChar '/' = true := rfl
      rw [List.flatMap_cons, List.cons_append, propertyTailError, allowed, Bool.not_true,
        if_neg Bool.false_ne_true, if_neg (fun both => inside both.2), passed]
      exact ih (fun other member => components other (List.mem_cons_of_mem _ member)) ends

theorem accepted_of_derives {parts : List CString} {name : CString} (derives : Derives parts name) :
    esconfPropertyIsValid name = none := by
  obtain ⟨full, components, rfl⟩ := derives
  cases parts with
  | nil => exact absurd rfl full
  | cons part rest =>
      have first := components part List.mem_cons_self
      have some : part ++ rest.flatMap ('/' :: ·) ≠ [] :=
        fun empty => first.1 (List.append_eq_nil_iff.mp empty).1
      obtain ⟨last, ends, passed⟩ := propertyTailError_component first '/'
      rw [List.flatMap_cons, List.cons_append, esconfPropertyIsValid, if_neg (fun other => other rfl),
        if_neg some, passed]
      exact propertyTailError_join
        (fun other member => components other (List.mem_cons_of_mem _ member)) ends

theorem derives_of_accepted {name : CString} (accepted : esconfPropertyIsValid name = none) :
    Derives (nameParts name) name := by
  have valid := propNameIsValid_of_property accepted
  have written := partsName_nameParts valid
  refine ⟨nameParts_ne_nil valid, ?_, written.symm⟩
  intro part member
  refine ⟨named_of_property accepted part member, ?_⟩
  intro c inside
  have within : c ∈ name := by
    rw [← written]
    exact List.mem_flatMap.mpr ⟨part, member, List.mem_cons_of_mem _ inside⟩
  apply (isPropertyChar_iff.mp (accepted_chars accepted c within)).resolve_right
  rintro rfl
  exact nameParts_plain name part member inside

theorem nameParts_of_derives {parts : List CString} {name : CString}
    (derives : Derives parts name) : nameParts name = parts := by
  have accepted := accepted_of_derives derives
  obtain ⟨_, components, rfl⟩ := derives
  exact nameParts_partsName (fun part member => (components part member).plain)
    (propNameIsValid_of_property accepted)

theorem lookupRounds_level {parent searched : PropTree} {parts : List CString} {part : CString} :
    ∀ {round : Nat}, (lookupRounds parent parts)[round]? = some (searched, part) →
      parts[round]? = some part ∧ descend parent (parts.take round) = some searched := by
  induction parts generalizing parent with
  | nil =>
      intro round taken
      cases taken
  | cons first rest ih =>
      intro round taken
      cases round with
      | zero =>
          cases taken
          exact ⟨rfl, rfl⟩
      | succ round =>
          rw [lookupRounds, List.getElem?_cons_succ] at taken
          cases found : child? first parent.children with
          | none =>
              rw [found] at taken
              cases taken
          | some child =>
              rw [found] at taken
              dsimp only at taken
              split at taken
              · cases taken
              · obtain ⟨component, above⟩ := ih taken
                refine ⟨component, ?_⟩
                rw [List.take_succ_cons, descend_cons, found]
                exact above

theorem lookupRounds_length {parent : PropTree} {parts : List CString}
    (found : (descend parent parts).isSome = true) :
    (lookupRounds parent parts).length = parts.length := by
  induction parts generalizing parent with
  | nil => rfl
  | cons first rest ih =>
      rw [descend_cons] at found
      rw [lookupRounds, List.length_cons, List.length_cons]
      cases there : child? first parent.children with
      | none =>
          rw [there] at found
          cases found
      | some child =>
          rw [there] at found
          dsimp only
          by_cases last : rest = []
          · rw [last]
            rfl
          · rw [if_neg (by simpa using last), ih found]

/-- A name is accepted exactly if it is made of components, and looking it up goes down one
level for each of them. -/
theorem accepted_iff_derives (name : CString) :
    (esconfPropertyIsValid name = none ↔ ∃ parts, Derives parts name) ∧
      ∀ parts, Derives parts name → gStrsplit name.tail '/' = parts ∧
        ∀ proptree, DescendsAlong proptree name parts := by
  constructor
  · constructor
    · exact fun accepted => ⟨_, derives_of_accepted accepted⟩
    · rintro ⟨parts, derives⟩
      exact accepted_of_derives derives
  · intro parts derives
    have split := nameParts_of_derives derives
    refine ⟨split, fun proptree => ⟨?_, ?_, ?_⟩⟩
    · intro round parent part taken
      rw [split] at taken
      obtain ⟨component, above⟩ := lookupRounds_level taken
      exact ⟨component, (derives.2.1 part (List.mem_of_getElem? component)).1, above⟩
    · have valid := propNameIsValid_of_property (accepted_of_derives derives)
      rw [proptreeLookupNode, if_pos valid, split]
    · intro found
      rw [split]
      exact lookupRounds_length found

theorem two_components_derived : esconfPropertyIsValid "/a/b".toList = none ∧
    gStrsplit "a/b".toList '/' = ["a".toList, "b".toList] := by
  have letters : ∀ part ∈ ["a".toList, "b".toList], IsComponent part := by
    rw [List.forall_mem_cons, List.forall_mem_singleton]
    exact ⟨isComponent_letter (by decide) (by decide), isComponent_letter (by decide) (by decide)⟩
  have derives : Derives ["a".toList, "b".toList] "/a/b".toList :=
    ⟨List.cons_ne_nil _ _, letters, rfl⟩
  obtain ⟨accepted, splits⟩ := accepted_iff_derives "/a/b".toList
  exact ⟨accepted.mpr ⟨_, derives⟩, (splits _ derives).1⟩

end Esconf
