import Mathlib.Algebra.Group.Nat.Defs
import Mathlib.Algebra.Group.Int.Defs
import Esconf.Library.SeparatedWords

/-! The C strings of the sources and the GLib string functions they are handed to. -/

namespace Esconf

/-- The gchars of a C string before its terminating zero. A gchar is a byte; it
is written as the character with that code. -/
abbrev CString := List Char

def maxPropPath : Nat := 4096

/-- What `g_strlcpy` leaves in a buffer of `size` gchars. -/
def gStrlcpy (source : CString) (size : Nat) : CString := source.take (size - 1)

def gStrlcat (buffer source : CString) (size : Nat) : CString := (buffer ++ source).take (size - 1)

/-- `g_strsplit (word, sep, -1)`: the empty string has no pieces. -/
def gStrsplit (word : CString) (sep : Char) : List CString :=
  if word = [] then [] else SeparatedWords.split sep word

def gAsciiTolower (c : Char) : Char :=
  if 'A' ≤ c ∧ c ≤ 'Z' then Char.ofNat (c.toNat + 32) else c

def gAsciiStrdown (word : CString) : CString := word.map gAsciiTolower

/-- `strstr (name, "//")`. -/
def hasDoubleSlash : CString → Bool
  | [] => false
  | c :: rest => (c == '/' && rest.head? == some '/') || hasDoubleSlash rest

/-- The macro `PROP_NAME_IS_VALID`. -/
def propNameIsValid (name : CString) : Bool :=
  name.head? == some '/' && !name.tail.isEmpty && !hasDoubleSlash name

theorem propNameIsValid_iff {name : CString} :
    propNameIsValid name = true ↔
      ∃ c rest, name = '/' :: c :: rest ∧ hasDoubleSlash name = false := by
  cases name with
  | nil => simp [propNameIsValid]
  | cons slash tail =>
      cases tail with
      | nil => simp [propNameIsValid]
      | cons c rest =>
          simp only [propNameIsValid, List.head?_cons, List.tail_cons, List.isEmpty_cons,
            Bool.not_false, Bool.and_true, Bool.and_eq_true, beq_iff_eq, Option.some.injEq,
            Bool.not_eq_true', List.cons.injEq]
          constructor
          · rintro ⟨same, clean⟩
            exact ⟨c, rest, ⟨same, rfl, rfl⟩, clean⟩
          · rintro ⟨_, _, ⟨same, _, _⟩, clean⟩
            exact ⟨same, clean⟩

/-- The components `esconf_proptree_lookup_node` walks through. -/
def nameParts (name : CString) : List CString := gStrsplit name.tail '/'

def partsName (parts : List CString) : CString := SeparatedWords.join '/' parts

theorem partsName_nameParts {name : CString} (valid : propNameIsValid name = true) :
    partsName (nameParts name) = name := by
  obtain ⟨c, rest, rfl, _⟩ := propNameIsValid_iff.mp valid
  have full : (c :: rest : CString) ≠ [] := by simp
  rw [partsName, nameParts, List.tail_cons, gStrsplit, if_neg full, SeparatedWords.join_split]

theorem nameParts_ne_nil {name : CString} (valid : propNameIsValid name = true) :
    nameParts name ≠ [] := by
  intro empty
  have written := partsName_nameParts valid
  rw [empty] at written
  subst written
  cases valid

theorem nameParts_plain (name : CString) : SeparatedWords.Plain '/' (nameParts name) := by
  unfold nameParts gStrsplit
  split
  · intro piece member; cases member
  · exact SeparatedWords.split_plain _ _

theorem nameParts_inj {first second : CString} (one : propNameIsValid first = true)
    (two : propNameIsValid second = true) (same : nameParts first = nameParts second) :
    first = second := by
  rw [← partsName_nameParts one, ← partsName_nameParts two, same]

theorem hasDoubleSlash_take {word : CString} (clean : hasDoubleSlash word = false) (n : Nat) :
    hasDoubleSlash (word.take n) = false := by
  induction word generalizing n with
  | nil => simp [hasDoubleSlash]
  | cons c rest ih =>
      simp only [hasDoubleSlash, Bool.or_eq_false_iff] at clean
      cases n with
      | zero => rfl
      | succ n =>
          have tail := ih clean.2 n
          simp only [List.take_succ_cons, hasDoubleSlash, tail, Bool.or_false]
          cases n with
          | zero => simp
          | succ n =>
              cases rest with
              | nil => simp
              | cons d later => exact clean.1

theorem below_iff_parts {upper lower : CString} (one : propNameIsValid upper = true)
    (two : propNameIsValid lower = true) :
    (lower = upper ∨ (upper ++ ['/']) <+: lower) ↔ nameParts upper <+: nameParts lower := by
  have law := SeparatedWords.below_iff_prefix (nameParts_plain upper) (nameParts_plain lower)
  change (partsName _ = partsName _ ∨ (partsName _ ++ ['/']) <+: partsName _) ↔ _ at law
  rwa [partsName_nameParts one, partsName_nameParts two] at law

/-- `g_strrstr (name, "/")` with the slash and what follows it cut off. -/
def uptoLastSlash (name : CString) : CString := SeparatedWords.beforeLast '/' name

/-- `strrchr (name, '/') + 1`. -/
def pastLastSlash (name : CString) : CString := SeparatedWords.afterLast '/' name

theorem partsName_snoc (front : List CString) (last : CString) :
    partsName (front ++ [last]) = partsName front ++ '/' :: last := by
  simp [partsName]

theorem gStrlcat_snoc {front : List CString} {name : CString}
    (short : (partsName (front ++ [name])).length < maxPropPath) :
    gStrlcat (gStrlcat (partsName front) "/".toList maxPropPath) name maxPropPath =
      partsName (front ++ [name]) := by
  rw [partsName_snoc] at short ⊢
  rw [List.length_append, List.length_cons] at short
  have slash : gStrlcat (partsName front) "/".toList maxPropPath = partsName front ++ ['/'] := by
    apply List.take_of_length_le
    have one : ("/".toList : CString).length = 1 := rfl
    rw [List.length_append, one]
    omega
  rw [slash, gStrlcat, List.append_assoc]
  apply List.take_of_length_le
  rw [List.length_append, List.length_append, List.length_singleton]
  omega

theorem pastLastSlash_snoc (front : List CString) (last : CString) (plain : '/' ∉ last) :
    pastLastSlash (partsName (front ++ [last])) = last := by
  rw [partsName_snoc]
  exact SeparatedWords.afterLast_snoc _ _ plain

theorem uptoLastSlash_snoc (front : List CString) (last : CString) (plain : '/' ∉ last) :
    uptoLastSlash (partsName (front ++ [last])) = partsName front := by
  rw [partsName_snoc]
  exact SeparatedWords.beforeLast_snoc _ _ plain

/-- The parent's name that is left of a cut name is that of a node further up. -/
theorem uptoLastSlash_take {parts : List CString} (plain : SeparatedWords.Plain '/' parts)
    (full : parts ≠ []) {n : Nat} (within : n ≤ (partsName parts).length) :
    ∃ above, above <+: parts ∧ above.length < parts.length ∧
      uptoLastSlash ((partsName parts).take n) = partsName above := by
  induction parts using List.reverseRecOn with
  | nil => exact absurd rfl full
  | append_singleton front last ih =>
      obtain ⟨plainFront, plainLast⟩ := SeparatedWords.plain_append.mp plain
      have clean : '/' ∉ last := plainLast last (by simp)
      by_cases inside : n ≤ (partsName front).length
      · have cut : (partsName (front ++ [last])).take n = (partsName front).take n := by
          rw [partsName_snoc, List.take_append_of_le_length inside]
        rw [cut]
        by_cases top : front = []
        · subst top
          have empty : (partsName []).take n = [] := List.take_nil
          exact ⟨[], List.nil_prefix, by simp, by rw [empty]; rfl⟩
        · obtain ⟨above, below, shorter, same⟩ := ih plainFront top inside
          refine ⟨above, below.trans (List.prefix_append _ _), ?_, same⟩
          rw [List.length_append]
          omega
      · obtain ⟨more, reach⟩ : ∃ more, n = (partsName front).length + (more + 1) :=
          ⟨n - (partsName front).length - 1, by omega⟩
        refine ⟨front, List.prefix_append _ _, by simp, ?_⟩
        rw [partsName_snoc, reach, List.take_append, List.take_of_length_le (by omega),
          Nat.add_sub_cancel_left, List.take_succ_cons]
        exact SeparatedWords.beforeLast_snoc _ _ fun member => clean (List.take_subset _ _ member)

theorem hasDoubleSlash_piece (piece rest : CString) (plain : '/' ∉ piece) :
    hasDoubleSlash (piece ++ rest) = hasDoubleSlash rest := by
  induction piece with
  | nil => rfl
  | cons c more ih =>
      obtain ⟨apart, later⟩ := not_or.mp (fun member => plain (List.mem_cons.mpr member))
      rw [List.cons_append, hasDoubleSlash, ih later, beq_false_of_ne (Ne.symm apart)]
      rfl

theorem hasDoubleSlash_partsName {parts : List CString}
    (named : ∀ name ∈ parts, name ≠ [] ∧ '/' ∉ name) : hasDoubleSlash (partsName parts) = false := by
  induction parts with
  | nil => rfl
  | cons name rest ih =>
      obtain ⟨nonempty, plain⟩ := named name List.mem_cons_self
      obtain ⟨c, more, rfl⟩ := List.exists_cons_of_ne_nil nonempty
      have apart : c ≠ '/' := fun same => plain (same ▸ List.mem_cons_self)
      have later := ih fun other member => named other (List.mem_cons_of_mem _ member)
      rw [partsName, SeparatedWords.join_cons, List.cons_append, hasDoubleSlash,
        hasDoubleSlash_piece _ _ plain]
      exact Bool.or_eq_false_iff.mpr ⟨by simp [apart], later⟩

theorem propNameIsValid_partsName {parts : List CString} (full : parts ≠ [])
    (named : ∀ name ∈ parts, name ≠ [] ∧ '/' ∉ name) :
    propNameIsValid (partsName parts) = true := by
  cases parts with
  | nil => exact absurd rfl full
  | cons name rest =>
      obtain ⟨nonempty, _⟩ := named name List.mem_cons_self
      obtain ⟨c, more, rfl⟩ := List.exists_cons_of_ne_nil nonempty
      exact propNameIsValid_iff.mpr ⟨c, more ++ partsName rest, rfl, hasDoubleSlash_partsName named⟩

end Esconf
