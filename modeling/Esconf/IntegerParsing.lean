import Esconf.GValueFuncs
import Esconf.IntegerConstants

/-! Numbers as text: which strings `_esconf_gvalue_from_string` takes for a number, and
that it reads back what `_esconf_string_from_gvalue` writes. -/

namespace Esconf

def GValue.number : GValue → Option Int
  | .uchar n => some n.toNat
  | .char n => some n.toInt
  | .uint n => some n.toNat
  | .int n => some n.toInt
  | .uint64 n => some n.toNat
  | .int64 n => some n.toInt
  | .uint16 n => some n.toNat
  | .int16 n => some n.toInt
  | _ => none

def integerRange : GType → Option (Int × Int)
  | .uchar => some (0, 255)
  | .char => some (-128, 127)
  | .uint => some (0, 4294967295)
  | .int => some (-2147483648, 2147483647)
  | .uint64 => some (0, 2 ^ 64 - 1)
  | .int64 => some (-2 ^ 63, 2 ^ 63 - 1)
  | .uint16 => some (0, 65535)
  | .int16 => some (-32768, 32767)
  | _ => none

def InRange (type : GType) (n : Int) : Prop :=
  ∃ low high, integerRange type = some (low, high) ∧ low ≤ n ∧ n ≤ high

/-- A string is taken for a value of an integer type exactly if it denotes a number in
the range of the type, and then the value has that number. -/
structure ParsesExactly (host : Host) (type : GType) (str : CString) : Prop where
  accepts : (∃ value, gvalueFromString host type (some str) = .parsed value) ↔
    ∃ n, Denotes str n ∧ InRange type n
  exactly : ∀ value n, gvalueFromString host type (some str) = .parsed value → Denotes str n →
    value.gtype = type ∧ value.number = some n

/-- The numbers out of range that are not refused: those that come back into the range
modulo 2^64, and for the 64-bit types, which check no range, all of them. -/
def Misread : GType → Int → Prop
  | .uchar, n => -2 ^ 64 < n ∧ n ≤ 255 - 2 ^ 64
  | .uint, n => -2 ^ 64 < n ∧ n ≤ 4294967295 - 2 ^ 64
  | .uint64, n => n < 0 ∨ 2 ^ 64 ≤ n
  | .int64, n => n < -2 ^ 63 ∨ 2 ^ 63 ≤ n
  | _, _ => False

section Numbers

variable {str : CString} {n : Int} {make : Int → GValue}

theorem bmod_small {k : Int} (low : -2 ^ 63 ≤ k) (high : k < 2 ^ 63) : k.bmod (2 ^ 64) = k :=
  Int.bmod_eq_of_le (by omega) (by omega)

theorem realHandleInt_ended {convert : CString → Conversion} {value : Int} {erange : Bool}
    (full : str ≠ []) (read : convert str = ⟨value, [], erange⟩) {minval maxval intval : Int}
    (wrapped : value.bmod (2 ^ 64) = intval) (nonzero : erange = true → intval ≠ 0) :
    realHandleInt convert minval maxval make str =
      if minval ≤ intval ∧ intval ≤ maxval then .parsed (make intval) else .refused := by
  unfold realHandleInt
  rw [read]
  dsimp only
  rw [wrapped]
  have passed : ¬(intval = 0 ∧ erange = true) := fun both => nonzero both.2 both.1
  have ended : ¬(str = [] ∨ ([] : CString) ≠ []) := by simp [full]
  rw [if_neg passed, if_neg ended]
  by_cases inside : minval ≤ intval ∧ intval ≤ maxval
  · have fits : ¬(intval < minval ∨ maxval < intval) := by omega
    rw [if_neg fits, if_pos inside]
  · have outside : intval < minval ∨ maxval < intval := by omega
    rw [if_pos outside, if_neg inside]

theorem handleInt64_ended {convert : CString → Conversion} {value : Int} {erange : Bool}
    (full : str ≠ []) (read : convert str = ⟨value, [], erange⟩)
    (nonzero : erange = true → value ≠ 0) :
    handleInt64 convert make str = .parsed (make value) := by
  unfold handleInt64
  rw [read]
  dsimp only
  have passed : ¬(value = 0 ∧ erange = true) := fun both => nonzero both.2 both.1
  have ended : ¬(str = [] ∨ ([] : CString) ≠ []) := by simp [full]
  rw [if_neg passed, if_neg ended]

theorem Denotes.signed (denotes : Denotes str n) {minval maxval : Int} (low : -2 ^ 63 < minval)
    (high : maxval < 2 ^ 63 - 1) :
    realHandleInt Esconf.strtol minval maxval make str =
      if minval ≤ n ∧ n ≤ maxval then .parsed (make n) else .refused := by
  have read := denotes.strtol
  by_cases below : n < -2 ^ 63
  · have outside : ¬(minval ≤ n ∧ n ≤ maxval) := by omega
    have saturated : ¬(minval ≤ -2 ^ 63 ∧ -2 ^ 63 ≤ maxval) := by omega
    rw [if_pos below] at read
    rw [realHandleInt_ended denotes.ne_nil read (bmod_small (by omega) (by omega)) (by simp),
      if_neg saturated, if_neg outside]
  · rw [if_neg below] at read
    by_cases above : 2 ^ 63 ≤ n
    · have outside : ¬(minval ≤ n ∧ n ≤ maxval) := by omega
      have saturated : ¬(minval ≤ 2 ^ 63 - 1 ∧ 2 ^ 63 - 1 ≤ maxval) := by omega
      rw [if_pos above] at read
      rw [realHandleInt_ended denotes.ne_nil read (bmod_small (by omega) (by omega)) (by simp),
        if_neg saturated, if_neg outside]
    · rw [if_neg above] at read
      exact realHandleInt_ended denotes.ne_nil read (bmod_small (by omega) (by omega)) (by simp)

/-- A type that is read as an unsigned number of a narrower range: negative numbers are
taken modulo 2^64. -/
theorem Denotes.unsigned (denotes : Denotes str n) {maxval : Int} (high : maxval < 2 ^ 63) :
    realHandleInt Esconf.strtoul 0 maxval make str =
      if -2 ^ 64 < n ∧ n < 2 ^ 64 ∧ n % 2 ^ 64 ≤ maxval then .parsed (make (n % 2 ^ 64))
      else .refused := by
  have read := denotes.strtoul
  by_cases wide : 2 ^ 64 ≤ n.natAbs
  · have outside : ¬(-2 ^ 64 < n ∧ n < 2 ^ 64 ∧ n % 2 ^ 64 ≤ maxval) := by omega
    have wrapped : (2 ^ 64 - 1 : Int).bmod (2 ^ 64) = -1 := by decide
    have saturated : ¬((0 : Int) ≤ -1 ∧ -1 ≤ maxval) := by omega
    rw [if_pos wide] at read
    rw [realHandleInt_ended denotes.ne_nil read wrapped (by simp), if_neg saturated,
      if_neg outside]
  · rw [if_neg wide] at read
    by_cases small : n % 2 ^ 64 < 2 ^ 63
    · rw [realHandleInt_ended denotes.ne_nil read (bmod_small (by omega) small) (by simp)]
      by_cases inside : n % 2 ^ 64 ≤ maxval
      · have fits : -2 ^ 64 < n ∧ n < 2 ^ 64 ∧ n % 2 ^ 64 ≤ maxval := by omega
        rw [if_pos ⟨by omega, inside⟩, if_pos fits]
      · rw [if_neg fun both => inside both.2, if_neg fun all => inside all.2.2]
    · have wrapped : (n % 2 ^ 64).bmod (2 ^ 64) = n % 2 ^ 64 - 2 ^ 64 := by
        have back : (n % 2 ^ 64 - 2 ^ 64).bmod (2 ^ 64) = (n % 2 ^ 64).bmod (2 ^ 64) :=
          Int.sub_bmod_right _ _
        rw [← back]
        exact bmod_small (by omega) (by omega)
      have outside : ¬(-2 ^ 64 < n ∧ n < 2 ^ 64 ∧ n % 2 ^ 64 ≤ maxval) := by omega
      have negative : ¬(0 ≤ n % 2 ^ 64 - 2 ^ 64 ∧ n % 2 ^ 64 - 2 ^ 64 ≤ maxval) := by omega
      rw [realHandleInt_ended denotes.ne_nil read wrapped (by simp), if_neg negative,
        if_neg outside]

theorem Denotes.unsigned64 (denotes : Denotes str n) :
    handleInt64 Esconf.strtoul make str =
      .parsed (make (if 2 ^ 64 ≤ n.natAbs then 2 ^ 64 - 1 else n % 2 ^ 64)) := by
  have read := denotes.strtoul
  by_cases wide : 2 ^ 64 ≤ n.natAbs
  · rw [if_pos wide] at read ⊢
    exact handleInt64_ended denotes.ne_nil read (by simp)
  · rw [if_neg wide] at read ⊢
    exact handleInt64_ended denotes.ne_nil read (by simp)

theorem Denotes.signed64 (denotes : Denotes str n) :
    handleInt64 Esconf.strtol make str =
      .parsed (make (if n < -2 ^ 63 then -2 ^ 63 else if 2 ^ 63 ≤ n then 2 ^ 63 - 1 else n)) := by
  have read := denotes.strtol
  by_cases below : n < -2 ^ 63
  · rw [if_pos below] at read ⊢
    exact handleInt64_ended denotes.ne_nil read (by simp)
  · rw [if_neg below] at read ⊢
    by_cases above : 2 ^ 63 ≤ n
    · rw [if_pos above] at read ⊢
      exact handleInt64_ended denotes.ne_nil read (by simp)
    · rw [if_neg above] at read ⊢
      exact handleInt64_ended denotes.ne_nil read (by simp)

theorem realHandleInt_other {convert : CString → Conversion}
    (conversion : convert = strtol ∨ convert = strtoul) (other : ¬∃ n, Denotes str n)
    (minval maxval : Int) : realHandleInt convert minval maxval make str = .refused := by
  unfold realHandleInt
  have stopped : str = [] ∨ (convert str).endptr ≠ [] := by
    by_contra reached
    obtain ⟨full, ended⟩ := not_or.mp reached
    exact other (denotes_of_ended conversion full (not_not.mp ended))
  dsimp only
  rw [if_pos stopped, ite_self]

theorem handleInt64_other {convert : CString → Conversion}
    (conversion : convert = strtol ∨ convert = strtoul) (other : ¬∃ n, Denotes str n) :
    handleInt64 convert make str = .refused := by
  unfold handleInt64
  have stopped : str = [] ∨ (convert str).endptr ≠ [] := by
    by_contra reached
    obtain ⟨full, ended⟩ := not_or.mp reached
    exact other (denotes_of_ended conversion full (not_not.mp ended))
  dsimp only
  rw [if_pos stopped, ite_self]

end Numbers

def Stores (type : GType) (make : Int → GValue) : Prop :=
  ∀ n, InRange type n → (make n).gtype = type ∧ (make n).number = some n

theorem inRange_iff {type : GType} {low high n : Int} (range : integerRange type = some (low, high)) :
    InRange type n ↔ low ≤ n ∧ n ≤ high := by
  constructor
  · intro inside
    obtain ⟨low', high', same, bounds⟩ := inside
    rw [range] at same
    cases same
    exact bounds
  · intro bounds
    exact ⟨low, high, range, bounds⟩

theorem uint_number {n size : Int} (low : 0 ≤ n) (high : n < size) :
    (((n % size).toNat : Nat) : Int) = n := by
  rw [Int.emod_eq_of_lt low high, Int.toNat_of_nonneg low]

theorem stores_uchar : Stores .uchar fun n => .uchar (.ofInt n) := by
  intro n inside
  obtain ⟨low, high⟩ := (inRange_iff rfl).mp inside
  refine ⟨rfl, congrArg some ?_⟩
  have bound : (n % 2 ^ 8).toNat < 2 ^ 8 := by omega
  rw [UInt8.ofInt, UInt8.toNat_ofNat_of_lt' bound]
  exact uint_number low (by omega)

theorem stores_uint : Stores .uint fun n => .uint (.ofInt n) := by
  intro n inside
  obtain ⟨low, high⟩ := (inRange_iff rfl).mp inside
  refine ⟨rfl, congrArg some ?_⟩
  have bound : (n % 2 ^ 32).toNat < 2 ^ 32 := by omega
  rw [UInt32.ofInt, UInt32.toNat_ofNat_of_lt' bound]
  exact uint_number low (by omega)

theorem stores_uint64 : Stores .uint64 fun n => .uint64 (.ofInt n) := by
  intro n inside
  obtain ⟨low, high⟩ := (inRange_iff rfl).mp inside
  refine ⟨rfl, congrArg some ?_⟩
  have bound : (n % 2 ^ 64).toNat < 2 ^ 64 := by omega
  rw [UInt64.ofInt, UInt64.toNat_ofNat_of_lt' bound]
  exact uint_number low (by omega)

theorem stores_uint16 : Stores .uint16 fun n => .uint16 (.ofInt n) := by
  intro n inside
  obtain ⟨low, high⟩ := (inRange_iff rfl).mp inside
  refine ⟨rfl, congrArg some ?_⟩
  have bound : (n % 2 ^ 16).toNat < 2 ^ 16 := by omega
  rw [UInt16.ofInt, UInt16.toNat_ofNat_of_lt' bound]
  exact uint_number low (by omega)

theorem stores_char : Stores .char fun n => .char (.ofInt n) := by
  intro n inside
  obtain ⟨low, high⟩ := (inRange_iff rfl).mp inside
  exact ⟨rfl, congrArg some (Int8.toInt_ofInt_of_le low (by omega))⟩

theorem stores_int : Stores .int fun n => .int (.ofInt n) := by
  intro n inside
  obtain ⟨low, high⟩ := (inRange_iff rfl).mp inside
  exact ⟨rfl, congrArg some (Int32.toInt_ofInt_of_le low (by omega))⟩

theorem stores_int64 : Stores .int64 fun n => .int64 (.ofInt n) := by
  intro n inside
  obtain ⟨low, high⟩ := (inRange_iff rfl).mp inside
  exact ⟨rfl, congrArg some (Int64.toInt_ofInt_of_le low (by omega))⟩

theorem stores_int16 : Stores .int16 fun n => .int16 (.ofInt n) := by
  intro n inside
  obtain ⟨low, high⟩ := (inRange_iff rfl).mp inside
  exact ⟨rfl, congrArg some (Int16.toInt_ofInt_of_le low (by omega))⟩

section Types

variable {host : Host} {type : GType} {str : CString} {n : Int} {make : Int → GValue}

theorem parsesExactly_refused (refused : gvalueFromString host type (some str) = .refused)
    (other : ¬∃ n, Denotes str n) : ParsesExactly host type str := by
  constructor
  · constructor
    · intro accepted
      obtain ⟨value, parsed⟩ := accepted
      rw [refused] at parsed
      cases parsed
    · intro denoted
      obtain ⟨n, denotes, _⟩ := denoted
      exact absurd ⟨n, denotes⟩ other
  · intro value n parsed
    rw [refused] at parsed
    cases parsed

theorem parsesExactly_ranged (denotes : Denotes str n) (stores : Stores type make) {low high : Int}
    (range : integerRange type = some (low, high))
    (read : gvalueFromString host type (some str) =
      if low ≤ n ∧ n ≤ high then .parsed (make n) else .refused) :
    ParsesExactly host type str := by
  have inside := @inRange_iff type low high n range
  constructor
  · constructor
    · intro accepted
      obtain ⟨value, parsed⟩ := accepted
      rw [read] at parsed
      split at parsed
      · next bounds => exact ⟨n, denotes, inside.mpr bounds⟩
      · cases parsed
    · intro denoted
      obtain ⟨k, denotes', fits⟩ := denoted
      obtain rfl := denotes.unique denotes'
      rw [read, if_pos (inside.mp fits)]
      exact ⟨_, rfl⟩
  · intro value k parsed denotes'
    obtain rfl := denotes.unique denotes'
    rw [read] at parsed
    split at parsed
    · next bounds =>
        cases parsed
        exact stores n (inside.mpr bounds)
    · cases parsed

theorem not_parsesExactly (denotes : Denotes str n) {value : GValue}
    (parsed : gvalueFromString host type (some str) = .parsed value) (outside : ¬InRange type n) :
    ¬ParsesExactly host type str := by
  intro right
  obtain ⟨k, denotes', fits⟩ := right.accepts.mp ⟨value, parsed⟩
  obtain rfl := denotes.unique denotes'
  exact outside fits

theorem parsesExactly_signed (denotes : Denotes str n) (stores : Stores type make) {low high : Int}
    (range : integerRange type = some (low, high)) (wide : -2 ^ 63 < low ∧ high < 2 ^ 63 - 1)
    (read : gvalueFromString host type (some str) =
      realHandleInt strtol low high make str) : ParsesExactly host type str := by
  rw [denotes.signed wide.1 wide.2] at read
  exact parsesExactly_ranged denotes stores range read

theorem parsesExactly_unsigned (denotes : Denotes str n) (stores : Stores type make) {high : Int}
    (range : integerRange type = some (0, high)) (wide : 0 ≤ high ∧ high < 2 ^ 63)
    (read : gvalueFromString host type (some str) = realHandleInt strtoul 0 high make str) :
    ParsesExactly host type str ↔ ¬(-2 ^ 64 < n ∧ n ≤ high - 2 ^ 64) := by
  rw [denotes.unsigned wide.2] at read
  by_cases misread : -2 ^ 64 < n ∧ n ≤ high - 2 ^ 64
  · have accepted : -2 ^ 64 < n ∧ n < 2 ^ 64 ∧ n % 2 ^ 64 ≤ high := by omega
    rw [if_pos accepted] at read
    have outside : ¬InRange type n := by
      rw [inRange_iff range]
      omega
    exact iff_of_false (not_parsesExactly denotes read outside) (not_not.mpr misread)
  · apply iff_of_true _ misread
    apply parsesExactly_ranged denotes stores range
    rw [read]
    by_cases inside : 0 ≤ n ∧ n ≤ high
    · have accepted : -2 ^ 64 < n ∧ n < 2 ^ 64 ∧ n % 2 ^ 64 ≤ high := by omega
      have same : n % 2 ^ 64 = n := by omega
      rw [if_pos accepted, if_pos inside, same]
    · have refused : ¬(-2 ^ 64 < n ∧ n < 2 ^ 64 ∧ n % 2 ^ 64 ≤ high) := by omega
      rw [if_neg refused, if_neg inside]

theorem parsesExactly_unchecked (denotes : Denotes str n) (stores : Stores type make)
    {low high stored : Int} (range : integerRange type = some (low, high))
    (read : gvalueFromString host type (some str) = .parsed (make stored))
    (kept : low ≤ n ∧ n ≤ high → stored = n) :
    ParsesExactly host type str ↔ low ≤ n ∧ n ≤ high := by
  by_cases inside : low ≤ n ∧ n ≤ high
  · apply iff_of_true _ inside
    apply parsesExactly_ranged denotes stores range
    rw [read, if_pos inside, kept inside]
  · have outside : ¬InRange type n := by
      rw [inRange_iff range]
      exact inside
    exact iff_of_false (not_parsesExactly denotes read outside) inside

end Types

theorem gvalueFromString_other (host : Host) {type : GType} (integer : (integerRange type).isSome)
    {str : CString} (other : ¬∃ n, Denotes str n) :
    gvalueFromString host type (some str) = .refused := by
  have signed : ∀ low high make, realHandleInt strtol low high make str = .refused :=
    fun low high _ => realHandleInt_other (Or.inl rfl) other low high
  have unsigned : ∀ low high make, realHandleInt strtoul low high make str = .refused :=
    fun low high _ => realHandleInt_other (Or.inr rfl) other low high
  cases type <;> first | cases integer; done | skip
  all_goals simp only [gvalueFromString, onString]
  case uchar | uint => exact unsigned _ _ _
  case char | int | uint16 | int16 => exact signed _ _ _
  case uint64 => exact handleInt64_other (Or.inr rfl) other
  case int64 => exact handleInt64_other (Or.inl rfl) other

theorem parsesExactly_denoted (host : Host) {type : GType} (integer : (integerRange type).isSome)
    {str : CString} {n : Int} (denotes : Denotes str n) :
    ParsesExactly host type str ↔ ¬Misread type n := by
  cases type <;> first | cases integer; done | skip
  case uchar => exact parsesExactly_unsigned denotes stores_uchar rfl (by decide) rfl
  case uint => exact parsesExactly_unsigned denotes stores_uint rfl (by decide) rfl
  case char => exact iff_of_true (parsesExactly_signed denotes stores_char rfl (by decide) rfl) id
  case int => exact iff_of_true (parsesExactly_signed denotes stores_int rfl (by decide) rfl) id
  case uint16 =>
    exact iff_of_true (parsesExactly_signed denotes stores_uint16 rfl (by decide) rfl) id
  case int16 =>
    exact iff_of_true (parsesExactly_signed denotes stores_int16 rfl (by decide) rfl) id
  case uint64 =>
    have read := @Denotes.unsigned64 str n (fun n => .uint64 (.ofInt n)) denotes
    refine (parsesExactly_unchecked denotes stores_uint64 rfl read ?_).trans ?_
    · intro inside
      rw [if_neg (by omega)]
      omega
    · simp only [Misread]
      omega
  case int64 =>
    have read := @Denotes.signed64 str n (fun n => .int64 (.ofInt n)) denotes
    refine (parsesExactly_unchecked denotes stores_int64 rfl read ?_).trans ?_
    · intro inside
      rw [if_neg (by omega), if_neg (by omega)]
    · simp only [Misread]
      omega

/-- A string is parsed exactly if it does not denote a number out of range that the
conversion of its type lets through. -/
theorem parses_exactly_iff (host : Host) (type : GType) (str : CString)
    (integer : (integerRange type).isSome) :
    ParsesExactly host type str ↔ ∀ n, Denotes str n → ¬Misread type n := by
  by_cases denoted : ∃ n, Denotes str n
  · obtain ⟨n, denotes⟩ := denoted
    rw [parsesExactly_denoted host integer denotes]
    constructor
    · intro fine k denotes'
      obtain rfl := denotes.unique denotes'
      exact fine
    · intro fine
      exact fine n denotes
  · apply iff_of_true
    · exact parsesExactly_refused (gvalueFromString_other host integer denoted) denoted
    · intro n denotes
      exact absurd ⟨n, denotes⟩ denoted

/-- The greatest unsigned char, in hexadecimal behind a blank. -/
theorem parses_exactly_hexadecimal : ParsesExactly (.bare []) .uchar " 0xFf".toList := by
  apply (parses_exactly_iff (.bare []) .uchar " 0xFf".toList rfl).mpr
  intro n denotes misread
  have constant : Denotes " 0xFf".toList 255 :=
    scanLiteral_end.mp ⟨⟨false, 255, []⟩, rfl, rfl, rfl⟩
  obtain rfl := denotes.unique constant
  cases misread.2

/-- "-1" is taken for the greatest number of 64 bits. -/
theorem negative_accepted :
    gvalueFromString (.bare []) .uint64 (some "-1".toList) =
        .parsed (.uint64 18446744073709551615) ∧
      ¬ParsesExactly (.bare []) .uint64 "-1".toList := by
  have denotes : Denotes "-1".toList (-1) := scanLiteral_end.mp ⟨⟨true, 1, []⟩, rfl, rfl, rfl⟩
  have stored : (if 2 ^ 64 ≤ (-1 : Int).natAbs then (2 ^ 64 - 1 : Int) else -1 % 2 ^ 64) =
      18446744073709551615 := by decide
  have read := @Denotes.unsigned64 _ _ (fun n => .uint64 (.ofInt n)) denotes
  rw [stored] at read
  refine ⟨read, not_parsesExactly denotes read ?_⟩
  rw [inRange_iff rfl]
  omega

theorem denotes_printInt (n : Int) : Denotes (printInt n) n := by
  apply scanLiteral_end.mp
  refine ⟨_, scanLiteral_printInt n, rfl, ?_⟩
  by_cases negative : n < 0
  · rw [if_pos (decide_eq_true negative)]
    dsimp only
    omega
  · rw [if_neg (by simp [negative])]
    dsimp only
    omega

namespace GValue

theorem number_text (host : Host) {value : GValue} {n : Int} (number : value.number = some n) :
    stringFromGvalue host value = some (printInt n) := by
  cases value <;> cases number <;> rfl

theorem number_inRange {value : GValue} {n : Int} (number : value.number = some n) :
    InRange value.gtype n := by
  cases value <;> cases number
  case uchar m =>
    have bound := m.toNat_lt
    exact (inRange_iff rfl).mpr (by omega)
  case char m =>
    have lower := m.le_toInt
    have upper := m.toInt_lt
    exact (inRange_iff rfl).mpr (by omega)
  case uint m =>
    have bound := m.toNat_lt
    exact (inRange_iff rfl).mpr (by omega)
  case int m =>
    have lower := m.le_toInt
    have upper := m.toInt_lt
    exact (inRange_iff rfl).mpr (by omega)
  case uint64 m =>
    have bound := m.toNat_lt
    exact (inRange_iff rfl).mpr (by omega)
  case int64 m =>
    have lower := m.le_toInt
    have upper := m.toInt_lt
    exact (inRange_iff rfl).mpr (by omega)
  case uint16 m =>
    have bound := m.toNat_lt
    exact (inRange_iff rfl).mpr (by omega)
  case int16 m =>
    have lower := m.le_toInt
    have upper := m.toInt_lt
    exact (inRange_iff rfl).mpr (by omega)

theorem number_inj {a b : GValue} {n : Int} (types : a.gtype = b.gtype) (one : a.number = some n)
    (two : b.number = some n) : a = b := by
  have same : a.number = b.number := one.trans two.symm
  cases a <;> first | cases one; done | skip
  all_goals cases b <;> first | cases types; done | skip
  case uchar.uchar k m =>
    have equal : (k.toNat : Int) = m.toNat := Option.some.inj same
    exact congrArg uchar (UInt8.toNat_inj.mp (by omega))
  case uint.uint k m =>
    have equal : (k.toNat : Int) = m.toNat := Option.some.inj same
    exact congrArg uint (UInt32.toNat_inj.mp (by omega))
  case uint64.uint64 k m =>
    have equal : (k.toNat : Int) = m.toNat := Option.some.inj same
    exact congrArg uint64 (UInt64.toNat_inj.mp (by omega))
  case uint16.uint16 k m =>
    have equal : (k.toNat : Int) = m.toNat := Option.some.inj same
    exact congrArg uint16 (UInt16.toNat_inj.mp (by omega))
  case char.char k m => exact congrArg char (Int8.toInt_inj.mp (Option.some.inj same))
  case int.int k m => exact congrArg int (Int32.toInt_inj.mp (Option.some.inj same))
  case int64.int64 k m => exact congrArg int64 (Int64.toInt_inj.mp (Option.some.inj same))
  case int16.int16 k m => exact congrArg int16 (Int16.toInt_inj.mp (Option.some.inj same))

/-- A string that is there, a boolean or an integer. -/
def textual : GValue → Bool
  | string (some _) | boolean _ => true
  | uchar _ | char _ | uint _ | int _ | uint64 _ | int64 _ | uint16 _ | int16 _ => true
  | _ => false

end GValue

theorem not_misread {type : GType} {n : Int} (inside : InRange type n) : ¬Misread type n := by
  obtain ⟨low, high, range, bounds⟩ := inside
  intro misread
  cases type <;> cases range <;> simp only [Misread] at misread <;> omega

theorem GValue.number_reads (host : Host) {value : GValue} {n : Int}
    (number : value.number = some n) :
    gvalueFromString host value.gtype (some (printInt n)) = .parsed value := by
  have inside := value.number_inRange number
  have typed : (integerRange value.gtype).isSome := by
    obtain ⟨_, _, range, _⟩ := inside
    rw [range]
    rfl
  have exactly := (parsesExactly_denoted host typed (denotes_printInt n)).mpr
    (not_misread inside)
  obtain ⟨read, parsed⟩ := exactly.accepts.mpr ⟨n, denotes_printInt n, inside⟩
  obtain ⟨types, number'⟩ := exactly.exactly read n parsed (denotes_printInt n)
  rw [parsed, GValue.number_inj types number' number]

theorem GValue.text_reads (host : Host) {value : GValue} (textual : value.textual = true)
    {text : CString} (written : stringFromGvalue host value = some text) :
    gvalueFromString host value.gtype (some text) = .parsed value := by
  have integer : ∀ n, value.number = some n →
      gvalueFromString host value.gtype (some text) = .parsed value := by
    intro n number
    have spelled := value.number_text host number
    rw [written] at spelled
    rw [Option.some.inj spelled]
    exact value.number_reads host number
  cases value with
  | string content =>
      have same : content = some text := written
      rw [same]
      rfl
  | boolean b =>
      cases written
      cases b <;> rfl
  | uchar _ | char _ | uint _ | int _ | uint64 _ | int64 _ | uint16 _ | int16 _ =>
      exact integer _ rfl
  | _ => cases textual

/-- A value written as text is read back as it was. -/
theorem text_round_trips (host : Host) (value : GValue) (textual : value.textual = true) :
    ∃ text, stringFromGvalue host value = some text ∧
      gvalueFromString host value.gtype (some text) = .parsed value := by
  have there : ∃ text, stringFromGvalue host value = some text := by
    cases value with
    | string content =>
        cases content with
        | none => cases textual
        | some text => exact ⟨text, rfl⟩
    | boolean _ => exact ⟨_, rfl⟩
    | uchar _ | char _ | uint _ | int _ | uint64 _ | int64 _ | uint16 _ | int16 _ =>
        exact ⟨_, rfl⟩
    | _ => cases textual
  obtain ⟨text, written⟩ := there
  exact ⟨text, written, GValue.text_reads host textual written⟩

/-- The least 64-bit number. -/
theorem text_round_trips_least :
    ∃ text, stringFromGvalue (.bare []) (.int64 (-9223372036854775808)) = some text ∧
      gvalueFromString (.bare []) .int64 (some text) =
        .parsed (.int64 (-9223372036854775808)) :=
  text_round_trips (.bare []) (.int64 (-9223372036854775808)) rfl

end Esconf
