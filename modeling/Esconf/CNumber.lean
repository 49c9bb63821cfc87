import Esconf.CString

/-! Decimal printing and the base-0 integer conversions of the C library. -/

namespace Esconf

def isSpace (c : Char) : Bool :=
  c == ' ' || c == '\t' || c == '\n' || c.toNat == 11 || c.toNat == 12 || c == '\r'

def digitValue (c : Char) : Option Nat :=
  if '0' ≤ c ∧ c ≤ '9' then some (c.toNat - 48)
  else if 'a' ≤ c ∧ c ≤ 'z' then some (c.toNat - 87)
  else if 'A' ≤ c ∧ c ≤ 'Z' then some (c.toNat - 55)
  else none

def isDigitIn (base : Nat) (c : Char) : Bool :=
  match digitValue c with
  | some d => decide (d < base)
  | none => false

def scanDigits (base : Nat) : CString → Nat → Nat × CString
  | [], acc => (acc, [])
  | c :: rest, acc =>
    match digitValue c with
    | some d => if d < base then scanDigits base rest (acc * base + d) else (acc, c :: rest)
    | none => (acc, c :: rest)

/-- What follows a leading `0`: hexadecimal digits behind an `x`, else octal ones. -/
def scanAfterZero : CString → Nat × CString
  | x :: h :: rest =>
    if (x = 'x' ∨ x = 'X') ∧ isDigitIn 16 h = true then scanDigits 16 (h :: rest) 0
    else scanDigits 8 (x :: h :: rest) 0
  | rest => scanDigits 8 rest 0

/-- The digits of an integer literal after white space and sign, the base told
by its prefix; nothing when there is no digit. -/
def scanMagnitude : CString → Option (Nat × CString)
  | [] => none
  | c :: rest =>
    if c = '0' then some (scanAfterZero rest)
    else if isDigitIn 10 c then some (scanDigits 10 (c :: rest) 0)
    else none

structure Conversion where
  value : Int
  endptr : CString
  erange : Bool

structure Literal where
  negative : Bool
  magnitude : Nat
  rest : CString

def scanLiteral (str : CString) : Option Literal :=
  match str.dropWhile isSpace with
  | '-' :: word => (scanMagnitude word).map fun (m, rest) => ⟨true, m, rest⟩
  | '+' :: word => (scanMagnitude word).map fun (m, rest) => ⟨false, m, rest⟩
  | word => (scanMagnitude word).map fun (m, rest) => ⟨false, m, rest⟩

/-- `strtol` and `g_ascii_strtoll` with base 0 and 64 bits. -/
def strtol (str : CString) : Conversion :=
  match scanLiteral str with
  | none => ⟨0, str, false⟩
  | some ⟨true, m, rest⟩ => if 2 ^ 63 < m then ⟨-2 ^ 63, rest, true⟩ else ⟨-m, rest, false⟩
  | some ⟨false, m, rest⟩ => if 2 ^ 63 ≤ m then ⟨2 ^ 63 - 1, rest, true⟩ else ⟨m, rest, false⟩

/-- `strtoul` and `g_ascii_strtoull` with base 0 and 64 bits: a minus sign
negates the number modulo 2^64. -/
def strtoul (str : CString) : Conversion :=
  match scanLiteral str with
  | none => ⟨0, str, false⟩
  | some ⟨negative, m, rest⟩ =>
    if 2 ^ 64 ≤ m then ⟨2 ^ 64 - 1, rest, true⟩
    else ⟨if negative then ((2 ^ 64 - m) % 2 ^ 64 : Nat) else (m : Nat), rest, false⟩

/-- `printf ("%u")` and its wider forms. -/
def printNat (n : Nat) : CString := Nat.toDigits 10 n

/-- `printf ("%d")` and its wider forms. -/
def printInt (n : Int) : CString := if n < 0 then '-' :: printNat n.natAbs else printNat n.natAbs

theorem digitValue_of_isDigit {c : Char} (digit : c.isDigit = true) :
    digitValue c = some (c.toNat - '0'.toNat) ∧ c.toNat - '0'.toNat < 10 := by
  simp only [Char.isDigit, Bool.and_eq_true, decide_eq_true_eq] at digit
  have low : '0' ≤ c := digit.1
  have high : c ≤ '9' := digit.2
  have upper : c.toNat ≤ 57 := high
  refine ⟨by simp [digitValue, low, high], ?_⟩
  have zero : '0'.toNat = 48 := rfl
  omega

theorem scanDigits_digits (word : CString) (acc : Nat) (digits : ∀ c ∈ word, c.isDigit = true) :
    scanDigits 10 word acc = (Nat.ofDigitChars 10 word acc, []) := by
  induction word generalizing acc with
  | nil => simp [scanDigits]
  | cons c rest ih =>
      obtain ⟨value, bound⟩ := digitValue_of_isDigit (digits c (by simp))
      rw [scanDigits, value]
      simp only [bound, ↓reduceIte]
      rw [ih _ (fun d member => digits d (by simp [member])), Nat.ofDigitChars_cons, Nat.mul_comm]

theorem printNat_digits (n : Nat) : ∀ c ∈ printNat n, c.isDigit = true :=
  fun _ member => Nat.isDigit_of_mem_toDigits (by decide) (by decide) member

theorem printNat_head (n : Nat) :
    n = 0 ∨ ∃ c rest, printNat n = c :: rest ∧ c ≠ '0' := by
  induction n using Nat.strongRecOn with
  | _ n ih =>
      by_cases small : n < 10
      · by_cases zero : n = 0
        · exact Or.inl zero
        · right
          refine ⟨n.digitChar, [], Nat.toDigits_of_lt_base small, ?_⟩
          have table : ∀ d < 10, d ≠ 0 → d.digitChar ≠ '0' := by decide
          exact table n small zero
      · right
        have step : printNat n = printNat (n / 10) ++ [(n % 10).digitChar] :=
          Nat.toDigits_of_base_le (by decide) (by omega)
        rcases ih (n / 10) (by omega) with zero | ⟨c, rest, shape, nonzero⟩
        · omega
        · exact ⟨c, rest ++ [(n % 10).digitChar], by rw [step, shape]; rfl, nonzero⟩

theorem scanMagnitude_printNat (n : Nat) : scanMagnitude (printNat n) = some (n, []) := by
  rcases printNat_head n with rfl | ⟨c, rest, shape, nonzero⟩
  · rfl
  · have digits := printNat_digits n
    have value : Nat.ofDigitChars 10 (printNat n) 0 = n := Nat.ofDigitChars_ten_toDigits
    rw [shape] at digits value ⊢
    obtain ⟨first, bound⟩ := digitValue_of_isDigit (digits c (by simp))
    have digit : isDigitIn 10 c = true := by
      simp only [isDigitIn, first]
      exact decide_eq_true bound
    rw [scanMagnitude, if_neg nonzero, if_pos digit, scanDigits_digits _ _ digits, value]

theorem digit_isSpace {c : Char} (digit : c.isDigit = true) :
    isSpace c = false ∧ c ≠ '-' ∧ c ≠ '+' := by
  simp only [Char.isDigit, Bool.and_eq_true, decide_eq_true_eq] at digit
  have lower : 48 ≤ c.toNat := digit.1
  refine ⟨?_, ?_, ?_⟩
  · by_contra space
    simp only [isSpace, Bool.not_eq_false, Bool.or_eq_true, beq_iff_eq] at space
    rcases space with ((((rfl | rfl) | rfl) | eq) | eq) | rfl
    all_goals first | (revert lower; decide) | omega
  · rintro rfl; revert lower; decide
  · rintro rfl; revert lower; decide

theorem scanLiteral_printNat (n : Nat) : scanLiteral (printNat n) = some ⟨false, n, []⟩ := by
  have read := scanMagnitude_printNat n
  have digits := printNat_digits n
  cases shape : printNat n with
  | nil => rw [shape] at read; cases read
  | cons c rest =>
      rw [shape] at read digits
      obtain ⟨space, minus, plus⟩ := digit_isSpace (digits c (by simp))
      rw [scanLiteral, List.dropWhile_cons_of_neg (by simp [space])]
      split
      · next same => cases same; exact absurd rfl minus
      · next same => cases same; exact absurd rfl plus
      · rw [read]; rfl

theorem scanLiteral_printInt (n : Int) :
    scanLiteral (printInt n) = some ⟨decide (n < 0), n.natAbs, []⟩ := by
  unfold printInt
  by_cases negative : n < 0
  · rw [if_pos negative, scanLiteral, List.dropWhile_cons_of_neg (by decide)]
    simp [scanMagnitude_printNat, negative]
  · rw [if_neg negative, scanLiteral_printNat]
    simp [negative]

end Esconf
