import Esconf.CNumber

/-! The integer constants of C, and that the conversions of the C library read exactly
them, with white space and a sign in front. -/

namespace Esconf

def digitsNumber (base : Nat) (word : CString) : Nat :=
  word.foldl (fun acc c => acc * base + (digitValue c).getD 0) 0

/-- A C integer constant, decimal, octal or hexadecimal, and its number. -/
inductive IntegerConstant : CString → Nat → Prop where
  | decimal {c : Char} {rest : CString} (head : c ≠ '0')
      (digits : ∀ d ∈ c :: rest, isDigitIn 10 d = true) :
      IntegerConstant (c :: rest) (digitsNumber 10 (c :: rest))
  | octal {rest : CString} (digits : ∀ d ∈ rest, isDigitIn 8 d = true) :
      IntegerConstant ('0' :: rest) (digitsNumber 8 rest)
  | hexadecimal {x : Char} {word : CString} (marked : x = 'x' ∨ x = 'X') (full : word ≠ [])
      (digits : ∀ d ∈ word, isDigitIn 16 d = true) :
      IntegerConstant ('0' :: x :: word) (digitsNumber 16 word)

inductive Sign : CString → Bool → Prop where
  | none : Sign [] false
  | plus : Sign ['+'] false
  | minus : Sign ['-'] true

/-- A string of white space, a sign and an integer constant, and its number. -/
def Denotes (str : CString) (n : Int) : Prop :=
  ∃ spaces sign word negative m, str = spaces ++ (sign ++ word) ∧
    (∀ c ∈ spaces, isSpace c = true) ∧ Sign sign negative ∧ IntegerConstant word m ∧
    n = if negative then -(m : Int) else m

theorem digitValue_small {c : Char} (digit : isDigitIn 10 c = true) : '0' ≤ c ∧ c ≤ '9' := by
  unfold isDigitIn at digit
  by_contra outside
  rw [digitValue, if_neg outside] at digit
  split at digit
  · next value same =>
      have low : value < 10 := of_decide_eq_true digit
      split at same
      · next lower =>
          have first : 97 ≤ c.toNat := lower.1
          have number := Option.some.inj same
          omega
      · split at same
        · next upper =>
            have first : 65 ≤ c.toNat := upper.1
            have number := Option.some.inj same
            omega
        · cases same
  · cases digit

theorem digit_plain {c : Char} (digit : isDigitIn 10 c = true) :
    isSpace c = false ∧ c ≠ '-' ∧ c ≠ '+' := by
  apply digit_isSpace
  obtain ⟨low, high⟩ := digitValue_small digit
  simp only [Char.isDigit, Bool.and_eq_true, decide_eq_true_eq]
  exact ⟨low, high⟩

theorem scanDigits_eq (base : Nat) (word : CString) (acc : Nat) :
    scanDigits base word acc =
      ((word.takeWhile (isDigitIn base)).foldl
        (fun acc c => acc * base + (digitValue c).getD 0) acc,
        word.dropWhile (isDigitIn base)) := by
  induction word generalizing acc with
  | nil => rfl
  | cons c rest ih =>
      rw [scanDigits, List.takeWhile_cons, List.dropWhile_cons]
      cases value : digitValue c with
      | none => simp [isDigitIn, value]
      | some d =>
          by_cases small : d < base
          · simp [isDigitIn, value, small, ih]
          · simp [isDigitIn, value, small]

theorem scanDigits_end {base : Nat} {word : CString} {m : Nat} :
    scanDigits base word 0 = (m, []) ↔
      (∀ d ∈ word, isDigitIn base d = true) ∧ m = digitsNumber base word := by
  rw [scanDigits_eq, Prod.mk.injEq, List.dropWhile_eq_nil_iff]
  constructor
  · intro read
    refine ⟨read.2, ?_⟩
    rw [← read.1, List.takeWhile_eq_self_iff.mpr read.2]
    rfl
  · intro whole
    refine ⟨?_, whole.1⟩
    rw [List.takeWhile_eq_self_iff.mpr whole.1, whole.2]
    rfl

theorem IntegerConstant.head {word : CString} {m : Nat} (constant : IntegerConstant word m) :
    ∃ c rest, word = c :: rest ∧ isDigitIn 10 c = true := by
  cases constant with
  | decimal head digits => exact ⟨_, _, rfl, digits _ List.mem_cons_self⟩
  | octal digits => exact ⟨_, _, rfl, rfl⟩
  | hexadecimal marked full digits => exact ⟨_, _, rfl, rfl⟩

theorem marker_not_octal {x : Char} (marked : x = 'x' ∨ x = 'X') : isDigitIn 8 x = false := by
  rcases marked with rfl | rfl <;> decide

theorem scanAfterZero_end {rest : CString} {m : Nat} :
    scanAfterZero rest = (m, []) ↔ IntegerConstant ('0' :: rest) m := by
  have octal : scanDigits 8 rest 0 = (m, []) →
      IntegerConstant ('0' :: rest) m := by
    intro read
    obtain ⟨digits, rfl⟩ := scanDigits_end.mp read
    exact .octal digits
  have octal' : (∀ d ∈ rest, isDigitIn 8 d = true) → m = digitsNumber 8 rest →
      scanDigits 8 rest 0 = (m, []) :=
    fun digits number => scanDigits_end.mpr ⟨digits, number⟩
  unfold scanAfterZero
  split
  · next x h more =>
      by_cases hexadecimal : (x = 'x' ∨ x = 'X') ∧ isDigitIn 16 h = true
      · rw [if_pos hexadecimal]
        constructor
        · intro read
          obtain ⟨digits, rfl⟩ := scanDigits_end.mp read
          exact .hexadecimal hexadecimal.1 (List.cons_ne_nil _ _) digits
        · intro constant
          cases constant with
          | decimal head digits => exact absurd rfl head
          | octal digits =>
              have marker := digits x List.mem_cons_self
              rw [marker_not_octal hexadecimal.1] at marker
              cases marker
          | hexadecimal marked full digits => exact scanDigits_end.mpr ⟨digits, rfl⟩
      · rw [if_neg hexadecimal]
        refine ⟨octal, ?_⟩
        intro constant
        cases constant with
        | decimal head digits => exact absurd rfl head
        | octal digits => exact octal' digits rfl
        | hexadecimal marked full digits =>
            exact absurd ⟨marked, digits h List.mem_cons_self⟩ hexadecimal
  · next short =>
      refine ⟨octal, ?_⟩
      intro constant
      cases constant with
      | decimal head digits => exact absurd rfl head
      | octal digits => exact octal' digits rfl
      | hexadecimal marked full digits =>
          obtain ⟨h, more, rfl⟩ := List.exists_cons_of_ne_nil full
          exact absurd rfl (short _ h more)

theorem scanMagnitude_end {word : CString} {m : Nat} :
    scanMagnitude word = some (m, []) ↔ IntegerConstant word m := by
  cases word with
  | nil =>
      constructor
      · intro read
        cases read
      · intro constant
        cases constant
  | cons c rest =>
      rw [scanMagnitude]
      by_cases zero : c = '0'
      · rw [if_pos zero, zero, Option.some.injEq]
        exact scanAfterZero_end
      · rw [if_neg zero]
        constructor
        · intro read
          split at read
          · obtain ⟨digits, rfl⟩ := scanDigits_end.mp (Option.some.inj read)
            exact .decimal zero digits
          · cases read
        · intro constant
          cases constant with
          | decimal head digits =>
              rw [if_pos (digits c List.mem_cons_self), scanDigits_end.mpr ⟨digits, rfl⟩]
          | octal digits => exact absurd rfl zero
          | hexadecimal marked full digits => exact absurd rfl zero

theorem dropWhile_spaces {spaces rest : CString} (blank : ∀ c ∈ spaces, isSpace c = true)
    (stop : ∀ c, rest.head? = some c → isSpace c = false) :
    (spaces ++ rest).dropWhile isSpace = rest := by
  induction spaces with
  | nil =>
      cases rest with
      | nil => rfl
      | cons c rest => exact List.dropWhile_cons_of_neg (by simp [stop c rfl])
  | cons c spaces ih =>
      rw [List.cons_append, List.dropWhile_cons_of_pos (blank c List.mem_cons_self)]
      exact ih fun d member => blank d (List.mem_cons_of_mem _ member)

theorem spaces_split (str : CString) :
    ∃ spaces, str = spaces ++ str.dropWhile isSpace ∧ ∀ c ∈ spaces, isSpace c = true :=
  ⟨str.takeWhile isSpace, (List.takeWhile_append_dropWhile).symm,
    fun _ member => List.mem_takeWhile_imp member⟩

/-- The conversions read a string to its end exactly if it denotes a number. -/
theorem scanLiteral_end {str : CString} {n : Int} :
    (∃ literal, scanLiteral str = some literal ∧ literal.rest = [] ∧
      n = if literal.negative then -(literal.magnitude : Int) else literal.magnitude) ↔
      Denotes str n := by
  constructor
  · intro read
    obtain ⟨literal, scanned, ended, number⟩ := read
    obtain ⟨spaces, split, blank⟩ := spaces_split str
    have constant : ∀ (word sign : CString) (negative : Bool), Sign sign negative →
        str.dropWhile isSpace = sign ++ word →
        (scanMagnitude word).map (fun read => (⟨negative, read.1, read.2⟩ : Literal)) =
          some literal → Denotes str n := by
      intro word sign negative signed shape found
      obtain ⟨⟨m, rest⟩, magnitude, rfl⟩ := Option.map_eq_some_iff.mp found
      have ended' : rest = [] := ended
      subst ended'
      exact ⟨spaces, sign, word, negative, m, shape ▸ split, blank, signed,
        scanMagnitude_end.mp magnitude, number⟩
    unfold scanLiteral at scanned
    split at scanned
    · next word shape => exact constant word ['-'] true .minus shape scanned
    · next word shape => exact constant word ['+'] false .plus shape scanned
    · exact constant _ [] false .none rfl scanned
  · intro denotes
    obtain ⟨spaces, sign, word, negative, m, rfl, blank, signed, constant, rfl⟩ := denotes
    have scanned := scanMagnitude_end.mpr constant
    obtain ⟨c, rest, rfl, digit⟩ := constant.head
    obtain ⟨space, minus, plus⟩ := digit_plain digit
    refine ⟨⟨negative, m, []⟩, ?_, rfl, rfl⟩
    have dropped : (spaces ++ (sign ++ c :: rest)).dropWhile isSpace = sign ++ c :: rest := by
      apply dropWhile_spaces blank
      intro d first
      cases signed with
      | none => cases first; exact space
      | plus => cases first; rfl
      | minus => cases first; rfl
    rw [scanLiteral, dropped]
    cases signed with
    | plus =>
        change (scanMagnitude (c :: rest)).map _ = _
        rw [scanned]
        rfl
    | minus =>
        change (scanMagnitude (c :: rest)).map _ = _
        rw [scanned]
        rfl
    | none =>
        rw [List.nil_append]
        split
        · next same => cases same; exact absurd rfl minus
        · next same => cases same; exact absurd rfl plus
        · rw [scanned]
          rfl

theorem Denotes.ne_nil {str : CString} {n : Int} (denotes : Denotes str n) : str ≠ [] := by
  obtain ⟨spaces, sign, word, _, _, rfl, _, _, constant, _⟩ := denotes
  obtain ⟨c, rest, rfl, _⟩ := constant.head
  simp

theorem Denotes.unique {str : CString} {n k : Int} (one : Denotes str n) (two : Denotes str k) :
    n = k := by
  obtain ⟨literal, scanned, _, number⟩ := scanLiteral_end.mpr one
  obtain ⟨literal', scanned', _, number'⟩ := scanLiteral_end.mpr two
  rw [scanned] at scanned'
  cases scanned'
  rw [number, number']

/-- `strtol` of a string that denotes a number: the number, or the nearest there is. -/
theorem Denotes.strtol {str : CString} {n : Int} (denotes : Denotes str n) :
    Esconf.strtol str = if n < -2 ^ 63 then ⟨-2 ^ 63, [], true⟩
      else if 2 ^ 63 ≤ n then ⟨2 ^ 63 - 1, [], true⟩ else ⟨n, [], false⟩ := by
  obtain ⟨⟨negative, m, rest⟩, scanned, ended, number⟩ := scanLiteral_end.mpr denotes
  have ended' : rest = [] := ended
  subst ended'
  rw [Esconf.strtol, scanned]
  cases negative with
  | true =>
      have value : n = -(m : Int) := number
      dsimp only
      by_cases low : 2 ^ 63 < m
      · rw [if_pos low, if_pos (by omega)]
      · rw [if_neg low, if_neg (by omega), if_neg (by omega), value]
  | false =>
      have value : n = (m : Int) := number
      dsimp only
      by_cases high : 2 ^ 63 ≤ m
      · rw [if_pos high, if_neg (by omega), if_pos (by omega)]
      · rw [if_neg high, if_neg (by omega), if_neg (by omega), value]

/-- `strtoul` of a string that denotes a number: the number modulo 2^64, however it is
signed, if it has no more than 64 bits. -/
theorem Denotes.strtoul {str : CString} {n : Int} (denotes : Denotes str n) :
    Esconf.strtoul str = if 2 ^ 64 ≤ n.natAbs then ⟨2 ^ 64 - 1, [], true⟩
      else ⟨n % 2 ^ 64, [], false⟩ := by
  obtain ⟨⟨negative, m, rest⟩, scanned, ended, number⟩ := scanLiteral_end.mpr denotes
  have ended' : rest = [] := ended
  subst ended'
  rw [Esconf.strtoul, scanned]
  dsimp only
  have size : n.natAbs = m := by
    cases negative with
    | true =>
        have value : n = -(m : Int) := number
        omega
    | false =>
        have value : n = (m : Int) := number
        omega
  rw [size]
  by_cases wide : 2 ^ 64 ≤ m
  · rw [if_pos wide, if_pos wide]
  · rw [if_neg wide, if_neg wide]
    congr 1
    cases negative with
    | true =>
        have value : n = -(m : Int) := number
        simp only [↓reduceIte]
        omega
    | false =>
        have value : n = (m : Int) := number
        simp only [Bool.false_eq_true, ↓reduceIte]
        omega

theorem denotes_of_ended {convert : CString → Conversion}
    (conversion : convert = strtol ∨ convert = strtoul) {str : CString} (full : str ≠ [])
    (ended : (convert str).endptr = []) : ∃ n, Denotes str n := by
  have scanned : ∃ literal, scanLiteral str = some literal ∧ literal.rest = [] := by
    rcases conversion with rfl | rfl
    · unfold strtol at ended
      split at ended
      · exact absurd ended full
      · next m rest same =>
          refine ⟨_, same, ?_⟩
          split at ended <;> exact ended
      · next m rest same =>
          refine ⟨_, same, ?_⟩
          split at ended <;> exact ended
    · unfold strtoul at ended
      split at ended
      · exact absurd ended full
      · next negative m rest same =>
          refine ⟨_, same, ?_⟩
          split at ended <;> exact ended
  obtain ⟨literal, same, rest⟩ := scanned
  exact ⟨_, scanLiteral_end.mp ⟨literal, same, rest, rfl⟩⟩

end Esconf
