import Timeshare.Proofs.Text.Line
import Timeshare.Text.Integer

namespace Timeshare.Text

/-!
# The integers that literals denote

* `Literal t n` — the text `t` is a literal of the integer `n`: decimal digits, perhaps with a sign.
* `readWord_eq_ok_iff` — a text is read as a word if it is a literal of that word, and only then.
* `decimal w` — the word `w` in decimal, which is one of its literals (`literal_decimal`).
-/

/-- A row of decimal digits that has at least one. -/
structure IsNumeral (digits : List Char) : Prop where
  ne_nil : digits ≠ []
  digit : ∀ c ∈ digits, c.isDigit = true

/-- A text is a literal of an integer: its digits are those of the number, with the value
    `Nat.ofDigitChars 10 digits 0`, and there may be a sign `+` or `-` in front. -/
inductive Literal : List Char → Int → Prop
  | plain {digits : List Char} (h : IsNumeral digits) :
      Literal digits (Nat.ofDigitChars 10 digits 0)
  | plus {digits : List Char} (h : IsNumeral digits) :
      Literal ('+' :: digits) (Nat.ofDigitChars 10 digits 0)
  | minus {digits : List Char} (h : IsNumeral digits) :
      Literal ('-' :: digits) (-(Nat.ofDigitChars 10 digits 0 : Int))

variable {t digits : List Char} {n limit value : Nat} {beyond : IntegerError} {w : Word}

/-! ### Reading digits -/

/-- Digits behind a number do not make it smaller: `value ≤ Nat.ofDigitChars 10 digits value`. -/
theorem le_ofDigitChars (digits : List Char) (value : Nat) :
    value ≤ Nat.ofDigitChars 10 digits value := by
  induction digits generalizing value with
  | nil => exact Nat.le_of_eq Nat.ofDigitChars_nil.symm
  | cons c digits ih =>
    rw [Nat.ofDigitChars_cons]
    have := ih (10 * value + (c.toNat - '0'.toNat))
    omega

/-- Digits behind `value` are read as their number `n`, unless it exceeds `limit`.  The check at
    each digit comes to the same as one at the end, since no number on the way exceeds the last. -/
theorem readDigits_eq_ok_iff (hvalue : value ≤ limit) :
    readDigits limit beyond value digits = .ok n ↔
      (∀ c ∈ digits, c.isDigit = true) ∧ Nat.ofDigitChars 10 digits value = n ∧ n ≤ limit := by
  -- Digit by digit, from the front: `value` is what was read so far.
  induction digits generalizing value with
  | nil =>
    rw [readDigits, Nat.ofDigitChars_nil]
    constructor
    · intro h
      obtain rfl := Except.ok.inj h
      exact ⟨List.forall_mem_nil _, rfl, hvalue⟩
    · rintro ⟨-, rfl, -⟩
      rfl
  | cons c digits ih =>
    rw [readDigits, Nat.ofDigitChars_cons, List.forall_mem_cons, Nat.mul_comm 10 value]
    have hle := le_ofDigitChars digits (value * 10 + (c.toNat - '0'.toNat))
    by_cases hc : c.isDigit = true
    · rw [if_pos hc]
      dsimp only
      by_cases hnext : value * 10 + (c.toNat - '0'.toNat) > limit
      · rw [if_pos hnext]
        constructor
        · intro h
          exact absurd h (by simp)
        · rintro ⟨-, rfl, hn⟩
          omega
      · rw [if_neg hnext, ih (by omega)]
        simp only [hc, true_and]
    · rw [if_neg hc]
      simp [hc]

/-- A text is read as the number `n` if it has digits and nothing else, and their number is `n` and
    within the limit. -/
theorem readNumber_eq_ok_iff :
    readNumber limit beyond digits = .ok n ↔
      IsNumeral digits ∧ Nat.ofDigitChars 10 digits 0 = n ∧ n ≤ limit := by
  cases digits with
  | nil =>
    rw [readNumber]
    constructor
    · intro h
      exact absurd h (by simp)
    · rintro ⟨h, -⟩
      exact absurd rfl h.ne_nil
  | cons c digits =>
    rw [readNumber, readDigits_eq_ok_iff (Nat.zero_le limit)]
    · constructor
      · rintro ⟨h, hn⟩
        exact ⟨⟨by simp, h⟩, hn⟩
      · rintro ⟨h, hn⟩
        exact ⟨h.digit, hn⟩
    · simp

/-! ### Reading words -/

/-- A number that is read is read as the word that stands for it: if `f` gives the word of the
    integer `g n` up to the limit, then the digits are read as `w` if `g` of their number is
    `w.toInt`. -/
theorem readNumber_map_eq_ok_iff {f : Nat → Word} {g : Nat → Int}
    (hf : ∀ n ≤ limit, (f n).toInt = g n) (hlimit : ∀ n, g n = w.toInt → n ≤ limit) :
    (readNumber limit beyond digits).map f = .ok w ↔
      IsNumeral digits ∧ g (Nat.ofDigitChars 10 digits 0) = w.toInt := by
  constructor
  · intro h
    cases hread : readNumber limit beyond digits with
    | error e =>
      rw [hread] at h
      exact absurd h (by simp [Except.map])
    | ok n =>
      rw [hread] at h
      obtain rfl : f n = w := Except.ok.inj h
      obtain ⟨hdigits, rfl, hn⟩ := readNumber_eq_ok_iff.mp hread
      exact ⟨hdigits, (hf _ hn).symm⟩
  · rintro ⟨hdigits, hw⟩
    -- An integer that a word stands for is within the limit.
    have hn := hlimit _ hw
    rw [readNumber_eq_ok_iff.mpr ⟨hdigits, rfl, hn⟩]
    exact congrArg Except.ok (Int64.toInt.inj ((hf _ hn).trans hw))

/-- Digits without `-` are read as the word `w` if their number is `w.toInt`. -/
theorem readNumber_plain_iff :
    (readNumber wordLimit beyond digits).map Int64.ofNat = .ok w ↔
      IsNumeral digits ∧ (Nat.ofDigitChars 10 digits 0 : Int) = w.toInt := by
  refine readNumber_map_eq_ok_iff (g := fun n => n) ?_ ?_
  · intro n hn
    exact Int64.toInt_ofNat_of_lt (Nat.lt_succ_of_le hn)
  · intro n hn
    have := w.toInt_lt
    unfold wordLimit
    omega

/-- Digits behind `-` are read as the word `w` if the negative of their number is `w.toInt`; the
    limit is one higher than that of the positive words. -/
theorem readNumber_minus_iff :
    (readNumber (wordLimit + 1) beyond digits).map (fun n : Nat => Int64.ofInt (-(n : Int))) = .ok w ↔
      IsNumeral digits ∧ -(Nat.ofDigitChars 10 digits 0 : Int) = w.toInt := by
  refine readNumber_map_eq_ok_iff (g := fun n => -(n : Int)) ?_ ?_
  · intro n hn
    unfold wordLimit at hn
    exact Int64.toInt_ofInt_of_le (by omega) (by omega)
  · intro n hn
    have := w.le_toInt
    unfold wordLimit
    omega

/-- A numeral starts with no sign. -/
theorem IsNumeral.head_ne {c : Char} (h : IsNumeral (c :: digits)) : c ≠ '-' ∧ c ≠ '+' := by
  have hc := h.digit c List.mem_cons_self
  constructor
  · rintro rfl
    exact absurd hc (by decide)
  · rintro rfl
    exact absurd hc (by decide)

/-- A number that is read becomes an integer before it becomes a word. -/
theorem map_cast (x : Except IntegerError Nat) (f : Int → Word) :
    Except.map f (do let n ← x; pure (n : Int)) = x.map fun n : Nat => f n := by
  cases x with
  | ok n => rfl
  | error e => rfl

/-- **Reading a word.**  A text is read as a word if it is a literal of that word, and only then:
    `readWord t = .ok w` says `Literal t w.toInt`. -/
theorem readWord_eq_ok_iff : readWord t = .ok w ↔ Literal t w.toInt := by
  unfold readWord
  -- The empty text, then `-`, then `+`, then all that start with neither.
  split
  · constructor
    · intro h
      exact absurd h (by simp)
    · intro h
      generalize w.toInt = i at h
      cases h with
      | plain h => exact absurd rfl h.ne_nil
  · rename_i digits
    rw [map_cast, readNumber_minus_iff]
    constructor
    · rintro ⟨h, hw⟩
      rw [← hw]
      exact .minus h
    · intro h
      generalize w.toInt = i at h ⊢
      cases h with
      | plain h => exact absurd rfl h.head_ne.1
      | minus h => exact ⟨h, rfl⟩
  · rename_i digits
    rw [readNumber_plain_iff]
    constructor
    · rintro ⟨h, hw⟩
      rw [← hw]
      exact .plus h
    · intro h
      generalize w.toInt = i at h ⊢
      cases h with
      | plain h => exact absurd rfl h.head_ne.2
      | plus h => exact ⟨h, rfl⟩
  · rename_i hminus hplus
    rw [readNumber_plain_iff]
    constructor
    · rintro ⟨h, hw⟩
      rw [← hw]
      exact .plain h
    · intro h
      generalize w.toInt = i at h ⊢
      cases h with
      | plain h => exact ⟨h, rfl⟩
      | plus h => exact absurd rfl (hplus _)
      | minus h => exact absurd rfl (hminus _)

/-! ### Words in decimal -/

/-- The word `w` in decimal. -/
def decimal (w : Word) : List Char := (toString w).toList

/-- The decimal digits of a number are a numeral. -/
theorem isNumeral_toDigits (n : Nat) : IsNumeral (Nat.toDigits 10 n) where
  ne_nil := Nat.toDigits_ne_nil
  digit := fun _ hc => Nat.isDigit_of_mem_toDigits (by decide) (by decide) hc

/-- What is written for a word is one of its literals: `Literal (decimal w) w.toInt`. -/
theorem literal_decimal (w : Word) : Literal (decimal w) w.toInt := by
  unfold decimal
  show Literal (toString w.toInt).toList w.toInt
  rw [Int.toString_eq_repr, Int.repr_eq_if]
  split
  · rename_i h
    have hplain := Literal.plain (isNumeral_toDigits w.toInt.toNat)
    rw [Nat.ofDigitChars_ten_toDigits, Int.toNat_of_nonneg h] at hplain
    rwa [Nat.toList_repr]
  · rename_i h
    have hminus := Literal.minus (isNumeral_toDigits (-w.toInt).toNat)
    rw [Nat.ofDigitChars_ten_toDigits, Int.toNat_of_nonneg (by omega), Int.neg_neg] at hminus
    rw [String.toList_append, Nat.toList_repr]
    exact hminus

/-- A digit is neither white space nor the start of a comment. -/
theorem solid_of_isDigit {c : Char} (h : c.isDigit = true) : isBlank c = false ∧ c ≠ '#' := by
  have hrange : 48 ≤ c.toNat ∧ c.toNat ≤ 57 := by
    unfold Char.isDigit at h
    rw [Bool.and_eq_true, decide_eq_true_eq, decide_eq_true_eq] at h
    exact ⟨UInt32.le_iff_toNat_le.mp h.1, UInt32.le_iff_toNat_le.mp h.2⟩
  constructor
  · unfold isBlank
    simp only [Bool.or_eq_false_iff, Bool.and_eq_false_iff, decide_eq_false_iff_not, beq_eq_false_iff_ne]
    omega
  · rintro rfl
    exact absurd h (by decide)

/-- A numeral can stand between white space, and in front of a comment. -/
theorem IsNumeral.isToken (h : IsNumeral digits) : IsToken digits where
  ne_nil := h.ne_nil
  solid := fun c hc => (solid_of_isDigit (h.digit c hc)).1
  no_hash := fun hc => (solid_of_isDigit (h.digit _ hc)).2 rfl

/-- A token with a further character in front is one, if the character is neither white space nor
    `#`. -/
theorem IsToken.cons {c : Char} (h : IsToken t) (hblank : isBlank c = false) (hhash : '#' ≠ c) :
    IsToken (c :: t) where
  ne_nil := by simp
  solid := List.forall_mem_cons.mpr ⟨hblank, h.solid⟩
  no_hash := List.not_mem_cons_of_ne_of_not_mem hhash h.no_hash

/-- A literal can stand between white space, and in front of a comment. -/
theorem Literal.isToken {i : Int} (h : Literal t i) : IsToken t := by
  cases h with
  | plain h => exact h.isToken
  | plus h => exact h.isToken.cons (by decide) (by decide)
  | minus h => exact h.isToken.cons (by decide) (by decide)

end Timeshare.Text
