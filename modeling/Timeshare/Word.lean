namespace Timeshare

/-!
# Machine words

The machine stores and computes with signed 64-bit words.  Arithmetic wraps around, and a
word that is the code point of a character can be read as that character.
-/

/-- A machine word: a signed 64-bit number with wrapping arithmetic. -/
abbrev Word := Int64

/-- The character whose code point is `w`, if there is one. -/
def Word.toChar? (w : Word) : Option Char :=
  let n := w.toNatClampNeg
  if 0 ≤ w ∧ n.isValidChar then some (Char.ofNat n) else none

/-- The code point of a character, as a word. -/
def Word.ofChar (c : Char) : Word := Int64.ofNat c.toNat

end Timeshare
