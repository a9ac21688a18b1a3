import Timeshare.Word

namespace Timeshare.Text

/-!
# Integer literals

A literal is an optional sign and decimal digits, nothing else.  Digits are read from the
left, and the first thing wrong decides the error: a character that is no digit, or the digit
that takes the number out of its range.
-/

/-- Why a text is no integer of a given range. -/
inductive IntegerError where
  | empty
  | invalidDigit
  | tooLarge
  | tooSmall
  deriving DecidableEq, Repr

/-- The error in words. -/
def IntegerError.message : IntegerError → String
  | empty => "cannot parse integer from empty string"
  | invalidDigit => "invalid digit found in string"
  | tooLarge => "number too large to fit in target type"
  | tooSmall => "number too small to fit in target type"

/-- The largest number that a word holds.  The smallest is further from zero by one. -/
def wordLimit : Nat := 9223372036854775807

/-- The largest unsigned 64-bit number. -/
def unsignedLimit : Nat := 18446744073709551615

/-- Reads the rest of a row of digits of which `value` has been read, and fails with `beyond`
    as soon as the number exceeds `limit`. -/
def readDigits (limit : Nat) (beyond : IntegerError) (value : Nat) :
    List Char → Except IntegerError Nat
  | [] => .ok value
  | c :: rest =>
    if c.isDigit then
      let next := value * 10 + (c.toNat - '0'.toNat)
      if next > limit then .error beyond else readDigits limit beyond next rest
    else
      .error .invalidDigit

/-- Reads a row of digits that has at least one. -/
def readNumber (limit : Nat) (beyond : IntegerError) : List Char → Except IntegerError Nat
  | [] => .error .invalidDigit
  | digits => readDigits limit beyond 0 digits

/-- The word that a literal denotes. -/
def readWord : List Char → Except IntegerError Word
  | [] => .error .empty
  | '-' :: digits =>
    (readNumber (wordLimit + 1) .tooSmall digits).map fun n => Int64.ofInt (-(n : Int))
  | '+' :: digits => (readNumber wordLimit .tooLarge digits).map Int64.ofNat
  | digits => (readNumber wordLimit .tooLarge digits).map Int64.ofNat

/-- The unsigned 64-bit number that a literal without a minus sign denotes. -/
def readUnsigned : List Char → Except IntegerError UInt64
  | [] => .error .empty
  | '+' :: digits => (readNumber unsignedLimit .tooLarge digits).map UInt64.ofNat
  | digits => (readNumber unsignedLimit .tooLarge digits).map UInt64.ofNat

/-- A number in decimal, with zeros in front up to a given width. -/
def padded (width n : Nat) : String :=
  let digits := toString n
  String.ofList (List.replicate (width - digits.length) '0') ++ digits

end Timeshare.Text
