import Timeshare.Text.Invisible

namespace Timeshare.Text

/-!
# Quoted text

Texts and characters are quoted in reports so that every character shows: quotes and
backslashes are escaped, the common control characters have short forms, and every other
invisible character is written by its code point.
-/

/-- The digits of a number in base sixteen, in lower case. -/
def hexadecimal (n : Nat) : String := String.ofList (Nat.toDigits 16 n)

/-- A character as it stands between quotes of the kind `mark`. -/
def escape (mark c : Char) : String :=
  match c with
  | '\x00' => "\\0"
  | '\t' => "\\t"
  | '\n' => "\\n"
  | '\r' => "\\r"
  | '\\' => "\\\\"
  | c =>
    if c = mark then String.ofList ['\\', c]
    else if isInvisible c then "\\u\x7b" ++ hexadecimal c.toNat ++ "\x7d"
    else c.toString

/-- A text in double quotes. -/
def quote (s : String) : String :=
  "\"" ++ String.join (s.toList.map (escape '\"')) ++ "\""

/-- A character in single quotes. -/
def quoteChar (c : Char) : String := "'" ++ escape '\x27' c ++ "'"

end Timeshare.Text
