namespace Timeshare

/-!
# JSON values

The values of the data format that configurations are read from and reports are written in.
Numbers matter only where they are integers, and texts and keys only where they are proper
Unicode; the constructors `decimal`, `brokenText` and `brokenObject` stand for the others.
-/

/-- A JSON value. -/
inductive Json where
  | null
  | bool (b : Bool)
  | integer (i : Int)
  /-- A number written with a fraction or an exponent, or as minus zero. -/
  | decimal
  | text (s : String)
  /-- A string with one half of a surrogate pair in it. -/
  | brokenText
  | array (items : List Json)
  | object (fields : List (String × Json))
  /-- An object with one half of a surrogate pair in a key. -/
  | brokenObject

namespace Json

/-- A string as it stands between quotes. -/
def escape (c : Char) : String :=
  match c with
  | '\"' => "\\\""
  | '\\' => "\\\\"
  | '\n' => "\\n"
  | '\r' => "\\r"
  | '\t' => "\\t"
  | c =>
    if c.toNat = 8 then "\\b"
    else if c.toNat = 12 then "\\f"
    else if c.toNat < 32 then
      let digits := Nat.toDigits 16 c.toNat
      "\\u" ++ String.ofList (List.replicate (4 - digits.length) '0' ++ digits)
    else c.toString

/-- A string in quotes. -/
def quote (s : String) : String := "\"" ++ String.join (s.toList.map escape) ++ "\""

/-- A new line that is indented to a depth. -/
def newLine (depth : Nat) : String := "\n" ++ String.ofList (List.replicate (2 * depth) ' ')

mutual

/-- A value over several lines, the nested ones indented by two spaces each. -/
def prettyAt (depth : Nat) : Json → String
  | null => "null"
  | bool b => if b then "true" else "false"
  | integer i => toString i
  | decimal => "-0"
  | text s => quote s
  | brokenText => "\"\""
  | array [] => "[]"
  | array (item :: items) =>
    "[" ++ newLine (depth + 1) ++ prettyAt (depth + 1) item ++ prettyItems (depth + 1) items
      ++ newLine depth ++ "]"
  | brokenObject => "\x7b\x7d"
  | object [] => "\x7b\x7d"
  | object ((key, value) :: fields) =>
    "\x7b" ++ newLine (depth + 1) ++ quote key ++ ": " ++ prettyAt (depth + 1) value
      ++ prettyFields (depth + 1) fields ++ newLine depth ++ "\x7d"

/-- The items that follow the first of an array. -/
def prettyItems (depth : Nat) : List Json → String
  | [] => ""
  | item :: items => "," ++ newLine depth ++ prettyAt depth item ++ prettyItems depth items

/-- The fields that follow the first of an object. -/
def prettyFields (depth : Nat) : List (String × Json) → String
  | [] => ""
  | (key, value) :: fields =>
    "," ++ newLine depth ++ quote key ++ ": " ++ prettyAt depth value ++ prettyFields depth fields

end

/-- A value over several lines. -/
def pretty (j : Json) : String := prettyAt 0 j

end Json

end Timeshare
