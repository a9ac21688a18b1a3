import Timeshare.Json.Basic

namespace Timeshare.Json

/-!
# Reading JSON

`Json.parse` reads the text of one value.  A text that is no JSON value gives the first thing
that is wrong with it and where.
-/

/-- What is wrong with a text that is no JSON value. -/
inductive Flaw where
  | eofInValue
  | eofInString
  | eofInList
  | eofInObject
  | expectedValue
  | expectedIdent
  | expectedColon
  | expectedListEnd
  | expectedObjectEnd
  | keyNotString
  | invalidNumber
  | invalidEscape
  | controlCharacter
  | trailingComma
  | trailingCharacters
  deriving DecidableEq, Repr

/-- The flaw in words. -/
def Flaw.message : Flaw → String
  | eofInValue => "EOF while parsing a value"
  | eofInString => "EOF while parsing a string"
  | eofInList => "EOF while parsing a list"
  | eofInObject => "EOF while parsing an object"
  | expectedValue => "expected value"
  | expectedIdent => "expected ident"
  | expectedColon => "expected \x60:\x60"
  | expectedListEnd => "expected \x60,\x60 or \x60]\x60"
  | expectedObjectEnd => "expected \x60,\x60 or \x60\x7d\x60"
  | keyNotString => "key must be a string"
  | invalidNumber => "invalid number"
  | invalidEscape => "invalid escape"
  | controlCharacter => "control character (\\u0000-\\u001F) found while parsing a string"
  | trailingComma => "trailing comma"
  | trailingCharacters => "trailing characters"

/-- A flaw and the text from it on. -/
structure Failure where
  flaw : Flaw
  rest : List Char

/-- Whether a character may stand between the parts of a value. -/
def isSpace (c : Char) : Bool := c == ' ' || c == '\n' || c == '\t' || c == '\r'

/-- A text without the space in front of it. -/
def skipSpace (cs : List Char) : List Char := cs.dropWhile isSpace

/-- Reads the rest of a word that is known by its first letter. -/
def readIdent (value : Json) : List Char → List Char → Except Failure (Json × List Char)
  | [], cs => .ok (value, cs)
  | _, [] => .error ⟨.eofInValue, []⟩
  | e :: expected, c :: cs =>
    if e = c then readIdent value expected cs else .error ⟨.expectedIdent, cs⟩

/-! ### Numbers -/

/-- Digits, and the text that follows them. -/
def digits (cs : List Char) : List Char × List Char :=
  (cs.takeWhile Char.isDigit, cs.dropWhile Char.isDigit)

/-- The number that a row of digits denotes. -/
def digitsValue (ds : List Char) : Nat := ds.foldl (fun n d => n * 10 + (d.toNat - 48)) 0

/-- Reads digits of which there has to be one at least. -/
def readDigits (cs : List Char) : Except Failure (List Char × List Char) :=
  match digits cs with
  | ([], []) => .error ⟨.eofInValue, []⟩
  | ([], rest) => .error ⟨.invalidNumber, rest⟩
  | (ds, rest) => .ok (ds, rest)

/-- Reads the whole part of a number, which has no zero in front of another digit. -/
def readWhole (cs : List Char) : Except Failure (Nat × List Char) := do
  let (ds, rest) ← readDigits cs
  match ds with
  | '0' :: _ :: _ => .error ⟨.invalidNumber, rest⟩
  | _ => return (digitsValue ds, rest)

/-- Reads a fraction, if there is one. -/
def readFraction : List Char → Except Failure (Bool × List Char)
  | '.' :: cs => do
    let (_, rest) ← readDigits cs
    return (true, rest)
  | cs => .ok (false, cs)

/-- Reads an exponent, if there is one. -/
def readExponent : List Char → Except Failure (Bool × List Char)
  | c :: cs =>
    if c = 'e' || c = 'E' then do
      let cs := match cs with
        | '+' :: rest => rest
        | '-' :: rest => rest
        | cs => cs
      let (_, rest) ← readDigits cs
      return (true, rest)
    else
      .ok (false, c :: cs)
  | [] => .ok (false, [])

/-- Reads a number of which the sign has been read. -/
def readNumber (negative : Bool) (cs : List Char) : Except Failure (Json × List Char) := do
  let (n, rest) ← readWhole cs
  let (hasFraction, rest) ← readFraction rest
  let (hasExponent, rest) ← readExponent rest
  if hasFraction || hasExponent || (negative && n == 0) then
    return (.decimal, rest)
  return (.integer (if negative then -(n : Int) else n), rest)

/-! ### Strings -/

/-- The value of a hexadecimal digit. -/
def hexValue? (c : Char) : Option Nat :=
  if c.isDigit then some (c.toNat - '0'.toNat)
  else if 'a' ≤ c ∧ c ≤ 'f' then some (c.toNat - 'a'.toNat + 10)
  else if 'A' ≤ c ∧ c ≤ 'F' then some (c.toNat - 'A'.toNat + 10)
  else none

/-- The number that four hexadecimal digits denote. -/
def hex4? : List Char → Option (Nat × List Char)
  | a :: b :: c :: d :: rest => do
    let a ← hexValue? a
    let b ← hexValue? b
    let c ← hexValue? c
    let d ← hexValue? d
    return (((a * 16 + b) * 16 + c) * 16 + d, rest)
  | _ => none

/-- The second half of a surrogate pair, if the text goes on with one. -/
def lowHalf? : List Char → Option (Nat × List Char)
  | '\\' :: 'u' :: cs => do
    let (n, rest) ← hex4? cs
    if 0xdc00 ≤ n ∧ n < 0xe000 then some (n, rest) else none
  | _ => none

/-- Reads an escape of which the backslash has been read.  Half of a surrogate pair is no
    character. -/
def readEscape : List Char → Except Failure (Option Char × List Char)
  | [] => .error ⟨.eofInString, []⟩
  | c :: cs =>
    match c with
    | '\"' => .ok (some '\"', cs)
    | '\\' => .ok (some '\\', cs)
    | '/' => .ok (some '/', cs)
    | 'b' => .ok (some (Char.ofNat 8), cs)
    | 'f' => .ok (some (Char.ofNat 12), cs)
    | 'n' => .ok (some '\n', cs)
    | 'r' => .ok (some '\r', cs)
    | 't' => .ok (some '\t', cs)
    | 'u' =>
      match hex4? cs with
      | none => if cs.length < 4 then .error ⟨.eofInString, []⟩ else .error ⟨.invalidEscape, cs⟩
      | some (n, rest) =>
        if 0xd800 ≤ n ∧ n < 0xdc00 then
          match lowHalf? rest with
          | some (low, rest) =>
            .ok (some (Char.ofNat (0x10000 + (n - 0xd800) * 1024 + (low - 0xdc00))), rest)
          | none => .ok (none, rest)
        else if 0xdc00 ≤ n ∧ n < 0xe000 then .ok (none, rest)
        else .ok (some (Char.ofNat n), rest)
    | _ => .error ⟨.invalidEscape, cs⟩

/-- Reads a string up to its closing quote, given the characters read so far in reverse; `none`
    stands for a string with half of a surrogate pair. -/
def readString (read : Option (List Char)) :
    Nat → List Char → Except Failure (Option String × List Char)
  | _, [] => .error ⟨.eofInString, []⟩
  | 0, _ :: _ => .error ⟨.eofInString, []⟩
  | fuel + 1, c :: cs =>
    if c = '\"' then .ok (read.map fun r => String.ofList r.reverse, cs)
    else if c = '\\' then do
      let (escaped, rest) ← readEscape cs
      readString (do return (← escaped) :: (← read)) fuel rest
    else if c.toNat < 32 then .error ⟨.controlCharacter, cs⟩
    else readString (read.map (c :: ·)) fuel cs

/-! ### Values -/

/-- Reads the key of a field and the colon behind it; `none` stands for a broken key. -/
def readKey (cs : List Char) : Except Failure (Option String × List Char) :=
  match cs with
  | '\"' :: cs => do
    let (key, rest) ← readString (some []) cs.length cs
    match skipSpace rest with
    | ':' :: rest => return (key, rest)
    | [] => .error ⟨.eofInObject, []⟩
    | rest => .error ⟨.expectedColon, rest⟩
  | [] => .error ⟨.eofInObject, []⟩
  | cs => .error ⟨.keyNotString, cs⟩

mutual

/-- Reads a value.  Every value takes up a character at least, so the length of the text is
    enough `fuel`. -/
def readValue : Nat → List Char → Except Failure (Json × List Char)
  | 0, _ => .error ⟨.eofInValue, []⟩
  | fuel + 1, cs =>
    match skipSpace cs with
    | [] => .error ⟨.eofInValue, []⟩
    | c :: cs =>
      match c with
      | 'n' => readIdent .null "ull".toList cs
      | 't' => readIdent (.bool true) "rue".toList cs
      | 'f' => readIdent (.bool false) "alse".toList cs
      | '-' => readNumber true cs
      | '\"' => do
        let (s, rest) ← readString (some []) cs.length cs
        return (match s with | some s => .text s | none => .brokenText, rest)
      | '[' =>
        match skipSpace cs with
        | ']' :: rest => .ok (.array [], rest)
        | [] => .error ⟨.eofInList, []⟩
        | cs => do
          let (items, rest) ← readItems fuel cs
          return (.array items, rest)
      | '\x7b' =>
        match skipSpace cs with
        | '\x7d' :: rest => .ok (.object [], rest)
        | [] => .error ⟨.eofInObject, []⟩
        | cs => do
          let (fields, rest) ← readFields fuel cs
          return (match fields with | some fields => .object fields | none => .brokenObject, rest)
      | c => if c.isDigit then readNumber false (c :: cs) else .error ⟨.expectedValue, c :: cs⟩

/-- Reads the items of an array, of which there is one at least. -/
def readItems : Nat → List Char → Except Failure (List Json × List Char)
  | 0, _ => .error ⟨.eofInList, []⟩
  | fuel + 1, cs => do
    let (item, rest) ← readValue fuel cs
    match skipSpace rest with
    | ']' :: rest => return ([item], rest)
    | ',' :: rest =>
      match skipSpace rest with
      | ']' :: rest => .error ⟨.trailingComma, ']' :: rest⟩
      | [] => .error ⟨.eofInValue, []⟩
      | rest => do
        let (items, rest) ← readItems fuel rest
        return (item :: items, rest)
    | [] => .error ⟨.eofInList, []⟩
    | rest => .error ⟨.expectedListEnd, rest⟩

/-- Reads the fields of an object, of which there is one at least; `none` stands for fields of
    which one has a broken key. -/
def readFields : Nat → List Char → Except Failure (Option (List (String × Json)) × List Char)
  | 0, _ => .error ⟨.eofInObject, []⟩
  | fuel + 1, cs => do
    let (key, rest) ← readKey cs
    let (value, rest) ← readValue fuel rest
    match skipSpace rest with
    | '\x7d' :: rest => return (do return [(← key, value)], rest)
    | ',' :: rest =>
      match skipSpace rest with
      | '\x7d' :: rest => .error ⟨.trailingComma, '\x7d' :: rest⟩
      | [] => .error ⟨.eofInValue, []⟩
      | rest => do
        let (fields, rest) ← readFields fuel rest
        return (do return (← key, value) :: (← fields), rest)
    | [] => .error ⟨.eofInObject, []⟩
    | rest => .error ⟨.expectedObjectEnd, rest⟩

end

/-! ### Whole texts -/

/-- Why a text is no JSON value: the flaw, and the line and the column where it shows. -/
structure SyntaxError where
  flaw : Flaw
  line : Nat
  column : Nat
  deriving DecidableEq, Repr

/-- The error in words. -/
def SyntaxError.message (e : SyntaxError) : String :=
  s!"{e.flaw.message} at line {e.line} column {e.column}"

/-- The error of a failure.  The column counts bytes and points at the character that shows the
    flaw, or at the last one where the text stops too early. -/
def Failure.toError (f : Failure) (text : List Char) : SyntaxError :=
  let upTo := text.take (text.length - f.rest.length + 1)
  let lastLine := (upTo.reverse.takeWhile (· ≠ '\n')).reverse
  ⟨f.flaw, 1 + upTo.count '\n', (String.ofList lastLine).utf8ByteSize⟩

/-- Reads the text of one value. -/
def parse (text : String) : Except SyntaxError Json :=
  let cs := text.toList
  match readValue (cs.length + 1) cs with
  | .error f => .error (f.toError cs)
  | .ok (value, rest) =>
    match skipSpace rest with
    | [] => .ok value
    | rest => .error ((Failure.mk .trailingCharacters rest).toError cs)

end Timeshare.Json
