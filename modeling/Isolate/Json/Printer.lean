import Isolate.Data

/-!
# Writing JSON documents

* `Json.quoted`: a string in quotes;
* `Json.compact`: a tree on one line without blanks;
* `Json.pretty`: a tree with one entry or item on each line.
-/

namespace Isolate.Json

/-- A digit of a hexadecimal escape. -/
def hexDigit (n : Nat) : Char := (Nat.toDigits 16 n).headD '0'

/-- What is written for a character of a string: quotes, backslashes and control characters are
escaped, all else stands for itself. -/
def escaped (c : Char) : List Char :=
  match c with
  | '"' => ['\\', '"']
  | '\\' => ['\\', '\\']
  | '\x08' => ['\\', 'b']
  | '\x0c' => ['\\', 'f']
  | '\n' => ['\\', 'n']
  | '\r' => ['\\', 'r']
  | '\t' => ['\\', 't']
  | c =>
    if c.toNat < 0x20 then
      ['\\', 'u', '0', '0', hexDigit (c.toNat / 16), hexDigit (c.toNat % 16)]
    else [c]

/-- A string in quotes. -/
def quoted (s : String) : List Char := '"' :: (s.toList.flatMap escaped ++ ['"'])

/-- An integer. -/
def integer (n : Int) : List Char :=
  if n < 0 then '-' :: decimalDigits n.natAbs else decimalDigits n.natAbs

/-- A floating-point number; what is none is written as null. -/
def float (x : Binary64) : List Char :=
  if x.isFinite then (x.text .json).toList else "null".toList

/-- How the parts of lists and tables are set apart at a depth. -/
structure Style where
  /-- Written before each item and, at the outer depth, before the closing bracket. -/
  newline : Nat → List Char
  /-- Written between a key and its value. -/
  colon : List Char

/-- Nothing is set apart. -/
def Style.compact : Style := ⟨fun _ => [], [':']⟩

/-- Every item is on its own line, indented by two blanks for each depth. -/
def Style.pretty : Style := ⟨fun depth => '\n' :: List.replicate (2 * depth) ' ', [':', ' ']⟩

mutual

/-- The text of a tree at a depth. -/
def write (style : Style) (depth : Nat) : Data → List Char
  | .null => "null".toList
  | .bool b => (if b then "true" else "false").toList
  | .int n => integer n
  | .float x => float x
  | .text s => quoted s
  | .list [] => ['[', ']']
  | .list (item :: items) =>
    '[' :: (style.newline (depth + 1) ++ write style (depth + 1) item ++
      writeItems style (depth + 1) items ++ style.newline depth ++ [']'])
  | .table [] => ['{', '}']
  | .table ((key, value) :: entries) =>
    '{' :: (style.newline (depth + 1) ++ quoted key ++ style.colon ++
      write style (depth + 1) value ++ writeEntries style (depth + 1) entries ++
      style.newline depth ++ ['}'])

/-- The items of a list after the first. -/
def writeItems (style : Style) (depth : Nat) : List Data → List Char
  | [] => []
  | item :: items =>
    ',' :: (style.newline depth ++ write style depth item ++ writeItems style depth items)

/-- The entries of a table after the first. -/
def writeEntries (style : Style) (depth : Nat) : List (String × Data) → List Char
  | [] => []
  | (key, value) :: entries =>
    ',' :: (style.newline depth ++ quoted key ++ style.colon ++ write style depth value ++
      writeEntries style depth entries)

end

/-- A tree on one line without blanks. -/
def compact (d : Data) : String := String.ofList (write .compact 0 d)

/-- A tree with one entry or item on each line. -/
def pretty (d : Data) : String := String.ofList (write .pretty 0 d)

end Isolate.Json
