import Isolate.Number.Decimal

/-!
# Trees of values

`Data` is what a configuration text or a JSON document says, whatever its format.
-/

namespace Isolate

/-- A value of a document. A table keeps its entries in the order of the document. -/
inductive Data where
  | null
  | bool (b : Bool)
  | int (n : Int)
  | float (x : Binary64)
  | text (s : String)
  | list (items : List Data)
  | table (entries : List (String × Data))
  deriving Inhabited, Repr

namespace Data

/-- A list of strings. -/
def texts (ss : List String) : Data := .list (ss.map .text)

/-- The last value under a key. -/
def lastUnder (key : String) (entries : List (String × Data)) : Option Data :=
  entries.foldl (fun found e => if e.1 = key then some e.2 else found) none

/-- The value under a key of a table. -/
def get? (key : String) : Data → Option Data
  | .table entries => lastUnder key entries
  | _ => none

/-- The entries with the value under a key replaced, or added at the end. -/
def put (key : String) (value : Data) : List (String × Data) → List (String × Data)
  | [] => [(key, value)]
  | e :: es => if e.1 = key then (key, value) :: es else e :: put key value es

/-- Entries in which every key occurs once; of several values the last one counts. -/
def distinct (entries : List (String × Data)) : List (String × Data) :=
  entries.foldl (fun es e => put e.1 e.2 es) []

/-- The entries of a table. -/
def entries? : Data → Option (List (String × Data))
  | .table entries => some entries
  | _ => none

mutual

/-- A tree in whose tables every key occurs once. -/
def settled : Data → Data
  | .table entries => .table (distinct (settledEntries entries))
  | .list items => .list (settledItems items)
  | .null => .null
  | .bool b => .bool b
  | .int n => .int n
  | .float x => .float x
  | .text s => .text s

/-- The items of a list, each settled. -/
def settledItems : List Data → List Data
  | [] => []
  | d :: ds => settled d :: settledItems ds

/-- The entries of a table, each settled. -/
def settledEntries : List (String × Data) → List (String × Data)
  | [] => []
  | (key, d) :: es => (key, settled d) :: settledEntries es

end

end Data

end Isolate
