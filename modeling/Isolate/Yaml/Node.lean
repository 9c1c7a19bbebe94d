import Isolate.Data

/-!
# Nodes of YAML documents

* `Yaml.Node`: a value of a document; unlike a tree it can have keys of every kind, and a
  floating-point number is kept as it is written;
* `Yaml.Node.ofPlain`, `Yaml.Node.ofTagged`: what a word without quotes stands for;
* `Yaml.Node.tableOf`: the table of keys and values that come in turn;
* `Yaml.Node.toData?`: the tree of a node.
-/

namespace Isolate.Yaml

/-- A value of a document. -/
inductive Node where
  | null
  | bool (b : Bool)
  | int (n : Int)
  | float (written : String)
  | text (s : String)
  | list (items : List Node)
  | table (entries : List (Node × Node))
  /-- A word that does not fit its tag, or a name that is used within the node it stands for. -/
  | misfit
  deriving Inhabited

namespace Node

/-- Integers have 64 bits. -/
def int64? (n : Int) : Option Int := if isInt64 n then some n else none

/-- The integer of digits to a base, with an optional sign. -/
def readBase (base : Nat) (cs : List Char) : Option Int := do
  let (negative, ds) := Numeral.splitSign cs
  let isDigit (c : Char) : Bool := match hexDigitValue? c with
    | some d => decide (d < base)
    | none => false
  if ds.isEmpty || !ds.all isDigit then none
  else
    let n : Int := digitsValue base ds
    int64? (if negative then -n else n)

/-- A decimal integer with an optional sign. -/
def decimal? (cs : List Char) : Option Int := (Numeral.readInt cs).bind int64?

/-- A word that stands for an integer in one of the forms with a mark of their own. -/
def marked? : List Char → Option Int
  | '0' :: 'x' :: cs => readBase 16 cs
  | '0' :: 'o' :: cs => readBase 8 cs
  | '+' :: cs => decimal? cs
  | _ => none

/-- The words for infinity and for no number. -/
def floatWords : List String :=
  [".inf", ".Inf", ".INF", "+.inf", "+.Inf", "+.INF", "-.inf", "-.Inf", "-.INF",
    ".nan", ".NaN", ".NAN"]

/-- The word stands for a floating-point number. -/
def isFloat (s : String) : Bool :=
  floatWords.contains s ||
    (s.toList.any isDecimalDigit && (Numeral.readFloat s.toList).isSome)

/-- A truth value is written in small letters, in capitals, or with one capital. -/
def truth? (s : String) : Option Bool :=
  if s = "true" ∨ s = "True" ∨ s = "TRUE" then some true
  else if s = "false" ∨ s = "False" ∨ s = "FALSE" then some false
  else none

/-- What a word without quotes stands for. -/
def ofPlain (s : String) : Node :=
  match marked? s.toList with
  | some n => .int n
  | none =>
    if s = "" ∨ s = "~" ∨ s = "null" then .null
    else match truth? s with
      | some b => .bool b
      | none =>
        match decimal? s.toList with
        | some n => .int n
        | none => if isFloat s then .float s else .text s

/-- The beginning of the tags that are known. -/
def coreTag : String := "tag:yaml.org,2002:"

/-- What a word without quotes stands for under a tag of a family. A word that does not fit a tag
that is known is a misfit. -/
def ofTagged (family suffix : String) (s : String) : Node :=
  if family ≠ coreTag then .text s
  else if suffix = "bool" then (truth? s).elim .misfit .bool
  else if suffix = "int" then (decimal? s.toList).elim .misfit .int
  else if suffix = "float" then if isFloat s then .float s else .misfit
  else if suffix = "null" then if s = "~" ∨ s = "null" then .null else .misfit
  else .text s

mutual

/-- The nodes are the same. -/
def same : Node → Node → Bool
  | .null, .null => true
  | .bool a, .bool b => a == b
  | .int a, .int b => a == b
  | .float a, .float b => a == b
  | .text a, .text b => a == b
  | .list as, .list bs => sameItems as bs
  | .table as, .table bs => sameEntries as bs
  | .misfit, .misfit => true
  | _, _ => false

/-- The items are the same. -/
def sameItems : List Node → List Node → Bool
  | [], [] => true
  | a :: as, b :: bs => same a b && sameItems as bs
  | _, _ => false

/-- The entries are the same. -/
def sameEntries : List (Node × Node) → List (Node × Node) → Bool
  | [], [] => true
  | (k, a) :: as, (l, b) :: bs => same k l && same a b && sameEntries as bs
  | _, _ => false

end

/-- The entries after `entries` whose keys and values come in turn, the next key being read already
if it is given. Every key must be new. A misfit is no key: the next node takes its place. -/
def pairUp (key : Option Node) (entries : List (Node × Node)) :
    List Node → Option (List (Node × Node))
  | [] => some entries
  | n :: ns =>
    match key with
    | none => pairUp (match n with | .misfit => none | n => some n) entries ns
    | some k =>
      if entries.any (fun e => e.1.same k) then none else pairUp none (entries ++ [(k, n)]) ns

/-- The table of keys and values that come in turn. -/
def tableOf (ns : List Node) : Option Node := (pairUp none [] ns).map .table

/-- The text of a key. -/
def keyText? : Node → Option String
  | .text s => some s
  | .int n => some (toString n)
  | .bool b => some (if b then "true" else "false")
  | .float written => some written
  | _ => none

mutual

/-- The tree of a node. A number must be one that can be read, and so must a key. -/
def toData? : Node → Option Data
  | .null => some .null
  | .misfit => some .null
  | .bool b => some (.bool b)
  | .int n => some (.int n)
  | .float written => (Numeral.readFloat written.toList).map .float
  | .text s => some (.text s)
  | .list items => (itemsData? items).map .list
  | .table entries => (entriesData? entries).map .table

/-- The trees of some nodes. -/
def itemsData? : List Node → Option (List Data)
  | [] => some []
  | item :: items => do
    let d ← toData? item
    let ds ← itemsData? items
    some (d :: ds)

/-- The trees of some entries. -/
def entriesData? : List (Node × Node) → Option (List (String × Data))
  | [] => some []
  | (key, value) :: entries => do
    let key ← keyText? key
    let d ← toData? value
    let ds ← entriesData? entries
    some ((key, d) :: ds)

end

end Node

end Isolate.Yaml
