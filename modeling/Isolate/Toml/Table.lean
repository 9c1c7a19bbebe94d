import Isolate.Data

/-!
# Tables under construction

A TOML document fills a tree of tables piece by piece, and every piece may be given only once:

* `Toml.Node`: what is under a key so far, and for a table how it came to be;
* `Toml.Entries.define`: gives a key its value;
* `Toml.Entries.open`, `Toml.Entries.append`: a table header and a header of a table in a list;
* `Toml.Entries.toData`: the finished tree.
-/

namespace Isolate.Toml

/-- How a table came to be. -/
inductive Origin where
  /-- It has a header of its own. -/
  | header
  /-- It stands above a table with a header. -/
  | above
  /-- It stands before a dot in a key. -/
  | dotted
  deriving DecidableEq, Repr

/-- What is under a key so far. -/
inductive Node where
  /-- A finished value; nothing can be added to it. -/
  | value (d : Data)
  | table (origin : Origin) (entries : List (String × Node))
  /-- The tables of a list, the last one first. -/
  | tables (items : List (List (String × Node)))
  deriving Inhabited

/-- The keys of a table with what is under them. -/
abbrev Entries := List (String × Node)

/-- Puts a node under a key. -/
def Entries.put (key : String) (node : Node) : Entries → Entries
  | [] => [(key, node)]
  | e :: es => if e.1 = key then (key, node) :: es else e :: Entries.put key node es

/-- Goes down along keys and changes the table found there. With `dotted` the way is that of a
dotted key, which may not enter tables that have a header. -/
def Entries.change (dotted : Bool) (leaf : Origin → Entries → Option Entries) :
    List String → Origin → Entries → Option Entries
  | [], origin, es => leaf origin es
  | key :: keys, _, es =>
    match es.lookup key with
    | none =>
      let origin := if dotted then .dotted else .above
      (Entries.change dotted leaf keys origin []).map fun sub => es ++ [(key, .table origin sub)]
    | some (.table origin sub) =>
      if dotted && origin = .header then none
      else (Entries.change dotted leaf keys origin sub).map fun sub =>
        Entries.put key (.table origin sub) es
    | some (.tables (item :: items)) =>
      (Entries.change dotted leaf keys .header item).map fun item =>
        Entries.put key (.tables (item :: items)) es
    | some (.tables []) => none
    | some (.value _) => none

/-- Gives a key of the table at a path its value. A dotted key may not add to a table with a header, a
plain one not to a table that dotted keys made. -/
def Entries.define (path : List String) (key : List String) (d : Data) (es : Entries) :
    Option Entries :=
  match key.getLast? with
  | none => none
  | some last =>
    let above := key.dropLast
    let add (origin : Origin) (es : Entries) : Option Entries :=
      if (if above.isEmpty then origin = .dotted else origin = .header) then none
      else if (es.lookup last).isSome then none
      else some (es ++ [(last, .value d)])
    Entries.change false (Entries.change true add above) path .header es

/-- Opens the table at a path by its header. -/
def Entries.open (path : List String) (es : Entries) : Option Entries :=
  match path.getLast? with
  | none => none
  | some last =>
    let add (_ : Origin) (es : Entries) : Option Entries :=
      match es.lookup last with
      | none => some (es ++ [(last, .table .header [])])
      | some (.table .above sub) => some (Entries.put last (.table .header sub) es)
      | some _ => none
    Entries.change false add path.dropLast .header es

/-- Adds an empty table to the list of tables at a path. -/
def Entries.append (path : List String) (es : Entries) : Option Entries :=
  match path.getLast? with
  | none => none
  | some last =>
    let add (_ : Origin) (es : Entries) : Option Entries :=
      match es.lookup last with
      | none => some (es ++ [(last, .tables [[]])])
      | some (.tables items) => some (Entries.put last (.tables ([] :: items)) es)
      | some _ => none
    Entries.change false add path.dropLast .header es

mutual

/-- The finished value of a node. -/
def Node.toData : Node → Data
  | .value d => d
  | .table _ entries => .table (Entries.toList entries)
  | .tables items => .list (Entries.toLists items).reverse

/-- The finished entries of a table. -/
def Entries.toList : List (String × Node) → List (String × Data)
  | [] => []
  | (key, node) :: es => (key, node.toData) :: Entries.toList es

/-- The finished tables of a list, in the order of the nodes. -/
def Entries.toLists : List (List (String × Node)) → List Data
  | [] => []
  | es :: rest => .table (Entries.toList es) :: Entries.toLists rest

end

/-- The finished table. -/
def Entries.toData (es : Entries) : Data := .table (Entries.toList es)

end Isolate.Toml
