import Isolate.Json.Decoder

/-!
# Documents of a known shape

* `Json.Shape`: what a document must look like;
* `Json.Shape.read`: the tree of a document of a shape, or its first fault.

An object may be written as a list of all its fields in order. Fields that are not known are passed
over, and no field may be given twice.
-/

namespace Isolate.Json

/-- What a value must look like. -/
inductive Shape where
  | truth
  | text
  /-- An integer of 64 bits with its sign. -/
  | integer
  | list (item : Shape)
  /-- Null is as good as a value. -/
  | optional (value : Shape)
  /-- An object with fields, some of which it must have. -/
  | record (fields : List (String × Bool × Shape))

namespace Shape

/-- A field that an object must have. -/
def required (name : String) (s : Shape) : String × Bool × Shape := (name, true, s)

/-- A field that may be missing or null. -/
def free (name : String) (s : Shape) : String × Bool × Shape := (name, false, .optional s)

/-- An object has all the fields that it must have. -/
def isComplete (fields : List (String × Bool × Shape)) (given : List (String × Data)) : Bool :=
  fields.all fun (name, needed, _) => !needed || (given.lookup name).isSome

mutual

/-- Reads a value of a shape. -/
def decode : Nat → Shape → List Char → Except Fault (Data × List Char)
  | 0, _, _ => .error .grammar
  | fuel + 1, s, cs =>
    match s with
    | .truth => (readTruth cs).map fun (b, cs) => (.bool b, cs)
    | .text => (readText cs).map fun (t, cs) => (.text t, cs)
    | .integer => do
      let (n, cs) ← readInteger cs
      if isInt64 n then pure (.int n, cs) else .error .shape
    | .optional s => (readOptional (decode fuel s) cs).map fun (d, cs) => (d.getD .null, cs)
    | .list s =>
      match skipBlanks cs with
      | '[' :: cs => do
        let (items, cs) ← decodeItems fuel s true cs
        pure (.list items, cs)
      | cs => refuse cs
    | .record fields =>
      match skipBlanks cs with
      | '[' :: cs => do
        let (entries, cs) ← decodeFields fuel fields true cs
        pure (.table entries, cs)
      | '{' :: cs => do
        let (entries, cs) ← decodeEntries fuel fields true [] cs
        pure (.table entries, cs)
      | cs => refuse cs

/-- Reads the items of a list up to its closing bracket. -/
def decodeItems : Nat → Shape → Bool → List Char → Except Fault (List Data × List Char)
  | 0, _, _, _ => .error .grammar
  | fuel + 1, s, first, cs => do
    let (more, cs) ← nextItem first cs
    if more then
      let (d, cs) ← decode fuel s cs
      let (ds, cs) ← decodeItems fuel s false cs
      pure (d :: ds, cs)
    else
      let cs ← endList cs
      pure ([], cs)

/-- Reads the fields of an object that is written as a list. -/
def decodeFields :
    Nat → List (String × Bool × Shape) → Bool → List Char →
      Except Fault (List (String × Data) × List Char)
  | 0, _, _, _ => .error .grammar
  | _ + 1, [], _, cs => do
    let cs ← endList cs
    pure ([], cs)
  | fuel + 1, (name, _, s) :: fields, first, cs => do
    let (d, cs) ← requiredItem first (decode fuel s) cs
    let (entries, cs) ← decodeFields fuel fields false cs
    pure ((name, d) :: entries, cs)

/-- Reads the entries of an object after those in `given`. -/
def decodeEntries :
    Nat → List (String × Bool × Shape) → Bool → List (String × Data) → List Char →
      Except Fault (List (String × Data) × List Char)
  | 0, _, _, _, _ => .error .grammar
  | fuel + 1, fields, first, given, cs => do
    let (key, cs) ← nextKey first cs
    match key with
    | none => if isComplete fields given then pure (given.reverse, cs) else .error .shape
    | some key =>
      match fields.lookup key with
      | some (_, s) =>
        if (given.lookup key).isSome then .error .shape
        else
          let cs ← colon cs
          let (d, cs) ← decode fuel s cs
          decodeEntries fuel fields false ((key, d) :: given) cs
      | none =>
        let cs ← colon cs
        let cs ← passValue cs
        decodeEntries fuel fields false given cs

end

/-- The tree of a document of a shape. -/
def read (s : Shape) (text : String) : Except Fault Data := do
  let cs := text.toList
  let (d, rest) ← decode (2 * cs.length + 8) s cs
  if (skipBlanks rest).isEmpty then pure d else .error .grammar

end Shape

end Isolate.Json
