import Isolate.Archive.Header

/-!
# Names inside archives

A name is stored component by component in the name field of a header:

* `Archive.components`: the components of a path, without repeated slashes and needless dots;
* `Archive.store`: what is stored of a name, or why it cannot be stored and how much of it was;
* `Archive.wholePrefix`: the beginning of a name that fits the field, in whole characters.
-/

namespace Isolate.Archive

/-- Why a name cannot be stored. -/
inductive NameFault where
  | noComponent
  | parent
  | absolute
  | nul
  | tooLong
  deriving DecidableEq, Repr

/-- The wording of a fault. -/
def NameFault.message : NameFault → String
  | .noComponent => "paths in archives must have at least one component"
  | .parent => "paths in archives must not have `..`"
  | .absolute => "paths in archives must be relative"
  | .nul => "provided value contains a nul byte"
  | .tooLong => "provided value is too long"

/-- One step of a path. -/
inductive Component where
  | root
  | current
  | parent
  | normal (name : List Char)
  deriving DecidableEq, Repr

/-- The characters of a component. -/
def Component.text : Component → List Char
  | .root => ['/']
  | .current => ['.']
  | .parent => ['.', '.']
  | .normal name => name

/-- The parts of a path between slashes; two slashes in a row enclose an empty part. -/
def parts : List Char → List (List Char)
  | [] => [[]]
  | c :: cs =>
    if c = '/' then [] :: parts cs
    else match parts cs with
      | p :: ps => (c :: p) :: ps
      | [] => [[c]]

/-- The component of a part; a dot means something only at the start of a path. -/
def Component.ofPart (atStart : Bool) (p : List Char) : Option Component :=
  if p = [] then none
  else if p = ['.'] then if atStart then some .current else none
  else if p = ['.', '.'] then some .parent
  else some (.normal p)

/-- The components of a path. -/
def components (path : List Char) : List Component :=
  match parts path with
  | [] => []
  | p :: ps =>
    let rest := ps.filterMap (Component.ofPart false)
    if path.head? = some '/' then .root :: rest
    else (Component.ofPart true p).toList ++ rest

/-- How many bytes the characters take. -/
def byteCount : List Char → Nat
  | [] => 0
  | c :: cs => c.utf8Size + byteCount cs

/-- Adds characters to what is stored. -/
def put (stored cs : List Char) : Except (NameFault × List Char) (List Char) :=
  if nameSize < byteCount stored + byteCount cs then .error (.tooLong, stored)
  else if cs.contains '\x00' then .error (.nul, stored)
  else .ok (stored ++ cs)

/-- Stores components one after the other. The parent directory is refused, except as the last
component of a name that was cut short. -/
def storeComponents (cut alone : Bool) :
    List Char → List Component → Except (NameFault × List Char) (List Char)
  | stored, [] => .ok stored
  | stored, c :: cs => do
    match c with
    | .root => .error (.absolute, stored)
    | .parent => if cut && cs.isEmpty then pure () else .error (.parent, stored)
    | _ => pure ()
    if c = .current && !alone then storeComponents cut alone stored cs
    else
      let stored ← if stored.isEmpty then pure stored else put stored ['/']
      let stored ← put stored c.text
      storeComponents cut alone stored cs

/-- What the name field holds of a path: its components with single slashes between them, and a
slash at the end if the path has one. -/
def store (cut : Bool) (path : List Char) : Except (NameFault × List Char) (List Char) := do
  let cs := components path
  let stored ← storeComponents cut (cs.length = 1) [] cs
  if stored.isEmpty then .error (.noComponent, stored)
  else if path.getLast? = some '/' then put stored ['/']
  else pure stored

/-- The longest beginning of a text that takes at most so many bytes. -/
def wholePrefix : Nat → List Char → List Char
  | _, [] => []
  | room, c :: cs => if c.utf8Size ≤ room then c :: wholePrefix (room - c.utf8Size) cs else []

end Isolate.Archive
