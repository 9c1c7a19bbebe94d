import Isolate.Yaml.Tokens

/-!
# Reading YAML documents

* `Yaml.readNode`: the document of a list of tokens, none if it has none;
* `Yaml.read`: the tree of the only document of a text.

What is left out of a document is null: a value without a key has that for its key, a key without a
value for its value.
-/

namespace Isolate.Yaml

/-- The tokens that are left, and what was said before them. -/
structure Progress where
  tokens : List Token
  /-- What the handles of tags stand for. -/
  handles : List (String × String)
  /-- The names given so far, the last one first. -/
  anchors : List String
  /-- The nodes with names that are finished, by the number of names given before. -/
  nodes : List (Nat × Node)

/-- Reads something off the front of the tokens. -/
abbrev Reader := StateT Progress Option

/-- The next token. -/
def peek : Reader (Option Token) := do pure (← get).tokens.head?

/-- Passes over a token. -/
def skipToken : Reader Unit := modify fun p => { p with tokens := p.tokens.drop 1 }

/-- One of the given tokens is next. -/
def atToken (ts : List Token) : Reader Bool := do pure ((← peek).any ts.contains)

/-- What may stand before a node: the number of its name, and a tag that says what it is. -/
structure Properties where
  anchor : Option Nat
  tag : Option (String × String)

/-- The family and the rest of a tag. A handle with both its exclamation marks must be known. -/
def family? (handles : List (String × String)) (handle suffix : String) :
    Option (String × String) :=
  if handle = "!!" then some ((handles.lookup "!!").getD Node.coreTag, suffix)
  else match handles.lookup handle with
    | some family => some (family, suffix)
    | none => if isClosedHandle handle.toList then none else some (handle, suffix)

/-- Reads a name for the node that follows. -/
def anchor? : Reader (Option Nat) := do
  match ← peek with
  | some (.anchor name) =>
    skipToken
    let count := (← get).anchors.length
    modify fun p => { p with anchors := name :: p.anchors }
    pure (some count)
  | _ => pure none

/-- Reads a tag for the node that follows. -/
def tag? : Reader (Option (String × String)) := do
  match ← peek with
  | some (.tag handle suffix) =>
    skipToken
    let tag ← (family? (← get).handles handle suffix : Option (String × String))
    pure (some tag)
  | _ => pure none

/-- Reads what stands before a node, in any order. -/
def properties : Reader Properties := do
  match ← anchor? with
  | some n => pure ⟨some n, ← tag?⟩
  | none =>
    match ← tag? with
    | some tag => pure ⟨← anchor?, some tag⟩
    | none => pure ⟨none, none⟩

/-- Gives a node its name. -/
def finish (p : Properties) (n : Node) : Reader Node := do
  match p.anchor with
  | some number => modify fun s => { s with nodes := (number, n) :: s.nodes }
  | none => pure ()
  pure n

/-- What a word without quotes stands for. -/
def plainNode (p : Properties) (s : String) : Node :=
  match p.tag with
  | some (family, suffix) => Node.ofTagged family suffix s
  | none => Node.ofPlain s

/-- The node that a name stands for; within that node the name stands for nothing. -/
def referenced? (p : Progress) (name : String) : Option Node :=
  let given := p.anchors.dropWhile (· != name)
  if given.isEmpty then none else some ((p.nodes.lookup (given.length - 1)).getD .misfit)

mutual

/-- Reads a node. With `block` it may be laid out by its indentation, and with `level` it may be a
list with the indentation of the table around it. -/
def node (block level : Bool) : Nat → Reader Node
  | 0 => failure
  | fuel + 1 => do
    match ← peek with
    | some (.reference name) =>
      skipToken
      (referenced? (← get) name : Option Node)
    | _ =>
      let p ← properties
      match ← peek with
      | some (.scalar plain s) =>
        skipToken
        finish p (if plain then plainNode p s else .text s)
      | some .flowList =>
        skipToken
        let ns ← flowItems true fuel []
        finish p (.list ns)
      | some .flowTable =>
        skipToken
        let n ← (Node.tableOf (← flowEntries true fuel []) : Option Node)
        finish p n
      | t =>
        if t = some .item && level then
          let ns ← levelItems fuel []
          finish p (.list ns)
        else if t = some .blockList && block then
          skipToken
          let ns ← blockItems fuel []
          finish p (.list ns)
        else if t = some .blockTable && block then
          skipToken
          let n ← (Node.tableOf (← blockEntries fuel []) : Option Node)
          finish p n
        else if p.tag.isSome || p.anchor.isSome then finish p (plainNode p "")
        else failure

/-- Reads a node unless one of the given tokens is next. -/
def nodeUnless (ends : List Token) (block level : Bool) : Nat → Reader Node
  | 0 => failure
  | fuel + 1 => do
    if ← atToken ends then pure .null else node block level fuel

/-- Reads the items of a list up to its closing bracket. -/
def flowItems (first : Bool) : Nat → List Node → Reader (List Node)
  | 0, _ => failure
  | fuel + 1, ns => do
    if ← atToken [.flowListEnd] then
      skipToken
      pure ns
    else
      if !first then
        if !(← atToken [.comma]) then failure
        skipToken
      match ← peek with
      | some .flowListEnd =>
        skipToken
        pure ns
      | some .key =>
        skipToken
        let n ← flowPair fuel
        flowItems false fuel (ns ++ [n])
      | _ =>
        let n ← node false false fuel
        flowItems false fuel (ns ++ [n])

/-- Reads a table of one entry in a list between brackets, after the mark before its key. The token
after a key that is left out is passed over. -/
def flowPair : Nat → Reader Node
  | 0 => failure
  | fuel + 1 => do
    let k ←
      if ← atToken [.value, .comma, .flowListEnd] then
        skipToken
        pure Node.null
      else node false false fuel
    let v ← flowValue .flowListEnd fuel
    (Node.tableOf [k, v] : Option Node)

/-- Reads a value between brackets, which may be left out, with the mark before it. -/
def flowValue (closing : Token) : Nat → Reader Node
  | 0 => failure
  | fuel + 1 => do
    if ← atToken [.value] then
      skipToken
      nodeUnless [.comma, closing] false false fuel
    else pure .null

/-- Reads the keys and values of a table up to its closing brace. -/
def flowEntries (first : Bool) : Nat → List Node → Reader (List Node)
  | 0, _ => failure
  | fuel + 1, ns => do
    if ← atToken [.flowTableEnd] then
      skipToken
      pure ns
    else
      if !first then
        if !(← atToken [.comma]) then failure
        skipToken
      match ← peek with
      | some .flowTableEnd =>
        skipToken
        pure ns
      | some .key =>
        skipToken
        let k ← nodeUnless [.value, .comma, .flowTableEnd] false false fuel
        let v ← flowValue .flowTableEnd fuel
        flowEntries false fuel (ns ++ [k, v])
      | some .value =>
        let v ← flowValue .flowTableEnd fuel
        flowEntries false fuel (ns ++ [.null, v])
      | _ =>
        let k ← node false false fuel
        flowEntries false fuel (ns ++ [k, .null])

/-- Reads the items of a list that has the indentation of the table around it. -/
def levelItems : Nat → List Node → Reader (List Node)
  | 0, _ => failure
  | fuel + 1, ns => do
    if ← atToken [.item] then
      skipToken
      let n ← nodeUnless [.item, .key, .value, .blockEnd] true false fuel
      levelItems fuel (ns ++ [n])
    else pure ns

/-- Reads the items of a list to its end. -/
def blockItems : Nat → List Node → Reader (List Node)
  | 0, _ => failure
  | fuel + 1, ns => do
    match ← peek with
    | some .blockEnd =>
      skipToken
      pure ns
    | some .item =>
      skipToken
      let n ← nodeUnless [.item, .blockEnd] true false fuel
      blockItems fuel (ns ++ [n])
    | _ => failure

/-- Reads the keys and values of a table to its end. -/
def blockEntries : Nat → List Node → Reader (List Node)
  | 0, _ => failure
  | fuel + 1, ns => do
    match ← peek with
    | some .blockEnd =>
      skipToken
      pure ns
    | some .key =>
      skipToken
      let k ← nodeUnless [.key, .value, .blockEnd] true true fuel
      let v ← blockValue fuel
      blockEntries fuel (ns ++ [k, v])
    | some .value =>
      let v ← blockValue fuel
      blockEntries fuel (ns ++ [.null, v])
    | _ => failure

/-- Reads a value, which may be left out, with the mark before it. -/
def blockValue : Nat → Reader Node
  | 0 => failure
  | fuel + 1 => do
    if ← atToken [.value] then
      skipToken
      nodeUnless [.key, .value, .blockEnd] true true fuel
    else pure .null

end

/-- Reads the directives of a document. There is one version at most, and of the handles only that of
the last directive stays. -/
def directives (versioned : Bool) : List Token → List (String × String) →
    Option (List (String × String) × List Token)
  | .version :: ts, _ => if versioned then none else directives true ts []
  | .handle handle family :: ts, _ => directives versioned ts [(handle, family)]
  | ts, handles => some (handles, ts)

/-- The tokens after the marks that end a document. -/
def skipEnds (ts : List Token) : List Token := ts.dropWhile (· == .documentEnd)

/-- No node stands here. -/
def atEnd : List Token → Bool
  | [] => true
  | .version :: _ => true
  | .handle _ _ :: _ => true
  | .documentStart :: _ => true
  | .documentEnd :: _ => true
  | _ => false

/-- The only document of a list of tokens; there need not be one. -/
def readNode (ts : List Token) : Option (Option Node) :=
  let fuel := 4 * ts.length + 4
  let only (r : Option (Node × Progress)) : Option (Option Node) := do
    let (n, p) ← r
    if (skipEnds p.tokens).isEmpty then some (some n) else none
  let ts := skipEnds ts
  if ts.isEmpty then some none
  else if !atEnd ts then only ((node true false fuel).run ⟨ts, [], [], []⟩)
  else do
    let (handles, ts) ← directives false ts []
    match ts with
    | .documentStart :: ts =>
      if atEnd ts then only (some (.null, ⟨ts, [], [], []⟩))
      else only ((node true false fuel).run ⟨ts, handles, [], []⟩)
    | _ => none

/-- The tree of the only document of a text; without a document it is an empty table. -/
def read (text : String) : Option Data := do
  match ← readNode (← tokens? (unifyBreaks text.toList)) with
  | some n => n.toData?
  | none => some (.table [])

end Isolate.Yaml
