import Ostinato.Yaml.Scalar
import Ostinato.Yaml.Token

/-!
# Nodes

The nodes that the tokens of a document make. Lists and mappings come in blocks and in brackets, and
what is left out is null. A node may have a tag, and a name under which it is repeated, also inside
itself; so nodes refer to each other by their numbers.
-/

namespace Ostinato.Yaml

abbrev NodeId := Nat

abbrev Entry := NodeId × NodeId

inductive Node where
  | scalar (tag : Tag) (text : List Char)
  | list (tag : Tag) (items : List NodeId)
  | map (tag : Tag) (entries : List Entry)

namespace Node

def empty : Node := .scalar .null []

def tag : Node → Tag
  | scalar t _ => t
  | list t _ => t
  | map t _ => t

def withTag (t : Tag) : Node → Node
  | scalar _ s => scalar t s
  | list _ items => list t items
  | map _ entries => map t entries

end Node

/-- The tokens to come, the nodes so far, and what the names so far stand for. -/
structure Reading where
  tokens : List Token
  nodes : Array Node := #[]
  names : List (String × NodeId) := []

abbrev Parsed := Except Fault (NodeId × Reading)

/-- What the handles of tags stand for. -/
abbrev Handles := List (String × String)

/-- What is wrong with a token list that does not go on as it should. -/
def faultAt : List Token → Fault
  | .fault f :: _ => f
  | _ => .unexpectedToken

/-- Looks at the next token, which may be a fault. -/
def noFault : List Token → Except Fault Unit
  | .fault f :: _ => .error f
  | _ => .ok ()

namespace Reading

def drop (r : Reading) (n : Nat) : Reading :=
  { r with tokens := r.tokens.drop n }

/-- Whether the next token is one of some kinds; at the end it is none of them. -/
def isNext (r : Reading) (kinds : List Token) : Bool :=
  (r.tokens.head?.map kinds.contains).getD false

/-- Gives a name to the node that is added next. -/
def claim (r : Reading) : Option String → Except Fault Reading
  | none => .ok r
  | some name =>
    if (r.names.lookup name).isSome then .error .repeatedAnchor
    else .ok { r with names := (name, r.nodes.size) :: r.names }

def named (r : Reading) (name : String) : Except Fault NodeId :=
  match r.names.lookup name with
  | none => .error .undefinedAlias
  | some i => .ok i

def add (r : Reading) (n : Node) : NodeId × Reading :=
  (r.nodes.size, { r with nodes := r.nodes.push n })

def fillList (r : Reading) (i : NodeId) (items : List NodeId) : Reading :=
  { r with nodes := r.nodes.modify i fun n => .list n.tag items }

def fillMap (r : Reading) (i : NodeId) (entries : List Entry) : Reading :=
  { r with nodes := r.nodes.modify i fun n => .map n.tag entries }

end Reading

/-! ## Properties -/

structure Properties where
  anchor : Option String := none
  tag : Option TagName := none

namespace Properties

def isAny (p : Properties) : Bool :=
  p.anchor.isSome || p.tag.isSome

def isFull (p : Properties) : Bool :=
  p.anchor.isSome && p.tag.isSome

end Properties

def properties : List Token → Properties × List Token
  | .anchor a :: .tag t :: rest => (⟨some a, some t⟩, rest)
  | .tag t :: .anchor a :: rest => (⟨some a, some t⟩, rest)
  | .anchor a :: rest => (⟨some a, none⟩, rest)
  | .tag t :: rest => (⟨none, some t⟩, rest)
  | ts => ({}, ts)

/-- What a written tag says. The tag without a name leaves it to the spelling, as none does. -/
inductive Given where
  | nothing
  | spelling
  | tag (t : Tag)

/-- The tag that a name with a handle is short for. -/
def givenTag (handles : Handles) : Option TagName → Except Fault Given
  | none => .ok .nothing
  | some ⟨handle, rest⟩ => do
    let stem ← match handle with
      | none => pure ""
      | some h =>
        match handles.lookup h with
        | some stem => pure stem
        | none => .error .unknownHandle
    let name := stem ++ rest
    return if name == "!" then .spelling else .tag (.ofName name)

def Given.scalar (text : List Char) (plain : Bool) : Given → Tag
  | tag t => t
  | spelling => .ofSpelling text
  | nothing => if plain then .ofSpelling text else .text

/-- The tag of a list or a mapping. -/
def Given.orElse (fallback : Tag) : Given → Tag
  | tag t => t
  | _ => fallback

/-! ## Nodes from tokens

A list or a mapping is added before what it contains. `i` is its number from then on.
-/

mutual

/-- A node. After one property of it the next token is looked at before the tag is, as it may be the
other property. Blocks are only allowed where `block` holds, and the entries of a list may stand
without a block of their own where `bare` holds. -/
def node (handles : Handles) (fuel : Nat) (block bare : Bool) (r : Reading) : Parsed :=
  match fuel with
  | 0 => .error .unexpectedToken
  | fuel + 1 =>
    match r.tokens with
    | .alias name :: _ => do return (← r.named name, r.drop 1)
    | ts => do
      let (p, ts) := properties ts
      unless p.isFull do noFault ts
      let given ← givenTag handles p.tag
      noFault ts
      let r ← { r with tokens := ts }.claim p.anchor
      content handles fuel block bare p.isAny given r

/-- A node without its properties. Where there were some it may be left out. -/
def content (handles : Handles) (fuel : Nat) (block bare bound : Bool) (given : Given)
    (r : Reading) : Parsed :=
  match fuel with
  | 0 => .error .unexpectedToken
  | fuel + 1 =>
    match r.tokens, block, bare with
    | .scalar text plain :: _, _, _ =>
      .ok ((r.drop 1).add (.scalar (given.scalar text plain) text))
    | .openList :: _, _, _ =>
      let (i, r) := (r.drop 1).add (.list (given.orElse .list) [])
      flowList handles fuel true i [] r
    | .openMap :: _, _, _ =>
      let (i, r) := (r.drop 1).add (.map (given.orElse .map) [])
      flowMap handles fuel true i [] r
    | .entry :: _, _, true =>
      let (i, r) := r.add (.list (given.orElse .list) [])
      bareList handles fuel i [] r
    | .blockList :: _, true, _ =>
      let (i, r) := (r.drop 1).add (.list (given.orElse .list) [])
      blockList handles fuel i [] r
    | .blockMap :: _, true, _ =>
      let (i, r) := (r.drop 1).add (.map (given.orElse .map) [])
      blockMap handles fuel i [] r
    | ts, _, _ =>
      if bound then .ok (r.add (.scalar (given.scalar [] true) [])) else .error (faultAt ts)

/-- A node that may be left out before some tokens. -/
def optional (handles : Handles) (fuel : Nat) (block bare : Bool) (stops : List Token)
    (r : Reading) : Parsed :=
  match fuel with
  | 0 => .error .unexpectedToken
  | fuel + 1 => if r.isNext stops then .ok (r.add .empty) else node handles fuel block bare r

def blockList (handles : Handles) (fuel : Nat) (i : NodeId) (items : List NodeId) (r : Reading) :
    Parsed :=
  match fuel with
  | 0 => .error .unexpectedToken
  | fuel + 1 =>
    match r.tokens with
    | .entry :: _ => do
      let (n, r) ← optional handles fuel true false [.entry, .blockEnd] (r.drop 1)
      blockList handles fuel i (n :: items) r
    | .blockEnd :: _ => .ok (i, (r.drop 1).fillList i items.reverse)
    | ts => .error (faultAt ts)

/-- The entries of a list that stands at the indent of the mapping around it. -/
def bareList (handles : Handles) (fuel : Nat) (i : NodeId) (items : List NodeId) (r : Reading) :
    Parsed :=
  match fuel with
  | 0 => .error .unexpectedToken
  | fuel + 1 =>
    match r.tokens with
    | .entry :: _ => do
      let (n, r) ← optional handles fuel true false [.entry, .key, .colon, .blockEnd] (r.drop 1)
      bareList handles fuel i (n :: items) r
    | _ => .ok (i, r.fillList i items.reverse)

def blockMap (handles : Handles) (fuel : Nat) (i : NodeId) (entries : List Entry) (r : Reading) :
    Parsed :=
  match fuel with
  | 0 => .error .unexpectedToken
  | fuel + 1 =>
    match r.tokens with
    | .key :: _ => do
      let (k, r) ← optional handles fuel true true [.key, .colon, .blockEnd] (r.drop 1)
      let (v, r) ← blockValue handles fuel r
      blockMap handles fuel i ((k, v) :: entries) r
    | .blockEnd :: _ => .ok (i, (r.drop 1).fillMap i entries.reverse)
    | ts => .error (faultAt ts)

def blockValue (handles : Handles) (fuel : Nat) (r : Reading) : Parsed :=
  match fuel with
  | 0 => .error .unexpectedToken
  | fuel + 1 =>
    match r.tokens with
    | .colon :: _ => optional handles fuel true true [.key, .colon, .blockEnd] (r.drop 1)
    | _ => .ok (r.add .empty)

/-- A list in brackets from the next item on. `first` holds before any item. -/
def flowList (handles : Handles) (fuel : Nat) (first : Bool) (i : NodeId) (items : List NodeId)
    (r : Reading) : Parsed :=
  match fuel with
  | 0 => .error .unexpectedToken
  | fuel + 1 =>
    match first, r.tokens with
    | _, .closeList :: _ => .ok (i, (r.drop 1).fillList i items.reverse)
    | true, _ => flowItem handles fuel i items r
    | false, .comma :: .closeList :: _ => .ok (i, (r.drop 2).fillList i items.reverse)
    | false, .comma :: _ => flowItem handles fuel i items (r.drop 1)
    | false, ts => .error (faultAt ts)

/-- An item of a list in brackets. A key makes it a mapping of one entry. -/
def flowItem (handles : Handles) (fuel : Nat) (i : NodeId) (items : List NodeId) (r : Reading) :
    Parsed :=
  match fuel with
  | 0 => .error .unexpectedToken
  | fuel + 1 =>
    match r.tokens with
    | .key :: _ => do
      let (m, r) := (r.drop 1).add (.map .map [])
      let (k, r) ← optional handles fuel false false [.colon, .comma, .closeList] r
      let (v, r) ← flowValue handles fuel [.comma, .closeList] r
      flowList handles fuel false i (m :: items) (r.fillMap m [(k, v)])
    | _ => do
      let (n, r) ← node handles fuel false false r
      flowList handles fuel false i (n :: items) r

/-- The value of a key in brackets. -/
def flowValue (handles : Handles) (fuel : Nat) (stops : List Token) (r : Reading) : Parsed :=
  match fuel with
  | 0 => .error .unexpectedToken
  | fuel + 1 =>
    match r.tokens with
    | .colon :: _ => optional handles fuel false false stops (r.drop 1)
    | _ => .ok (r.add .empty)

/-- A mapping in braces from the next entry on. -/
def flowMap (handles : Handles) (fuel : Nat) (first : Bool) (i : NodeId) (entries : List Entry)
    (r : Reading) : Parsed :=
  match fuel with
  | 0 => .error .unexpectedToken
  | fuel + 1 =>
    match first, r.tokens with
    | _, .closeMap :: _ => .ok (i, (r.drop 1).fillMap i entries.reverse)
    | true, _ => flowEntry handles fuel i entries r
    | false, .comma :: .closeMap :: _ => .ok (i, (r.drop 2).fillMap i entries.reverse)
    | false, .comma :: _ => flowEntry handles fuel i entries (r.drop 1)
    | false, ts => .error (faultAt ts)

/-- An entry of a mapping in braces; a key without colon has no value. -/
def flowEntry (handles : Handles) (fuel : Nat) (i : NodeId) (entries : List Entry) (r : Reading) :
    Parsed :=
  match fuel with
  | 0 => .error .unexpectedToken
  | fuel + 1 =>
    match r.tokens with
    | .key :: _ => do
      let (k, r) ← optional handles fuel false false [.colon, .comma, .closeMap] (r.drop 1)
      let (v, r) ← flowValue handles fuel [.comma, .closeMap] r
      flowMap handles fuel false i ((k, v) :: entries) r
    | _ => do
      let (k, r) ← node handles fuel false false r
      let (v, r) := r.add .empty
      flowMap handles fuel false i ((k, v) :: entries) r

end

/-! ## Documents -/

/-- The handles that need no directive. -/
def defaultHandles : Handles := [("!", "!"), ("!!", tagStem)]

/-- The directives at the front of a document: whether there was one for the version, and the
handles. -/
def directives : List Token → Bool → Handles → Except Fault (Handles × List Token)
  | .directive (.version major) :: rest, versioned, handles =>
    if versioned || major != 1 then .error .malformedDirective
    else directives rest true handles
  | .directive (.tag handle stem) :: rest, versioned, handles =>
    if (handles.lookup handle).isSome then .error .malformedDirective
    else directives rest versioned ((handle, stem) :: handles)
  | .directive .other :: rest, versioned, handles => directives rest versioned handles
  | ts, _, handles => .ok (handles ++ defaultHandles, ts)

/-- Enough fuel for some tokens: between two of them a node is entered a few times at most. -/
def fuelFor (ts : List Token) : Nat :=
  8 * ts.length + 8

/-- The node of a document that follows its start mark. -/
def afterStart (handles : Handles) (ts : List Token) : Parsed :=
  let r : Reading := { tokens := ts }
  match ts with
  | [] | .directive _ :: _ | .documentStart :: _ | .documentEnd :: _ => .ok (r.add .empty)
  | _ => node handles (fuelFor ts) true false r

structure Graph where
  nodes : Array Node
  root : NodeId

/-- Nothing may follow a document but end marks. -/
def sole (root : NodeId) (r : Reading) : Except Fault Graph :=
  match r.tokens.dropWhile (· == .documentEnd) with
  | [] => .ok ⟨r.nodes, root⟩
  | ts => do
    match ← directives ts false [] with
    | (_, .fault f :: _) => .error f
    | _ => .error .secondDocument

/-- The single document of a token list, if there is one at all. -/
def document (ts : List Token) : Except Fault (Option Graph) :=
  match ts with
  | [] => .ok none
  | .directive _ :: _ | .documentStart :: _ => do
    match ← directives ts false [] with
    | (handles, .documentStart :: rest) =>
      let (n, r) ← afterStart handles rest
      return some (← sole n r)
    | (_, rest) => .error (faultAt rest)
  | _ => do
    let (n, r) ← node defaultHandles (fuelFor ts) true false { tokens := ts }
    return some (← sole n r)

end Ostinato.Yaml
