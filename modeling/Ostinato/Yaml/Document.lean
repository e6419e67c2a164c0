import Ostinato.Yaml.Merge
import Ostinato.Yaml.SetOrder

/-!
# Documents

The value of a document. Scalars are read when they are met, and collections wait for their turn, so
of several faults the one nearest to the top is found, and among those the first. What the nodes
stand for refers to other nodes until everything is read; only then it becomes one value.
-/

namespace Ostinato.Yaml

/-- What a node stands for. The parts of a collection are given by their nodes. -/
inductive Object where
  | scalar (v : Value)
  /-- The NaN that all documents share; every other one is a NaN of its own. -/
  | sharedNaN
  | list (items : List NodeId)
  | map (entries : List Entry)
  | set (members : List NodeId)
  | pairs (entries : List Entry)

def Object.isKey : Object → Bool
  | scalar _ => true
  | sharedNaN => true
  | _ => false

/-- Whether what two nodes stand for is the same key. -/
def Object.sameKey : Object → Object → Bool
  | scalar v, scalar w => v.sameKey w
  | sharedNaN, sharedNaN => true
  | _, _ => false

def Tag.collection? : Tag → Option Object
  | list => some (.list [])
  | map => some (.map [])
  | set => some (.set [])
  | pairs => some (.pairs [])
  | _ => none

/-! ## Scalars -/

namespace Nodes

/-- The text of a scalar, or of the default value of a mapping. -/
def text : Nat → Nodes → NodeId → Except Fault (List Char)
  | 0, _, _ => .error .endlessDefault
  | fuel + 1, ns, i =>
    match ns[i]? with
    | some (.scalar _ s) => .ok s
    | some (.map _ entries) =>
      match entries.find? fun e => ns.tagOf e.1 == some .default with
      | some (_, v) => text fuel ns v
      | none => .error .misplacedTag
    | _ => .error .misplacedTag

/-- What a node whose tag asks for no collection stands for. -/
def scalarObject (ns : Nodes) (i : NodeId) : Tag → Except Fault Object
  | .merge | .default | .other _ => .error .unknownTag
  | tag => do
    let s ← ns.text (ns.size + 1) i
    if tag == .real && isNaNWord s then return .sharedNaN
    else if tag == .timestamp && ns.isMap i then .error (.scalar .timestampOfMapping)
    else return .scalar (← scalarValue tag s)

end Nodes

/-! ## Collections -/

/-- Reading under way: what the nodes met so far stand for, and the collections among them in the
order in which they were met. -/
structure Build where
  nodes : Nodes
  objects : Array (Option Object)
  collections : Array NodeId := #[]

namespace Build

def object? (b : Build) (i : NodeId) : Option Object :=
  (b.objects[i]?).getD none

def define (b : Build) (i : NodeId) (o : Object) : Build :=
  { b with objects := b.objects.setIfInBounds i (some o) }

def isKey (b : Build) (i : NodeId) : Bool :=
  ((b.object? i).map Object.isKey).getD false

def visit (b : Build) (i : NodeId) : Except Fault Build :=
  match b.object? i, b.nodes[i]? with
  | none, some n =>
    match n.tag.collection? with
    | some o => .ok { b.define i o with collections := b.collections.push i }
    | none => do return b.define i (← b.nodes.scalarObject i n.tag)
  | _, _ => .ok b

def visitEntry (b : Build) (e : Entry) : Except Fault Build := do
  let b ← b.visit e.1
  if b.isKey e.1 then b.visit e.2 else .error .compositeKey

def sameKey (b : Build) (i j : NodeId) : Bool :=
  i == j ||
  match b.object? i, b.object? j with
  | some o, some p => o.sameKey p
  | _, _ => false

/-- Puts an entry. A key that is there already keeps its place and its spelling. -/
def putEntry (b : Build) (e : Entry) : List Entry → List Entry
  | [] => [e]
  | f :: rest => if b.sameKey f.1 e.1 then (f.1, e.2) :: rest else f :: b.putEntry e rest

/-- The entries of a mapping and of those that are merged into it, each key once. -/
def mapEntries (b : Build) (i : NodeId) : Except Fault (Build × List Entry) := do
  if b.nodes.isMap i then
    let b := { b with nodes := ← b.nodes.merge i }
    let entries := (b.nodes.entries? i).getD []
    let b ← entries.foldlM visitEntry b
    return (b, entries.foldl (fun done e => b.putEntry e done) [])
  else .error .misplacedTag

def visitPair (b : Build) (i : NodeId) : Except Fault Build :=
  match b.nodes.entries? i with
  | some [(k, v)] => do (← b.visit k).visit v
  | _ => .error .malformedPairs

/-- Meets everything in a collection. -/
def fill (b : Build) (i : NodeId) : Except Fault Build :=
  match b.object? i, b.nodes[i]? with
  | some (.list _), some (.list _ items) => do
    return (← items.foldlM visit b).define i (.list items)
  | some (.map _), _ => do
    let (b, entries) ← b.mapEntries i
    return b.define i (.map entries)
  | some (.set _), _ => do
    let (b, entries) ← b.mapEntries i
    return b.define i (.set (entries.map Prod.fst))
  | some (.pairs _), some (.list _ items) => do
    let b ← items.foldlM visitPair b
    return b.define i (.pairs (items.flatMap fun j => (b.nodes.entries? j).getD []))
  | _, _ => .error .misplacedTag

/-- Fills the collections from the `n`th on, those included that are met meanwhile. There are no
more collections than nodes. -/
def fillFrom : Nat → Nat → Build → Except Fault Build
  | 0, _, b => .ok b
  | fuel + 1, n, b =>
    match b.collections[n]? with
    | some i => do fillFrom fuel (n + 1) (← b.fill i)
    | none => .ok b

end Build

def objects (g : Graph) : Except Fault (Array (Option Object)) := do
  let b : Build := { nodes := g.nodes, objects := Array.replicate g.nodes.size none }
  return (← Build.fillFrom g.nodes.size 0 (← b.visit g.root)).objects

/-! ## Values -/

/-- The value of a node, inside some others, and the numbers of those that it comes back to. -/
structure Grown where
  value : Value
  loose : List NodeId := []
  /-- Whether there is any knot in it. -/
  knotted : Bool := false

namespace Grown

/-- Puts values together. -/
def join (f : List Value → Value) (parts : List Grown) : Grown := {
  value := f (parts.map Grown.value)
  loose := parts.flatMap Grown.loose
  knotted := parts.any Grown.knotted }

/-- Puts the entries of a collection together; keys have no knots. -/
def joinEntries (f : List (Value × Value) → Value) (parts : List (Grown × Grown)) : Grown := {
  value := f (parts.map fun (k, v) => (k.value, v.value))
  loose := parts.flatMap fun (k, v) => k.loose ++ v.loose
  knotted := parts.any fun (k, v) => k.knotted || v.knotted }

/-- Ties a knot if the collection with this number stands on a circle. -/
def tie (i : NodeId) (g : Grown) : Grown :=
  if g.loose.isEmpty then g
  else { value := .knot i g.value, loose := g.loose.filter (· != i), knotted := true }

end Grown

/-- Values that were made before; those with knots depend on what stands around them. -/
abbrev Known := Array (Option Value)

/-- The value of a node. `around` are the collections that it stands in. -/
def grow (os : Array (Option Object)) : Nat → List NodeId → NodeId → StateM Known Grown
  | 0, _, _ => pure { value := .null }
  | fuel + 1, around, i => do
    if around.contains i then return { value := .back i, loose := [i], knotted := true }
    match ((← get)[i]?).getD none with
    | some v => return { value := v }
    | none =>
      let inside := grow os fuel (i :: around)
      let both (e : Entry) : StateM Known (Grown × Grown) := do
        return (← inside e.1, ← inside e.2)
      let grown ← match (os[i]?).getD none with
        | none => pure { value := .null }
        | some (.scalar v) => pure { value := v }
        | some .sharedNaN => pure { value := .real .invalid }
        | some (.list items) => Grown.join .list <$> items.mapM inside
        | some (.set items) =>
          Grown.join (fun vs => .set (SetOrder.arrange vs)) <$> items.mapM inside
        | some (.map entries) => Grown.joinEntries .map <$> entries.mapM both
        | some (.pairs entries) => Grown.joinEntries .pairs <$> entries.mapM both
      let grown := grown.tie i
      if !grown.knotted then modify (·.setIfInBounds i (some grown.value))
      return grown

def Graph.value (g : Graph) : Except Fault Value := do
  let os ← objects g
  return (((grow os (os.size + 1) [] g.root).run (Array.replicate os.size none)).1).value

/-- Reads a text. Carriage returns end lines as line feeds do. None at all is null. -/
def read (text : String) : Except Fault Value := do
  match ← document (tokens (Text.unifyBreaks text.toList)) with
  | none => return .null
  | some g => g.value

end Ostinato.Yaml
