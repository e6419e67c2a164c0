import Ostinato.Yaml.Node

/-!
# Merging

A mapping takes in the entries of others under its merge keys, in front of its own. The others take
in theirs first. A mapping may be merged into itself, directly or through others: every merge key is
removed before what it brings in is looked at, so there is an end to it.
-/

namespace Ostinato.Yaml

abbrev Nodes := Array Node

namespace Nodes

def tagOf (ns : Nodes) (i : NodeId) : Option Tag :=
  (ns[i]?).map Node.tag

def entries? (ns : Nodes) (i : NodeId) : Option (List Entry) :=
  match ns[i]? with
  | some (.map _ entries) => some entries
  | _ => none

def isMap (ns : Nodes) (i : NodeId) : Bool :=
  (ns.entries? i).isSome

def setEntries (ns : Nodes) (i : NodeId) (entries : List Entry) : Nodes :=
  ns.modify i fun n => .map n.tag entries

/-- The value of the first merge key, and the entries without it. -/
def takeMerge? (ns : Nodes) : List Entry → Option (NodeId × List Entry)
  | [] => none
  | e :: rest =>
    if ns.tagOf e.1 == some .merge then some (e.2, rest)
    else (ns.takeMerge? rest).map fun (v, rest) => (v, e :: rest)

/-- The mappings that a merge key brings in: its value, or the items of it. -/
def sources (ns : Nodes) (i : NodeId) : Except Fault (List NodeId) :=
  match ns[i]? with
  | some (.map ..) => .ok [i]
  | some (.list _ items) => if items.all ns.isMap then .ok items else .error .notMergeable
  | _ => .error .notMergeable

/-- A default key is a text in a mapping that is read as one. -/
def plainDefault (ns : Nodes) (e : Entry) : Nodes :=
  if ns.tagOf e.1 == some .default then ns.modify e.1 (Node.withTag .text) else ns

/-- Takes the merge keys of a mapping in, one after another. `merged` are the entries so far. Of
several mappings the first prevails, so its entries come last. -/
def mergeFrom : Nat → NodeId → List Entry → Nodes → Except Fault Nodes
  | 0, _, _, ns => .ok ns
  | fuel + 1, i, merged, ns => do
    let entries := (ns.entries? i).getD []
    match ns.takeMerge? entries with
    | none => return (entries.foldl plainDefault ns).setEntries i (merged ++ entries)
    | some (value, rest) =>
      let ns := ns.setEntries i rest
      let (ns, found) ← (← ns.sources value).foldlM (fun (ns, found) source => do
        let ns ← mergeFrom fuel source [] ns
        return (ns, (ns.entries? source).getD [] :: found)) (ns, [])
      mergeFrom fuel i (merged ++ found.flatten) ns

def mergeCount (ns : Nodes) : Nat :=
  ns.foldl (fun n node =>
    match node with
    | .map _ entries => n + entries.countP fun e => ns.tagOf e.1 == some .merge
    | _ => n) 0

def merge (ns : Nodes) (i : NodeId) : Except Fault Nodes :=
  mergeFrom (ns.mergeCount + 1) i [] ns

end Nodes

end Ostinato.Yaml
