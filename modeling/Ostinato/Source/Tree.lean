import Ostinato.Source.Comment
import Ostinato.Source.Line
import Ostinato.Text.Blank

/-!
# The statement tree

Indentation nests statements. A label or loop line opens a block; a later line that is not
indented more closes it; every line goes to the innermost block still open, or to the top level.
-/

namespace Ostinato.Source

/-- The first line of a block. -/
inductive BlockHead where
  | label (name : String) (pos : Pos)
  | loop (count : Option Int) (pos : Pos)
  deriving Repr

/-- A block whose body is still being collected. -/
structure OpenBlock where
  head : BlockHead
  indent : Nat
  body : List Statement := []

namespace OpenBlock

def add (b : OpenBlock) (s : Statement) : OpenBlock :=
  { b with body := b.body ++ [s] }

/-- The statement that a finished block is. -/
def close (b : OpenBlock) : Statement :=
  match b.head with
  | .label name pos => .label name b.body pos
  | .loop count pos => .loop count b.body pos

end OpenBlock

/-- The top-level statements finished so far, and the open blocks, innermost first. -/
structure Nest where
  top : List Statement := []
  blocks : List OpenBlock := []

namespace Nest

def add (n : Nest) (s : Statement) : Nest :=
  match n.blocks with
  | [] => { n with top := n.top ++ [s] }
  | b :: rest => { n with blocks := b.add s :: rest }

/-- Closes blocks, from the innermost `b` outward, as long as their indentation is at least
`width`. -/
def closeFrom (width : Nat) (top : List Statement) : OpenBlock → List OpenBlock → Nest
  | b, [] => if width ≤ b.indent then ⟨top ++ [b.close], []⟩ else ⟨top, [b]⟩
  | b, outer :: rest =>
    if width ≤ b.indent then closeFrom width top (outer.add b.close) rest
    else ⟨top, b :: outer :: rest⟩

def dedent (n : Nest) (width : Nat) : Nest :=
  match n.blocks with
  | [] => n
  | b :: rest => closeFrom width n.top b rest

/-- Takes one line into the tree. -/
def feed (n : Nest) (width : Nat) (l : Line) : Nest :=
  let n := n.dedent width
  match l with
  | .label name pos => { n with blocks := ⟨.label name pos, width, []⟩ :: n.blocks }
  | .loop count pos => { n with blocks := ⟨.loop count pos, width, []⟩ :: n.blocks }
  | .plain s => n.add s

def finish (n : Nest) : List Statement :=
  (n.dedent 0).top

end Nest

/-- Reads a line of text: nothing when it is blank. -/
def readLine (number : Int) (text : List Char) : Except (Fault × Pos) (Option Line) :=
  match tokens number text with
  | .error s => .error (.strayCharacter s.char, ⟨number, s.column⟩)
  | .ok [] => .ok none
  | .ok ts =>
    match line ts with
    | .error f => .error (f.fault, f.pos ts)
    | .ok l => .ok (some l)

/-- Takes lines into a tree, numbering them from `number`. -/
def readLines (number : Int) (n : Nest) : List (List Char) → Except (Fault × Pos) Nest
  | [] => .ok n
  | text :: rest =>
    match readLine number text with
    | .error e => .error e
    | .ok none => readLines (number + 1) n rest
    | .ok (some l) => readLines (number + 1) (n.feed (indent text) l) rest

/-- The tree of a source text, or the first fault in it with its position. -/
def tree (text : List Char) : Except (Fault × Pos) (List Statement) :=
  let text := blankComments text
  match opening? text with
  | some pos => .error (.unclosedComment, pos)
  | none => (readLines 1 {} (Text.lines text)).map Nest.finish

/-- Reads a program text. -/
def parse (text : String) (name : Option String) :
    Except (Located Fault) (List Statement) :=
  match tree text.toList with
  | .error (fault, pos) => .error ⟨fault, pos, name⟩
  | .ok statements => .ok statements

end Ostinato.Source
