import Ostinato.Journal
import Ostinato.Link
import Ostinato.Source.Tree

/-!
# Compiling

Source text is read into a tree and the tree is linked. The first fault ends it, and no part of a
program comes with a fault.
-/

namespace Ostinato

inductive CompileFault where
  | source (fault : Located Source.Fault)
  | link (fault : Located LinkFault)
  deriving Repr

namespace CompileFault

def pos : CompileFault → Pos
  | source f => f.pos
  | link f => f.pos

/-- Whether a fault is one of the program text, and not of what the compiler relies on. -/
def isProgramFault : CompileFault → Bool
  | source f => f.cause.isSyntax
  | link f => f.cause ≠ .noDuration

def message (f : CompileFault) : String :=
  match f with
  | source ⟨cause, pos, name⟩ =>
    if f.isProgramFault then locate name pos cause.message else cause.message
  | link ⟨cause, pos, name⟩ =>
    if f.isProgramFault then locate name pos cause.message else cause.message

end CompileFault

/-- How a source is called in reports. -/
def displayName : Option String → String
  | none | some "" => "<source>"
  | some name => name

def compile (text : String) (name : Option String) : Except CompileFault Program :=
  match Source.parse text name with
  | .error f => .error (.source f)
  | .ok tree =>
    match link tree name with
    | .error f => .error (.link f)
    | .ok p => .ok p

/-! ## Reports -/

def reportParsed (j : Journal) (name : Option String) (tree : List Statement) : Journal :=
  j.add .debug .reader fun _ =>
    "Parsed " ++ toString tree.length ++ " top-level statements from " ++ displayName name

def reportLinked (j : Journal) (p : Program) : Journal :=
  j.add .debug .linker fun _ =>
    "Linked " ++ toString p.length ++ " instructions, " ++ toString p.spans.length ++
      " labels, " ++ toString p.jumpSites.length ++ " jump sites"

def reportCompiled (j : Journal) (name : Option String) (p : Program) : Journal :=
  j.add .info .compiler fun _ =>
    "Compiled " ++ displayName name ++ ": " ++ toString p.length ++ " instructions, " ++
      toString p.labels.length ++ " labels"

/-- Compiles a source text and reports the stages it gets through. -/
def compileReporting (j : Journal) (text : String) (name : Option String) :
    Journal × Except CompileFault Program :=
  match Source.parse text name with
  | .error f => (j, .error (.source f))
  | .ok tree =>
    let j := reportParsed j name tree
    match link tree name with
    | .error f => (j, .error (.link f))
    | .ok p => (reportCompiled (reportLinked j p) name p, .ok p)

end Ostinato
