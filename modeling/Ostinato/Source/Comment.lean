import Ostinato.Statement

/-!
# Block comments

A block comment runs from `/*` to the next `*/`, over lines if need be. It is replaced by spaces,
one for each character but the line feeds, so that what follows keeps its place.
-/

namespace Ostinato.Source

/-- The count of characters up to the end of the first `*/`. -/
def closingLength? : List Char → Option Nat
  | [] => none
  | '*' :: '/' :: _ => some 2
  | _ :: rest => (closingLength? rest).map (· + 1)

def blank (c : Char) : Char :=
  if c == '\n' then c else ' '

/-- Blanks every closed block comment. An opening without a closing stays, and then nothing after
it is a closed comment either. -/
def blankComments : List Char → List Char
  | [] => []
  | '/' :: '*' :: rest =>
    match closingLength? rest with
    | none => '/' :: '*' :: rest
    | some n => ' ' :: ' ' :: ((rest.take n).map blank ++ blankComments (rest.drop n))
  | c :: rest => c :: blankComments rest
termination_by cs => cs.length
decreasing_by all_goals (simp; try omega)

/-- The place of the first comment opening, counting lines by line feeds. -/
def openingFrom? (line column : Int) : List Char → Option Pos
  | [] => none
  | '/' :: '*' :: _ => some ⟨line, column⟩
  | c :: rest =>
    if c == '\n' then openingFrom? (line + 1) 1 rest else openingFrom? line (column + 1) rest

def opening? (cs : List Char) : Option Pos :=
  openingFrom? 1 1 cs

/-! ## Indentation -/

/-- The column after a run of blanks; a tab goes to the next multiple of eight. -/
def widthFrom (width : Nat) : List Char → Nat
  | ' ' :: rest => widthFrom (width + 1) rest
  | '\t' :: rest => widthFrom (width + (8 - width % 8)) rest
  | _ => width

/-- The width of a line's indentation. -/
def indent (line : List Char) : Nat :=
  widthFrom 0 line

end Ostinato.Source
