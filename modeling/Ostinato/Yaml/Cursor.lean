import Ostinato.Text.Blank
import Ostinato.Yaml.Fault

/-!
# Places in a document

A cursor is what is left of a text together with the line and column where that begins, and the
length of the whole. Indentation is a matter of columns, and a key has to stand on one line with its
colon.
-/

namespace Ostinato.Yaml

def isBreak (c : Char) : Bool :=
  c == '\n' || c == '\x85' || c == '\u2028' || c == '\u2029'

def isBreakOrBlank (c : Char) : Bool :=
  isBreak c || c == ' ' || c == '\t'

/-- Whether nothing, a blank or a line break comes. -/
def endsWord : Option Char → Bool
  | none => true
  | some c => isBreakOrBlank c

/-- Whether nothing, a space or a line break comes. -/
def endsItem : Option Char → Bool
  | none => true
  | some c => isBreak c || c == ' '

def isAllowed (c : Char) : Bool :=
  let n := c.toNat
  n == 0x09 || n == 0x0a || n == 0x0d || (0x20 ≤ n && n ≤ 0x7e) || n == 0x85 ||
    (0xa0 ≤ n && n ≤ 0xfffd) || 0x10000 ≤ n

structure Cursor where
  rest : List Char
  size : Nat
  index : Nat := 0
  line : Nat := 0
  column : Nat := 0
  deriving Repr

namespace Cursor

def ofText (text : List Char) : Cursor :=
  { rest := text, size := text.length }

def left (c : Cursor) : Nat :=
  c.size - c.index

def peek (c : Cursor) : Option Char :=
  c.rest.head?

def peekAt (c : Cursor) (k : Nat) : Option Char :=
  c.rest[k]?

def sees (c : Cursor) (ch : Char) : Bool :=
  c.peek == some ch

def seesBreak (c : Cursor) : Bool :=
  (c.peek.map isBreak).getD false

def next (c : Cursor) : Cursor :=
  match c.rest with
  | [] => c
  | ch :: rest =>
    let c := { c with rest := rest, index := c.index + 1 }
    if isBreak ch then { c with line := c.line + 1, column := 0 }
    else if ch == '\ufeff' then c
    else { c with column := c.column + 1 }

def skip : Nat → Cursor → Cursor
  | 0, c => c
  | n + 1, c => skip n c.next

def skipWhile (p : Char → Bool) (c : Cursor) : Cursor :=
  skip (c.rest.takeWhile p).length c

/-- Past what may stand at the end of a line: spaces, a comment and the line break. -/
def pastLine (c : Cursor) (fault : Fault) : Except Fault Cursor :=
  let c := c.skipWhile (· == ' ')
  let c := if c.sees '#' then c.skipWhile fun ch => !isBreak ch else c
  match c.peek with
  | none => .ok c
  | some ch => if isBreak ch then .ok c.next else .error fault

/-- Whether the three characters of a document mark stand here. -/
def seesMark (c : Cursor) (mark : Char) : Bool :=
  c.rest.take 3 == [mark, mark, mark] && endsWord (c.peekAt 3)

def seesAnyMark (c : Cursor) : Bool :=
  c.seesMark '-' || c.seesMark '.'

end Cursor

/-- What a line break stands for in a scalar. -/
def breakChar (c : Char) : Char :=
  if c == '\u2028' || c == '\u2029' then c else '\n'

end Ostinato.Yaml
