import Ostinato.Yaml.Cursor

/-!
# Block text

A text that stands in lines of its own, all indented alike. A literal one keeps its lines, and a
folded one joins them where two lines that begin with no blank meet.
-/

namespace Ostinato.Yaml

/-- What becomes of the line breaks at the end. -/
inductive Chomp where
  | strip
  | clip
  | keep
  deriving Repr, DecidableEq

structure BlockHeader where
  chomp : Chomp := .clip
  /-- How much further right they stand than the block around, if that is said. -/
  increment : Option Nat := none
  deriving Repr, DecidableEq

def chomp? : Option Char → Option Chomp
  | some '+' => some .keep
  | some '-' => some .strip
  | _ => none

/-- The indent that a digit gives, which is not zero. -/
def blockIncrement (c : Cursor) : Except Fault (Option Nat × Cursor) :=
  match c.peek with
  | some ch =>
    if !ch.isDigit then .ok (none, c)
    else if ch == '0' then .error .malformedBlock
    else .ok (some (ch.toNat - '0'.toNat), c.next)
  | none => .ok (none, c)

/-- The marks after the one that makes a block text, in any order. -/
def blockMarks (c : Cursor) : Except Fault (BlockHeader × Cursor) := do
  match chomp? c.peek with
  | some chomp =>
    let (n, c) ← blockIncrement c.next
    return (⟨chomp, n⟩, c)
  | none =>
    let (n, c) ← blockIncrement c
    match n, chomp? c.peek with
    | some n, some chomp => return (⟨chomp, some n⟩, c.next)
    | n, _ => return (⟨.clip, n⟩, c)

/-- The first line from its marks on. -/
def blockHeader (c : Cursor) : Except Fault (BlockHeader × Cursor) := do
  let (h, c) ← blockMarks c
  if endsItem c.peek then return (h, ← c.pastLine .malformedBlock) else .error .malformedBlock

def Cursor.skipIndent (c : Cursor) (indent : Nat) : Cursor :=
  c.skip (min (c.rest.takeWhile (· == ' ')).length (indent - c.column))

/-- Empty lines, and the indent of the line after them. -/
def blockBreaks (indent : Nat) : Nat → Cursor → List Char × Cursor
  | 0, c => ([], c)
  | fuel + 1, c =>
    let c := c.skipIndent indent
    match c.peek with
    | some ch =>
      if isBreak ch then
        let (more, c) := blockBreaks indent fuel c.next
        (breakChar ch :: more, c)
      else ([], c)
    | none => ([], c)

/-- Empty lines up to the first that is not, and the furthest column reached by their spaces and
its own. -/
def blockIndent : Nat → Nat → Cursor → List Char × Nat × Cursor
  | 0, furthest, c => ([], furthest, c)
  | fuel + 1, furthest, c =>
    match c.peek with
    | some ch =>
      if ch == ' ' then blockIndent fuel (max furthest c.next.column) c.next
      else if isBreak ch then
        let (more, furthest, c) := blockIndent fuel furthest c.next
        (breakChar ch :: more, furthest, c)
      else ([], furthest, c)
    | none => ([], furthest, c)

/-- The lines of a block text: all but the last line break, that line break, and the empty lines
after it. -/
structure BlockLines where
  chars : List Char := []
  last : List Char := []
  trailing : List Char := []
  cursor : Cursor

/-- Whether a line of the block begins here. -/
def isBlockLine (indent : Nat) (c : Cursor) : Bool :=
  c.column == indent && c.peek.isSome

def Cursor.seesBlank (c : Cursor) : Bool :=
  c.sees ' ' || c.sees '\t'

/-- The lines from one of the block on. -/
def blockLines (folded : Bool) (indent : Nat) : Nat → Cursor → BlockLines
  | 0, c => { cursor := c }
  | fuel + 1, c =>
    let line := c.rest.takeWhile fun ch => !isBreak ch
    let led := !c.seesBlank
    let c := c.skip line.length
    let last := (c.peek.map breakChar).toList
    let (breaks, c) := blockBreaks indent c.left c.next
    if isBlockLine indent c then
      let gap :=
        if folded && last == ['\n'] && led && !c.seesBlank then
          (if breaks.isEmpty then [' '] else [])
        else last
      let b := blockLines folded indent fuel c
      { b with chars := line ++ gap ++ breaks ++ b.chars }
    else ⟨line, last, breaks, c⟩

/-- A block text, the cursor being at its mark. The lines stand right of the `outer` indent. -/
def blockScalar (folded : Bool) (outer : Int) (c : Cursor) :
    Except Fault (List Char × Cursor) := do
  let (h, c) ← blockHeader c.next
  let least := (max (outer + 1) 1).toNat
  let (indent, breaks, c) :=
    match h.increment with
    | some n =>
      let (breaks, c) := blockBreaks (least + n - 1) (c.left + 1) c
      (least + n - 1, breaks, c)
    | none =>
      let (breaks, furthest, c) := blockIndent (c.left + 1) 0 c
      (max least furthest, breaks, c)
  let b : BlockLines :=
    if isBlockLine indent c then
      let b := blockLines folded indent (c.left + 1) c
      { b with chars := breaks ++ b.chars }
    else { trailing := breaks, cursor := c }
  let text := match h.chomp with
    | .strip => b.chars
    | .clip => b.chars ++ b.last
    | .keep => b.chars ++ b.last ++ b.trailing
  return (text, b.cursor)

end Ostinato.Yaml
