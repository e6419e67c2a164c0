import Ostinato.Yaml.Cursor

/-!
# Scalars as they are written

Quoted and plain scalars may run over several lines. A single line break inside them is a space,
and further breaks stay.
-/

namespace Ostinato.Yaml

/-! ## Quoted scalars -/

/-- What the letter after a backslash stands for. -/
def escapes : List (Char × Char) := [
  ('0', '\x00'), ('a', '\x07'), ('b', '\x08'), ('t', '\t'), ('\t', '\t'), ('n', '\n'),
  ('v', '\x0b'), ('f', '\x0c'), ('r', '\r'), ('e', '\x1b'), (' ', ' '), ('\"', '\"'),
  ('\\', '\\'), ('/', '/'), ('N', '\x85'), ('_', '\xa0'), ('L', '\u2028'), ('P', '\u2029')]

def escapeWidth? : Char → Option Nat
  | 'x' => some 2
  | 'u' => some 4
  | 'U' => some 8
  | _ => none

def hexDigit? (c : Char) : Option Nat :=
  if c.isDigit then some (c.toNat - 48)
  else if 'a' ≤ c && c ≤ 'f' then some (c.toNat - 87)
  else if 'A' ≤ c && c ≤ 'F' then some (c.toNat - 55)
  else none

def hexNumber? (digits : List Char) : Option Nat :=
  (digits.mapM hexDigit?).map fun ds => ds.foldl (fun n d => n * 16 + d) 0

/-- The character with the code that the next digits write. -/
def hexEscape (width : Nat) (c : Cursor) : Except Fault (List Char × Cursor) :=
  let digits := c.rest.take width
  match hexNumber? digits with
  | some n =>
    if digits.length < width then .error .unknownEscape
    else if 0x110000 ≤ n then .error (.noSuchCharacter n)
    else .ok ([Char.ofNat n], c.skip width)
  | none => .error .unknownEscape

/-- Line breaks and the blanks before and after them; the breaks are kept. A document mark may not
stand among them. -/
def quotedBreaks : Nat → Cursor → Except Fault (List Char × Cursor)
  | 0, c => .ok ([], c)
  | fuel + 1, c =>
    if c.seesAnyMark then .error .unclosedQuote
    else
      let c := c.skipWhile fun ch => ch == ' ' || ch == '\t'
      match c.peek with
      | some ch =>
        if isBreak ch then do
          let (more, c) ← quotedBreaks fuel c.next
          return (breakChar ch :: more, c)
        else .ok ([], c)
      | none => .ok ([], c)

/-- What a line break and those after it stand for. -/
def foldBreaks (first : Char) (others : List Char) : List Char :=
  if breakChar first != '\n' then breakChar first :: others
  else if others.isEmpty then [' ']
  else others

/-- Blanks inside quotes, kept unless a line ends after them. -/
def quotedBlanks (c : Cursor) : Except Fault (List Char × Cursor) :=
  let isBlank := fun ch => ch == ' ' || ch == '\t'
  let blanks := c.rest.takeWhile isBlank
  let c := c.skipWhile isBlank
  match c.peek with
  | none => .error .unclosedQuote
  | some ch =>
    if isBreak ch then do
      let (others, c) ← quotedBreaks c.left c.next
      return (foldBreaks ch others, c)
    else .ok (blanks, c)

def quotedEscape (c : Cursor) : Except Fault (List Char × Cursor) :=
  match c.peek with
  | none => .error .unknownEscape
  | some ch =>
    match escapes.lookup ch, escapeWidth? ch with
    | some d, _ => .ok ([d], c.next)
    | none, some width => hexEscape width c.next
    | none, none =>
      if isBreak ch then quotedBreaks c.left c.next else .error .unknownEscape

/-- The text up to the closing quote, which is doubled inside single quotes. `done` is what was
read so far, in reverse. -/
def quotedFrom (quote : Char) : Nat → List Char → Cursor → Except Fault (List Char × Cursor)
  | 0, _, _ => .error .unclosedQuote
  | fuel + 1, done, c =>
    match c.peek with
    | none => .error .unclosedQuote
    | some ch =>
      if ch == quote then
        if quote == '\'' && c.next.sees '\'' then quotedFrom quote fuel ('\'' :: done) (c.skip 2)
        else .ok (done.reverse, c.next)
      else if isBreakOrBlank ch then do
        let (cs, c) ← quotedBlanks c
        quotedFrom quote fuel (cs.reverse ++ done) c
      else if ch == '\\' && quote == '\"' then do
        let (cs, c) ← quotedEscape c.next
        quotedFrom quote fuel (cs.reverse ++ done) c
      else quotedFrom quote fuel (ch :: done) c.next

/-- A quoted scalar, the cursor being at its opening quote. -/
def quotedScalar (c : Cursor) : Except Fault (List Char × Cursor) :=
  match c.peek with
  | none => .error .unclosedQuote
  | some quote => quotedFrom quote c.left [] c.next

/-! ## Plain scalars -/

/-- Whether a plain word ends before a character, given the one after it. -/
def endsPlain (inFlow : Bool) (ch : Char) (after : Option Char) : Bool :=
  isBreakOrBlank ch ||
  (ch == ':' && (endsWord after ||
    (inFlow && (after.map fun a => [',', '[', ']', '\x7b', '\x7d'].contains a).getD false))) ||
  (inFlow && [',', '?', '[', ']', '\x7b', '\x7d'].contains ch)

def plainWord (inFlow : Bool) : List Char → List Char
  | [] => []
  | ch :: rest => if endsPlain inFlow ch rest.head? then [] else ch :: plainWord inFlow rest

/-- What stands between two words: the characters it contributes, and whether a line ended. At a
document mark it contributes none. -/
structure Gap where
  chars : List Char
  broken : Bool
  cursor : Cursor

/-- Spaces and line breaks; nothing if a document mark comes. -/
def plainBreaks : Nat → List Char → Cursor → Option (List Char) × Cursor
  | 0, done, c => (some done.reverse, c)
  | fuel + 1, done, c =>
    match c.peek with
    | none => (some done.reverse, c)
    | some ch =>
      if ch == ' ' then plainBreaks fuel done c.next
      else if isBreak ch then
        if c.next.seesAnyMark then (none, c.next)
        else plainBreaks fuel (breakChar ch :: done) c.next
      else (some done.reverse, c)

def plainGap (c : Cursor) : Gap :=
  let spaces := c.rest.takeWhile (· == ' ')
  let c := c.skipWhile (· == ' ')
  match c.peek with
  | none => ⟨spaces, false, c⟩
  | some ch =>
    if !isBreak ch then ⟨spaces, false, c⟩
    else if c.next.seesAnyMark then ⟨[], true, c.next⟩
    else
      match plainBreaks c.left [] c.next with
      | (some others, c) => ⟨foldBreaks ch others, true, c⟩
      | (none, c) => ⟨[], true, c⟩

/-- The words of a plain scalar from the cursor on, with the gaps between them. `done` is what was
read so far, in reverse. Outside brackets, the lines after the first are indented by at least
`indent`. Also tells whether the scalar ended with a line. -/
def plainFrom (inFlow : Bool) (indent : Int) :
    Nat → List Char → Gap → List Char × Bool × Cursor
  | 0, done, gap => (done.reverse, gap.broken, gap.cursor)
  | fuel + 1, done, gap =>
    let c := gap.cursor
    let word := if c.sees '#' then [] else plainWord inFlow c.rest
    if word.isEmpty then (done.reverse, gap.broken, c)
    else
      let done := word.reverse ++ (gap.chars.reverse ++ done)
      let gap := plainGap (c.skip word.length)
      if gap.chars.isEmpty || gap.cursor.sees '#' ||
          (!inFlow && (gap.cursor.column : Int) < indent) then
        (done.reverse, gap.broken, gap.cursor)
      else plainFrom inFlow indent fuel done gap

def plainScalar (inFlow : Bool) (indent : Int) (c : Cursor) : List Char × Bool × Cursor :=
  plainFrom inFlow indent c.left [] ⟨[], false, c⟩

end Ostinato.Yaml
