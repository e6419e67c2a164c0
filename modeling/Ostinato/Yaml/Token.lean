import Ostinato.Yaml.Block
import Ostinato.Yaml.Property

/-!
# Tokens of a document

Indentation is turned into tokens here: a block opens where an entry or a key stands further right
than the block around it, and closes before the first token that stands further left. That a scalar
or a bracketed value is a key shows only at the colon after it, so the key's token is put in front
of it then.

Where a text cannot be scanned, its last token is the fault. It counts only when somebody gets that
far.
-/

namespace Ostinato.Yaml

inductive Token where
  | documentStart
  | documentEnd
  | blockList
  | blockMap
  | blockEnd
  | openList
  | closeList
  | openMap
  | closeMap
  /-- The dash of a list entry. -/
  | entry
  | comma
  | key
  | colon
  | scalar (text : List Char) (plain : Bool)
  | anchor (name : String)
  | alias (name : String)
  | tag (name : TagName)
  | directive (d : Directive)
  /-- What comes here cannot be scanned. -/
  | fault (f : Fault)
  deriving Repr, DecidableEq

/-- Something that will have been a key if a colon follows: where its token goes, where it stands,
and whether it cannot be anything else. -/
structure KeyCandidate where
  slot : Nat
  required : Bool
  index : Nat
  line : Nat
  column : Nat
  deriving Repr

structure Scan where
  cursor : Cursor
  /-- How many brackets are open. -/
  depth : Nat := 0
  indent : Int := -1
  /-- The indents of the blocks around. -/
  outer : List Int := []
  keyAllowed : Bool := true
  /-- At most one for each bracket depth. -/
  candidates : List (Nat × KeyCandidate) := []
  tokens : Array Token := #[]

namespace Scan

def push (s : Scan) (t : Token) : Scan :=
  { s with tokens := s.tokens.push t }

def step (s : Scan) (n : Nat) : Scan :=
  { s with cursor := s.cursor.skip n }

/-- Passes spaces, comments and line breaks. A key may begin on a new line outside brackets. -/
def skipBlank : Nat → Scan → Scan
  | 0, s => s
  | fuel + 1, s =>
    let c := s.cursor.skipWhile (· == ' ')
    let c := if c.sees '#' then c.skipWhile fun ch => !isBreak ch else c
    if c.seesBreak then
      skipBlank fuel { s with cursor := c.next, keyAllowed := s.keyAllowed || s.depth == 0 }
    else { s with cursor := c }

/-! ## Keys -/

def isStale (s : Scan) (k : KeyCandidate) : Bool :=
  k.line != s.cursor.line || s.cursor.index - k.index > 1024

def dropStale (s : Scan) : Except Fault Scan :=
  if s.candidates.any fun (_, k) => s.isStale k && k.required then .error .expectedColon
  else .ok { s with candidates := s.candidates.filter fun (_, k) => !s.isStale k }

def dropCandidate (s : Scan) : Except Fault Scan :=
  if s.candidates.any fun (d, k) => d == s.depth && k.required then .error .expectedColon
  else .ok { s with candidates := s.candidates.filter fun (d, _) => d != s.depth }

/-- Notes that what comes may be a key. -/
def noteCandidate (s : Scan) : Except Fault Scan :=
  if s.keyAllowed then do
    let s ← s.dropCandidate
    let k : KeyCandidate := {
      slot := s.tokens.size
      required := s.depth == 0 && s.indent == s.cursor.column
      index := s.cursor.index, line := s.cursor.line, column := s.cursor.column }
    return { s with candidates := (s.depth, k) :: s.candidates }
  else .ok s

/-! ## Blocks -/

def closeBlocks (column : Int) : List Int → Scan → Scan
  | [], s => s
  | i :: outer, s =>
    if column < s.indent then
      closeBlocks column outer ({ s with indent := i, outer := outer }.push .blockEnd)
    else s

def unwind (s : Scan) (column : Int) : Scan :=
  if s.depth == 0 then closeBlocks column s.outer s else s

/-- Makes a column the indent if it stands further right. -/
def indentTo? (s : Scan) (column : Int) : Option Scan :=
  if s.indent < column then some { s with indent := column, outer := s.indent :: s.outer }
  else none

/-- Opens a block here, if this column does. -/
def openBlock (s : Scan) (t : Token) : Scan :=
  match s.indentTo? s.cursor.column with
  | some s => s.push t
  | none => s

/-! ## Tokens -/

/-- A document mark closes everything. -/
def scanMark (s : Scan) (t : Token) : Except Fault Scan := do
  let s ← (s.unwind (-1)).dropCandidate
  return ({ s with keyAllowed := false }.push t).step 3

def scanOpen (s : Scan) (t : Token) : Except Fault Scan := do
  let s ← s.noteCandidate
  return ({ s with depth := s.depth + 1, keyAllowed := true }.push t).step 1

def scanClose (s : Scan) (t : Token) : Except Fault Scan := do
  if s.depth == 0 then .error .strayCharacter
  else
    let s ← s.dropCandidate
    return ({ s with depth := s.depth - 1, keyAllowed := false }.push t).step 1

def scanComma (s : Scan) : Except Fault Scan := do
  let s ← s.dropCandidate
  return ({ s with keyAllowed := true }.push .comma).step 1

def scanEntry (s : Scan) : Except Fault Scan := do
  if s.depth == 0 && !s.keyAllowed then .error .misplacedEntry
  else
    let s := if s.depth == 0 then s.openBlock .blockList else s
    let s ← { s with keyAllowed := true }.dropCandidate
    return (s.push .entry).step 1

def scanKey (s : Scan) : Except Fault Scan := do
  if s.depth == 0 && !s.keyAllowed then .error .misplacedKey
  else
    let s := if s.depth == 0 then s.openBlock .blockMap else s
    let s ← { s with keyAllowed := s.depth == 0 }.dropCandidate
    return (s.push .key).step 1

/-- Puts tokens in front of those from a slot on. -/
def insertAt (slot : Nat) (lead : List Token) (ts : Array Token) : Array Token :=
  let later := ts.extract slot ts.size
  ts.shrink slot ++ lead ++ later

/-- A colon after a candidate makes it a key, which opens a mapping if it stands further right
than the block around it. -/
def scanColon (s : Scan) : Except Fault Scan := do
  match s.candidates.lookup s.depth with
  | some k =>
    let s := { s with candidates := s.candidates.filter fun (d, _) => d != s.depth }
    let (s, lead) : Scan × List Token :=
      if s.depth == 0 then
        match s.indentTo? k.column with
        | some s => (s, [.blockMap, .key])
        | none => (s, [.key])
      else (s, [.key])
    let s := { s with keyAllowed := false, tokens := insertAt k.slot lead s.tokens }
    return (s.push .colon).step 1
  | none =>
    if s.depth == 0 && !s.keyAllowed then .error .misplacedColon
    else
      let s := if s.depth == 0 then s.openBlock .blockMap else s
      let s ← { s with keyAllowed := s.depth == 0 }.dropCandidate
      return (s.push .colon).step 1

def scanQuoted (s : Scan) : Except Fault Scan := do
  let s ← s.noteCandidate
  let (text, c) ← quotedScalar s.cursor
  return { s with keyAllowed := false, cursor := c }.push (.scalar text false)

def scanPlain (s : Scan) : Except Fault Scan := do
  let s ← s.noteCandidate
  let (text, broken, c) := plainScalar (s.depth != 0) (s.indent + 1) s.cursor
  return { s with keyAllowed := broken, cursor := c }.push (.scalar text true)

def scanBlock (s : Scan) (folded : Bool) : Except Fault Scan := do
  let s ← { s with keyAllowed := true }.dropCandidate
  let (text, c) ← blockScalar folded s.indent s.cursor
  return { s with cursor := c }.push (.scalar text false)

def scanAnchor (s : Scan) (t : String → Token) : Except Fault Scan := do
  let s ← s.noteCandidate
  let (name, c) ← anchorName s.cursor
  return { s with keyAllowed := false, cursor := c }.push (t name)

def scanTag (s : Scan) : Except Fault Scan := do
  let s ← s.noteCandidate
  let (name, c) ← tagName s.cursor
  return { s with keyAllowed := false, cursor := c }.push (.tag name)

/-- A directive closes everything, as a document mark does. -/
def scanDirective (s : Scan) : Except Fault Scan := do
  let s ← (s.unwind (-1)).dropCandidate
  let (d, c) ← directive s.cursor
  return { s with keyAllowed := false, cursor := c }.push (.directive d)

/-- Characters that begin no plain scalar. -/
def indicators : List Char :=
  ['-', '?', ':', ',', '[', ']', '\x7b', '\x7d', '#', '&', '*', '!', '|', '>', '\'', '\"', '%', '@',
    '\x60']

/-- Whether a plain scalar begins with a character, given the one after it. -/
def beginsPlain (depth : Nat) (ch : Char) (after : Option Char) : Bool :=
  (!isBreakOrBlank ch && !indicators.contains ch) ||
  (!endsWord after && (ch == '-' || (depth == 0 && (ch == '?' || ch == ':'))))

/-- The token that begins with a character. -/
def scanAt (s : Scan) (ch : Char) : Except Fault Scan :=
  let after := s.cursor.peekAt 1
  let alone := endsWord after
  if s.cursor.column == 0 && ch == '%' then s.scanDirective
  else if s.cursor.column == 0 && s.cursor.seesMark '-' then s.scanMark .documentStart
  else if s.cursor.column == 0 && s.cursor.seesMark '.' then s.scanMark .documentEnd
  else if ch == '[' then s.scanOpen .openList
  else if ch == '\x7b' then s.scanOpen .openMap
  else if ch == ']' then s.scanClose .closeList
  else if ch == '\x7d' then s.scanClose .closeMap
  else if ch == ',' then s.scanComma
  else if ch == '-' && alone then s.scanEntry
  else if ch == '?' && (s.depth != 0 || alone) then s.scanKey
  else if ch == ':' && (s.depth != 0 || alone) then s.scanColon
  else if ch == '*' then s.scanAnchor .alias
  else if ch == '&' then s.scanAnchor .anchor
  else if ch == '!' then s.scanTag
  else if s.depth == 0 && (ch == '|' || ch == '>') then s.scanBlock (ch == '>')
  else if ch == '\'' || ch == '\"' then s.scanQuoted
  else if beginsPlain s.depth ch after then s.scanPlain
  else .error .strayCharacter

def scanNext (s : Scan) : Except Fault (Scan × Bool) := do
  let s ← (s.skipBlank (s.cursor.left + 1)).dropStale
  let s := s.unwind s.cursor.column
  match s.cursor.peek with
  | none => return (← (s.unwind (-1)).dropCandidate, false)
  | some ch => return (← s.scanAt ch, true)

/-- The tokens that can be told already: those before the first that may yet be a key. -/
def settled (s : Scan) : List Token :=
  let pending := s.candidates.filter fun (_, k) => !s.isStale k
  s.tokens.toList.take (pending.foldl (fun n (_, k) => min n k.slot) s.tokens.size)

def scanAll : Nat → Scan → List Token
  | 0, s => s.tokens.toList
  | fuel + 1, s =>
    match s.scanNext with
    | .ok (s, true) => scanAll fuel s
    | .ok (s, false) => s.tokens.toList
    | .error f => s.settled ++ [.fault f]

end Scan

def scanText (text : List Char) : List Token :=
  let c := Cursor.ofText text
  let c := if c.sees '\ufeff' then c.next else c
  Scan.scanAll (text.length + 1) { cursor := c }

/-- Adds a fault, unless there is one already. -/
def endWith (f : Fault) (ts : List Token) : List Token :=
  match ts.getLast? with
  | some (.fault _) => ts
  | _ => ts ++ [.fault f]

/-- A text is looked through for forbidden characters one piece of `pieceLength` after another, the
first two together, and each piece only when what stands before it has been scanned. So much of a
text is scanned if the first forbidden character has so many others before it. -/
def scannedBefore (pieceLength position : Nat) : Nat :=
  if position < 2 * pieceLength then 0 else position - position % pieceLength

def tokens (text : List Char) : List Token :=
  match text.findIdx? fun c => !isAllowed c with
  | none => scanText text
  | some position =>
    match scannedBefore 4096 position with
    | 0 => [.fault .forbiddenCharacter]
    | n => endWith .forbiddenCharacter (scanText (text.take n))

end Ostinato.Yaml
