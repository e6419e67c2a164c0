import Ostinato.Text.Digit
import Ostinato.Yaml.Lexeme

/-!
# Names, tags and directives as they are written

An anchor gives a value a name, under which an alias repeats it. A tag says what kind of value it
is: it is written in full between angle brackets, or after a handle that a directive explains.
-/

namespace Ostinato.Yaml

def isNameChar (c : Char) : Bool :=
  c.isAlphanum || c == '-' || c == '_'

/-- A name at the front and the cursor after it; it is not empty. -/
def nameFrom (fault : Fault) (c : Cursor) : Except Fault (String × Cursor) :=
  let name := c.rest.takeWhile isNameChar
  if name.isEmpty then .error fault else .ok (String.ofList name, c.skip name.length)

/-- Whether an anchor or alias may end before what comes. -/
def endsName : Option Char → Bool
  | none => true
  | some c => isBreakOrBlank c || ['?', ':', ',', ']', '\x7d', '%', '@', '\x60'].contains c

def anchorName (c : Cursor) : Except Fault (String × Cursor) := do
  let (name, c) ← nameFrom .malformedName c.next
  if endsName c.peek then return (name, c) else .error .malformedName

/-! ## Tags -/

/-- A tag as it is written: after a handle, or in full. -/
structure TagName where
  handle : Option String := none
  rest : String
  deriving Repr, DecidableEq

def isUriChar (c : Char) : Bool :=
  isNameChar c || ";/?:@&=+$,.!~*'()[]".toList.contains c

/-- Bytes that are written as a percent sign and two digits each. -/
def escapedBytes : Nat → Cursor → Except Fault (List UInt8 × Cursor)
  | 0, c => .ok ([], c)
  | fuel + 1, c =>
    if !c.sees '%' then .ok ([], c)
    else
      let digits := c.next.rest.take 2
      match hexNumber? digits, digits.length with
      | some n, 2 => do
        let (more, c) ← escapedBytes fuel (c.skip 3)
        return (n.toUInt8 :: more, c)
      | _, _ => .error .malformedTag

/-- The characters that a run of escaped bytes encodes. -/
def escapedChars (c : Cursor) : Except Fault (List Char × Cursor) := do
  let (bytes, c) ← escapedBytes c.left c
  match String.fromUTF8? ⟨bytes.toArray⟩ with
  | some s => return (s.toList, c)
  | none => .error .malformedTag

def uriFrom : Nat → Cursor → Except Fault (List Char × Cursor)
  | 0, c => .ok ([], c)
  | fuel + 1, c =>
    match c.peek with
    | some ch =>
      if ch == '%' then do
        let (chars, c) ← escapedChars c
        let (more, c) ← uriFrom fuel c
        return (chars ++ more, c)
      else if isUriChar ch then do
        let (more, c) ← uriFrom fuel c.next
        return (ch :: more, c)
      else .ok ([], c)
    | none => .ok ([], c)

/-- The part of a tag after its handle, or all of it; it is not empty. -/
def uri (c : Cursor) : Except Fault (String × Cursor) := do
  let (chars, rest) ← uriFrom c.left c
  if rest.index == c.index then .error .malformedTag else return (String.ofList chars, rest)

def handle (c : Cursor) : Except Fault (String × Cursor) :=
  if !c.sees '!' then .error .malformedTag
  else if c.next.sees ' ' then .ok ("!", c.next)
  else
    let name := c.next.rest.takeWhile isNameChar
    let c := c.next.skip name.length
    if c.sees '!' then .ok ("!" ++ String.ofList name ++ "!", c.next) else .error .malformedTag

def tagName (c : Cursor) : Except Fault (TagName × Cursor) := do
  let word := c.next.rest.takeWhile fun ch => !endsItem (some ch)
  let (tag, c) ←
    if c.next.sees '<' then do
      let (full, c) ← uri (c.skip 2)
      if c.sees '>' then pure (⟨none, full⟩, c.next) else .error .malformedTag
    else if endsWord c.next.peek then pure (⟨none, "!"⟩, c.next)
    else do
      let (h, c) ← if word.contains '!' then handle c else .ok ("!", c.next)
      let (rest, c) ← uri c
      pure (⟨some h, rest⟩, c)
  if endsItem c.peek then return (tag, c) else .error .malformedTag

/-! ## Directives -/

inductive Directive where
  | version (major : Nat)
  /-- What a handle stands for. -/
  | tag (handle stem : String)
  | other
  deriving Repr, DecidableEq

def versionNumber (c : Cursor) : Except Fault (Nat × Cursor) :=
  let digits := c.rest.takeWhile Char.isDigit
  if digits.isEmpty then .error .malformedDirective
  else .ok (Text.number digits, c.skip digits.length)

def versionDirective (c : Cursor) : Except Fault (Directive × Cursor) := do
  let (major, c) ← versionNumber (c.skipWhile (· == ' '))
  if !c.sees '.' then .error .malformedDirective
  else
    let (_, c) ← versionNumber c.next
    if endsItem c.peek then return (.version major, c) else .error .malformedDirective

def tagDirective (c : Cursor) : Except Fault (Directive × Cursor) := do
  let (h, c) ← handle (c.skipWhile (· == ' '))
  if !c.sees ' ' then .error .malformedDirective
  else
    let (stem, c) ← uri (c.skipWhile (· == ' '))
    if endsItem c.peek then return (.tag h stem, c) else .error .malformedDirective

/-- A directive with its line, the cursor being at its mark. Those of other names are passed
over. -/
def directive (c : Cursor) : Except Fault (Directive × Cursor) := do
  let (name, c) ← nameFrom .malformedDirective c.next
  if !endsItem c.peek then .error .malformedDirective
  else
    let (d, c) ←
      if name == "YAML" then versionDirective c
      else if name == "TAG" then tagDirective c
      else .ok (.other, c.skipWhile fun ch => !isBreak ch)
    return (d, ← c.pastLine .malformedDirective)

end Ostinato.Yaml
