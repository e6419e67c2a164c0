import Ostinato.Text.Digit
import Ostinato.Statement

/-!
# Tokens

A source line is cut into integers, words and punctuation. Blanks separate them, and a comment,
which starts with `#` or `//` where a token could start, runs to the end of the line. Each lexeme
is the longest one that starts at its column.
-/

namespace Ostinato.Source

inductive TokenKind where
  | int
  | word
  | punct
  deriving Repr, DecidableEq

def TokenKind.name : TokenKind → String
  | int => "int"
  | word => "word"
  | punct => "punct"

structure Token where
  kind : TokenKind
  text : String
  line : Int
  column : Int
  deriving Repr, DecidableEq

namespace Token

def endColumn (t : Token) : Int :=
  t.column + t.text.length

def pos (t : Token) : Pos := ⟨t.line, t.column⟩

def endPos (t : Token) : Pos := ⟨t.line, t.endColumn⟩

def digits (t : Token) : List Char :=
  match t.text.toList with
  | '-' :: digits => digits
  | digits => digits

def value (t : Token) : Int :=
  match t.text.toList with
  | '-' :: digits => -(Text.number digits : Int)
  | digits => Text.number digits

def isPunct (t : Token) (symbol : String) : Bool :=
  t.kind == .punct && t.text == symbol

end Token

/-! ## Lexemes -/

/-- What a lexeme is; only tokens are kept. -/
inductive LexemeKind where
  | blank
  | comment
  | token (kind : TokenKind)
  deriving Repr, DecidableEq

def isSpace (c : Char) : Bool :=
  c == ' ' || c == '\t'

def isWordStart (c : Char) : Bool :=
  c.isAlpha || c == '_'

def isWordChar (c : Char) : Bool :=
  c.isAlphanum || c == '_' || c == '#'

def run (p : Char → Bool) (cs : List Char) : Nat :=
  (cs.takeWhile p).length

/-- The length of a minus with digits, as it ends the name of a low octave; zero if there is
none. -/
def octaveTail : List Char → Nat
  | '-' :: rest => if run Text.isDigit rest = 0 then 0 else 1 + run Text.isDigit rest
  | _ => 0

/-- How much of `cs` belongs to a word whose first character stands before it. -/
def wordTail (cs : List Char) : Nat :=
  run isWordChar cs + octaveTail (cs.dropWhile isWordChar)

/-- The kind of the lexeme that starts with `c`, and how many characters of `cs` it takes
besides. -/
def lexeme? (c : Char) (cs : List Char) : Option (LexemeKind × Nat) :=
  if isSpace c then some (.blank, run isSpace cs)
  else if c == '#' then some (.comment, run (· != '\n') cs)
  else if c == '/' then
    if cs.head? == some '/' then some (.comment, run (· != '\n') cs) else none
  else if Text.isDigit c then some (.token .int, run Text.isDigit cs)
  else if c == '-' then
    if run Text.isDigit cs = 0 then none else some (.token .int, run Text.isDigit cs)
  else if isWordStart c then some (.token .word, wordTail cs)
  else if c == ',' || c == ':' || c == '=' then some (.token .punct, 0)
  else none

/-- A character at which no lexeme starts, with its column. -/
structure Stray where
  char : Char
  column : Int
  deriving Repr, DecidableEq

/-- The tokens of the rest of a line that starts at `column`. -/
def tokensFrom (line column : Int) : List Char → Except Stray (List Token)
  | [] => .ok []
  | c :: cs =>
    match lexeme? c cs with
    | none => .error ⟨c, column⟩
    | some (kind, n) =>
      match tokensFrom line (column + 1 + n) (cs.drop n) with
      | .error e => .error e
      | .ok rest =>
        match kind with
        | .token k => .ok (⟨k, String.ofList (c :: cs.take n), line, column⟩ :: rest)
        | _ => .ok rest
termination_by cs => cs.length

def tokens (line : Int) (text : List Char) : Except Stray (List Token) :=
  tokensFrom line 1 text

end Ostinato.Source
