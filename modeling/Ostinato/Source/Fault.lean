import Ostinato.Statement
import Ostinato.Text.Quoted

/-!
# What can be wrong with source text

Each cause has a constructor and its wording stands in one place. A cause is reported with the
position it was found at and the name of the source, if it has one.
-/

namespace Ostinato

/-- A cause with its place in a source. -/
structure Located (ε : Type) where
  cause : ε
  pos : Pos
  source : Option String
  deriving Repr, DecidableEq

/-- A message with its place: the source's name unless that is missing or empty, then line and
column. -/
def locate (source : Option String) (pos : Pos) (message : String) : String :=
  let place := "line " ++ toString pos.line ++ ", column " ++ toString pos.column
  match source with
  | none | some "" => place ++ ": " ++ message
  | some name => name ++ ": " ++ place ++ ": " ++ message

namespace Source

inductive Fault where
  | strayCharacter (c : Char)
  | unclosedComment
  /-- The line ended where something else was expected. -/
  | lineEnded (expected : String)
  | expected (what found : String)
  | expectedInteger (what found : String)
  | outOfRange (what : String) (value least : Int) (greatest : Option Int)
  | malformedName (what text : String)
  | trailing (text : String)
  | unknownKeyword (text : String)
  | unknownMessage (text : String)
  | malformedChannel (text : String)
  | channelOutOfRange (value : Int)
  | rawChannelOutOfRange (value : Int)
  | noteOutOfRange (value : Int)
  | pitch (fault : PitchFault)
  | chord (fault : ChordFault)
  | unknownUnit (text : String)
  | unknownModifier (text : String)
  | repeatedModifier (text : String)
  | unknownSetting (text : String)
  | notPowerOfTwo (value : Int)
  /-- An integer is too long to be converted. -/
  | tooManyDigits (count : Nat)
  deriving Repr, DecidableEq

/-- Whether a fault is one of the text, which is reported with its place. The others come out of a
conversion or a lookup as they are. -/
def Fault.isSyntax : Fault → Bool
  | pitch (.strangeAccidental _) => false
  | tooManyDigits _ => false
  | _ => true

def capitalized (s : String) : String :=
  match s.toList with
  | [] => ""
  | c :: rest => String.ofList (c.toUpper :: rest)

/-- The range that an integer had to be in. -/
def rangeText (least : Int) : Option Int → String
  | some greatest => toString least ++ "-" ++ toString greatest
  | none => "at least " ++ toString least

def Fault.message : Fault → String
  | strayCharacter c => "Unexpected character " ++ Text.quoted (String.singleton c)
  | unclosedComment => "Unterminated block comment"
  | lineEnded what => "Expected " ++ what ++ " but the line ended"
  | expected what found => "Expected " ++ what ++ ", found " ++ Text.quoted found
  | expectedInteger what found =>
    "Expected " ++ what ++ " (an integer), found " ++ Text.quoted found
  | outOfRange what value least greatest =>
    capitalized what ++ " " ++ toString value ++ " is out of range (" ++
      rangeText least greatest ++ ")"
  | malformedName what text => "Malformed " ++ what ++ " " ++ Text.quoted text
  | trailing text => "Unexpected " ++ Text.quoted text ++ " at end of statement"
  | unknownKeyword text => "Unknown keyword " ++ Text.quoted text
  | unknownMessage text =>
    "Unknown message " ++ Text.quoted text ++ ", expected NOTEON or NOTEOFF"
  | malformedChannel text => "Malformed channel " ++ Text.quoted text
  | channelOutOfRange value => "Channel " ++ toString value ++ " is out of range (1-16)"
  | rawChannelOutOfRange value => "Raw channel " ++ toString value ++ " is out of range (0-15)"
  | noteOutOfRange value => "Pitch " ++ toString value ++ " is out of range (0-127)"
  | pitch fault => fault.message
  | chord fault => fault.message
  | unknownUnit text => "Unknown time unit " ++ Text.quoted text
  | unknownModifier text => "Unknown PLAY modifier " ++ Text.quoted text
  | repeatedModifier text => text ++ " given twice"
  | unknownSetting text => "Unknown DEFAULT setting " ++ Text.quoted text
  | notPowerOfTwo value => "Beat unit " ++ toString value ++ " is not a power of two"
  | tooManyDigits count => Text.readRefused count

end Source

end Ostinato
