import Ostinato.Binary64
import Ostinato.Text.Quoted
import Ostinato.Yaml.Timestamp

/-!
# What can be wrong with a document
-/

namespace Ostinato.Yaml

/-- The complaint about something that is no integer, given how it is shown. No more than two
hundred characters of that appear. -/
def malformedInteger (base : Nat) (shown : String) : String :=
  "invalid literal for int() with base " ++ toString base ++ ": " ++
    String.ofList (shown.toList.take 200)

inductive ScalarFault where
  | truthWord (word : String)
  | integer (base : Nat) (digits : String)
  | real (digits : String)
  /-- A number without any character. -/
  | emptyNumber
  | overflow (fault : Overflow)
  | noTimestamp
  | timestamp (fault : TimestampFault)
  /-- A timestamp is asked of a mapping with a default value. -/
  | timestampOfMapping
  deriving Repr, DecidableEq

def ScalarFault.message : ScalarFault → String
  | truthWord word => Text.quoted word
  | integer base digits => malformedInteger base (Text.quoted digits)
  | real digits => "could not convert string to float: " ++ Text.quoted digits
  | emptyNumber => "string index out of range"
  | overflow o => o.message
  | noTimestamp => "not a timestamp"
  | timestamp f => f.message
  | timestampOfMapping => "a mapping is no timestamp"

inductive Fault where
  | forbiddenCharacter
  | strayCharacter
  | unclosedQuote
  | unknownEscape
  /-- An escape for a code that no character has. -/
  | noSuchCharacter (code : Nat)
  | expectedColon
  | misplacedEntry
  | misplacedKey
  | misplacedColon
  | malformedName
  | malformedTag
  | malformedDirective
  | malformedBlock
  | unknownHandle
  | undefinedAlias
  | repeatedAnchor
  | unexpectedToken
  | secondDocument
  /-- A tag that no value can have. -/
  | unknownTag
  /-- A tag for another kind of value. -/
  | misplacedTag
  /-- Only mappings and lists of them can be merged. -/
  | notMergeable
  /-- A key is a list, a mapping or a set. -/
  | compositeKey
  /-- Pairs are written as a list of mappings with one entry each. -/
  | malformedPairs
  /-- Bytes are written in base sixty-four. -/
  | malformedBytes
  /-- The default value of a mapping is that mapping again. -/
  | endlessDefault
  | scalar (fault : ScalarFault)
  deriving Repr, DecidableEq

/-- The largest code that is taken for that of a character at all. -/
def largestCode : Nat := 0x7fffffff

def Fault.message : Fault → String
  | noSuchCharacter code =>
    if largestCode < code then "Python int too large to convert to C int"
    else "chr() arg not in range(0x110000)"
  | scalar f => f.message
  | endlessDefault => "maximum recursion depth exceeded"
  | _ => "malformed document"

end Ostinato.Yaml
