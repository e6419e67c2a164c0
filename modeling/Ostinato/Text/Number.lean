import Ostinato.Binary64
import Ostinato.Text.Blank
import Ostinato.Text.Digit

/-!
# Numbers written as text

Settings and command line arguments give numbers as text: decimal digits of any script, single
underscores between digits, a sign, and blanks around the whole.
-/

namespace Ostinato.Text

/-- Digits with single underscores between them. -/
def isGrouped : List Char → Bool
  | [] => false
  | [c] => isDigit c
  | c :: d :: rest => isDigit c && (isGrouped (d :: rest) || (d == '_' && isGrouped rest))

def splitSign : List Char → Bool × List Char
  | '-' :: rest => (true, rest)
  | '+' :: rest => (false, rest)
  | cs => (false, cs)

def groupedNumber (cs : List Char) : Nat :=
  number (cs.filter isDigit)

def integer? (s : String) : Option Int :=
  let (neg, body) := splitSign (trim s.toList)
  if isGrouped body then
    let n : Int := groupedNumber body
    some (if neg then -n else n)
  else none

def isDigitOrBar (c : Char) : Bool :=
  isDigit c || c == '_'

/-- The exponent part of a decimal number, empty or `e` and a signed integer. -/
def exponent? : List Char → Option Int
  | [] => some 0
  | c :: rest =>
    if c == 'e' || c == 'E' then
      let (neg, body) := splitSign rest
      if isGrouped body then
        let n : Int := groupedNumber body
        some (if neg then -n else n)
      else none
    else none

/-- An unsigned decimal number: digits with a point somewhere, then an exponent. -/
def unsignedDecimal? (neg : Bool) (body : List Char) : Option Binary64 :=
  let whole := body.takeWhile isDigitOrBar
  let rest := body.dropWhile isDigitOrBar
  let (places, tail) :=
    match rest with
    | '.' :: r => (r.takeWhile isDigitOrBar, r.dropWhile isDigitOrBar)
    | r => ([], r)
  let wellFormed :=
    (isGrouped whole && (places.isEmpty || isGrouped places)) ||
    (whole.isEmpty && isGrouped places)
  if wellFormed then
    (exponent? tail).map fun e =>
      let digits := whole.filter isDigit ++ places.filter isDigit
      Binary64.ofDecimal neg (number digits) (e - (places.filter isDigit).length)
  else none

/-- The binary64 number that a text writes, the words for infinity and NaN included. -/
def decimal? (s : String) : Option Binary64 :=
  let (neg, body) := splitSign (trim s.toList)
  let word := String.ofList (body.map Char.toLower)
  if word == "inf" || word == "infinity" then some (.inf neg)
  else if word == "nan" then some (.nan neg)
  else unsignedDecimal? neg body

end Ostinato.Text
