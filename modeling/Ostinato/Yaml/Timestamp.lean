import Ostinato.Text.Blank
import Ostinato.Text.Digit

/-!
# Dates and times in a document

A timestamp is a date, or a date with a time of day and perhaps an offset from universal time. Two
times that have an offset are the same when they are the same instant.
-/

namespace Ostinato.Yaml

structure Date where
  year : Nat
  month : Nat
  day : Nat
  deriving Repr, DecidableEq

structure TimeOfDay where
  hour : Nat
  minute : Nat
  second : Nat := 0
  microsecond : Nat := 0
  offset : Option Int := none
  deriving Repr, DecidableEq

structure Timestamp where
  date : Date
  time : Option TimeOfDay := none
  deriving Repr, DecidableEq

inductive TimestampFault where
  /-- An offset of so many minutes, which is a day or more. -/
  | offset (minutes : Int)
  | year
  | month
  | day
  | hour
  | minute
  | second
  deriving Repr, DecidableEq

/-! ## Calendar -/

def isLeap (year : Nat) : Bool :=
  year % 4 == 0 && (year % 100 != 0 || year % 400 == 0)

def daysInMonth (year month : Nat) : Nat :=
  if month == 2 then (if isLeap year then 29 else 28)
  else if [4, 6, 9, 11].contains month then 30
  else 31

namespace Date

/-- Days since the last day before the year one. -/
def number (d : Date) : Nat :=
  let y := d.year - 1
  let before := (List.range (d.month - 1)).foldl (fun n m => n + daysInMonth d.year (m + 1)) 0
  365 * y + y / 4 - y / 100 + y / 400 + before + d.day

def check (d : Date) : Except TimestampFault Unit :=
  if d.year == 0 then .error .year
  else if d.month == 0 || 12 < d.month then .error .month
  else if d.day == 0 || daysInMonth d.year d.month < d.day then .error .day
  else .ok ()

end Date

namespace TimeOfDay

def minutesPerDay : Int := 1440

def checkOffset : Option Int → Except TimestampFault Unit
  | some n => if n.natAbs < minutesPerDay then .ok () else .error (.offset n)
  | none => .ok ()

def check (t : TimeOfDay) : Except TimestampFault Unit :=
  if 23 < t.hour then .error .hour
  else if 59 < t.minute then .error .minute
  else if 59 < t.second then .error .second
  else .ok ()

end TimeOfDay

namespace Timestamp

/-- The offset is looked at first, then the date, then the time of day. -/
def check (s : Timestamp) : Except TimestampFault Unit := do
  TimeOfDay.checkOffset (s.time.bind (·.offset))
  s.date.check
  match s.time with
  | some t => t.check
  | none => .ok ()

/-- Minutes of universal time. -/
def instant (d : Date) (t : TimeOfDay) (offset : Int) : Int :=
  d.number * TimeOfDay.minutesPerDay + t.hour * 60 + t.minute - offset

/-- Whether two timestamps are the same: the same instant if both have an offset. -/
def same (a b : Timestamp) : Bool :=
  match a.time, b.time with
  | some t, some u =>
    match t.offset, u.offset with
    | some m, some n =>
      instant a.date t m == instant b.date u n && t.second == u.second &&
        t.microsecond == u.microsecond
    | _, _ => a == b
  | _, _ => a == b

/-! ## Reading -/

def digits? (least most : Nat) (cs : List Char) : Option (Nat × List Char) :=
  let ds := (cs.take most).takeWhile Char.isDigit
  if least ≤ ds.length then some (Text.number ds, cs.drop ds.length) else none

def past? (c : Char) : List Char → Option (List Char)
  | [] => none
  | d :: rest => if c == d then some rest else none

def isTimeBlank (c : Char) : Bool :=
  c == ' ' || c == '\t'

def microseconds (fraction : List Char) : Nat :=
  Text.number ((fraction ++ List.replicate 6 '0').take 6)

def fraction : List Char → Nat × List Char
  | '.' :: rest => (microseconds (rest.takeWhile Char.isDigit), rest.dropWhile Char.isDigit)
  | cs => (0, cs)

/-- The minutes of an offset after its hours. -/
def offsetMinutes? : List Char → Option Nat
  | [] => some 0
  | cs => do
    let (m, rest) ← digits? 2 2 (← past? ':' cs)
    if rest.isEmpty then return m else none

def offset? (cs : List Char) : Option (Option Int) :=
  match cs, cs.dropWhile isTimeBlank with
  | [], _ => some none
  | _, ['Z'] => some (some 0)
  | _, sign :: rest => do
    let (h, rest) ← digits? 1 2 rest
    let m ← offsetMinutes? rest
    let n : Int := h * 60 + m
    if sign == '+' then return some n
    else if sign == '-' then return some (-n)
    else none
  | _, [] => none

/-- What separates a date from a time. -/
def afterSeparator? : List Char → Option (List Char)
  | 'T' :: rest => some rest
  | 't' :: rest => some rest
  | c :: rest => if isTimeBlank c then some (rest.dropWhile isTimeBlank) else none
  | [] => none

def time? (cs : List Char) : Option TimeOfDay := do
  let (hour, cs) ← digits? 1 2 (← afterSeparator? cs)
  let (minute, cs) ← digits? 2 2 (← past? ':' cs)
  let (second, cs) ← digits? 2 2 (← past? ':' cs)
  let (micro, cs) := fraction cs
  return ⟨hour, minute, second, micro, ← offset? cs⟩

/-- The timestamp that a text without a line feed writes, whether or not there is such a day. -/
def onLine? (cs : List Char) : Option Timestamp := do
  let (year, cs) ← digits? 4 4 cs
  let (month, cs) ← digits? 1 2 (← past? '-' cs)
  let (day, cs) ← digits? 1 2 (← past? '-' cs)
  if cs.isEmpty then return ⟨⟨year, month, day⟩, none⟩
  else return ⟨⟨year, month, day⟩, some (← time? cs)⟩

/-- The timestamp that a text writes. It may end with one line feed. -/
def read? (cs : List Char) : Option Timestamp :=
  onLine? (Text.dropLastBreak cs)

/-- Whether a scalar is spelled like a timestamp. A mere date has all its digits. -/
def isTimestamp (cs : List Char) : Bool :=
  match onLine? cs with
  | some ⟨_, none⟩ => cs.length == 10
  | some ⟨_, some _⟩ => true
  | none => false

/-! ## Text -/

def padded (width n : Nat) : String :=
  let s := toString n
  String.ofList (List.replicate (width - s.length) '0') ++ s

def offsetText (n : Int) : String :=
  (if n < 0 then "-" else "+") ++ padded 2 (n.natAbs / 60) ++ ":" ++ padded 2 (n.natAbs % 60)

def text (s : Timestamp) : String :=
  let date := padded 4 s.date.year ++ "-" ++ padded 2 s.date.month ++ "-" ++ padded 2 s.date.day
  match s.time with
  | none => date
  | some t =>
    date ++ " " ++ padded 2 t.hour ++ ":" ++ padded 2 t.minute ++ ":" ++ padded 2 t.second ++
      (if t.microsecond == 0 then "" else "." ++ padded 6 t.microsecond) ++
      ((t.offset.map offsetText).getD "")

/-- How a span of minutes is shown: whole days, and seconds that are never negative. -/
def displaySpan (minutes : Int) : String :=
  let days := minutes.fdiv TimeOfDay.minutesPerDay
  let seconds := minutes.fmod TimeOfDay.minutesPerDay * 60
  let parts := (if days == 0 then [] else ["days=" ++ toString days]) ++
    (if seconds == 0 then [] else ["seconds=" ++ toString seconds])
  "datetime.timedelta(" ++ (if parts.isEmpty then "0" else String.intercalate ", " parts) ++ ")"

def displayOffset (minutes : Int) : String :=
  if minutes == 0 then "datetime.timezone.utc"
  else "datetime.timezone(" ++ displaySpan minutes ++ ")"

/-- How a timestamp is shown in messages; seconds and microseconds only as far as needed. -/
def display (s : Timestamp) : String :=
  let date := [s.date.year, s.date.month, s.date.day]
  match s.time with
  | none => "datetime.date(" ++ String.intercalate ", " (date.map toString) ++ ")"
  | some t =>
    let fine :=
      if t.microsecond != 0 then [t.second, t.microsecond]
      else if t.second != 0 then [t.second]
      else []
    let zone := (t.offset.map fun n => "tzinfo=" ++ displayOffset n).toList
    "datetime.datetime(" ++
      String.intercalate ", " ((date ++ [t.hour, t.minute] ++ fine).map toString ++ zone) ++ ")"

def kindName (s : Timestamp) : String :=
  if s.time.isSome then "datetime" else "date"

end Timestamp

def TimestampFault.message : TimestampFault → String
  | offset n =>
    "offset must be a timedelta strictly between -timedelta(hours=24) and timedelta(hours=24), " ++
      "not " ++ Timestamp.displaySpan n ++ "."
  | year => "year 0 is out of range"
  | month => "month must be in 1..12"
  | day => "day is out of range for month"
  | hour => "hour must be in 0..23"
  | minute => "minute must be in 0..59"
  | second => "second must be in 0..59"

end Ostinato.Yaml
