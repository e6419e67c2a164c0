import Ostinato.Text.Number

/-!
# Command line options

Arguments are told apart first: options, operands, and the mark after which everything is an
operand. Long options may be shortened as long as they stay unambiguous, and may carry their value
after an equals sign.
-/

namespace Ostinato.CommandLine

structure Options where
  source : Option String := none
  config : String := "midiasm.yaml"
  render : Option String := none
  maxSeconds : Binary64 := .ofDecimal false 600 0
  listing : Bool := false
  listOutputs : Bool := false
  deriving Repr, DecidableEq

inductive Flag where
  | help
  | config
  | render
  | maxSeconds
  | listing
  | listOutputs
  deriving Repr, DecidableEq

def spellings : List (String × Flag) := [
  ("-h", .help), ("--help", .help), ("--config", .config), ("--render", .render),
  ("--max-seconds", .maxSeconds), ("--listing", .listing), ("--list-outputs", .listOutputs)]

def Flag.takesValue : Flag → Bool
  | config => true
  | render => true
  | maxSeconds => true
  | _ => false

/-! ## Kinds of arguments -/

/-- An argument by its kind. -/
inductive Argument where
  | operand (text : String)
  | option (flag : Flag) (value : Option String)
  /-- The letter for help with more letters after it. -/
  | letters (more : List Char)
  | unknown
  /-- Everything after it is an operand. -/
  | mark
  deriving Repr, DecidableEq

inductive UsageFault where
  | ambiguous
  | missingValue
  | unexpectedValue
  | badNumber
  | unrecognized
  deriving Repr, DecidableEq

/-- Whether a text is a negative number, and so no option. A line may end after it. -/
def isNegativeNumber : List Char → Bool
  | '-' :: text =>
    let body := Text.dropLastBreak text
    let places := (body.dropWhile Text.isDigit).drop 1
    (!body.isEmpty && body.all Text.isDigit) ||
    ((body.dropWhile Text.isDigit).head? == some '.' && !places.isEmpty && places.all Text.isDigit)
  | _ => false

/-- An option and the value after its equals sign. -/
def splitEquals (cs : List Char) : List Char × Option String :=
  match cs.dropWhile (· != '=') with
  | [] => (cs, none)
  | _ :: value => (cs.takeWhile (· != '='), some (String.ofList value))

/-- The options that a long option can be short for. -/
def completions (cs : List Char) : List Flag :=
  if cs.take 2 == ['-', '-'] then
    (spellings.filter fun s => cs.isPrefixOf s.1.toList).map Prod.snd
  else []

/-- The kind of an argument that begins with a dash and is no option as it stands. -/
def abbreviated (cs : List Char) : Except UsageFault Argument :=
  if cs.take 2 == ['-', 'h'] then .ok (.letters (cs.drop 2))
  else
    let (name, value) := splitEquals cs
    match completions name with
    | [flag] => .ok (.option flag value)
    | _ :: _ :: _ => .error .ambiguous
    | [] =>
      if isNegativeNumber cs || cs.contains ' ' then .ok (.operand (String.ofList cs))
      else .ok .unknown

/-- The kind of an argument that begins with a dash. -/
def dashed (cs : List Char) : Except UsageFault Argument :=
  match spellings.lookup (String.ofList cs) with
  | some flag => .ok (.option flag none)
  | none => abbreviated cs

def classify (s : String) : Except UsageFault Argument :=
  match s.toList with
  | ['-', '-'] => .ok .mark
  | '-' :: c :: rest => dashed ('-' :: c :: rest)
  | _ => .ok (.operand s)

/-- The kinds of all arguments. -/
def classifyAll : List String → Except UsageFault (List Argument)
  | [] => .ok []
  | s :: rest => do
    match ← classify s with
    | .mark => return .mark :: rest.map .operand
    | a => return a :: (← classifyAll rest)

/-! ## Reading them -/

inductive Request where
  | run (options : Options)
  | help
  deriving Repr, DecidableEq

def Options.set (o : Options) (flag : Flag) (value : String) : Except UsageFault Options :=
  match flag with
  | .config => .ok { o with config := value }
  | .render => .ok { o with render := some value }
  | .maxSeconds =>
    match Text.decimal? value with
    | some x => .ok { o with maxSeconds := x }
    | none => .error .badNumber
  | _ => .error .unexpectedValue

def Options.raise (o : Options) : Flag → Options
  | .listing => { o with listing := true }
  | .listOutputs => { o with listOutputs := true }
  | _ => o

/-- Whether help is given in spite of more letters. After a letter for help there may not be a value
or a dash; any other letter counts as superfluous, which help comes before. -/
def isHelpWith : List Char → Bool
  | [] => true
  | 'h' :: more => isHelpWith more
  | c :: _ => c != '=' && c != '-'

/-- Reads arguments in order. There is one operand, the source; `clean` holds while nothing
superfluous was met, and `beside` right after the operand. A superfluous argument is only found out
at the end, when no request for help came before. -/
def gather (o : Options) (clean beside : Bool) : List Argument → Except UsageFault Request
  | [] => if clean then .ok (.run o) else .error .unrecognized
  | .option .help none :: _ => .ok .help
  | .letters more :: _ => if isHelpWith more then .ok .help else .error .unexpectedValue
  | .option flag (some value) :: rest => do
    if flag.takesValue then gather (← o.set flag value) clean false rest
    else .error .unexpectedValue
  | .option flag none :: .operand value :: rest => do
    if flag.takesValue then gather (← o.set flag value) clean false rest
    else gather (o.raise flag) clean false (.operand value :: rest)
  | .option flag none :: rest =>
    if flag.takesValue then .error .missingValue else gather (o.raise flag) clean false rest
  | .operand text :: rest =>
    match o.source with
    | none => gather { o with source := some text } clean true rest
    | some _ => gather o false false rest
  | .mark :: rest =>
    if o.source.isNone then gather o clean false rest
    else gather o (clean && beside) false rest
  | .unknown :: rest => gather o false false rest

def parse (arguments : List String) : Except UsageFault Request := do
  gather {} true false (← classifyAll arguments)

end Ostinato.CommandLine
