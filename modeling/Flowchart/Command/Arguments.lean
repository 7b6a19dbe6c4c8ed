import Flowchart.Settings

/-! The arguments of the command. They are read from left to right, and the first one that cannot be
accepted, or that asks for the version or for help, ends the reading. -/
namespace Flowchart.Command

inductive Interruption where
  | usage
  | help
  | version
deriving DecidableEq, Repr

inductive Setting where
  | input | output | batch | direction | trueLabel | falseLabel | theme
deriving DecidableEq, Repr

inductive Choice where
  | setting (setting : Setting)
  | verbose
  | interruption (interruption : Interruption)
deriving DecidableEq, Repr

structure Arguments where
  input : Option String := none
  output : Option String := none
  batch : Option String := none
  direction : Option String := none
  trueLabel : Option String := none
  falseLabel : Option String := none
  theme : Option String := none
  verbose : Bool := false
deriving DecidableEq, Repr

def Choice.ofName? : String → Option Choice
  | "input" => some (.setting .input)
  | "output" => some (.setting .output)
  | "batch" => some (.setting .batch)
  | "direction" => some (.setting .direction)
  | "true-label" => some (.setting .trueLabel)
  | "false-label" => some (.setting .falseLabel)
  | "theme" => some (.setting .theme)
  | "verbose" => some .verbose
  | "help" => some (.interruption .help)
  | "version" => some (.interruption .version)
  | _ => none

def Choice.ofLetter? : Char → Option Choice
  | 'i' => some (.setting .input)
  | 'o' => some (.setting .output)
  | 'v' => some .verbose
  | 'h' => some (.interruption .help)
  | 'V' => some (.interruption .version)
  | _ => none

namespace Arguments

def get? (a : Arguments) : Setting → Option String
  | .input => a.input
  | .output => a.output
  | .batch => a.batch
  | .direction => a.direction
  | .trueLabel => a.trueLabel
  | .falseLabel => a.falseLabel
  | .theme => a.theme

def put (a : Arguments) (setting : Setting) (value : String) : Arguments :=
  match setting with
  | .input => { a with input := value }
  | .output => { a with output := value }
  | .batch => { a with batch := value }
  | .direction => { a with direction := value }
  | .trueLabel => { a with trueLabel := value }
  | .falseLabel => { a with falseLabel := value }
  | .theme => { a with theme := value }

/-- No option may be given twice. -/
def set (a : Arguments) (setting : Setting) (value : String) : Except Interruption Arguments :=
  if (a.get? setting).isSome then .error .usage else .ok (a.put setting value)

def setVerbose (a : Arguments) : Except Interruption Arguments :=
  if a.verbose then .error .usage else .ok { a with verbose := true }

/-- What one argument says, and the option, if there is one, whose value is the argument behind it. -/
abbrev Read := Except Interruption (Arguments × Option Setting)

def readLong (a : Arguments) (cs : List Char) : Read :=
  let name := String.ofList (cs.takeWhile (· != '='))
  let value? := match cs.dropWhile (· != '=') with
    | [] => none
    | _ :: value => some (String.ofList value)
  match Choice.ofName? name, value? with
  | some (.setting setting), some value => (a.set setting value).map (·, none)
  | some (.setting setting), none => .ok (a, some setting)
  | some .verbose, none => a.setVerbose.map (·, none)
  | some (.interruption interruption), none => .error interruption
  | _, _ => .error .usage

/-- Letters behind one dash. What follows the letter of an option with a value is the value; an equals
sign before it does not belong to it. -/
def readShort (a : Arguments) : List Char → Read
  | [] => .ok (a, none)
  | c :: cs =>
    match Choice.ofLetter? c with
    | some (.setting setting) =>
      match cs with
      | [] => .ok (a, some setting)
      | '=' :: value => (a.set setting (String.ofList value)).map (·, none)
      | value => (a.set setting (String.ofList value)).map (·, none)
    | some .verbose =>
      match a.setVerbose with
      | .ok a => a.readShort cs
      | .error interruption => .error interruption
    | some (.interruption interruption) => .error interruption
    | none => .error .usage

/-- A dash alone is a value like others, but no argument is taken that is not an option. -/
def readOne (a : Arguments) (arg : String) : Read :=
  match arg.toList with
  | '-' :: '-' :: cs => a.readLong cs
  | '-' :: c :: cs => a.readShort (c :: cs)
  | _ => .error .usage

/-- A value that stands alone may not look like an option. -/
def isValue (arg : String) : Bool :=
  match arg.toList with
  | '-' :: _ :: _ => false
  | _ => true

def readAll (a : Arguments) : List String → Except Interruption Arguments
  | [] => .ok a
  | arg :: args =>
    if arg = "--" then
      if args.isEmpty then .ok a else .error .usage
    else
      match a.readOne arg, args with
      | .error interruption, _ => .error interruption
      | .ok (a, none), args => a.readAll args
      | .ok (_, some _), [] => .error .usage
      | .ok (a, some setting), value :: args =>
        if isValue value then
          match a.set setting value with
          | .ok a => a.readAll args
          | .error interruption => .error interruption
        else .error .usage

/-- A folder is drawn into another folder, and not together with a single input. -/
def isCoherent (a : Arguments) : Bool :=
  a.batch.isNone || (a.input.isNone && a.output.isSome)

def read (args : List String) : Except Interruption Arguments :=
  match readAll {} args with
  | .ok a => if a.isCoherent then .ok a else .error .usage
  | .error interruption => .error interruption

def settings (a : Arguments) : Except Failure Settings :=
  Settings.ofTexts a.direction a.theme a.trueLabel a.falseLabel

end Arguments

end Flowchart.Command
