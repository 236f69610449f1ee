/-!
# Command-line arguments

Arguments are switches, options with a value, and plain values.  Long names
start with two hyphens and may carry their value behind an equals sign; a short
name is one character behind one hyphen and may carry its value right behind it.
After two hyphens alone everything is a plain value.  Nothing may be given twice
and no value may be empty.
-/

namespace Stackline

/-- What a command accepts. -/
structure Synopsis where
  /-- The long names of the switches. -/
  switches : List String
  /-- The long and the short names of the options. -/
  options : List (String × Option Char)
  /-- The most plain values, if there is a bound. -/
  maxValues : Option Nat

/-- The arguments of a command. -/
structure Arguments where
  switches : List String
  options : List (String × String)
  values : List String

/-- Why arguments were not read to the end. -/
inductive Interruption where
  /-- They ask for help. -/
  | help
  /-- They are not what the command accepts. -/
  | usage
  deriving DecidableEq, Repr

namespace Arguments

/-- No arguments. -/
def none : Arguments :=
  { switches := [], options := [], values := [] }

/-- Whether a text has the form of an option and not of a value. -/
def looksLikeOption (s : String) : Bool :=
  match s.toList with
  | '-' :: _ :: _ => true
  | _ => false

/-- Adds a plain value. -/
def addValue (syn : Synopsis) (a : Arguments) (v : String) : Except Interruption Arguments :=
  let full := match syn.maxValues with
    | some most => most ≤ a.values.length
    | .none => false
  if v.isEmpty || full then .error .usage else .ok { a with values := a.values ++ [v] }

/-- Adds plain values. -/
def addValues (syn : Synopsis) : Arguments → List String → Except Interruption Arguments
  | a, [] => .ok a
  | a, v :: rest => do addValues syn (← a.addValue syn v) rest

/-- Adds a switch. -/
def addSwitch (a : Arguments) (name : String) : Except Interruption Arguments :=
  if a.switches.contains name then .error .usage
  else .ok { a with switches := name :: a.switches }

/-- Adds an option with its value. -/
def addOption (a : Arguments) (name v : String) : Except Interruption Arguments :=
  if v.isEmpty || (a.options.lookup name).isSome then .error .usage
  else .ok { a with options := (name, v) :: a.options }

/-- One argument, taken for itself. -/
inductive Shape where
  /-- Two hyphens alone. -/
  | separator
  | long (name : String) (value : Option String)
  | short (name : Char) (rest : List Char)
  | value
  deriving DecidableEq

/-- The form of an argument. -/
def shape (s : String) : Shape :=
  match s.toList with
  | ['-', '-'] => .separator
  | '-' :: '-' :: cs =>
    let name := String.ofList (cs.takeWhile (· != '='))
    match cs.dropWhile (· != '=') with
    | _ :: v => .long name (some (String.ofList v))
    | [] => .long name .none
  | '-' :: c :: cs => .short c cs
  | _ => .value

/-- The value that stands right behind a short name. -/
def attached : List Char → Option String
  | [] => .none
  | '=' :: cs => some (String.ofList cs)
  | cs => some (String.ofList cs)

/-- What a shape says to a command: a switch, or an option and the value that it
carries. -/
def meaning (syn : Synopsis) : Shape → Except Interruption (String × Option (Option String))
  | .long "help" .none => .error .help
  | .long name v =>
    if syn.switches.contains name && v.isNone then .ok (name, .none)
    else if (syn.options.lookup name).isSome then .ok (name, some v)
    else .error .usage
  | .short c rest =>
    if c = 'h' then .error .help
    else match syn.options.find? fun o => o.2 = some c with
      | some (name, _) => .ok (name, some (attached rest))
      | .none => .error .usage
  | _ => .error .usage

/-- Reads arguments after those already read. -/
def read (syn : Synopsis) : Arguments → List String → Except Interruption Arguments
  | a, [] => .ok a
  | a, arg :: rest =>
    match shape arg with
    | .separator => a.addValues syn rest
    | .value => do read syn (← a.addValue syn arg) rest
    | s =>
      match meaning syn s with
      | .error e => .error e
      | .ok (name, .none) => do read syn (← a.addSwitch name) rest
      | .ok (name, some (some v)) => do read syn (← a.addOption name v) rest
      | .ok (name, some .none) =>
        match rest with
        | [] => .error .usage
        | v :: rest =>
          if looksLikeOption v then .error .usage
          else do read syn (← a.addOption name v) rest

end Arguments
end Stackline
