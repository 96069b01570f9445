/-!
# Arguments of a command

How a list of arguments is divided into options and positional arguments. An option is written `--name` or
`-n`. Its value follows as the next argument, or in the same argument: after an equals sign, or directly
after the one-letter form. An argument that begins with a dash is never the value of the option before it.
After `--` every argument is positional, and so is a single dash. No option may be repeated.
-/

namespace TripleStore.Command

/-- An option of a command. -/
structure Switch where
  /-- The name after two dashes. -/
  long : String
  /-- The letter after one dash, if there is one. -/
  short? : Option Char := none
  /-- The values that the option takes; none if it takes no value. -/
  accepts? : Option (String → Bool) := none

/-- Why arguments were not divided. -/
inductive Refusal where
  /-- The arguments do not fit the command. -/
  | usage
  /-- The arguments ask for help. -/
  | help
  deriving DecidableEq

/-- Options with their values and positional arguments, as far as they have been read. -/
structure Arguments where
  /-- The options and values, by long names. An option without value has the empty one. -/
  options : List (String × String) := []
  /-- The positional arguments. -/
  positionals : List String := []
  deriving DecidableEq

namespace Arguments

/-- The value of an option, if it was given. -/
def value? (args : Arguments) (long : String) : Option String := List.lookup long args.options

/-- True when an option was given. -/
def has (args : Arguments) (long : String) : Bool := (args.value? long).isSome

/-- Adds a positional argument, at most `max` of them. -/
def addPositional (max : Nat) (args : Arguments) (arg : String) : Except Refusal Arguments :=
  if args.positionals.length < max then .ok { args with positionals := args.positionals ++ [arg] }
  else .error .usage

/-- Adds an option, once, with a value that it accepts. -/
def addOption (switch : Switch) (value : String) (args : Arguments) : Except Refusal Arguments :=
  if args.has switch.long then .error .usage
  else if (switch.accepts?.map fun accepts => accepts value).getD true then
    .ok { args with options := args.options ++ [(switch.long, value)] }
  else .error .usage

/-- What an argument is. -/
inductive Kind where
  /-- The argument after which all are positional. -/
  | separator
  /-- A long option: its name, and the value after an equals sign. -/
  | long (name : String) (attached? : Option String)
  /-- A short option: its letter, and what follows it. -/
  | short (letter : Char) (attached : String)
  /-- A positional argument. -/
  | positional
  deriving DecidableEq

/-- Splits characters at the first equals sign, if there is one. -/
def splitValue (cs : List Char) : String × Option String :=
  let name := String.ofList (cs.takeWhile (· ≠ '='))
  match cs.dropWhile (· ≠ '=') with
  | [] => (name, none)
  | _ :: value => (name, some (String.ofList value))

/-- Says what an argument is. -/
def kind (arg : String) : Kind :=
  match arg.toList with
  | ['-', '-'] => .separator
  | '-' :: '-' :: cs =>
    let (name, attached?) := splitValue cs
    .long name attached?
  | '-' :: letter :: cs => .short letter (String.ofList cs)
  | _ => .positional

/-- The value that is attached to a short option; an equals sign may stand before it. -/
def attachedValue? (attached : String) : Option String :=
  match attached.toList with
  | [] => none
  | '=' :: cs => some (String.ofList cs)
  | _ => some attached

/-- What an argument contributes. -/
inductive Reading where
  /-- The argument after which all are positional. -/
  | separator
  /-- A positional argument. -/
  | positional
  /-- An option with its value, or one that takes none. -/
  | option (switch : Switch) (value : String)
  /-- An option whose value has to follow. -/
  | wanting (switch : Switch)

/-- Reads an option that has been found by its name, with the value attached to it. -/
def readOption (switch : Switch) (attached? : Option String) : Except Refusal Reading :=
  match switch.accepts?, attached? with
  | none, none => .ok (.option switch "")
  | none, some _ => .error .usage
  | some _, some value => .ok (.option switch value)
  | some _, none => .ok (.wanting switch)

/-- Reads an argument. -/
def read (switches : List Switch) (arg : String) : Except Refusal Reading :=
  match kind arg with
  | .separator => .ok .separator
  | .positional => .ok .positional
  | .long name attached? =>
    match switches.find? fun s => s.long == name with
    | some switch => readOption switch attached?
    | none => .error (if name = "help" ∧ attached? = none then .help else .usage)
  | .short letter attached =>
    match switches.find? fun s => s.short? == some letter with
    | some switch => readOption switch (attachedValue? attached)
    | none => .error (if letter = 'h' then .help else .usage)

/-- Divides arguments, in order; `max` is the number of positional arguments allowed. -/
def divide (switches : List Switch) (max : Nat) (args : Arguments) :
    List String → Except Refusal Arguments
  | [] => .ok args
  | arg :: rest =>
    match read switches arg with
    | .error refusal => .error refusal
    | .ok .separator => rest.foldlM (addPositional max) args
    | .ok .positional => (args.addPositional max arg).bind fun args => divide switches max args rest
    | .ok (.option switch value) =>
      (args.addOption switch value).bind fun args => divide switches max args rest
    | .ok (.wanting switch) =>
      match rest with
      | [] => .error .usage
      | next :: rest =>
        if kind next = .positional then
          (args.addOption switch next).bind fun args => divide switches max args rest
        else .error .usage

end Arguments

end TripleStore.Command
