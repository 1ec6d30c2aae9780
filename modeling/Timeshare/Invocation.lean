import Timeshare.Text.Numeral

/-!
# Invocations

What the words after the program's name ask for. A word is an option with or without a value, some
one-letter flags joined behind a dash, or the path of a program; behind a word of two dashes all
words are paths. No option is given twice.
-/
namespace Timeshare

/-- Why a command line is not carried out. -/
inductive Misuse where
  /-- No fault: the user asked how to use the program. -/
  | help
  | unknownOption (word : String)
  | repeatedOption
  | missingValue (name : String)
  /-- A value behind a flag. -/
  | unexpectedValue (name : String)
  | badNumber (name value : String)
deriving DecidableEq, Repr, Inhabited

structure Invocation where
  programs : List String := []
  /-- The path of the settings. -/
  config : Option String := none
  policy : Option String := none
  quantum : Option Nat := none
  maxTicks : Option Nat := none
  step : Bool := false
  verbose : Bool := false
  interactive : Bool := false
deriving DecidableEq, Repr, Inhabited

namespace Invocation

/-- What a word of a command line, or a word and the next one, stands for. -/
inductive Item where
  | help
  | program (path : String)
  | flag (name : String)
  | option (name : String) (value : Option String)
deriving DecidableEq, Repr, Inhabited

def flagNames : List String := ["step", "verbose", "interactive"]

def optionNames : List String := ["config", "policy", "quantum", "max-ticks"]

/-- Whether a word can be the value of the option in front of it. -/
def isValue (word : String) : Bool := word == "-" || word.toList.head? != some '-'

/-- The flags that are joined in one word. -/
def shortItems : List Char → Except Misuse (List Item)
  | [] => .ok []
  | 'h' :: _ => .ok [.help]
  | 'v' :: rest => (shortItems rest).map (.flag "verbose" :: ·)
  | 'i' :: rest => (shortItems rest).map (.flag "interactive" :: ·)
  | c :: _ => .error (.unknownOption (String.ofList ['-', c]))

/-- The item of a word behind two dashes, which may hold a value; with true if the next word has
to be the value. -/
def longItem (word : List Char) : Except Misuse (Item × Bool) :=
  let name := String.ofList (word.takeWhile (· ≠ '='))
  let value := match word.dropWhile (· ≠ '=') with
    | [] => none
    | _ :: value => some (String.ofList value)
  if name ∈ optionNames then .ok (.option name value, value.isNone)
  else if name = "help" ∨ name ∈ flagNames then
    if value.isSome then .error (.unexpectedValue name)
    else .ok (if name = "help" then .help else .flag name, false)
  else .error (.unknownOption (String.ofList ('-' :: '-' :: word)))

/-- The items of a command line. Nothing behind a request for help is looked at. -/
def items : List String → Except Misuse (List Item)
  | [] => .ok []
  | word :: rest =>
    match word.toList with
    | ['-', '-'] => .ok (rest.map .program)
    | '-' :: '-' :: name => do
      match ← longItem name with
      | (.help, _) => return [.help]
      | (.option name _, true) =>
        match rest with
        | value :: rest =>
          if isValue value then return .option name (some value) :: (← items rest)
          else return .option name none :: (← items (value :: rest))
        | [] => return [.option name none]
      | (item, _) => return item :: (← items rest)
    | '-' :: c :: letters => do
      let flags ← shortItems (c :: letters)
      if .help ∈ flags then return flags else return flags ++ (← items rest)
    | _ => return .program word :: (← items rest)

namespace Item

/-- What must not be given twice. -/
def name? : Item → Option String
  | flag name => some name
  | option name _ => some name
  | _ => none

def path? : Item → Option String
  | program path => some path
  | _ => none

end Item

/-- The value of an option, if the option is given. -/
def valueOf (name : String) (items : List Item) : Except Misuse (Option String) :=
  match items.find? (·.name? = some name) with
  | some (.option _ (some value)) => .ok (some value)
  | some _ => .error (.missingValue name)
  | none => .ok none

/-- The value of an option whose value is a number below a bound. -/
def numberOf (bound : Nat) (name : String) (items : List Item) : Except Misuse (Option Nat) := do
  match ← valueOf name items with
  | none => return none
  | some value =>
    match Numeral.read? 10 bound value.toList with
    | some n => return some n
    | none => throw (.badNumber name value)

/-- Reads a command line. -/
def parse (args : List String) : Except Misuse Invocation := do
  let items ← items args
  if .help ∈ items then throw .help
  let names := items.filterMap Item.name?
  if names.eraseDups ≠ names then throw .repeatedOption
  return {
    programs := items.filterMap Item.path?
    config := ← valueOf "config" items
    policy := ← valueOf "policy" items
    quantum := ← numberOf UInt32.size "quantum" items
    maxTicks := ← numberOf UInt64.size "max-ticks" items
    step := .flag "step" ∈ items
    verbose := .flag "verbose" ∈ items
    interactive := .flag "interactive" ∈ items }

end Invocation

/-- How the program is used. -/
def usageText : String :=
  "usage: timeshare [options] [program..]\n\n" ++
  "A program is a file of hexadecimal bytes with white space between them.\n\n" ++
  "  --config <file>    read settings from a TOML file\n" ++
  "  --policy <name>    scheduling policy: rr or fcfs\n" ++
  "  --quantum <n>      cycles in a round robin turn\n" ++
  "  --step             start in single-step mode; needs --interactive\n" ++
  "  --max-ticks <n>    ticks after which a batch is stopped\n" ++
  "  -v, --verbose      show registers and the process table\n" ++
  "  -i, --interactive  read commands from standard input\n" ++
  "  -h, --help         show this text\n"

def Misuse.message : Misuse → String
  | help => usageText
  | unknownOption word => s!"unknown option {word}\n"
  | repeatedOption => "an option is given twice\n"
  | missingValue name => s!"--{name} needs a value\n"
  | unexpectedValue name => s!"--{name} takes no value\n"
  | badNumber name value => s!"--{name} cannot be {value}\n"

end Timeshare
