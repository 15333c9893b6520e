import Diachrony.Text.Numeral

/-!
Commands, and how they are given as arguments.

Options may stand anywhere among the other arguments, up to a double dash; every
argument behind that is none. An option takes its value from behind an equals sign
or from the next argument.
-/
namespace Diachrony

open Text (toInt?)

/-- What can be done with the graph in a file. -/
inductive Action where
  | check (language : Option Text)
  | reapply (sequence : Text)
  | trace (sequence : Text) (word : Int) (backwards : Bool)
  | paradigm (paradigm word : Int)

/-- What is asked for: help, or an action on the graph in a file. -/
inductive Request where
  | help
  | act (file : Text) (action : Action)

/-- Arguments, sorted out: those that are no options, and the options in order,
with their values. -/
structure Arguments where
  positional : List Text := []
  options : List (Text × Text) := []

namespace Arguments

def isOption : Text → Bool
  | '-' :: _ :: _ => true
  | _ => false

/-- An option's name, and the value behind its equals sign. -/
def cutValue (argument : Text) : Text × Option Text :=
  match Text.cut? ['='] argument with
  | some (name, value) => (name, some value)
  | none => (argument, none)

def withPositional (argument : Text) (arguments : Arguments) : Arguments :=
  { arguments with positional := argument :: arguments.positional }

def withOption (name value : Text) (arguments : Arguments) : Arguments :=
  { arguments with options := (name, value) :: arguments.options }

/-- Sorts arguments, given the options that take a value and those that take none.
Nothing else may look like an option. -/
def sort? (valued flags : List Text) : List Text → Option Arguments
  | [] => some {}
  | argument :: arguments =>
    if argument = ['-', '-'] then some { positional := arguments }
    else if isOption argument then
      match cutValue argument with
      | (name, some value) =>
        if valued.contains name then
          (sort? valued flags arguments).map (withOption name value)
        else none
      | (name, none) =>
        if flags.contains name then
          (sort? valued flags arguments).map (withOption name [])
        else if valued.contains name then
          match arguments with
          | [] => none
          | value :: others => (sort? valued flags others).map (withOption name value)
        else none
    else (sort? valued flags arguments).map (withPositional argument)

def has (arguments : Arguments) (name : Text) : Bool :=
  (arguments.options.lookup name).isSome

def value? (arguments : Arguments) (name : Text) : Option Text :=
  arguments.options.reverse.lookup name

end Arguments

namespace Request

def helpOption : Text := "--help"

/-- Sorts the arguments of a command and makes a request of them, unless it is for
help. -/
def readWith (valued flags : List Text) (make : Arguments → Option Request)
    (arguments : List Text) : Option Request := do
  let arguments ← Arguments.sort? valued (helpOption :: flags) arguments
  if arguments.has helpOption then return help
  else make arguments

def readCommand? (name : Text) : List Text → Option Request :=
  if name = "check".toList then
    readWith ["--language"] [] fun arguments =>
      match arguments.positional with
      | [file] => some (act file (.check (arguments.value? "--language")))
      | _ => none
  else if name = "reapply".toList then
    readWith [] [] fun arguments =>
      match arguments.positional with
      | [file, sequence] => some (act file (.reapply sequence))
      | _ => none
  else if name = "trace".toList then
    readWith [] ["--reverse"] fun arguments =>
      match arguments.positional with
      | [file, sequence, word] => do
        return act file (.trace sequence (← toInt? word) (arguments.has "--reverse"))
      | _ => none
  else if name = "paradigm".toList then
    readWith [] [] fun arguments =>
      match arguments.positional with
      | [file, paradigm, word] => do
        return act file (.paradigm (← toInt? paradigm) (← toInt? word))
      | _ => none
  else fun _ => none

/-- What stands in front of the name of a command: whether it asks for help, and the
arguments from that name on. The only option there is the one for help, and a double
dash ends what stands in front. -/
def lead? : List Text → Option (Bool × List Text)
  | [] => some (false, [])
  | argument :: arguments =>
    if argument = ['-', '-'] then some (false, arguments)
    else if argument = helpOption then (lead? arguments).map fun (_, named) => (true, named)
    else if Arguments.isOption argument then none
    else some (false, argument :: arguments)

def readHelp? (arguments : List Text) : Option Request := do
  let (asksHelp, _) ← lead? arguments
  if asksHelp then return help
  else none

/-- Reads a request. A call for help in front of the name of a command makes all that
follows irrelevant, and counts even behind the double dash. -/
def read? (arguments : List Text) : Option Request := do
  let (asksHelp, named) ← lead? arguments
  if asksHelp then return help
  else match named with
    | [] => none
    | name :: rest => readCommand? name rest <|> readHelp? named

end Request

end Diachrony
