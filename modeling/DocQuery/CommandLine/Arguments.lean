set_option autoImplicit false

namespace DocQuery.CommandLine

inductive Command where
  | compile
  | explain
  deriving DecidableEq, Repr, Inhabited

def Command.ofName? (name : String) : Option Command :=
  if name = "compile" then some .compile
  else if name = "explain" then some .explain
  else none

structure Arguments where
  command : Command
  catalog : String
  config : Option String
  deriving DecidableEq, Repr, Inhabited

inductive Usage where
  | help
  | wrong
  deriving DecidableEq, Repr, Inhabited

def Usage.exitCode : Usage → Nat
  | help => 0
  | wrong => 2

structure Given where
  catalog : Option String := none
  config : Option String := none

def Given.set (g : Given) (name value : String) : Except Usage Given :=
  if value = "" then .error .wrong
  else if name = "--catalog" then
    if g.catalog.isSome then .error .wrong else .ok { g with catalog := some value }
  else if g.config.isSome then .error .wrong
  else .ok { g with config := some value }

def isOption (name : String) : Bool := name == "--catalog" || name == "--config"

def isValue (argument : String) : Bool :=
  argument == "-" || argument.toList.head? != some '-'

def splitAssignment? (argument : String) : Option (String × String) :=
  let chars := argument.toList
  match chars.dropWhile (· != '=') with
  | [] => none
  | _ :: value => some (String.ofList (chars.takeWhile (· != '=')), String.ofList value)

def startsShortHelp (argument : String) : Bool :=
  match argument.toList with
  | '-' :: 'h' :: _ => true
  | _ => false

def readOptions : List String → Given → Except Usage Given
  | [], g => .ok g
  | ["--"], g => .ok g
  | argument :: rest, g =>
    if argument = "--help" || startsShortHelp argument then .error .help
    else if isOption argument then
      match rest with
      | value :: rest =>
        if isValue value then do readOptions rest (← g.set argument value)
        else .error .wrong
      | [] => .error .wrong
    else
      match splitAssignment? argument with
      | some (name, value) =>
        if isOption name then do readOptions rest (← g.set name value)
        else .error .wrong
      | none => .error .wrong

def readHelpTopic : List String → Usage
  | [] => .help
  | [topic] => if topic = "help" || (Command.ofName? topic).isSome then .help else .wrong
  | _ => .wrong

def Arguments.read : List String → Except Usage Arguments
  | [] => .error .wrong
  | name :: rest =>
    match Command.ofName? name with
    | some command => do
      let g ← readOptions rest {}
      match g.catalog with
      | some catalog => .ok ⟨command, catalog, g.config⟩
      | none => .error .wrong
    | none =>
      if name = "--help" || name = "--version" || startsShortHelp name then .error .help
      else if name.toList.take 2 = ['-', 'V'] then .error .help
      else if name = "help" then .error (readHelpTopic rest)
      else .error .wrong

end DocQuery.CommandLine
