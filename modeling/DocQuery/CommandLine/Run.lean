import DocQuery.Catalog.Source
import DocQuery.CommandLine.Arguments
import DocQuery.CommandLine.Request

set_option autoImplicit false

namespace DocQuery.CommandLine

inductive Failure where
  | config (message : String)
  | io (message : String)
  | invalidRequest (message : String)
  deriving DecidableEq, Repr, Inhabited

namespace Failure

def code : Failure → String
  | config _ => "AERO_CLI_CONFIG_ERROR"
  | io _ => "AERO_CLI_IO_ERROR"
  | invalidRequest _ => "AERO_CLI_INVALID_REQUEST"

def message : Failure → String
  | config m => m
  | io m => m
  | invalidRequest m => m

def display (f : Failure) : String := f.code ++ ": " ++ f.message

def ofQueryError (e : QueryError) : Failure := .config (e.code ++ ": " ++ e.message)

end Failure

structure Outcome where
  stdout : String := ""
  log : List String := []
  failure : Option Failure := none

def Outcome.exitCode (o : Outcome) : Nat := if o.failure.isSome then 1 else 0

def okEnvelope (data : Json) : Json := .obj [("status", .str "ok"), ("data", data)]

def errorEnvelope (code message : String) : Json :=
  .obj [("status", .str "error"), ("code", .str code), ("message", .str message)]

def answerLine (envelope : Json) : String := envelope.text ++ "\n"

structure Booted where
  planner : Planner
  log : List String

def loadConfig (files : String → FileText) (path : Option String) :
    Except QueryError (Config × List Log.Entry) :=
  match path with
  | none => .ok ({}, [])
  | some path => do
    let config ← Config.load path (files path)
    return (config, [Config.loadedEntry path])

def boot (minimum : Log.Severity) (arguments : Arguments) (files : String → FileText) :
    Except Outcome Booted :=
  match loadConfig files arguments.config with
  | .error e => .error { failure := some (.ofQueryError e) }
  | .ok (config, entries) =>
    let log := Log.lines minimum entries
    match Catalog.loadFile arguments.catalog (files arguments.catalog) with
    | .error e => .error { log, failure := some (.ofQueryError e) }
    | .ok catalog =>
      .ok ⟨⟨catalog, config, []⟩,
        log ++ Log.lines config.logLevel [Catalog.loadedEntry arguments.catalog catalog]⟩

def readRequest (stdin : FileText) : Except Failure Json :=
  match stdin with
  | .error e => .error (.io e.message)
  | .ok text =>
    if Text.allBlank text then .error (.io "Empty input")
    else
      match Json.ofText? text with
      | some value => .ok value
      | none => .error (.io "JSON error: ")

def decodeRequest (value : Json) : Except Failure Request :=
  match Request.decode (.ofJson value) with
  | .ok r => .ok r
  | .error e => .error (.invalidRequest e.message)

def requestKind (r : Request) : Except Failure ReadKind :=
  match r.kind with
  | .ok kind => .ok kind
  | .error name =>
    .error (.invalidRequest ("Unknown operation '" ++ name
      ++ "'. Expected findMany, findOne or count."))

def answerRequest (command : Command) (planner : Planner) (value : Json) :
    Except Failure (Traced Json) := do
  let r ← decodeRequest value
  match command with
  | .compile => return Pipeline.toJson <$> planner.compileRequest r
  | .explain =>
    let kind ← requestKind r
    return Plan.toJson <$> planner.explainRequest kind r

def envelope : Except Failure (Traced Json) → Json
  | .error f => errorEnvelope f.code f.message
  | .ok x =>
    match x.result with
    | .ok data => okEnvelope data
    | .error e => errorEnvelope e.code e.message

def requestLog : Except Failure (Traced Json) → List Log.Entry
  | .error _ => []
  | .ok x => x.entries

/-- Runs a command: boots from the files, reads one request and prints its answer. `minimum` is
the log level until the configuration sets one. -/
def run (minimum : Log.Severity) (arguments : Arguments) (files : String → FileText)
    (stdin : FileText) : Outcome :=
  match boot minimum arguments files with
  | .error outcome => outcome
  | .ok booted =>
    match readRequest stdin with
    | .error f => { log := booted.log, failure := some f }
    | .ok value =>
      let answer := answerRequest arguments.command booted.planner value
      { stdout := answerLine (envelope answer),
        log := booted.log ++ Log.lines booted.planner.config.logLevel (requestLog answer) }

end DocQuery.CommandLine
