import DocQuery.Error
import DocQuery.Json.Printer

set_option autoImplicit false

namespace DocQuery.Log

inductive Severity where
  | trace
  | info
  | warn
  | error
  | fatal
  deriving DecidableEq, Repr, Inhabited

namespace Severity

def rank : Severity → Nat
  | trace => 0
  | info => 1
  | warn => 2
  | error => 3
  | fatal => 4

def label : Severity → String
  | trace => "TRACE"
  | info => "INFO"
  | warn => "WARN"
  | error => "ERROR"
  | fatal => "FATAL"

def all : List Severity := [trace, info, warn, error, fatal]

def enabled (minimum severity : Severity) : Bool := minimum.rank ≤ severity.rank

end Severity

inductive Event where
  | configLoaded
  | catalogLoaded
  | queryPlanned
  | simpleReadRouted
  | pipelineReadRouted
  | queryRejected
  | joinStaged
  | joinDeduplicated
  | nodeSuppressed
  | relationCycle
  | catalogInconsistent
  deriving DecidableEq, Repr, Inhabited

namespace Event

def label : Event → String
  | configLoaded => "CONFIG_LOADED"
  | catalogLoaded => "CATALOG_LOADED"
  | queryPlanned => "QUERY_PLANNED"
  | simpleReadRouted => "SIMPLE_READ_ROUTED"
  | pipelineReadRouted => "PIPELINE_READ_ROUTED"
  | queryRejected => "QUERY_REJECTED"
  | joinStaged => "JOIN_STAGED"
  | joinDeduplicated => "JOIN_DEDUPLICATED"
  | nodeSuppressed => "NODE_SUPPRESSED"
  | relationCycle => "RELATION_CYCLE"
  | catalogInconsistent => "CATALOG_INCONSISTENT"

def all : List Event :=
  [configLoaded, catalogLoaded, queryPlanned, simpleReadRouted, pipelineReadRouted, queryRejected,
    joinStaged, joinDeduplicated, nodeSuppressed, relationCycle, catalogInconsistent]

def severity : Event → Severity
  | joinStaged | joinDeduplicated | nodeSuppressed | relationCycle => .trace
  | queryRejected => .warn
  | catalogInconsistent => .fatal
  | _ => .info

def isFatal : Event → Bool
  | catalogInconsistent => true
  | _ => false

end Event

structure Entry where
  severity : Severity
  name : String
  fields : List (String × String)
  deriving DecidableEq, Repr, Inhabited

def Event.entry (e : Event) (fields : List (String × String)) : Entry :=
  ⟨e.severity, e.label, fields⟩

def Entry.line (e : Entry) : String :=
  let sorted := e.fields.mergeSort fun a b => decide (a.1 ≤ b.1)
  let named := [("event", e.name), ("severity", e.severity.label)] ++ sorted
  (Json.obj (Fields.ofList (named.map fun f => (f.1, .str f.2)))).text

def visible (minimum : Severity) (entries : List Entry) : List Entry :=
  entries.filter fun e => minimum.enabled e.severity

def lines (minimum : Severity) (entries : List Entry) : List String :=
  (visible minimum entries).map Entry.line

structure Scope where
  name : String
  fields : List (String × String)
  deriving Repr

namespace Scope

def opened (s : Scope) : Entry := ⟨.info, s.name ++ "_BEGIN", s.fields⟩

def completed (s : Scope) (extra : List (String × String)) (elapsed : String) : Entry :=
  ⟨.info, s.name ++ "_COMPLETE", s.fields ++ extra ++ [("elapsed_ms", elapsed)]⟩

def failed (s : Scope) (e : QueryError) : Entry :=
  ⟨match e.severity with
    | .fatal => .fatal
    | _ => .error,
    s.name ++ "_FAILED", s.fields ++ [("code", e.code), ("reason", e.message)]⟩

def abandoned (s : Scope) : Entry :=
  ⟨.warn, s.name ++ "_INCOMPLETE", [("reason", "scope dropped without completion")]⟩

end Scope

end DocQuery.Log
