import DocQuery.Plan

set_option autoImplicit false

namespace DocQuery

structure Metrics where
  queriesPlanned : Nat := 0
  simpleReads : Nat := 0
  pipelineReads : Nat := 0
  joinsStaged : Nat := 0
  joinsDeduplicated : Nat := 0
  queriesRejected : Nat := 0
  deriving DecidableEq, Repr, Inhabited

namespace Metrics

def planned (m : Metrics) (p : Planned) : Metrics :=
  { m with
    queriesPlanned := m.queriesPlanned + 1
    joinsStaged := m.joinsStaged + p.joinsStaged
    joinsDeduplicated := m.joinsDeduplicated + p.joinsDeduplicated }

def simpleRead (m : Metrics) : Metrics := { m with simpleReads := m.simpleReads + 1 }

def pipelineRead (m : Metrics) : Metrics := { m with pipelineReads := m.pipelineReads + 1 }

def rejected (m : Metrics) : Metrics := { m with queriesRejected := m.queriesRejected + 1 }

def toJson (m : Metrics) : Json :=
  .obj [("queries_planned", .nat m.queriesPlanned), ("simple_reads", .nat m.simpleReads),
    ("pipeline_reads", .nat m.pipelineReads), ("joins_staged", .nat m.joinsStaged),
    ("joins_deduplicated", .nat m.joinsDeduplicated),
    ("queries_rejected", .nat m.queriesRejected)]

end Metrics

end DocQuery
