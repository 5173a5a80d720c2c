import DocQuery.Pipeline.Staging

set_option autoImplicit false

namespace DocQuery

structure Draft where
  predicate : Predicate
  pipeline : Staging

/-- The compiler of a node, ready to run on it. It is given the path prefix of the node's fields and
the draft, into which it may also stage joins and other steps. -/
structure NodeCompiler where
  name : String
  run : String → Draft → Traced Draft

/-- A node as its compiler is given it: without that compiler, but with the nodes below it, whose
compilers it may run. The children of a relation are a single branch. -/
inductive View where
  | mk (subject : Subject) (suppressed : Bool) (compiler : Option NodeCompiler)
      (branches : List (List View))

namespace View

def subject : View → Subject
  | mk subject _ _ _ => subject

def suppressed : View → Bool
  | mk _ suppressed _ _ => suppressed

def compiler : View → Option NodeCompiler
  | mk _ _ compiler _ => compiler

def branches : View → List (List View)
  | mk _ _ _ branches => branches

def withCompiler (c : Option NodeCompiler) : View → View
  | mk subject suppressed _ branches => mk subject suppressed c branches

end View

structure CustomCompiler where
  name : String
  compile : View → String → Draft → Traced Draft

def CustomCompiler.on (c : CustomCompiler) (v : View) : NodeCompiler where
  name := c.name
  run scope draft := do
    Traced.note ⟨c.name, v.subject, scope, draft.pipeline.lookups.map (·.output)⟩
    c.compile v scope draft

structure Node.Info where
  key : String
  value : Json
  collection : String
  suppressed : Bool := false
  compiler : Option CustomCompiler := none

/-- A filter read against a catalog: a comparison of a field, a relation with a filter on its
target collection, or a group of alternatives. -/
inductive Node where
  | field (info : Node.Info) (name : String) (operator : Option Operator)
  | relation (info : Node.Info) (relation : Relation) (children : List Node)
  | group (info : Node.Info) (connective : Connective) (branches : List (List Node))

namespace Node

def info : Node → Info
  | field i _ _ => i
  | relation i _ _ => i
  | group i _ _ => i

def withInfo (i : Info) : Node → Node
  | field _ name operator => field i name operator
  | relation _ r children => relation i r children
  | group _ connective branches => group i connective branches

def suppressed (n : Node) : Bool := n.info.suppressed

def suppress (n : Node) : Node := n.withInfo { n.info with suppressed := true }

def withCompiler (c : CustomCompiler) (n : Node) : Node :=
  n.withInfo { n.info with compiler := some c }

def fieldName? : Node → Option String
  | field _ name _ => some name
  | _ => none

def operator? : Node → Option Operator
  | field _ _ operator => operator
  | _ => none

def isField (n : Node) : Bool := n.fieldName?.isSome

def asField (n : Node) (name : String) (value : Json) : Node :=
  field { n.info with value := value } name n.operator?

def relation? : Node → Option Relation
  | relation _ r _ => some r
  | _ => none

def connective? : Node → Option Connective
  | group _ connective _ => some connective
  | _ => none

def subject (n : Node) : Subject where
  key := n.info.key
  value := n.info.value
  collection := n.info.collection
  fieldName := n.fieldName?
  operator := n.operator?
  relation := n.relation?
  connective := n.connective?

mutual

def view : Node → View
  | field i name operator => .mk (field i name operator).subject i.suppressed none []
  | relation i r children =>
    .mk (relation i r children).subject i.suppressed none [viewAll children]
  | group i connective branches =>
    .mk (group i connective branches).subject i.suppressed none (viewBranches branches)

def viewAll : List Node → List View
  | [] => []
  | n :: rest =>
    (view n).withCompiler (n.info.compiler.map (·.on (view n))) :: viewAll rest

def viewBranches : List (List Node) → List (List View)
  | [] => []
  | branch :: rest => viewAll branch :: viewBranches rest

end

def compiler? (n : Node) : Option NodeCompiler := n.info.compiler.map (·.on n.view)

-- A node has an effect unless it is suppressed or only groups nodes without effect. A custom
-- compiler always counts.
mutual

def hasEffect : Node → Bool
  | field i _ _ => !i.suppressed
  | relation i _ children => !i.suppressed && (i.compiler.isSome || anyEffect children)
  | group i _ branches => !i.suppressed && (i.compiler.isSome || anyBranchEffect branches)

def anyEffect : List Node → Bool
  | [] => false
  | n :: rest => hasEffect n || anyEffect rest

def anyBranchEffect : List (List Node) → Bool
  | [] => false
  | branch :: rest => anyEffect branch || anyBranchEffect rest

end

mutual

def embedsRelation : Node → Bool
  | field .. => false
  | relation i r children => hasEffect (relation i r children)
  | group i c branches => hasEffect (group i c branches) && anyBranchEmbeds branches

def anyEmbeds : List Node → Bool
  | [] => false
  | n :: rest => embedsRelation n || anyEmbeds rest

def anyBranchEmbeds : List (List Node) → Bool
  | [] => false
  | branch :: rest => anyEmbeds branch || anyBranchEmbeds rest

end

mutual

def height : Node → Nat
  | field .. => 0
  | relation _ _ children => heightAll children + 1
  | group _ _ branches => heightBranches branches + 1

def heightAll : List Node → Nat
  | [] => 0
  | n :: rest => max (height n) (heightAll rest)

def heightBranches : List (List Node) → Nat
  | [] => 0
  | branch :: rest => max (heightAll branch) (heightBranches rest)

end

end Node

end DocQuery
