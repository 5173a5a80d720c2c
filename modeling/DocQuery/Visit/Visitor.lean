import DocQuery.Filter.Parser

set_option autoImplicit false

namespace DocQuery

structure VisitContext where
  parser : FilterParser
  collection : String
  path : List String

namespace VisitContext

def depth (ctx : VisitContext) : Nat := ctx.path.length

def build (ctx : VisitContext) (key : String) (value : Json) : Traced Node :=
  ctx.parser.entryAt ctx.collection ctx.path key value

end VisitContext

inductive VisitAction where
  | keep
  | suppress
  | replace (node : Node)
  | addSibling (node : Node)

structure Visitor where
  name : String
  visit : Node → VisitContext → Traced VisitAction

namespace VisitContext

def replace (ctx : VisitContext) (key : String) (value : Json) : Traced VisitAction := do
  return .replace (← ctx.build key value)

def addSibling (ctx : VisitContext) (key : String) (value : Json) : Traced VisitAction := do
  return .addSibling (← ctx.build key value)

end VisitContext

end DocQuery
