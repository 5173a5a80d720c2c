set_option autoImplicit false

namespace DocQuery

inductive QueryError where
  | unknownRelation (collection relation : String)
  | malformedFilter (reason : String)
  | malformedLogicalGroup (key : String)
  | invalidOperand (field operator reason : String)
  | depthExceeded (maxDepth : Nat) (path : String)
  | unsupported (feature : String)
  | invalidPagination (reason : String)
  | pivotNotFound (reason : String)
  | coercion (field reason : String)
  | catalogInconsistent (collection relation : String)
  | configInvalid (reason : String)
  | catalogMalformed (source reason : String)
  | execution (reason : String)
  deriving DecidableEq, Repr, Inhabited

namespace QueryError

/-- A caller's request is rejected before anything runs, a store fails during a read, and a
startup failure or a broken internal agreement is fatal. -/
inductive Severity where
  | reject
  | error
  | fatal
  deriving DecidableEq, Repr, Inhabited

def Severity.label : Severity → String
  | .reject => "REJECT"
  | .error => "ERROR"
  | .fatal => "FATAL"

def code : QueryError → String
  | .unknownRelation .. => "AERO_QUERY_UNKNOWN_RELATION"
  | .malformedFilter _ => "AERO_QUERY_MALFORMED_FILTER"
  | .malformedLogicalGroup _ => "AERO_QUERY_MALFORMED_LOGICAL_GROUP"
  | .invalidOperand .. => "AERO_QUERY_INVALID_OPERAND"
  | .depthExceeded .. => "AERO_QUERY_DEPTH_EXCEEDED"
  | .unsupported _ => "AERO_QUERY_UNSUPPORTED"
  | .invalidPagination _ => "AERO_QUERY_INVALID_PAGINATION"
  | .pivotNotFound _ => "AERO_QUERY_PIVOT_NOT_FOUND"
  | .coercion .. => "AERO_QUERY_COERCION_FAILED"
  | .catalogInconsistent .. => "AERO_QUERY_CATALOG_INCONSISTENT"
  | .configInvalid _ => "AERO_CONFIG_INVALID"
  | .catalogMalformed .. => "AERO_CATALOG_MALFORMED"
  | .execution _ => "AERO_EXECUTION_FAILED"

def severity : QueryError → Severity
  | .catalogInconsistent .. | .configInvalid _ | .catalogMalformed .. => .fatal
  | .execution _ => .error
  | _ => .reject

def message : QueryError → String
  | .unknownRelation collection relation =>
    "Unknown relation '" ++ relation ++ "' on collection '" ++ collection ++ "'"
  | .malformedFilter reason => "Malformed filter: " ++ reason
  | .malformedLogicalGroup key =>
    "Logical group '" ++ key ++ "' must be a list of filter objects"
  | .invalidOperand field operator reason =>
    "Invalid operand for '" ++ field ++ "_" ++ operator ++ "': " ++ reason
  | .depthExceeded maxDepth path =>
    "Filter nesting exceeds maximum depth " ++ toString maxDepth ++ " at '" ++ path ++ "'"
  | .unsupported feature => "Operator not supported: " ++ feature
  | .invalidPagination reason => "Invalid pagination: " ++ reason
  | .pivotNotFound reason => "Pagination pivot not found: " ++ reason
  | .coercion field reason => "Cannot coerce value for '" ++ field ++ "': " ++ reason
  | .catalogInconsistent collection relation =>
    "Relation catalog inconsistent: '" ++ relation ++ "' on '" ++ collection
      ++ "' vanished after parse"
  | .configInvalid reason => "Invalid configuration: " ++ reason
  | .catalogMalformed source reason =>
    "Malformed relation catalog (" ++ source ++ "): " ++ reason
  | .execution reason => "Execution failed: " ++ reason

def isSchema : QueryError → Bool
  | .unknownRelation .. | .malformedFilter _ | .malformedLogicalGroup _ | .invalidOperand ..
  | .depthExceeded .. | .unsupported _ | .invalidPagination _ | .pivotNotFound _ => true
  | _ => false

def isCoercion : QueryError → Bool
  | .coercion .. => true
  | _ => false

end QueryError

end DocQuery
