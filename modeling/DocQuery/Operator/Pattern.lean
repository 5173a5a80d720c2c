set_option autoImplicit false

namespace DocQuery.Pattern

def isMeta (c : Char) : Bool :=
  c ∈ ['\\', '.', '+', '*', '?', '(', ')', '|', '[', ']', '\x7b', '\x7d', '^', '$', '#', '&', '-',
    '~']

def escapeChars : List Char → List Char
  | [] => []
  | c :: rest => if isMeta c then '\\' :: c :: escapeChars rest else c :: escapeChars rest

def escape (s : String) : String := String.ofList (escapeChars s.toList)

end DocQuery.Pattern
