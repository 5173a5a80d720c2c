set_option autoImplicit false

namespace DocQuery.Text

def splitChars (separator : Char) : List Char → List Char → List String
  | [], segment => [String.ofList segment.reverse]
  | c :: rest, segment =>
    if c = separator then String.ofList segment.reverse :: splitChars separator rest []
    else splitChars separator rest (c :: segment)

def segments (separator : Char) (s : String) : List String := splitChars separator s.toList []

end DocQuery.Text
