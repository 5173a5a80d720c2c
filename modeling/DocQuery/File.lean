set_option autoImplicit false

namespace DocQuery

inductive FileError where
  | notFound
  | notDirectory
  | isDirectory
  | nameTooLong
  | notUtf8
  | other (message : String)
  deriving DecidableEq, Repr, Inhabited

def FileError.message : FileError → String
  | .notFound => "No such file or directory (os error 2)"
  | .notDirectory => "Not a directory (os error 20)"
  | .isDirectory => "Is a directory (os error 21)"
  | .nameTooLong => "File name too long (os error 36)"
  | .notUtf8 => "stream did not contain valid UTF-8"
  | .other message => message

abbrev FileText := Except FileError String

def FileText.ofBytes (bytes : ByteArray) : FileText :=
  match String.fromUTF8? bytes with
  | some text => .ok text
  | none => .error .notUtf8

end DocQuery
