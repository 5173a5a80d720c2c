import DocQuery.Text.Hidden

set_option autoImplicit false

namespace DocQuery.Text

def hexDigits (n : Nat) : List Char := Nat.toDigits 16 n

def quotedChar (c : Char) : List Char :=
  if c = '"' then ['\\', '"']
  else if c = '\\' then ['\\', '\\']
  else if c = '\t' then ['\\', 't']
  else if c = '\n' then ['\\', 'n']
  else if c = '\r' then ['\\', 'r']
  else if c.toNat = 0 then ['\\', '0']
  else if isHidden c then ['\\', 'u', '\x7b'] ++ hexDigits c.toNat ++ ['\x7d']
  else [c]

def quoted (s : String) : String :=
  "\"" ++ String.ofList (s.toList.flatMap quotedChar) ++ "\""

end DocQuery.Text
