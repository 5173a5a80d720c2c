import DocQuery.Json.Basic

set_option autoImplicit false

namespace DocQuery.Json

def hexDigit (n : Nat) : Char :=
  if n < 10 then Char.ofNat ('0'.toNat + n) else Char.ofNat ('a'.toNat + (n - 10))

def escapeChar (c : Char) : List Char :=
  if c = '"' then ['\\', '"']
  else if c = '\\' then ['\\', '\\']
  else if c = '\x08' then ['\\', 'b']
  else if c = '\t' then ['\\', 't']
  else if c = '\n' then ['\\', 'n']
  else if c = '\x0c' then ['\\', 'f']
  else if c = '\r' then ['\\', 'r']
  else if c.toNat < 0x20 then
    ['\\', 'u', '0', '0', hexDigit (c.toNat / 16), hexDigit (c.toNat % 16)]
  else [c]

def quote (s : String) : String :=
  "\"" ++ String.ofList (s.toList.flatMap escapeChar) ++ "\""

mutual

def text : Json → String
  | .null => "null"
  | .bool true => "true"
  | .bool false => "false"
  | .num n => n.text
  | .str s => quote s
  | .arr items => "[" ++ String.intercalate "," (itemTexts items) ++ "]"
  | .obj members => "\x7b" ++ String.intercalate "," (memberTexts members) ++ "\x7d"

def itemTexts : List Json → List String
  | [] => []
  | item :: rest => text item :: itemTexts rest

def memberTexts : List (String × Json) → List String
  | [] => []
  | (key, value) :: rest => (quote key ++ ":" ++ text value) :: memberTexts rest

end

end DocQuery.Json
