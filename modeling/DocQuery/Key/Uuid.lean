import DocQuery.Text.Blank

set_option autoImplicit false

namespace DocQuery.Uuid

def isHexDigit (c : Char) : Bool :=
  ('0' ≤ c ∧ c ≤ '9') || ('a' ≤ c ∧ c ≤ 'f') || ('A' ≤ c ∧ c ≤ 'F')

def groupLengths : List Nat := [8, 4, 4, 4, 12]

def ofHyphenated? (lengths : List Nat) (chars : List Char) : Option (List Char) :=
  match lengths with
  | [] => if chars.isEmpty then some [] else none
  | n :: lengths =>
    let group := chars.take n
    let rest := chars.drop n
    if group.length = n ∧ group.all isHexDigit then
      match lengths, rest with
      | [], [] => some group
      | _ :: _, '-' :: rest => (ofHyphenated? lengths rest).map (group ++ ·)
      | _, _ => none
    else none

def ofPlain? (chars : List Char) : Option (List Char) :=
  if chars.length = 32 ∧ chars.all isHexDigit then some chars else none

def urnScheme : List Char := ['u', 'r', 'n', ':', 'u', 'u', 'i', 'd', ':']

-- The hyphenated form may stand in braces or be a URN, whose scheme and namespace are the same in
-- any ASCII case.
def unwrap (chars : List Char) : List Char :=
  match chars with
  | '\x7b' :: rest => if rest.getLast? = some '\x7d' then rest.dropLast else chars
  | _ =>
    if (chars.take urnScheme.length).map Text.lowerAscii = urnScheme then
      chars.drop urnScheme.length
    else chars

def digits? (chars : List Char) : Option (List Char) :=
  ((ofPlain? chars).or (ofHyphenated? groupLengths (unwrap chars))).map (·.map Text.lowerAscii)

def hyphenate : List Nat → List Char → List Char
  | [], _ => []
  | [n], digits => digits.take n
  | n :: lengths, digits => digits.take n ++ '-' :: hyphenate lengths (digits.drop n)

def canonical? (s : String) : Option String :=
  (digits? s.toList).map fun digits => String.ofList (hyphenate groupLengths digits)

end DocQuery.Uuid
