import DocQuery.Json.Basic

set_option autoImplicit false

namespace DocQuery.Json

inductive Token where
  | openBrace
  | closeBrace
  | openBracket
  | closeBracket
  | colon
  | comma
  | null
  | bool (value : Bool)
  | num (value : Option Number)
  | str (value : Option String)
  deriving Repr, Inhabited

namespace Token

inductive Piece where
  | char (c : Char)
  | unit (value : Nat)
  deriving Repr, Inhabited

def isHighUnit (n : Nat) : Bool := 0xD800 ≤ n ∧ n ≤ 0xDBFF

def isLowUnit (n : Nat) : Bool := 0xDC00 ≤ n ∧ n ≤ 0xDFFF

def joinPieces : List Piece → Option (List Char)
  | [] => some []
  | .char c :: rest => (joinPieces rest).map (c :: ·)
  | .unit high :: .unit low :: rest =>
    if isHighUnit high then
      if isLowUnit low then
        let point := 0x10000 + (high - 0xD800) * 0x400 + (low - 0xDC00)
        (joinPieces rest).map (Char.ofNat point :: ·)
      else none
    else if isLowUnit high then none
    else (joinPieces (.unit low :: rest)).map (Char.ofNat high :: ·)
  | .unit n :: rest =>
    if isHighUnit n || isLowUnit n then none
    else (joinPieces rest).map (Char.ofNat n :: ·)

def hexValue? (c : Char) : Option Nat :=
  if '0' ≤ c ∧ c ≤ '9' then some (c.toNat - '0'.toNat)
  else if 'a' ≤ c ∧ c ≤ 'f' then some (c.toNat - 'a'.toNat + 10)
  else if 'A' ≤ c ∧ c ≤ 'F' then some (c.toNat - 'A'.toNat + 10)
  else none

def isDigit (c : Char) : Bool := '0' ≤ c ∧ c ≤ '9'

def digitsValue (digits : List Char) : Nat :=
  digits.foldl (fun n c => n * 10 + (c.toNat - '0'.toNat)) 0

def takeSignificand (significand : Nat) : List Char → Nat × List Char
  | [] => (significand, [])
  | c :: rest =>
    let next := significand * 10 + (c.toNat - '0'.toNat)
    if next < Binary64.twoTo 64 then takeSignificand next rest else (significand, c :: rest)

/-- The value of a literal with the given whole digits, fraction digits and exponent. Whole digits
beyond the significand raise the exponent, fraction digits beyond it are ignored. -/
def realValue (negative : Bool) (whole fraction : List Char) (exponent : Int) : Option Number :=
  let (significand, dropped) := takeSignificand 0 whole
  let (significand, kept) :=
    let (s, rest) := takeSignificand significand fraction
    (s, fraction.length - rest.length)
  (Binary64.ofScientific negative significand
    (exponent + dropped.length - kept)).map .real

-- A whole literal is an integer if it fits 64 bits; a negative zero does not.
def wholeValue (negative : Bool) (whole : List Char) : Option Number :=
  let n := digitsValue whole
  if negative then
    if n = 0 ∨ Binary64.twoTo 63 < n then realValue true whole [] 0 else some (.int (-n))
  else if n < Binary64.twoTo 64 then some (.int n)
  else realValue false whole [] 0

def exponentValue? (chars : List Char) : Option Int :=
  let (negative, digits) := match chars with
    | '-' :: rest => (true, rest)
    | '+' :: rest => (false, rest)
    | rest => (false, rest)
  if digits.isEmpty || !digits.all isDigit then none
  else some (if negative then -(digitsValue digits : Int) else digitsValue digits)

def ofNumberLiteral? (chars : List Char) : Option Token :=
  let (negative, chars) := match chars with
    | '-' :: rest => (true, rest)
    | rest => (false, rest)
  let whole := chars.takeWhile isDigit
  let chars := chars.dropWhile isDigit
  if whole.isEmpty || (whole.length > 1 && whole.head? == some '0') then none
  else
    match chars with
    | [] => some (.num (wholeValue negative whole))
    | '.' :: chars =>
      let fraction := chars.takeWhile isDigit
      if fraction.isEmpty then none
      else
        match chars.dropWhile isDigit with
        | [] => some (.num (realValue negative whole fraction 0))
        | c :: rest =>
          if c = 'e' ∨ c = 'E' then
            (exponentValue? rest).map fun e => .num (realValue negative whole fraction e)
          else none
    | c :: rest =>
      if c = 'e' ∨ c = 'E' then
        (exponentValue? rest).map fun e => .num (realValue negative whole [] e)
      else none

def ofWord? (letters : List Char) : Option Token :=
  if letters = ['n', 'u', 'l', 'l'] then some .null
  else if letters = ['t', 'r', 'u', 'e'] then some (.bool true)
  else if letters = ['f', 'a', 'l', 's', 'e'] then some (.bool false)
  else none

def ofPunctuation? (c : Char) : Option Token :=
  if c = '\x7b' then some .openBrace
  else if c = '\x7d' then some .closeBrace
  else if c = '[' then some .openBracket
  else if c = ']' then some .closeBracket
  else if c = ':' then some .colon
  else if c = ',' then some .comma
  else none

inductive Mode where
  | between
  | word (letters : List Char)
  | number (chars : List Char)
  | string (pieces : List Piece)
  | escape (pieces : List Piece)
  | unicode (pieces : List Piece) (digits : Nat) (value : Nat)

structure Scan where
  mode : Mode
  tokens : List Token

def isNumberChar (c : Char) : Bool :=
  isDigit c || c == '-' || c == '+' || c == '.' || c == 'e' || c == 'E'

def isLetter (c : Char) : Bool := 'a' ≤ c ∧ c ≤ 'z'

def isBlank (c : Char) : Bool := c == ' ' || c == '\t' || c == '\n' || c == '\r'

def Scan.close? (s : Scan) : Option Scan :=
  match s.mode with
  | .between => some s
  | .word letters => (ofWord? letters.reverse).map fun t => ⟨.between, t :: s.tokens⟩
  | .number chars => (ofNumberLiteral? chars.reverse).map fun t => ⟨.between, t :: s.tokens⟩
  | _ => none

def Scan.start? (s : Scan) (c : Char) : Option Scan :=
  if isBlank c then some s
  else if c = '"' then some { s with mode := .string [] }
  else if c = '-' || isDigit c then some { s with mode := .number [c] }
  else if isLetter c then some { s with mode := .word [c] }
  else (ofPunctuation? c).map fun t => { s with tokens := t :: s.tokens }

def simpleEscape? (c : Char) : Option Char :=
  if c = '"' ∨ c = '\\' ∨ c = '/' then some c
  else if c = 'b' then some '\x08'
  else if c = 'f' then some '\x0c'
  else if c = 'n' then some '\n'
  else if c = 'r' then some '\r'
  else if c = 't' then some '\t'
  else none

def Scan.step? (s : Scan) (c : Char) : Option Scan :=
  match s.mode with
  | .between => s.start? c
  | .word letters =>
    if isLetter c then some { s with mode := .word (c :: letters) }
    else s.close?.bind (·.start? c)
  | .number chars =>
    if isNumberChar c then some { s with mode := .number (c :: chars) }
    else s.close?.bind (·.start? c)
  | .string pieces =>
    if c = '"' then
      some ⟨.between, .str ((joinPieces pieces.reverse).map String.ofList) :: s.tokens⟩
    else if c = '\\' then some { s with mode := .escape pieces }
    else if c.toNat < 0x20 then none
    else some { s with mode := .string (.char c :: pieces) }
  | .escape pieces =>
    if c = 'u' then some { s with mode := .unicode pieces 0 0 }
    else (simpleEscape? c).map fun e => { s with mode := .string (.char e :: pieces) }
  | .unicode pieces digits value =>
    (hexValue? c).map fun h =>
      let value := value * 16 + h
      if digits = 3 then { s with mode := .string (.unit value :: pieces) }
      else { s with mode := .unicode pieces (digits + 1) value }

def scan? (chars : List Char) : Option (List Token) :=
  (chars.foldlM Scan.step? ⟨.between, []⟩).bind fun s =>
    s.close?.map (·.tokens.reverse)

end Token

end DocQuery.Json
