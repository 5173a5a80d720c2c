import DocQuery.Json.Token

set_option autoImplicit false

namespace DocQuery

/-- A JSON text as written. Members stand in text order with repeated names kept. A part that is
well formed but has no value (a number out of range, an unpaired surrogate, nesting beyond the
limit) is `unreadable`; it matters only where its value is asked for. -/
inductive Document where
  | unreadable
  | null
  | bool (value : Bool)
  | num (value : Number)
  | str (value : String)
  | arr (items : List Document)
  | obj (members : List (String × Document))
  deriving Repr, Inhabited

namespace Document

def nestingLimit : Nat := 127

inductive Frame where
  | array (items : List Document)
  | object (members : List (String × Document)) (spoiled : Bool) (key : Option String)

inductive Expecting where
  | value
  | valueOrClose
  | name
  | nameOrClose
  | colon
  | commaOrClose
  | finished

structure State where
  stack : List Frame
  expecting : Expecting
  result : Document

def State.initial : State := ⟨[], .value, .unreadable⟩

def State.place (s : State) (value : Document) : State :=
  match s.stack with
  | [] => ⟨[], .finished, value⟩
  | .array items :: rest => ⟨.array (value :: items) :: rest, .commaOrClose, s.result⟩
  | .object members spoiled (some key) :: rest =>
    ⟨.object ((key, value) :: members) spoiled none :: rest, .commaOrClose, s.result⟩
  | .object members _ none :: rest =>
    ⟨.object members true none :: rest, .commaOrClose, s.result⟩

def Frame.finish (depth : Nat) : Frame → Document
  | .array items => if nestingLimit < depth then .unreadable else .arr items.reverse
  | .object members spoiled _ =>
    if spoiled || nestingLimit < depth then .unreadable else .obj members.reverse

def State.push (s : State) (frame : Frame) (expecting : Expecting) : State :=
  { s with stack := frame :: s.stack, expecting }

def State.pop? (s : State) : Option State :=
  match s.stack with
  | [] => none
  | frame :: rest => some ({ s with stack := rest }.place (frame.finish s.stack.length))

def State.close? (s : State) (t : Json.Token) : Option State :=
  match t, s.stack with
  | .closeBracket, .array _ :: _ => s.pop?
  | .closeBrace, .object .. :: _ => s.pop?
  | _, _ => none

def State.value? (s : State) (t : Json.Token) : Option State :=
  match t with
  | .null => some (s.place .null)
  | .bool b => some (s.place (.bool b))
  | .num (some n) => some (s.place (.num n))
  | .num none => some (s.place .unreadable)
  | .str (some x) => some (s.place (.str x))
  | .str none => some (s.place .unreadable)
  | .openBracket => some (s.push (.array []) .valueOrClose)
  | .openBrace => some (s.push (.object [] false none) .nameOrClose)
  | _ => none

def State.name? (s : State) (t : Json.Token) : Option State :=
  match t, s.stack with
  | .str name, .object members spoiled _ :: rest =>
    some ⟨.object members (spoiled || name.isNone) name :: rest, .colon, s.result⟩
  | _, _ => none

def State.step? (s : State) (t : Json.Token) : Option State :=
  match s.expecting with
  | .value => s.value? t
  | .valueOrClose => (s.close? t).or (s.value? t)
  | .name => s.name? t
  | .nameOrClose => (s.close? t).or (s.name? t)
  | .colon => match t with
    | .colon => some { s with expecting := .value }
    | _ => none
  | .commaOrClose => match t, s.stack with
    | .comma, .array _ :: _ => some { s with expecting := .value }
    | .comma, .object .. :: _ => some { s with expecting := .name }
    | t, _ => s.close? t
  | .finished => none

def ofTokens? (tokens : List Json.Token) : Option Document :=
  (tokens.foldlM State.step? .initial).bind fun s =>
    match s.expecting with
    | .finished => some s.result
    | _ => none

def ofText? (text : String) : Option Document :=
  (Json.Token.scan? text.toList).bind ofTokens?

mutual

def value? : Document → Option Json
  | .unreadable => none
  | .null => some .null
  | .bool b => some (.bool b)
  | .num n => some (.num n)
  | .str s => some (.str s)
  | .arr items => (items? items).map .arr
  | .obj members => (members? members).map fun ms => .obj (Fields.ofList ms)

def items? : List Document → Option (List Json)
  | [] => some []
  | item :: rest => do
    let value ← value? item
    let values ← items? rest
    return value :: values

def members? : List (String × Document) → Option (List (String × Json))
  | [] => some []
  | (key, item) :: rest => do
    let value ← value? item
    let values ← members? rest
    return (key, value) :: values

end

mutual

def ofJson : Json → Document
  | .null => .null
  | .bool b => .bool b
  | .num n => .num n
  | .str s => .str s
  | .arr items => .arr (ofItems items)
  | .obj members => .obj (ofMembers members)

def ofItems : List Json → List Document
  | [] => []
  | item :: rest => ofJson item :: ofItems rest

def ofMembers : List (String × Json) → List (String × Document)
  | [] => []
  | (key, value) :: rest => (key, ofJson value) :: ofMembers rest

end

end Document

def Json.ofText? (text : String) : Option Json :=
  (Document.ofText? text).bind Document.value?

end DocQuery
