import DocQuery.Operator.Basic
import Mathlib.Data.List.Infix

set_option autoImplicit false

namespace DocQuery.Pattern

inductive Expr where
  | empty
  | char (c : Char)
  | any
  | set (inverted : Bool) (ranges : List (Char × Char))
  | start
  | stop
  | seq (first second : Expr)
  | either (left right : Expr)
  | times (least : Nat) (most : Option Nat) (body : Expr)
  deriving DecidableEq

namespace Expr

def sequence (parts : List Expr) : Expr := parts.foldr seq empty

def Repeats (piece : List Char → List Char → List Char → Prop) :
    Nat → List Char → List Char → List Char → Prop
  | 0, _, text, _ => text = []
  | n + 1, before, text, after =>
    ∃ first rest, text = first ++ rest ∧ piece before first (rest ++ after) ∧
      Repeats piece n (before ++ first) rest after

-- Whether a piece of a text matches, between what stands before and after it. Characters that
-- `fold` takes to one character are the same up to case.
def Matches (fold : Char → Char) : Expr → List Char → List Char → List Char → Prop
  | empty, _, text, _ => text = []
  | char c, _, text, _ => ∃ d, text = [d] ∧ fold d = fold c
  | any, _, text, _ => ∃ d, text = [d] ∧ d ≠ '\n'
  | set inverted ranges, _, text, _ =>
    ∃ d, text = [d] ∧
      ((∃ r ∈ ranges, ∃ c, r.1 ≤ c ∧ c ≤ r.2 ∧ fold d = fold c) ↔ inverted = false)
  | start, before, text, _ => text = [] ∧ before = []
  | stop, _, text, after => text = [] ∧ after = []
  | seq first second, before, text, after =>
    ∃ head tail, text = head ++ tail ∧ first.Matches fold before head (tail ++ after) ∧
      second.Matches fold (before ++ head) tail after
  | either left right, before, text, after =>
    left.Matches fold before text after ∨ right.Matches fold before text after
  | times least most body, before, text, after =>
    ∃ n, least ≤ n ∧ (∀ bound ∈ most, n ≤ bound) ∧
      Repeats (body.Matches fold) n before text after

def FoundIn (fold : Char → Char) (e : Expr) (text : List Char) : Prop :=
  ∃ before piece after, text = before ++ piece ++ after ∧ e.Matches fold before piece after

end Expr

inductive Token where
  | bare (c : Char)
  | escaped (c : Char)

def tokens? : List Char → Option (List Token)
  | [] => some []
  | ['\\'] => none
  | '\\' :: c :: rest => (tokens? rest).map (.escaped c :: ·)
  | c :: rest => (tokens? rest).map (.bare c :: ·)

namespace Token

def char : Token → Char
  | bare c => c
  | escaped c => c

def ranges : List Token → List (Char × Char)
  | low :: bare '-' :: high :: rest => (low.char, high.char) :: ranges rest
  | t :: rest => (t.char, t.char) :: ranges rest
  | [] => []

def ofSet : List Token → Expr
  | bare '^' :: rest => .set true (ranges rest)
  | members => .set false (ranges members)

def nat? (digits : List Token) : Option Nat := (String.ofList (digits.map char)).toNat?

def bounds? (inside : List Token) : Option (Nat × Option Nat) := do
  let (lower, rest) := inside.span (·.char != ',')
  let least ← nat? lower
  match rest with
  | [] => return (least, some least)
  | [_] => return (least, none)
  | _ :: upper => return (least, some (← nat? upper))

end Token

def digits : List (Char × Char) := [('0', '9')]

def wordChars : List (Char × Char) := [('0', '9'), ('A', 'Z'), ('a', 'z'), ('_', '_')]

def spaces : List (Char × Char) := [('\t', '\r'), (' ', ' ')]

def ofEscaped? : Char → Option Expr
  | 'd' => some (.set false digits)
  | 'D' => some (.set true digits)
  | 'w' => some (.set false wordChars)
  | 'W' => some (.set true wordChars)
  | 's' => some (.set false spaces)
  | 'S' => some (.set true spaces)
  | 'n' => some (.char '\n')
  | 'r' => some (.char '\r')
  | 't' => some (.char '\t')
  | c => if c.isAlphanum then none else some (.char c)

structure Group where
  alternatives : List Expr
  parts : List Expr

def Group.expr (g : Group) : Expr :=
  g.alternatives.foldl (fun rest e => .either e rest) (.sequence g.parts.reverse)

structure State where
  group : Group
  around : List Group
  inside : Option (Char × List Token)

namespace State

def initial : State := ⟨⟨[], []⟩, [], none⟩

def push (s : State) (e : Expr) : State :=
  { s with group := { s.group with parts := e :: s.group.parts } }

def alternative (s : State) : State :=
  { s with group := ⟨.sequence s.group.parts.reverse :: s.group.alternatives, []⟩ }

def close? (s : State) : Option State :=
  match s.around with
  | outer :: rest => some (State.push ⟨outer, rest, none⟩ s.group.expr)
  | [] => none

def repeat? (s : State) (least : Nat) (most : Option Nat) : Option State :=
  match s.group.parts with
  | body :: rest => some { s with group := { s.group with parts := .times least most body :: rest } }
  | [] => none

def stepInside? (s : State) (opening : Char) (inside : List Token) (t : Token) : Option State :=
  match opening, t, inside with
  | '[', .bare ']', _ :: _ => some ({ s with inside := none }.push (Token.ofSet inside.reverse))
  | '\x7b', .bare '\x7d', _ => do
    let (least, most) ← Token.bounds? inside.reverse
    { s with inside := none }.repeat? least most
  | _, t, _ => some { s with inside := some (opening, t :: inside) }

def step? (s : State) (t : Token) : Option State :=
  match s.inside with
  | some (opening, inside) => s.stepInside? opening inside t
  | none =>
    match t with
    | .escaped c => (ofEscaped? c).map s.push
    | .bare '.' => some (s.push .any)
    | .bare '^' => some (s.push .start)
    | .bare '$' => some (s.push .stop)
    | .bare '|' => some s.alternative
    | .bare '(' => some ⟨⟨[], []⟩, s.group :: s.around, none⟩
    | .bare ')' => s.close?
    | .bare '*' => s.repeat? 0 none
    | .bare '+' => s.repeat? 1 none
    | .bare '?' => s.repeat? 0 (some 1)
    | .bare '[' => some { s with inside := some ('[', []) }
    | .bare '\x7b' => some { s with inside := some ('\x7b', []) }
    | .bare c => some (s.push (.char c))

end State

def read? (pattern : String) : Option Expr := do
  let s ← (← tokens? pattern.toList).foldlM State.step? .initial
  match s.around, s.inside with
  | [], none => return s.group.expr
  | _, _ => none

-- What a clause with a pattern asks of a text, none if the pattern is malformed. Case counts unless
-- the clause has the option for it.
def asks? (fold : Char → Char) : Json → Option (String → Prop)
  | .obj [("$regex", .str pattern), ("$options", .str "i")] =>
    (read? pattern).map fun e text => e.FoundIn fold text.toList
  | .obj [("$regex", .str pattern)] =>
    (read? pattern).map fun e text => e.FoundIn id text.toList
  | .obj [("$not", clause)] => (asks? fold clause).map fun asked text => ¬asked text
  | _ => none

def escapedToken (c : Char) : Token := if isMeta c then .escaped c else .bare c

theorem tokens?_escape (chars rest : List Char) :
    tokens? (escapeChars chars ++ rest) = (tokens? rest).map (chars.map escapedToken ++ ·) := by
  induction chars with
  | nil => simp [escapeChars]
  | cons c chars ih =>
    by_cases special : isMeta c
    · simp [escapeChars, escapedToken, special, tokens?, ih, Function.comp_def]
    · have plain : c ≠ '\\' := by
        rintro rfl
        exact special rfl
      simp [escapeChars, escapedToken, special, tokens?, plain, ih, Function.comp_def]

theorem ofEscaped?_of_meta {c : Char} (special : isMeta c = true) :
    ofEscaped? c = some (.char c) := by
  have each : ['\\', '.', '+', '*', '?', '(', ')', '|', '[', ']', '\x7b', '\x7d', '^', '$', '#', '&',
      '-', '~'].all (fun c => ofEscaped? c = some (.char c)) := by decide
  exact of_decide_eq_true (List.all_eq_true.mp each c (of_decide_eq_true special))

namespace State

def pushAll (s : State) (parts : List Expr) : State :=
  { s with group := { s.group with parts := parts.reverse ++ s.group.parts } }

def Pushes (tokens : List Token) (parts : List Expr) : Prop :=
  ∀ s : State, s.inside = none → tokens.foldlM step? s = some (s.pushAll parts)

theorem Pushes.append {tokens others : List Token} {parts more : List Expr}
    (first : Pushes tokens parts) (second : Pushes others more) :
    Pushes (tokens ++ others) (parts ++ more) := by
  intro s outside
  have later : others.foldlM step? (s.pushAll parts) = some ((s.pushAll parts).pushAll more) :=
    second (s.pushAll parts) outside
  rw [List.foldlM_append, first s outside, Option.bind_eq_bind, Option.bind_some, later]
  simp [pushAll]

theorem pushes_nil : Pushes [] [] := fun _ _ => rfl

theorem pushes_single {t : Token} {e : Expr}
    (pushed : ∀ s : State, s.inside = none → s.step? t = some (s.push e)) : Pushes [t] [e] := by
  intro s outside
  simp [pushed s outside, push, pushAll]

theorem pushes_start : Pushes [.bare '^'] [.start] :=
  pushes_single fun s outside => by simp [step?, outside]

theorem pushes_stop : Pushes [.bare '$'] [.stop] :=
  pushes_single fun s outside => by simp [step?, outside]

theorem pushes_char (c : Char) : Pushes [escapedToken c] [.char c] := by
  refine pushes_single fun s outside => ?_
  by_cases special : isMeta c
  · simp [escapedToken, special, step?, outside, ofEscaped?_of_meta special]
  · have plain : ¬isMeta c := special
    simp only [isMeta, List.mem_cons, not_or, decide_eq_true_eq] at plain
    simp [escapedToken, special, step?, outside, plain]

theorem pushes_chars (chars : List Char) :
    Pushes (chars.map escapedToken) (chars.map .char) := by
  induction chars with
  | nil => exact pushes_nil
  | cons c chars ih => exact (pushes_char c).append ih

end State

theorem read?_of_pushes {pattern : String} {tokens : List Token} {parts : List Expr}
    (scanned : tokens? pattern.toList = some tokens) (pushes : State.Pushes tokens parts) :
    read? pattern = some (.sequence parts) := by
  have run : tokens.foldlM State.step? .initial = some (State.initial.pushAll parts) :=
    pushes .initial rfl
  simp only [read?, scanned, Option.bind_eq_bind, Option.bind_some, run]
  simp [State.pushAll, State.initial, Group.expr]

namespace Expr

variable {fold : Char → Char} {before text after chars : List Char} {parts more : List Expr}

theorem matches_sequence_append :
    (sequence (parts ++ more)).Matches fold before text after ↔
      ∃ head tail, text = head ++ tail ∧
        (sequence parts).Matches fold before head (tail ++ after) ∧
        (sequence more).Matches fold (before ++ head) tail after := by
  induction parts generalizing before text with
  | nil => simp [sequence, Matches]
  | cons e parts ih =>
    simp only [sequence] at ih
    simp only [sequence, List.cons_append, List.foldr_cons, Matches, ih]
    constructor
    · rintro ⟨first, _, rfl, found, head, tail, rfl, others, last⟩
      refine ⟨first ++ head, tail, by simp, ⟨first, head, rfl, ?_, others⟩, ?_⟩
      · simpa using found
      · simpa using last
    · rintro ⟨_, tail, rfl, ⟨first, head, rfl, found, others⟩, last⟩
      refine ⟨first, head ++ tail, by simp, ?_, head, tail, rfl, others, ?_⟩
      · simpa using found
      · simpa using last

theorem matches_chars :
    (sequence (chars.map .char)).Matches fold before text after ↔
      text.map fold = chars.map fold := by
  induction chars generalizing before text with
  | nil => simp [sequence, Matches]
  | cons c chars ih =>
    simp only [sequence] at ih
    simp only [sequence, List.map_cons, List.foldr_cons, Matches, ih, List.map_eq_cons_iff]
    constructor
    · rintro ⟨_, tail, rfl, ⟨d, rfl, same⟩, rest⟩
      exact ⟨d, tail, rfl, same, rest⟩
    · rintro ⟨d, tail, rfl, same, rest⟩
      exact ⟨[d], tail, rfl, ⟨d, rfl, same⟩, rest⟩

theorem foundIn_chars :
    (sequence (chars.map .char)).FoundIn fold text ↔ chars.map fold <:+: text.map fold := by
  simp only [FoundIn, matches_chars, List.infix_map_iff]
  constructor
  · rintro ⟨before, piece, after, rfl, same⟩
    exact ⟨piece, ⟨before, after, rfl⟩, same.symm⟩
  · rintro ⟨piece, ⟨before, after, rfl⟩, same⟩
    exact ⟨before, piece, after, rfl, same.symm⟩

theorem foundIn_start_chars :
    (sequence (.start :: chars.map .char)).FoundIn fold text ↔
      chars.map fold <+: text.map fold := by
  have anchored : sequence (.start :: chars.map .char) =
      sequence ([.start] ++ chars.map .char) := rfl
  simp only [FoundIn, anchored, matches_sequence_append, matches_chars, List.prefix_map_iff]
  simp only [sequence, List.foldr_cons, List.foldr_nil, Matches]
  constructor
  · rintro ⟨_, _, after, rfl, _, piece, rfl, ⟨_, _, rfl, ⟨rfl, rfl⟩, rfl⟩, same⟩
    exact ⟨piece, ⟨after, rfl⟩, same.symm⟩
  · rintro ⟨piece, ⟨after, rfl⟩, same⟩
    exact ⟨[], piece, after, rfl, [], piece, rfl, ⟨[], [], rfl, ⟨rfl, rfl⟩, rfl⟩, same.symm⟩

theorem foundIn_chars_stop :
    (sequence (chars.map .char ++ [.stop])).FoundIn fold text ↔
      chars.map fold <:+ text.map fold := by
  simp only [FoundIn, matches_sequence_append, matches_chars, List.suffix_map_iff]
  simp only [sequence, List.foldr_cons, List.foldr_nil, Matches]
  constructor
  · rintro ⟨before, _, after, rfl, piece, _, rfl, same, _, _, rfl, ⟨rfl, ended⟩, rfl⟩
    obtain rfl : after = [] := by simpa using ended
    exact ⟨piece, ⟨before, by simp⟩, same.symm⟩
  · rintro ⟨piece, ⟨before, rfl⟩, same⟩
    exact ⟨before, piece, [], by simp, piece, [], by simp, same.symm, [], [], rfl, ⟨rfl, rfl⟩, rfl⟩

end Expr

theorem read?_escape (operand : String) :
    read? (escape operand) = some (.sequence (operand.toList.map .char)) := by
  have scanned : tokens? (escape operand).toList = some (operand.toList.map escapedToken) := by
    simpa [escape, tokens?] using tokens?_escape operand.toList []
  exact read?_of_pushes scanned (State.pushes_chars _)

example : read? "a.b" = some (.sequence [.char 'a', .any, .char 'b']) ∧
    read? (escape "a.b") = some (.sequence [.char 'a', .char '.', .char 'b']) := by
  decide

theorem read?_start_escape (operand : String) :
    read? ("^" ++ escape operand) = some (.sequence (.start :: operand.toList.map .char)) := by
  have scanned : tokens? ("^" ++ escape operand).toList =
      some (.bare '^' :: operand.toList.map escapedToken) := by
    have inner := tokens?_escape operand.toList []
    rw [List.append_nil] at inner
    simp [escape, tokens?, inner]
  exact read?_of_pushes scanned (State.pushes_start.append (State.pushes_chars _))

theorem read?_escape_stop (operand : String) :
    read? (escape operand ++ "$") = some (.sequence (operand.toList.map .char ++ [.stop])) := by
  have scanned : tokens? (escape operand ++ "$").toList =
      some (operand.toList.map escapedToken ++ [.bare '$']) := by
    simpa [escape, tokens?] using tokens?_escape operand.toList ['$']
  exact read?_of_pushes scanned ((State.pushes_chars _).append State.pushes_stop)

def folded (fold : Char → Char) (text : String) : List Char := text.toList.map fold

end DocQuery.Pattern

namespace DocQuery.Operator

open Pattern

def asks? (op : Operator) (fold : Char → Char) (field operand : String) : Option (String → Prop) :=
  (op.build field (.str operand)).toOption.bind (Pattern.asks? fold)

/-- The pattern operators look for their operand as it is written: escaped, it is read as its
characters one after another, and a text has what is asked for exactly if it has them in the place
asked for, up to case. -/
theorem patterns_literal (fold : Char → Char) (field operand : String) :
    read? (escape operand) = some (.sequence (operand.toList.map .char)) ∧
      read? ("^" ++ escape operand) = some (.sequence (.start :: operand.toList.map .char)) ∧
      read? (escape operand ++ "$") = some (.sequence (operand.toList.map .char ++ [.stop])) ∧
      contains.asks? fold field operand =
        some (fun text => folded fold operand <:+: folded fold text) ∧
      notContains.asks? fold field operand =
        some (fun text => ¬folded fold operand <:+: folded fold text) ∧
      startsWith.asks? fold field operand =
        some (fun text => folded fold operand <+: folded fold text) ∧
      endsWith.asks? fold field operand =
        some (fun text => folded fold operand <:+ folded fold text) := by
  have inside : Pattern.asks? fold (caseless (escape operand)) =
      some (fun text => folded fold operand <:+: folded fold text) := by
    simp [Pattern.asks?, caseless, read?_escape, Expr.foundIn_chars, folded]
  refine ⟨read?_escape operand, read?_start_escape operand, read?_escape_stop operand,
    ?contains, ?notContains, ?startsWith, ?endsWith⟩
  case contains =>
    simpa [asks?, build, containsClause, Except.toOption] using inside
  case notContains =>
    simp [asks?, build, containsClause, Except.toOption, Pattern.asks?, clause, inside]
  case startsWith =>
    simp [asks?, build, textOperand, Except.toOption, Pattern.asks?, caseless, read?_start_escape,
      Expr.foundIn_start_chars, folded]
  case endsWith =>
    simp [asks?, build, textOperand, Except.toOption, Pattern.asks?, caseless, read?_escape_stop,
      Expr.foundIn_chars_stop, folded]

end DocQuery.Operator
