import DocQuery.Key.Basic
import DocQuery.Proofs.Outcome
import Mathlib.Algebra.Ring.Nat
import Mathlib.Data.List.Induction
import Mathlib.Data.List.SplitLengths
import Mathlib.Data.List.TakeWhile

set_option autoImplicit false

namespace DocQuery

namespace Text

def lowerHexDigits : List Char :=
  ['0', '1', '2', '3', '4', '5', '6', '7', '8', '9', 'a', 'b', 'c', 'd', 'e', 'f']

def lowerChars (chars : List Char) : List Char := chars.map lowerAscii

theorem length_lowerChars (chars : List Char) : (lowerChars chars).length = chars.length :=
  List.length_map _

theorem toNat_lowerAscii (c : Char) :
    (lowerAscii c).toNat = if 65 ≤ c.toNat ∧ c.toNat ≤ 90 then c.toNat + 32 else c.toNat := by
  have upper : ('A' ≤ c ∧ c ≤ 'Z') ↔ 65 ≤ c.toNat ∧ c.toNat ≤ 90 := Iff.rfl
  unfold lowerAscii
  simp only [upper]
  split
  next within =>
    have valid : (c.toNat + 32).isValidChar := .inl (by omega)
    rw [Char.ofNat, dif_pos valid]
    rfl
  next => rfl

theorem mem_lowerHexDigits {c : Char} :
    c ∈ lowerHexDigits ↔ 48 ≤ c.toNat ∧ c.toNat ≤ 57 ∨ 97 ≤ c.toNat ∧ c.toNat ≤ 102 := by
  have numbers : lowerHexDigits.map Char.toNat = List.range' 48 10 ++ List.range' 97 6 := rfl
  have byNumber : c.toNat ∈ lowerHexDigits.map Char.toNat ↔ c ∈ lowerHexDigits :=
    List.mem_map_of_injective fun _ _ => Char.toNat_inj.mp
  rw [← byNumber, numbers, List.mem_append, List.mem_range'_1, List.mem_range'_1]
  omega

theorem isHexDigit_iff {c : Char} :
    Uuid.isHexDigit c = true ↔ lowerAscii c ∈ lowerHexDigits := by
  have ranges : Uuid.isHexDigit c = true ↔ (48 ≤ c.toNat ∧ c.toNat ≤ 57) ∨
      (97 ≤ c.toNat ∧ c.toNat ≤ 102) ∨ (65 ≤ c.toNat ∧ c.toNat ≤ 70) := by
    simp only [Uuid.isHexDigit, Bool.or_eq_true, decide_eq_true_eq, or_assoc]
    exact Iff.rfl
  rw [ranges, mem_lowerHexDigits, toNat_lowerAscii]
  split <;> omega

theorem lowerAscii_of_lowerHex {c : Char} (lower : c ∈ lowerHexDigits) : lowerAscii c = c := by
  have digit := mem_lowerHexDigits.mp lower
  refine Char.toNat_inj.mp ?_
  rw [toNat_lowerAscii]
  split <;> omega

theorem lowerAscii_eq_iff {c mark : Char} (unlettered : mark.toNat < 65 ∨ 122 < mark.toNat) :
    lowerAscii c = mark ↔ c = mark := by
  have number := toNat_lowerAscii c
  constructor
  · rintro rfl
    have same : (lowerAscii c).toNat = c.toNat := by split at number <;> omega
    exact (Char.toNat_inj.mp same).symm
  · rintro rfl
    refine Char.toNat_inj.mp ?_
    split at number <;> omega

def Padded (body chars : List Char) : Prop :=
  ∃ before after, (∀ c ∈ before, isBlank c = true) ∧ (∀ c ∈ after, isBlank c = true) ∧
    chars = before ++ body ++ after

theorem padded_trimChars (chars : List Char) : Padded (trimChars chars) chars := by
  let rest := chars.dropWhile isBlank
  refine ⟨chars.takeWhile isBlank, (rest.reverse.takeWhile isBlank).reverse, ?_, ?_, ?_⟩
  · intro c inside
    exact List.mem_takeWhile_imp inside
  · intro c inside
    exact List.mem_takeWhile_imp (List.mem_reverse.mp inside)
  · have last := congrArg List.reverse
      (List.takeWhile_append_dropWhile (p := isBlank) (l := rest.reverse))
    rw [List.reverse_append, List.reverse_reverse] at last
    rw [List.append_assoc, trimChars, last, List.takeWhile_append_dropWhile]

theorem dropWhile_blank {before rest : List Char} (blank : ∀ c ∈ before, isBlank c = true)
    (first : ∀ c ∈ rest.head?, isBlank c = false) :
    (before ++ rest).dropWhile isBlank = rest := by
  rw [List.dropWhile_append_of_pos blank]
  cases rest with
  | nil => rfl
  | cons c rest => rw [List.dropWhile_cons_of_neg (by simpa using first)]

theorem trimChars_of_padded {body chars : List Char} (filled : body ≠ [])
    (unblank : ∀ c ∈ body, isBlank c = false) (padded : Padded body chars) :
    trimChars chars = body := by
  obtain ⟨before, after, blank, blankAfter, rfl⟩ := padded
  have trimmed : (before ++ (body ++ after)).dropWhile isBlank = body ++ after := by
    refine dropWhile_blank blank fun c first => unblank c ?_
    rw [List.head?_append, List.head?_eq_some_head filled, Option.some_or] at first
    cases first
    exact List.head_mem filled
  have reversed : (after.reverse ++ body.reverse).dropWhile isBlank = body.reverse := by
    refine dropWhile_blank (fun c inside => ?_) fun c first => ?_
    · exact blankAfter c (List.mem_reverse.mp inside)
    · exact unblank c (List.mem_reverse.mp (List.mem_of_mem_head? first))
  rw [trimChars, List.append_assoc, trimmed, List.reverse_append, reversed, List.reverse_reverse]

end Text

namespace KeyType

inductive Numeral : List Char → Nat → Prop
  | digit {d : Nat} (small : d < 10) : Numeral [d.digitChar] d
  | append {chars : List Char} {n d : Nat} (before : Numeral chars n) (small : d < 10) :
      Numeral (chars ++ [d.digitChar]) (n * 10 + d)

inductive Decimal : List Char → Int → Prop
  | bare {digits : List Char} {n : Nat} (numeral : Numeral digits n) : Decimal digits n
  | plus {digits : List Char} {n : Nat} (numeral : Numeral digits n) : Decimal ('+' :: digits) n
  | minus {digits : List Char} {n : Nat} (numeral : Numeral digits n) : Decimal ('-' :: digits) (-n)

variable {chars digits : List Char} {i : Int} {n d : Nat}

theorem digitChar_toNat : ∀ d < 10, d.digitChar.toNat = d + '0'.toNat := by decide

theorem isDigit_iff {c : Char} : isDigit c = true ↔ ∃ d < 10, c = d.digitChar := by
  have range : isDigit c = true ↔ 48 ≤ c.toNat ∧ c.toNat ≤ 57 := decide_eq_true_iff
  rw [range]
  constructor
  · rintro ⟨low, high⟩
    have same := digitChar_toNat (c.toNat - 48) (by omega)
    exact ⟨c.toNat - 48, by omega, Char.toNat_inj.mp (same.trans (Nat.sub_add_cancel low)).symm⟩
  · rintro ⟨d, small, rfl⟩
    have same : d.digitChar.toNat = d + 48 := digitChar_toNat d small
    omega

theorem digitsValue_snoc (small : d < 10) (digits : List Char) :
    digitsValue (digits ++ [d.digitChar]) = digitsValue digits * 10 + d := by
  simp [digitsValue, digitChar_toNat d small]

theorem numeral_iff :
    Numeral digits n ↔ digits ≠ [] ∧ (∀ c ∈ digits, isDigit c = true) ∧ digitsValue digits = n := by
  constructor
  · intro numeral
    induction numeral with
    | digit small =>
      refine ⟨List.cons_ne_nil _ _, List.forall_mem_singleton.mpr ?_, ?_⟩
      · exact isDigit_iff.mpr ⟨_, small, rfl⟩
      · simpa [digitsValue] using digitsValue_snoc small []
    | append before small ih =>
      obtain ⟨-, numeric, rfl⟩ := ih
      refine ⟨by simp, List.forall_mem_append.mpr ⟨numeric, ?_⟩, digitsValue_snoc small _⟩
      exact List.forall_mem_singleton.mpr (isDigit_iff.mpr ⟨_, small, rfl⟩)
  · rintro ⟨filled, numeric, rfl⟩
    induction digits using List.reverseRecOn with
    | nil => exact absurd rfl filled
    | append_singleton digits last ih =>
      obtain ⟨before, ended⟩ := List.forall_mem_append.mp numeric
      obtain ⟨d, small, rfl⟩ := isDigit_iff.mp (ended last List.mem_cons_self)
      rw [digitsValue_snoc small]
      by_cases first : digits = []
      · subst first
        simpa [digitsValue] using Numeral.digit small
      · exact .append (ih first before) small

theorem Numeral.filled (numeral : Numeral digits n) : digits ≠ [] := (numeral_iff.mp numeral).1

theorem Numeral.unblank (numeral : Numeral digits n) : ∀ c ∈ digits, Text.isBlank c = false := by
  intro c inside
  have digit := (numeral_iff.mp numeral).2.1 c inside
  have range : 48 ≤ c.toNat ∧ c.toNat ≤ 57 := of_decide_eq_true digit
  simp [Text.isBlank]
  omega

theorem Decimal.filled (decimal : Decimal chars i) : chars ≠ [] := by
  cases decimal with
  | bare numeral => exact numeral.filled
  | plus _ => exact List.cons_ne_nil _ _
  | minus _ => exact List.cons_ne_nil _ _

theorem Decimal.unblank (decimal : Decimal chars i) : ∀ c ∈ chars, Text.isBlank c = false := by
  cases decimal with
  | bare numeral => exact numeral.unblank
  | plus numeral => exact List.forall_mem_cons.mpr ⟨by decide, numeral.unblank⟩
  | minus numeral => exact List.forall_mem_cons.mpr ⟨by decide, numeral.unblank⟩

theorem not_numeral_of_mark {mark : Char} (undigit : isDigit mark = false) :
    ¬ Numeral (mark :: chars) n := by
  intro numeral
  have digit := (numeral_iff.mp numeral).2.1 mark List.mem_cons_self
  rw [undigit] at digit
  cases digit

theorem decimal_minus :
    Decimal ('-' :: digits) i ↔ ∃ n : Nat, Numeral digits n ∧ -(n : Int) = i := by
  constructor
  · intro decimal
    cases decimal with
    | bare numeral => exact absurd numeral (not_numeral_of_mark (by decide))
    | minus numeral => exact ⟨_, numeral, rfl⟩
  · rintro ⟨n, numeral, rfl⟩
    exact .minus numeral

theorem decimal_plus : Decimal ('+' :: digits) i ↔ ∃ n : Nat, Numeral digits n ∧ (n : Int) = i := by
  constructor
  · intro decimal
    cases decimal with
    | bare numeral => exact absurd numeral (not_numeral_of_mark (by decide))
    | plus numeral => exact ⟨_, numeral, rfl⟩
  · rintro ⟨n, numeral, rfl⟩
    exact .plus numeral

theorem decimal_unsigned (unsigned : ∀ rest, digits ≠ '-' :: rest)
    (unmarked : ∀ rest, digits ≠ '+' :: rest) :
    Decimal digits i ↔ ∃ n : Nat, Numeral digits n ∧ (n : Int) = i := by
  constructor
  · intro decimal
    cases decimal with
    | bare numeral => exact ⟨_, numeral, rfl⟩
    | plus _ => exact absurd rfl (unmarked _)
    | minus _ => exact absurd rfl (unsigned _)
  · rintro ⟨n, numeral, rfl⟩
    exact .bare numeral

theorem asInt64?_int {n : Int} :
    (Number.int n).asInt64? = some i ↔ n = i ∧ Number.minInt64 ≤ i ∧ i ≤ Number.maxInt64 := by
  unfold Number.asInt64?
  split <;> grind

theorem integerText?_eq_some :
    integerText? chars = some i ↔
      Decimal chars i ∧ Number.minInt64 ≤ i ∧ i ≤ Number.maxInt64 := by
  have read (digits : List Char) (signed : Int → Int) :
      (if digits.isEmpty || !digits.all isDigit then none
        else (Number.int (signed (digitsValue digits))).asInt64?) = some i ↔
        (∃ n : Nat, Numeral digits n ∧ signed n = i) ∧
          Number.minInt64 ≤ i ∧ i ≤ Number.maxInt64 := by
    have accepted : (digits.isEmpty || !digits.all isDigit) = false ↔
        digits ≠ [] ∧ ∀ c ∈ digits, isDigit c = true := by simp
    have value : (∃ n : Nat, Numeral digits n ∧ signed n = i) ↔
        (digits ≠ [] ∧ ∀ c ∈ digits, isDigit c = true) ∧ signed (digitsValue digits) = i := by
      simp [numeral_iff, and_assoc]
    rw [value, ← accepted, and_assoc, ← asInt64?_int]
    cases digits.isEmpty || !digits.all isDigit <;> simp
  unfold integerText?
  split
  next negative digits signed =>
    split at signed <;> cases signed
    · exact (read _ (- ·)).trans (and_congr_left fun _ => decimal_minus.symm)
    · exact (read _ id).trans (and_congr_left fun _ => decimal_plus.symm)
    next unsigned unmarked =>
      exact (read _ id).trans (and_congr_left fun _ => (decimal_unsigned unsigned unmarked).symm)

end KeyType

namespace Uuid

open Text

variable {lengths : List Nat} {chars digits : List Char}

def Hex (chars : List Char) : Prop := ∀ c ∈ chars, isHexDigit c = true

theorem ofHyphenated?_last {n : Nat} :
    ofHyphenated? [n] chars = some digits ↔ chars = digits ∧ digits.length = n ∧ Hex digits := by
  unfold ofHyphenated?
  dsimp only
  constructor
  · intro read
    have whole := List.take_append_drop n chars
    split at read
    next group =>
      split at read
      next ended =>
        cases read
        rw [ended, List.append_nil] at whole
        exact ⟨whole.symm, group.1, List.all_eq_true.mp group.2⟩
      next => contradiction
      next => cases read
    next => cases read
  · rintro ⟨rfl, rfl, hex⟩
    simpa [Hex] using hex

theorem ofHyphenated?_more {n m : Nat} {rest : List Nat} :
    ofHyphenated? (n :: m :: rest) chars = some digits ↔
      ∃ group later others, group.length = n ∧ Hex group ∧ chars = group ++ '-' :: later ∧
        ofHyphenated? (m :: rest) later = some others ∧ digits = group ++ others := by
  rw [ofHyphenated?.eq_def]
  dsimp only
  constructor
  · intro read
    have whole := List.take_append_drop n chars
    split at read
    next group =>
      split at read
      next => contradiction
      next m' rest' later same found =>
        obtain ⟨others, inner, rfl⟩ := Option.map_eq_some_iff.mp read
        rw [found] at whole
        exact ⟨_, later, others, group.1, List.all_eq_true.mp group.2, whole.symm, inner, rfl⟩
      next => cases read
    next => cases read
  · rintro ⟨group, later, others, length, hex, rfl, read, rfl⟩
    rw [List.take_left' length, List.drop_left' length, if_pos ⟨length, List.all_eq_true.mpr hex⟩]
    simp only [read, Option.map_some]

theorem hyphenate_more {n m : Nat} {rest : List Nat} {group others : List Char}
    (length : group.length = n) :
    hyphenate (n :: m :: rest) (group ++ others) =
      group ++ '-' :: hyphenate (m :: rest) others := by
  rw [hyphenate, List.take_left' length, List.drop_left' length]
  simp

theorem ofHyphenated?_eq_some :
    ofHyphenated? lengths chars = some digits ↔
      digits.length = lengths.sum ∧ Hex digits ∧ chars = hyphenate lengths digits := by
  induction lengths generalizing chars digits with
  | nil => cases chars <;> cases digits <;> simp [ofHyphenated?, hyphenate, Hex]
  | cons n rest ih =>
    cases rest with
    | nil =>
      rw [ofHyphenated?_last, hyphenate]
      constructor
      · rintro ⟨rfl, rfl, hex⟩
        simpa using hex
      · rintro ⟨rfl, hex, rfl⟩
        simpa using hex
    | cons m rest =>
      simp only [ofHyphenated?_more, ih]
      constructor
      · rintro ⟨group, later, others, length, hex, rfl, ⟨sum, others, rfl⟩, rfl⟩
        refine ⟨by simp [length, sum], List.forall_mem_append.mpr ⟨hex, others⟩, ?_⟩
        rw [hyphenate_more length]
      · rintro ⟨length, hex, rfl⟩
        have group : (digits.take n).length = n := by simp [length]
        have parts : Hex (digits.take n) ∧ Hex (digits.drop n) := by
          rwa [Hex, Hex, ← List.forall_mem_append, List.take_append_drop]
        have later : (digits.drop n).length = (m :: rest).sum := by
          rw [List.length_drop, length, List.sum_cons, Nat.add_sub_cancel_left]
        have whole := (List.take_append_drop n digits).symm
        refine ⟨_, _, _, group, parts.1, ?_, ⟨later, parts.2, rfl⟩, whole⟩
        rw [← hyphenate_more group, List.take_append_drop]

theorem hyphenate_flatten {groups : List (List Char)} (sized : groups.map List.length = lengths) :
    hyphenate lengths groups.flatten = List.intercalate ['-'] groups := by
  induction groups generalizing lengths with
  | nil =>
    cases sized
    rfl
  | cons group rest ih =>
    cases sized
    cases rest with
    | nil => simp [hyphenate]
    | cons next rest =>
      rw [List.flatten_cons, List.map_cons, List.map_cons, hyphenate_more rfl, ← List.map_cons,
        ih rfl, List.intercalate_cons_cons, List.append_assoc, List.singleton_append]

theorem exists_parts {n : Nat} {rest : List Nat} (sized : digits.length = (n :: rest).sum) :
    ∃ group others, digits = group ++ others ∧ group.length = n ∧ others.length = rest.sum := by
  refine ⟨digits.take n, digits.drop n, (List.take_append_drop n digits).symm, ?_, ?_⟩
  · simp [sized]
  · rw [List.length_drop, sized, List.sum_cons, Nat.add_sub_cancel_left]

theorem hyphenate_last {n : Nat} (sized : digits.length = n) : hyphenate [n] digits = digits := by
  rw [hyphenate, List.take_of_length_le sized.le]

theorem lowerChars_hyphenate (lengths : List Nat) (digits : List Char) :
    lowerChars (hyphenate lengths digits) = hyphenate lengths (lowerChars digits) := by
  fun_induction hyphenate lengths digits with
  | case1 => rfl
  | case2 => simp [hyphenate, lowerChars]
  | case3 n rest digits more ih =>
    have mark : lowerAscii '-' = '-' := by decide
    simp only [lowerChars, List.map_drop] at ih
    simp [hyphenate, lowerChars, ih, mark]

theorem hyphenate_of_lowerChars (sized : digits.length = lengths.sum)
    (lowered : lowerChars chars = hyphenate lengths digits) :
    ∃ raw, lowerChars raw = digits ∧ chars = hyphenate lengths raw := by
  induction lengths generalizing chars digits with
  | nil =>
    cases List.length_eq_zero_iff.mp sized
    exact ⟨[], rfl, List.map_eq_nil_iff.mp lowered⟩
  | cons n rest ih =>
    cases rest with
    | nil =>
      have whole : digits.length = n := by simpa using sized
      rw [hyphenate_last whole] at lowered
      refine ⟨chars, lowered, (hyphenate_last ?_).symm⟩
      rw [← whole, ← lowered, length_lowerChars]
    | cons m rest =>
      obtain ⟨group, others, rfl, length, left⟩ := exists_parts sized
      rw [hyphenate_more length] at lowered
      obtain ⟨first, later, rfl, same, lowered⟩ := List.map_eq_append_iff.mp lowered
      obtain ⟨mark, later, rfl, hyphen, lowered⟩ := List.map_eq_cons_iff.mp lowered
      obtain ⟨raw, rfl, rfl⟩ := ih left lowered
      cases (lowerAscii_eq_iff (by decide)).mp hyphen
      refine ⟨first ++ raw, by simp [lowerChars, ← same], ?_⟩
      rw [hyphenate_more]
      rw [← length, ← same, List.length_map]

theorem filter_hyphenate (sized : digits.length = lengths.sum) (plain : '-' ∉ digits) :
    (hyphenate lengths digits).filter (· ≠ '-') = digits := by
  have kept {chars : List Char} (plain : '-' ∉ chars) : chars.filter (· ≠ '-') = chars := by
    refine List.filter_eq_self.mpr fun c inside => decide_eq_true ?_
    rintro rfl
    exact plain inside
  induction lengths generalizing digits with
  | nil =>
    cases List.length_eq_zero_iff.mp sized
    rfl
  | cons n rest ih =>
    cases rest with
    | nil => rw [hyphenate_last (by simpa using sized), kept plain]
    | cons m rest =>
      obtain ⟨group, others, rfl, length, left⟩ := exists_parts sized
      rw [List.mem_append, not_or] at plain
      rw [hyphenate_more length, List.filter_append, List.filter_cons_of_neg (by simp),
        kept plain.1, ih left plain.2]

def Hyphenated (chars : List Char) : Prop :=
  ∃ groups : List (List Char), groups.map List.length = [8, 4, 4, 4, 12] ∧
    (∀ group ∈ groups, ∀ c ∈ group, c ∈ lowerHexDigits) ∧ chars = List.intercalate ['-'] groups

theorem hyphenated_iff :
    Hyphenated chars ↔ ∃ digits : List Char, digits.length = groupLengths.sum ∧
      (∀ c ∈ digits, c ∈ lowerHexDigits) ∧ chars = hyphenate groupLengths digits := by
  constructor
  · rintro ⟨groups, sized, lower, rfl⟩
    refine ⟨groups.flatten, ?_, ?_, (hyphenate_flatten sized).symm⟩
    · rw [List.length_flatten, sized]
      rfl
    · intro c inside
      obtain ⟨group, listed, inside⟩ := List.mem_flatten.mp inside
      exact lower group listed c inside
  · rintro ⟨digits, sized, lower, rfl⟩
    have lengths := List.map_splitLengths_length digits groupLengths sized.ge
    have whole := List.flatten_splitLengths digits groupLengths sized.le
    refine ⟨groupLengths.splitLengths digits, lengths, ?_, ?_⟩
    · intro group listed c inside
      exact lower c (whole ▸ List.mem_flatten_of_mem listed inside)
    · rw [← hyphenate_flatten lengths, whole]

theorem Hyphenated.lowered (hyphenated : Hyphenated chars) : lowerChars chars = chars := by
  obtain ⟨digits, -, lower, rfl⟩ := hyphenated_iff.mp hyphenated
  have same : lowerChars digits = digits :=
    (List.map_congr_left fun c inside => lowerAscii_of_lowerHex (lower c inside)).trans
      (List.map_id _)
  rw [lowerChars_hyphenate, same]

/-- The texts of a UUID, but for case: as it is stored, without hyphens, in braces, and behind the
urn scheme. -/
def forms (stored : List Char) : List (List Char) :=
  [stored, stored.filter (· ≠ '-'), '\x7b' :: (stored ++ ['\x7d']), urnScheme ++ stored]

theorem unwrap_cases (chars : List Char) :
    chars = unwrap chars ∨ chars = '\x7b' :: (unwrap chars ++ ['\x7d']) ∨
      ∃ scheme, lowerChars scheme = urnScheme ∧ chars = scheme ++ unwrap chars := by
  unfold unwrap
  split
  next rest =>
    split
    next closed =>
      obtain ⟨body, rfl⟩ := List.getLast?_eq_some_iff.mp closed
      exact .inr (.inl (by simp))
    next => exact .inl rfl
  next =>
    split
    next scheme => exact .inr (.inr ⟨_, scheme, (List.take_append_drop _ chars).symm⟩)
    next => exact .inl rfl

theorem unwrap_braced (body : List Char) : unwrap ('\x7b' :: (body ++ ['\x7d'])) = body := by
  simp [unwrap]

theorem unwrap_urn {scheme : List Char} (lowered : lowerChars scheme = urnScheme)
    (body : List Char) : unwrap (scheme ++ body) = body := by
  have length : scheme.length = urnScheme.length := by rw [← lowered, length_lowerChars]
  unfold unwrap
  split
  next rest braced =>
    cases scheme with
    | nil => cases lowered
    | cons c scheme =>
      cases braced
      cases lowered
  next =>
    rw [List.take_left' length, List.drop_left' length]
    exact if_pos lowered

theorem unwrap_hex {c : Char} (hex : isHexDigit c = true) (rest : List Char) :
    unwrap (c :: rest) = c :: rest := by
  unfold unwrap
  split
  next braced =>
    cases braced
    cases hex
  next =>
    refine if_neg fun scheme => ?_
    have letter : lowerAscii c = 'u' := (List.cons.inj scheme).1
    have digit := isHexDigit_iff.mp hex
    rw [letter] at digit
    exact absurd digit (by decide)

theorem hyphen_mem (digits : List Char) : '-' ∈ hyphenate groupLengths digits := by
  simp [groupLengths, hyphenate]

theorem unwrap_hyphenate (sized : digits.length = groupLengths.sum) (hex : Hex digits) :
    unwrap (hyphenate groupLengths digits) = hyphenate groupLengths digits := by
  cases digits with
  | nil => cases sized
  | cons c rest =>
    simp only [groupLengths, hyphenate, List.take_succ_cons, List.cons_append]
    exact unwrap_hex (hex c List.mem_cons_self) _

theorem ofPlain?_eq_some :
    ofPlain? chars = some digits ↔
      chars = digits ∧ digits.length = groupLengths.sum ∧ Hex digits := by
  have total : groupLengths.sum = 32 := rfl
  unfold ofPlain? Hex
  rw [← List.all_eq_true, total]
  constructor
  · intro read
    split at read
    next plain =>
      cases read
      exact ⟨rfl, plain⟩
    next => cases read
  · rintro ⟨rfl, plain⟩
    exact if_pos plain

theorem digits?_eq_some :
    digits? chars = some digits ↔ ∃ raw, lowerChars raw = digits ∧ raw.length = groupLengths.sum ∧
      Hex raw ∧ (chars = raw ∨ unwrap chars = hyphenate groupLengths raw) := by
  simp only [digits?, Option.map_eq_some_iff, Option.or_eq_some_iff, ofPlain?_eq_some,
    ofHyphenated?_eq_some]
  constructor
  · rintro ⟨raw, ⟨rfl, sized, hex⟩ | ⟨-, sized, hex, same⟩, rfl⟩
    · exact ⟨chars, rfl, sized, hex, .inl rfl⟩
    · exact ⟨raw, rfl, sized, hex, .inr same⟩
  · rintro ⟨raw, rfl, sized, hex, rfl | same⟩
    · exact ⟨chars, .inl ⟨rfl, sized, hex⟩, rfl⟩
    · refine ⟨raw, .inr ⟨?_, sized, hex, same⟩, rfl⟩
      refine Option.eq_none_iff_forall_ne_some.mpr fun plain read => ?_
      obtain ⟨rfl, length, digits⟩ := ofPlain?_eq_some.mp read
      cases chars with
      | nil => cases length
      | cons c rest =>
        rw [unwrap_hex (digits c List.mem_cons_self)] at same
        have hyphen := digits '-' (same ▸ hyphen_mem raw)
        cases hyphen

theorem hex_of_lowerChars (lower : ∀ c ∈ lowerChars chars, c ∈ lowerHexDigits) : Hex chars := by
  intro c inside
  exact isHexDigit_iff.mpr (lower _ (List.mem_map_of_mem inside))

theorem lowerChars_of_hex (hex : Hex chars) : ∀ c ∈ lowerChars chars, c ∈ lowerHexDigits := by
  intro c inside
  obtain ⟨given, listed, rfl⟩ := List.mem_map.mp inside
  exact isHexDigit_iff.mp (hex given listed)

theorem filter_of_lower (sized : digits.length = groupLengths.sum)
    (lower : ∀ c ∈ digits, c ∈ lowerHexDigits) :
    (hyphenate groupLengths digits).filter (· ≠ '-') = digits :=
  filter_hyphenate sized fun hyphen => absurd (lower '-' hyphen) (by decide)

theorem forms_of_digits (sized : digits.length = groupLengths.sum) (hex : Hex digits)
    (read : chars = digits ∨ unwrap chars = hyphenate groupLengths digits) :
    lowerChars chars ∈ forms (hyphenate groupLengths (lowerChars digits)) := by
  rcases read with rfl | read
  · have lowered : (lowerChars chars).length = groupLengths.sum := by
      rw [length_lowerChars, sized]
    have plain := filter_of_lower lowered (lowerChars_of_hex hex)
    simp only [forms, plain]
    simp
  · rw [← lowerChars_hyphenate, ← read]
    rcases unwrap_cases chars with same | same | ⟨scheme, urn, same⟩
    · rw [← same]
      exact List.mem_cons_self
    · have marks : lowerAscii '\x7b' = '\x7b' ∧ lowerAscii '\x7d' = '\x7d' := by decide
      rw [same, unwrap_braced]
      simp [forms, lowerChars, marks]
    · rw [same, unwrap_urn urn]
      simp [forms, ← urn, lowerChars]

theorem digits_of_forms (sized : digits.length = groupLengths.sum)
    (lower : ∀ c ∈ digits, c ∈ lowerHexDigits)
    (form : lowerChars chars ∈ forms (hyphenate groupLengths digits)) :
    ∃ raw, lowerChars raw = digits ∧
      (chars = raw ∨ unwrap chars = hyphenate groupLengths raw) := by
  simp only [forms, List.mem_cons, List.not_mem_nil, or_false] at form
  rcases form with same | same | braced | urn
  · obtain ⟨raw, rfl, rfl⟩ := hyphenate_of_lowerChars sized same
    have length : raw.length = groupLengths.sum := by rw [← sized, length_lowerChars]
    exact ⟨raw, rfl, .inr (unwrap_hyphenate length (hex_of_lowerChars lower))⟩
  · exact ⟨chars, by rw [same, filter_of_lower sized lower], .inl rfl⟩
  · obtain ⟨first, inner, rfl, opened, inside⟩ := List.map_eq_cons_iff.mp braced
    obtain ⟨body, ending, rfl, same, ended⟩ := List.map_eq_append_iff.mp inside
    obtain ⟨last, rfl, closed⟩ := List.map_eq_singleton_iff.mp ended
    cases (lowerAscii_eq_iff (by decide)).mp opened
    cases (lowerAscii_eq_iff (by decide)).mp closed
    obtain ⟨raw, rfl, rfl⟩ := hyphenate_of_lowerChars sized same
    exact ⟨raw, rfl, .inr (unwrap_braced _)⟩
  · obtain ⟨scheme, body, rfl, lowered, same⟩ := List.map_eq_append_iff.mp urn
    obtain ⟨raw, rfl, rfl⟩ := hyphenate_of_lowerChars sized same
    exact ⟨raw, rfl, .inr (unwrap_urn lowered _)⟩

theorem canonical?_eq_some {s u : String} :
    canonical? s = some u ↔ Hyphenated u.toList ∧ lowerChars s.toList ∈ forms u.toList := by
  simp only [canonical?, Option.map_eq_some_iff, digits?_eq_some, hyphenated_iff]
  constructor
  · rintro ⟨_, ⟨raw, rfl, sized, hex, read⟩, rfl⟩
    rw [String.toList_ofList]
    refine ⟨⟨lowerChars raw, ?_, lowerChars_of_hex hex, rfl⟩, forms_of_digits sized hex read⟩
    rw [length_lowerChars, sized]
  · rintro ⟨⟨digits, sized, lower, written⟩, form⟩
    rw [written] at form
    obtain ⟨raw, rfl, read⟩ := digits_of_forms sized lower form
    refine ⟨_, ⟨raw, rfl, ?_, hex_of_lowerChars lower, read⟩, ?_⟩
    · rw [← sized, length_lowerChars]
    · rw [← written, String.ofList_toList]

example : canonical? "URN:Uuid:67E55044-10B1-426F-9247-BB680E5FE0C8" =
    some "67e55044-10b1-426f-9247-bb680e5fe0c8" := by decide

end Uuid

end DocQuery
