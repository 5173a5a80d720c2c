import DocQuery.Operator.Suffix
import Mathlib.Data.List.Nodup

set_option autoImplicit false

namespace DocQuery

theorem splitLastUnderscore_append (field : List Char) {suffix : List Char} (whole : '_' ∉ suffix) :
    splitLastUnderscore (field ++ '_' :: suffix) = some (field, suffix) := by
  have plain : ∀ c ∈ suffix.reverse, (c != '_') = true := by
    intro c inside
    exact bne_iff_ne.mpr fun same => whole (same ▸ List.mem_reverse.mp inside)
  simp [splitLastUnderscore, List.takeWhile_append_of_pos plain, List.dropWhile_append_of_pos plain]

theorem splitLastUnderscore_eq_some {chars field suffix : List Char}
    (split : splitLastUnderscore chars = some (field, suffix)) :
    chars = field ++ '_' :: suffix := by
  unfold splitLastUnderscore at split
  split at split
  next => cases split
  next separator before rest =>
    cases split
    have stopped := List.head?_dropWhile_not (· != '_') chars.reverse
    simp only [rest, List.head?_cons, bne_eq_false_iff_eq] at stopped
    have whole := List.takeWhile_append_dropWhile (p := (· != '_')) (l := chars.reverse)
    rw [rest, stopped] at whole
    simpa using (congrArg List.reverse whole).symm

theorem find?_eq_some_of_distinct {α : Type} {table : List (String × α)}
    (distinct : (table.map (·.1)).Nodup) {name : String} {entry : String × α} :
    table.find? (·.1 == name) = some entry ↔ entry ∈ table ∧ entry.1 = name := by
  constructor
  · intro found
    exact ⟨List.mem_of_find?_eq_some found, by simpa using List.find?_some found⟩
  · rintro ⟨inside, rfl⟩
    have there : (table.find? (·.1 == entry.1)).isSome := by
      rw [List.find?_isSome]
      exact ⟨entry, inside, by simp⟩
    obtain ⟨other, found⟩ := Option.isSome_iff_exists.mp there
    have same : other.1 = entry.1 := by simpa using List.find?_some found
    rw [found, List.inj_on_of_nodup_map distinct (List.mem_of_find?_eq_some found) inside same]

namespace Operator

theorem suffixes_whole : ∀ entry ∈ suffixes, '_' ∉ entry.1.toList := by decide

theorem suffixes_distinct : (suffixes.map (·.1)).Nodup := by decide

theorem ofSuffix?_eq_some_iff {suffix : String} {op : Operator} :
    ofSuffix? suffix = some op ↔ (suffix, op) ∈ suffixes := by
  simp only [ofSuffix?, Option.map_eq_some_iff, find?_eq_some_of_distinct suffixes_distinct]
  constructor
  · rintro ⟨⟨_, _⟩, ⟨inside, rfl⟩, rfl⟩
    exact inside
  · intro inside
    exact ⟨(suffix, op), ⟨inside, rfl⟩, rfl⟩

theorem ofSuffix?_whole {suffix : String} {op : Operator} (found : ofSuffix? suffix = some op) :
    '_' ∉ suffix.toList :=
  suffixes_whole (suffix, op) (ofSuffix?_eq_some_iff.mp found)

end Operator

namespace SplitKey

theorem ofKey_suffixed {name suffix : String} {op : Operator} (filled : name ≠ "")
    (found : Operator.ofSuffix? suffix = some op) :
    ofKey (name ++ "_" ++ suffix) = ⟨name, some op⟩ := by
  have whole := Operator.ofSuffix?_whole found
  have chars : (name ++ "_" ++ suffix).toList = name.toList ++ '_' :: suffix.toList := by simp
  have nonempty : name.toList.isEmpty = false := by simpa using filled
  simp [ofKey, chars, splitLastUnderscore_append _ whole, found, nonempty]

theorem ofKey_cases (key : String) :
    ofKey key = ⟨key, none⟩ ∨
      ∃ name suffix op, name ≠ "" ∧ key = name ++ "_" ++ suffix ∧
        Operator.ofSuffix? suffix = some op ∧ ofKey key = ⟨name, some op⟩ := by
  cases split : splitLastUnderscore key.toList with
  | none => exact .inl (by simp [ofKey, split])
  | some parts =>
    obtain ⟨field, suffix⟩ := parts
    cases found : Operator.ofSuffix? (String.ofList suffix) with
    | none => exact .inl (by simp [ofKey, split, found])
    | some op =>
      by_cases empty : field = []
      · exact .inl (by simp [ofKey, split, found, empty])
      · have joined : key = String.ofList field ++ "_" ++ String.ofList suffix := by
          rw [← String.toList_inj]
          simpa using splitLastUnderscore_eq_some split
        have filled : String.ofList field ≠ "" := by simpa using empty
        refine .inr ⟨String.ofList field, String.ofList suffix, op, filled, joined, found, ?_⟩
        simp [ofKey, split, found, empty]

structure Composed (key field suffix : String) (op : Operator) : Prop where
  filled : field ≠ ""
  listed : (suffix, op) ∈ Operator.suffixes
  joined : key = field ++ "_" ++ suffix

variable {key field suffix : String} {op : Operator}

theorem Composed.ofKey_eq (composed : Composed key field suffix op) :
    ofKey key = ⟨field, some op⟩ := by
  rw [composed.joined]
  exact ofKey_suffixed composed.filled (Operator.ofSuffix?_eq_some_iff.mpr composed.listed)

theorem Composed.longest (composed : Composed key field suffix op) {before after : String}
    (split : key = before ++ "_" ++ after) : before.length ≤ field.length := by
  have whole := Operator.suffixes_whole _ composed.listed
  have chars : before.toList ++ '_' :: after.toList = field.toList ++ '_' :: suffix.toList := by
    simpa [← String.toList_inj] using split.symm.trans composed.joined
  rw [← String.length_toList, ← String.length_toList]
  rcases List.append_eq_append_iff.mp chars with ⟨more, longer, -⟩ | ⟨more, shorter, rest⟩
  · simp [longer]
  · cases more with
    | nil => simp [shorter]
    | cons c more =>
      obtain ⟨-, inside⟩ := List.cons.inj rest
      exact absurd (inside ▸ by simp) whole

theorem Composed.unique (composed : Composed key field suffix op) {other ending : String}
    {otherOp : Operator} (again : Composed key other ending otherOp) :
    other = field ∧ ending = suffix ∧ otherOp = op := by
  have same := again.ofKey_eq.symm.trans composed.ofKey_eq
  simp only [SplitKey.mk.injEq, Option.some.injEq] at same
  obtain ⟨rfl, rfl⟩ := same
  have ends := again.joined.symm.trans composed.joined
  exact ⟨rfl, by simpa [← String.toList_inj] using ends, rfl⟩

theorem composed_of_ofKey (taken : ofKey key = ⟨field, some op⟩) :
    ∃ suffix, Composed key field suffix op := by
  rcases ofKey_cases key with whole | ⟨name, suffix, named, filled, joined, found, split⟩
  · cases whole.symm.trans taken
  · cases split.symm.trans taken
    exact ⟨suffix, filled, Operator.ofSuffix?_eq_some_iff.mp found, joined⟩

/-- A key is put together from a field and an operator in at most one way, and no split of it at an
underscore leaves a longer field. It is taken apart in this way; any other key is a field as a
whole. -/
theorem ofKey_exact :
    (∀ key,
      (∀ field op, ofKey key = ⟨field, some op⟩ ↔ ∃ suffix, Composed key field suffix op) ∧
        (ofKey key = ⟨key, none⟩ ↔ ∀ field suffix op, ¬Composed key field suffix op) ∧
        ∀ field suffix op, Composed key field suffix op →
          (∀ other ending otherOp, Composed key other ending otherOp →
            other = field ∧ ending = suffix ∧ otherOp = op) ∧
          ∀ before after, key = before ++ "_" ++ after → before.length ≤ field.length) ∧
      ∀ field suffix op, field ≠ "" → (suffix, op) ∈ Operator.suffixes →
        ofKey (field ++ "_" ++ suffix) = ⟨field, some op⟩ := by
  refine ⟨fun key => ⟨fun field op => ⟨composed_of_ofKey, ?split⟩, ⟨?uncomposed, ?whole⟩, ?one⟩,
    fun field suffix op filled listed => Composed.ofKey_eq ⟨filled, listed, rfl⟩⟩
  case split =>
    rintro ⟨suffix, composed⟩
    exact composed.ofKey_eq
  case uncomposed =>
    intro whole field suffix op composed
    cases whole.symm.trans composed.ofKey_eq
  case whole =>
    intro uncomposed
    rcases ofKey_cases key with whole | ⟨name, suffix, op, filled, joined, found, -⟩
    · exact whole
    · exact absurd ⟨filled, Operator.ofSuffix?_eq_some_iff.mp found, joined⟩
        (uncomposed name suffix op)
  case one =>
    intro field suffix op composed
    exact ⟨fun _ _ _ => composed.unique, fun _ _ => composed.longest⟩

theorem stockKey_exact :
    Composed "stock_not_in" "stock_not" "in" .oneOf ∧
      ofKey "stock_not_in" = ⟨"stock_not", some .oneOf⟩ ∧
      ∀ before after, "stock_not_in" = before ++ "_" ++ after → before.length ≤ 9 := by
  have composed : Composed "stock_not_in" "stock_not" "in" .oneOf :=
    ⟨by decide, by decide, by decide⟩
  obtain ⟨split, -, one⟩ := ofKey_exact.1 "stock_not_in"
  exact ⟨composed, (split _ _).mpr ⟨"in", composed⟩, (one _ _ _ composed).2⟩

end SplitKey

end DocQuery
