import DocQuery.Proofs.DirectRead
import DocQuery.Proofs.DocumentOrder
import DocQuery.Proofs.Paths

set_option autoImplicit false

namespace DocQuery

theorem Json.isObject_of_valueAt? {document value : Json} {path : String}
    (found : document.valueAt? path = some value) : document.isObject = true := by
  obtain ⟨key, rest, split⟩ := List.exists_cons_of_ne_nil (Text.segments_ne_nil '.' path)
  cases document <;> simp_all [valueAt?, under?, member?, object?, isObject]

def PageArgs.onSide (args : PageArgs) (side : PageSide) (token : Json) : PageArgs :=
  match side with
  | .after => { args with last := none, after := some token, before := none }
  | .before => { args with last := none, after := none, before := some token }

namespace Window

def decisiveKeys (primaryKey : String) (orderBy : List SortKey) : List SortKey :=
  if orderBy.isEmpty then [⟨primaryKey, .ascending⟩] else orderBy

theorem decisiveKeys_ne_nil (primaryKey : String) (orderBy : List SortKey) :
    decisiveKeys primaryKey orderBy ≠ [] := by
  cases orderBy <;> simp [decisiveKeys]

def HasValues (keys : List SortKey) (document : Json) : Prop :=
  ∀ k ∈ keys, ∃ value, document.valueAt? k.field = some value

variable {primaryKey : String} {orderBy : List SortKey} {pivot : Json}

theorem pivotMatchFor_of_values (complete : HasValues (decisiveKeys primaryKey orderBy) pivot)
    (side : PageSide) :
    pivotMatchFor primaryKey side orderBy pivot =
      .ok (orderMatch side pivot (decisiveKeys primaryKey orderBy)) := by
  cases orderBy with
  | nil =>
    obtain ⟨value, found⟩ := complete ⟨primaryKey, .ascending⟩ List.mem_cons_self
    have object := Json.isObject_of_valueAt? found
    simp [pivotMatchFor, object, found, decisiveKeys, orderMatch, Predicate.merge, Fields.get?,
      Fields.insert]
  | cons k rest =>
    obtain ⟨value, found⟩ := complete k List.mem_cons_self
    have object := Json.isObject_of_valueAt? found
    simp [pivotMatchFor, object, decisiveKeys]

theorem ofArgs_onSide {args : PageArgs}
    (complete : HasValues (decisiveKeys primaryKey args.orderBy) pivot) (side : PageSide)
    (token : Json) :
    ofArgs primaryKey (args.onSide side token) (some pivot) =
      .ok { pivotMatch := orderMatch side pivot (decisiveKeys primaryKey args.orderBy),
            sort := args.orderBy, skip := args.skip.filter (0 < ·), limit := args.first } := by
  have matched := pivotMatchFor_of_values complete side
  cases side <;>
    simp [ofArgs, PageArgs.onSide, validate, pivotMatchOf, PageArgs.pivotToken?, matched]

theorem keys_pivotClauses_sublist (side : PageSide) (pivot : Json) (orderBy : List SortKey) :
    (pivotClauses side pivot orderBy).keys.Sublist (orderBy.map (·.field)) := by
  induction orderBy with
  | nil => exact .slnil
  | cons k rest ih =>
    cases found : pivot.valueAt? k.field with
    | none => simpa [pivotClauses, found] using ih.cons k.field
    | some value => simpa [pivotClauses, found, Fields.keys] using ih

section

variable [LinearOrder Json]

theorem comparison_passes {k : SortKey} {value : Json} (found : pivot.valueAt? k.field = some value)
    (side : PageSide) (document : Json) :
    Predicate.memberHolds document.passes k.field (comparison k.direction side value) = true ↔
      side.Across k.Before pivot document := by
  have tests : Test.ofValue (comparison k.direction side value) =
      [.operator (comparator k.direction side) value] := by
    refine (Operator.reads_clause value ?_ ?_).1 <;> cases k.direction <;> cases side <;> decide
  rw [comparison, Predicate.memberHolds_object, ← comparison, tests]
  simpa [Test.allHold] using Json.passes_comparator found side document

theorem pivotClauses_hold (complete : HasValues orderBy pivot) (side : PageSide) (document : Json) :
    Predicate.holds document.passes (pivotClauses side pivot orderBy) = true ↔
      ∀ k ∈ orderBy, side.Across k.Before pivot document := by
  induction orderBy with
  | nil => simp [pivotClauses, Predicate.holds]
  | cons k rest ih =>
    obtain ⟨⟨value, found⟩, others⟩ := List.forall_mem_cons.mp complete
    have head := comparison_passes found side document
    have tail := ih others
    simp only [pivotClauses] at tail
    simp [pivotClauses, found, Predicate.holds, head, tail]

theorem satisfies_of_distinct (distinct : (orderBy.map (·.field)).Nodup)
    (complete : HasValues orderBy pivot) (side : PageSide) (document : Json) :
    document.Satisfies (orderMatch side pivot orderBy) ↔
      ∀ k ∈ orderBy, side.Across k.Before pivot document := by
  have apart := distinct.sublist (keys_pivotClauses_sublist side pivot orderBy)
  rw [Json.Satisfies, orderMatch_eq, Predicate.mergeAll_of_fresh apart fun _ _ => rfl,
    List.nil_append, pivotClauses_hold complete]

theorem satisfies_of_named (named : ∀ k ∈ orderBy, Predicate.isOperatorKey k.field = false)
    (complete : HasValues orderBy pivot) (side : PageSide) (document : Json) :
    document.Satisfies (orderMatch side pivot orderBy) ↔
      ∀ k ∈ orderBy, side.Across k.Before pivot document := by
  have regular := pivotClauses_regular named side pivot
  rw [Json.Satisfies, orderMatch_eq,
    Predicate.holds_mergeAll _ Predicate.receives_patternless Predicate.regular_nil regular]
  simpa [Predicate.holds] using pivotClauses_hold complete side document

theorem decisiveKeys_satisfies (named : ∀ k ∈ orderBy, Predicate.isOperatorKey k.field = false)
    (complete : HasValues (decisiveKeys primaryKey orderBy) pivot) (side : PageSide)
    (document : Json) :
    document.Satisfies (orderMatch side pivot (decisiveKeys primaryKey orderBy)) ↔
      ∀ k ∈ decisiveKeys primaryKey orderBy, side.Across k.Before pivot document := by
  cases orderBy with
  | nil => exact satisfies_of_distinct (by simp [decisiveKeys]) complete side document
  | cons k rest => exact satisfies_of_named named complete side document

theorem sortsBefore_of_beyond {keys : List SortKey} (nonempty : keys ≠ []) {side : PageSide}
    {document : Json} (beyond : ∀ k ∈ keys, side.Across k.Before pivot document) :
    side.Across (SortsBefore keys) pivot document := by
  cases keys with
  | nil => exact absurd rfl nonempty
  | cons k rest =>
    have first := beyond k List.mem_cons_self
    cases side <;> exact .inl first

-- A document beyond the pivot at every key is what the page holds. With a single key that is every
-- document that sorts beyond the pivot; with more, a tie at one key is enough to be left out.
theorem pivotMatch_iff_beyond (primaryKey : String) (args : PageArgs) (side : PageSide)
    (token : Json) (ordered : args.orderBy ≠ []) (distinct : (args.orderBy.map (·.field)).Nodup)
    {pivot : Json} (complete : HasValues args.orderBy pivot) :
    ∃ w, ofArgs primaryKey (args.onSide side token) (some pivot) = .ok w ∧ ∀ document : Json,
      (document.Satisfies w.pivotMatch ↔ ∀ k ∈ args.orderBy, side.Across k.Before pivot document) ∧
      (args.orderBy.length = 1 → side.Across (SortsBefore args.orderBy) pivot document →
        document.Satisfies w.pivotMatch) := by
  have decisive : decisiveKeys primaryKey args.orderBy = args.orderBy := by
    simp [decisiveKeys, ordered]
  have valued : HasValues (decisiveKeys primaryKey args.orderBy) pivot := by
    rw [decisive]
    exact complete
  refine ⟨_, ofArgs_onSide valued side token, fun document => ?_⟩
  have exact := satisfies_of_distinct distinct complete side document
  rw [decisive]
  refine ⟨exact, ?_⟩
  intro single sorts
  obtain ⟨k, only⟩ := List.length_eq_one_iff.mp single
  rw [only] at sorts
  refine exact.mpr ?_
  rw [only, List.forall_mem_singleton]
  cases side <;> exact sortsBefore_single.mp sorts

end

def rankedPage : PageArgs where
  first := some 10
  orderBy := [⟨"rank", .descending⟩, ⟨"age", .ascending⟩]

def ranked (rank age : Int) : Json := .obj [("_id", .int 1), ("rank", .int rank), ("age", .int age)]

theorem ranked_hasValues (rank age : Int) : HasValues rankedPage.orderBy (ranked rank age) := by
  refine List.forall_mem_cons.mpr ⟨⟨.int rank, rfl⟩, ?_⟩
  exact List.forall_mem_singleton.mpr ⟨.int age, rfl⟩

theorem ranked_before_rank {rank lower : Int} (falls : lower < rank) (age age' : Int) :
    letI := Json.integerOrder
    SortKey.Before ⟨"rank", .descending⟩ (ranked rank age) (ranked lower age') :=
  ⟨.int rank, .int lower, rfl, rfl, Json.integerOrder_lt falls⟩

theorem ranked_before_age {age older : Int} (rises : age < older) (rank rank' : Int) :
    letI := Json.integerOrder
    SortKey.Before ⟨"age", .ascending⟩ (ranked rank age) (ranked rank' older) :=
  ⟨.int age, .int older, rfl, rfl, Json.integerOrder_lt rises⟩

-- Whoever has a lower rank sorts after the pivot, but is left out unless older as well.
theorem rankedPage_loses_document :
    letI := Json.integerOrder
    rankedPage.orderBy ≠ [] ∧ (rankedPage.orderBy.map (·.field)).Nodup ∧
      HasValues rankedPage.orderBy (ranked 5 30) ∧ HasValues rankedPage.orderBy (ranked 4 20) ∧
      SortsBefore rankedPage.orderBy (ranked 5 30) (ranked 4 20) ∧
      ∃ w, ofArgs "_id" (rankedPage.onSide .after (.int 1)) (some (ranked 5 30)) = .ok w ∧
        ¬ (ranked 4 20).Satisfies w.pivotMatch := by
  let := Json.integerOrder
  have sorts : SortsBefore rankedPage.orderBy (ranked 5 30) (ranked 4 20) :=
    .inl (ranked_before_rank (by decide) 30 20)
  refine ⟨by decide, by decide, ranked_hasValues 5 30, ranked_hasValues 4 20, sorts, _, rfl, ?_⟩
  intro satisfied
  have beyond := (satisfies_of_distinct (by decide) (ranked_hasValues 5 30) .after (ranked 4 20)).mp
    satisfied
  have older : SortKey.Before ⟨"age", .ascending⟩ (ranked 5 30) (ranked 4 20) :=
    beyond _ (by decide)
  exact SortKey.Before.asymm older (ranked_before_age (by decide) 4 5)

theorem rankedPage_beyond :
    letI := Json.integerOrder
    rankedPage.orderBy ≠ [] ∧ (rankedPage.orderBy.map (·.field)).Nodup ∧
      HasValues rankedPage.orderBy (ranked 5 30) ∧
      ∃ w, ofArgs "_id" (rankedPage.onSide .after (.int 1)) (some (ranked 5 30)) = .ok w ∧
        (ranked 4 40).Satisfies w.pivotMatch := by
  let := Json.integerOrder
  refine ⟨by decide, by decide, ranked_hasValues 5 30, ?_⟩
  obtain ⟨w, accepted, exact⟩ := pivotMatch_iff_beyond "_id" rankedPage .after (.int 1)
    (by decide) (by decide) (ranked_hasValues 5 30)
  refine ⟨w, accepted, (exact (ranked 4 40)).1.mpr ?_⟩
  refine List.forall_mem_cons.mpr ⟨ranked_before_rank (by decide) 30 40, ?_⟩
  exact List.forall_mem_singleton.mpr (ranked_before_age (by decide) 5 4)

theorem pivotMatch_keeps_side [LinearOrder Json] (primaryKey : String) (args : PageArgs) (token : Json)
    (named : ∀ k ∈ args.orderBy, Predicate.isOperatorKey k.field = false) {pivot : Json}
    (complete : HasValues (decisiveKeys primaryKey args.orderBy) pivot) :
    ∃ after before,
      ofArgs primaryKey (args.onSide .after token) (some pivot) = .ok after ∧
      ofArgs primaryKey (args.onSide .before token) (some pivot) = .ok before ∧
      (∀ document : Json,
        (document.Satisfies after.pivotMatch →
          SortsBefore (decisiveKeys primaryKey args.orderBy) pivot document) ∧
        (document.Satisfies before.pivotMatch →
          SortsBefore (decisiveKeys primaryKey args.orderBy) document pivot) ∧
        ¬ (document.Satisfies after.pivotMatch ∧ document.Satisfies before.pivotMatch)) ∧
      ¬ pivot.Satisfies after.pivotMatch ∧ ¬ pivot.Satisfies before.pivotMatch := by
  have sorted (side : PageSide) (document : Json) (satisfied : document.Satisfies
      (orderMatch side pivot (decisiveKeys primaryKey args.orderBy))) :
      side.Across (SortsBefore (decisiveKeys primaryKey args.orderBy)) pivot document :=
    sortsBefore_of_beyond (decisiveKeys_ne_nil primaryKey args.orderBy)
      ((decisiveKeys_satisfies named complete side document).mp satisfied)
  refine ⟨_, _, ofArgs_onSide complete .after token, ofArgs_onSide complete .before token, ?_, ?_, ?_⟩
  · intro document
    refine ⟨sorted .after document, sorted .before document, ?_⟩
    rintro ⟨later, earlier⟩
    exact SortsBefore.asymm (sorted .after document later) (sorted .before document earlier)
  · intro satisfied
    have itself := sorted .after pivot satisfied
    exact SortsBefore.asymm itself itself
  · intro satisfied
    have itself := sorted .before pivot satisfied
    exact SortsBefore.asymm itself itself

def repeatedPage : PageArgs where
  orderBy := rankedPage.orderBy ++ [⟨"rank", .descending⟩]

theorem repeatedPage_keeps_side :
    letI := Json.integerOrder
    (∀ k ∈ repeatedPage.orderBy, Predicate.isOperatorKey k.field = false) ∧
      HasValues (decisiveKeys "_id" repeatedPage.orderBy) (ranked 5 30) ∧
      ∃ after, ofArgs "_id" (repeatedPage.onSide .after (.int 1)) (some (ranked 5 30)) = .ok after ∧
        (ranked 4 40).Satisfies after.pivotMatch ∧
        SortsBefore (decisiveKeys "_id" repeatedPage.orderBy) (ranked 5 30) (ranked 4 40) ∧
        ¬ (ranked 5 30).Satisfies after.pivotMatch := by
  let := Json.integerOrder
  have named : ∀ k ∈ repeatedPage.orderBy, Predicate.isOperatorKey k.field = false := by decide
  have complete : HasValues (decisiveKeys "_id" repeatedPage.orderBy) (ranked 5 30) :=
    List.forall_mem_append.mpr
      ⟨ranked_hasValues 5 30, List.forall_mem_singleton.mpr ⟨.int 5, rfl⟩⟩
  obtain ⟨after, before, accepted, -, each, itself, -⟩ :=
    pivotMatch_keeps_side "_id" repeatedPage (.int 1) named complete
  have satisfied : (ranked 4 40).Satisfies after.pivotMatch := by
    cases accepted.symm.trans (ofArgs_onSide complete .after (.int 1))
    refine (decisiveKeys_satisfies named complete .after (ranked 4 40)).mpr ?_
    have rank : SortKey.Before ⟨"rank", .descending⟩ (ranked 5 30) (ranked 4 40) :=
      ranked_before_rank (by decide) 30 40
    have age : SortKey.Before ⟨"age", .ascending⟩ (ranked 5 30) (ranked 4 40) :=
      ranked_before_age (by decide) 5 4
    exact List.forall_mem_append.mpr
      ⟨List.forall_mem_cons.mpr ⟨rank, List.forall_mem_singleton.mpr age⟩,
        List.forall_mem_singleton.mpr rank⟩
  exact ⟨named, complete, after, accepted, satisfied, (each (ranked 4 40)).1 satisfied, itself⟩

end Window

end DocQuery
