import DocQuery.Plan
import DocQuery.Proofs.Members
import DocQuery.Proofs.Pivot
import Mathlib.Data.List.Induction
import Mathlib.Data.Int.Order.Basic
import Mathlib.Order.Compare

set_option autoImplicit false

namespace DocQuery

namespace Fields

theorem filter_insert (fields : Fields) (key other : String) (value : Json) :
    (fields.insert key value).filter (·.1 ≠ other) =
      if key = other then fields.filter (·.1 ≠ other)
      else Fields.insert (fields.filter (·.1 ≠ other)) key value := by
  induction fields with
  | nil => by_cases same : key = other <;> simp [insert, same]
  | cons member rest ih =>
    obtain ⟨k, v⟩ := member
    by_cases here : k = key
    · subst here
      by_cases same : k = other <;> simp [insert, same]
    · by_cases same : key = other
      · subst same
        simpa [insert, here] using ih
      · by_cases dropped : k = other <;> simp_all [insert]

theorem ofList_cons (key : String) (value : Json) (rest : List (String × Json)) :
    ofList ((key, value) :: rest) =
      (key, ((ofList rest).get? key).getD value) :: (ofList rest).filter (·.1 ≠ key) := by
  induction rest using List.reverseRecOn with
  | nil => rfl
  | append_singleton rest last ih =>
    rw [← List.cons_append, ofList_snoc, ofList_snoc, ih, get?_insert, filter_insert]
    by_cases same : last.1 = key
    · simp [insert, same]
    · simp [insert, same, Ne.symm same]

end Fields

namespace SortKey

def member (k : SortKey) : String × Json := (k.field, .int k.direction.native)

def directionAt (keys : List SortKey) (field : String) : Option SortDirection :=
  (keys.find? (·.field = field)).map (·.direction)

def settled : List SortKey → List SortKey
  | [] => []
  | k :: rest =>
    ⟨k.field, (directionAt (settled rest) k.field).getD k.direction⟩ ::
      (settled rest).filter (·.field ≠ k.field)

variable {k : SortKey} {keys rest : List SortKey} {field : String}

theorem directionAt_cons :
    directionAt (k :: rest) field =
      if k.field = field then some k.direction else directionAt rest field := by
  by_cases same : k.field = field <;> simp [directionAt, same]

theorem directionAt_append (keys others : List SortKey) :
    directionAt (keys ++ others) field = (directionAt keys field).or (directionAt others field) := by
  simp [directionAt, Option.map_or]

theorem directionAt_filter {other : String} (kept : field ≠ other) :
    directionAt (keys.filter (·.field ≠ other)) field = directionAt keys field := by
  induction keys with
  | nil => rfl
  | cons k rest ih =>
    by_cases dropped : k.field = other
    · simp [directionAt_cons, dropped, Ne.symm kept, ← ih]
    · simp [directionAt_cons, dropped, ← ih]

theorem get?_members : Fields.get? (keys.map member) field =
    (directionAt keys field).map fun direction => .int direction.native := by
  induction keys with
  | nil => rfl
  | cons k rest ih =>
    rw [List.map_cons, member, Fields.get?, ih, directionAt_cons]
    split <;> rfl

theorem document_eq (keys : List SortKey) : document keys = (settled keys).map member := by
  induction keys with
  | nil => rfl
  | cons k rest ih =>
    have cons : document (k :: rest) = (k.field, ((document rest).get? k.field).getD
        (.int k.direction.native)) :: (document rest).filter (·.1 ≠ k.field) :=
      Fields.ofList_cons _ _ _
    rw [cons, ih, get?_members, settled, List.map_cons, List.filter_map]
    congr 1
    cases directionAt (settled rest) k.field <;> rfl

theorem directionAt_settled (keys : List SortKey) (field : String) :
    directionAt (settled keys) field = directionAt keys.reverse field := by
  induction keys with
  | nil => rfl
  | cons k rest ih =>
    rw [settled, directionAt_cons, List.reverse_cons, directionAt_append, ← ih]
    dsimp only
    split
    next same =>
      subst same
      cases directionAt (settled rest) k.field <;> simp [directionAt]
    next other =>
      rw [directionAt_filter (Ne.symm other)]
      simp [directionAt, other]

section

variable {Doc V : Type} [LinearOrder V] (value : Doc → String → V)

def compareAt (k : SortKey) (first second : Doc) : Ordering :=
  match k.direction with
  | .ascending => compare (value first k.field) (value second k.field)
  | .descending => compare (value second k.field) (value first k.field)

def compareBy : List SortKey → Doc → Doc → Ordering
  | [], _, _ => .eq
  | k :: rest, first, second => (k.compareAt value first second).then (compareBy rest first second)

variable {value} {first second : Doc}

theorem compareAt_eq_eq :
    k.compareAt value first second = .eq ↔ value first k.field = value second k.field := by
  unfold compareAt
  cases k.direction with
  | ascending => exact compare_eq_iff_eq
  | descending => exact compare_eq_iff_eq.trans eq_comm

theorem compareBy_filter {field : String} (tied : value first field = value second field)
    (keys : List SortKey) :
    compareBy value (keys.filter (·.field ≠ field)) first second =
      compareBy value keys first second := by
  induction keys with
  | nil => rfl
  | cons k rest ih =>
    by_cases dropped : k.field = field
    · have tie : k.compareAt value first second = .eq := compareAt_eq_eq.mpr (dropped ▸ tied)
      simp [dropped, compareBy, tie, ← ih]
    · simp [dropped, compareBy, ← ih]

-- A key that ties is passed over in both lists. One that does not decides in both, and is then the
-- first on its field.
theorem compareBy_settled (keys : List SortKey)
    (same : ∀ field, value first field = value second field ∨
      directionAt (settled keys) field = directionAt keys field) :
    compareBy value (settled keys) first second = compareBy value keys first second := by
  induction keys with
  | nil => rfl
  | cons k rest ih =>
    by_cases tied : value first k.field = value second k.field
    · have tie (direction : SortDirection) :
          compareAt value ⟨k.field, direction⟩ first second = .eq := compareAt_eq_eq.mpr tied
      have below := ih fun field => ?_
      · rw [settled, compareBy, tie, compareBy, tie k.direction]
        exact (compareBy_filter tied _).trans below
      · by_cases here : k.field = field
        · exact .inl (here ▸ tied)
        · refine (same field).imp_right fun agree => ?_
          rwa [settled, directionAt_cons, if_neg here, directionAt_cons, if_neg here,
            directionAt_filter (Ne.symm here)] at agree
    · have agree := (same k.field).resolve_left tied
      rw [settled, directionAt_cons, directionAt_cons, if_pos rfl, if_pos rfl] at agree
      have unchanged : (directionAt (settled rest) k.field).getD k.direction = k.direction :=
        Option.some.inj agree
      rw [settled, compareBy, compareBy, unchanged]
      cases decision : k.compareAt value first second with
      | eq => exact absurd (compareAt_eq_eq.mp decision) tied
      | lt => rfl
      | gt => rfl

def byOneField (field : String) (document : Int) (other : String) : Int :=
  if other = field then document else 0

def verdict : Option SortDirection → Ordering
  | none => .eq
  | some .ascending => .lt
  | some .descending => .gt

theorem verdict_inj {way other : Option SortDirection} (same : verdict way = verdict other) :
    way = other := by
  rcases way with _ | _ | _ <;> rcases other with _ | _ | _ <;> first | rfl | cases same

theorem compareBy_oneField (keys : List SortKey) :
    compareBy (byOneField field) keys 0 1 = verdict (directionAt keys field) := by
  induction keys with
  | nil => rfl
  | cons k rest ih =>
    rw [compareBy, ih, directionAt_cons, compareAt]
    by_cases here : k.field = field
    · have apart : compare (0 : Int) 1 = .lt ∧ compare (1 : Int) 0 = .gt := by decide
      rw [if_pos here, here]
      cases k.direction <;> simp [byOneField, verdict, apart]
    · cases k.direction <;> simp [here, byOneField]

end

def Steady (keys : List SortKey) : Prop :=
  ∀ field, directionAt keys field = directionAt keys.reverse field

theorem compareBy_settled_iff (keys : List SortKey) :
    (∀ (Doc V : Type) [LinearOrder V] (value : Doc → String → V) (first second : Doc),
      compareBy value (settled keys) first second = compareBy value keys first second) ↔
      Steady keys := by
  constructor
  · intro same field
    have apart := same Int Int (byOneField field) 0 1
    rw [compareBy_oneField, compareBy_oneField, directionAt_settled] at apart
    exact (verdict_inj apart).symm
  · intro steady Doc V _ value first second
    refine compareBy_settled keys fun field => .inr ?_
    rw [directionAt_settled, steady field]

end SortKey

def SortDirection.ofNative? : Json → Option SortDirection
  | .num (.int i) => if i = 1 then some ascending else if i = -1 then some descending else none
  | _ => none

def Json.sortKeys? (rendered : Json) : Option (List SortKey) :=
  rendered.object?.bind fun members =>
    members.mapM fun member => (SortDirection.ofNative? member.2).map (⟨member.1, ·⟩)

theorem Json.sortKeys?_members (keys : List SortKey) :
    sortKeys? (.obj (keys.map SortKey.member)) = some keys := by
  have read (k : SortKey) : ((SortDirection.ofNative? k.member.2).map fun direction =>
      (⟨k.member.1, direction⟩ : SortKey)) = some k := by
    obtain ⟨field, direction⟩ := k
    cases direction <;> rfl
  induction keys with
  | nil => rfl
  | cons k rest ih =>
    have below : (rest.map SortKey.member).mapM (fun member =>
        (SortDirection.ofNative? member.2).map (⟨member.1, ·⟩)) = some rest := ih
    simp [sortKeys?, object?, read, below]

/-- Both ways of rendering a sort read back as one list of keys. It orders documents as the given
list does, however their fields are read and their values ordered, exactly if no field is given one
direction first and another last. -/
theorem SortKey.rendering_keeps_order_iff (keys : List SortKey) (request : FindRequest) :
    ∃ read : List SortKey,
      ((Stage.sort keys).document.member? "$sort").bind Json.sortKeys? = some read ∧
      (({ request with sort := keys } : FindRequest).toJson.member? "sort").bind Json.sortKeys? =
        some read ∧
      ((∀ (Doc V : Type) [LinearOrder V] (value : Doc → String → V) (first second : Doc),
        compareBy value read first second = compareBy value keys first second) ↔ Steady keys) := by
  have read : Json.sortKeys? (.obj (document keys)) = some (settled keys) := by
    rw [document_eq, Json.sortKeys?_members]
  exact ⟨settled keys, read, read, compareBy_settled_iff keys⟩

namespace SortKey

def echoedSort (last : SortDirection) : List SortKey :=
  [⟨"a", .ascending⟩, ⟨"b", .ascending⟩, ⟨"a", last⟩]

theorem echoedSort_keeps_order :
    ∃ read : List SortKey,
      ((Stage.sort (echoedSort .ascending)).document.member? "$sort").bind Json.sortKeys? =
        some read ∧
      ∀ (Doc V : Type) [LinearOrder V] (value : Doc → String → V) (first second : Doc),
        compareBy value read first second =
          compareBy value (echoedSort .ascending) first second := by
  have steady : Steady (echoedSort .ascending) := fun _ => rfl
  obtain ⟨read, rendered, -, same⟩ :=
    rendering_keeps_order_iff (echoedSort .ascending) ⟨"Post", [], [], none, none⟩
  exact ⟨read, rendered, same.mpr steady⟩

def integerAt (document : Json) (field : String) : Int :=
  match document.valueAt? field with
  | some (.num (.int i)) => i
  | _ => 0

-- The first key, rendered with the direction of the last, turns the order around.
theorem echoedSort_turns_order :
    ((Stage.sort (echoedSort .descending)).document.member? "$sort").bind Json.sortKeys? =
        some [⟨"a", .descending⟩, ⟨"b", .ascending⟩] ∧
      ((FindRequest.toJson ⟨"Post", [], echoedSort .descending, none, none⟩).member? "sort").bind
        Json.sortKeys? = some [⟨"a", .descending⟩, ⟨"b", .ascending⟩] ∧
      compareBy integerAt (echoedSort .descending) (.obj [("a", .int 1)]) (.obj [("a", .int 2)]) =
        .lt ∧
      compareBy integerAt [⟨"a", .descending⟩, ⟨"b", .ascending⟩]
        (.obj [("a", .int 1)]) (.obj [("a", .int 2)]) = .gt :=
  ⟨rfl, rfl, by decide, by decide⟩

end SortKey

end DocQuery
