import DocQuery.Proofs.KeyTexts

set_option autoImplicit false

namespace DocQuery

open List (Forall₂)

namespace Json

def elements : Json → List Json
  | .arr items => items
  | value => [value]

theorem elements_of_plain {value : Json} (plain : value.array? = none) :
    value.elements = [value] := by
  cases value <;> first | rfl | cases plain

inductive Elementwise (related : Json → Json → Prop) : Json → Json → Prop
  | list {items others : List Json} (each : Forall₂ related items others) :
      Elementwise related (.arr items) (.arr others)
  | single {value other : Json} (plain : value.array? = none) (made : other.array? = none)
      (one : related value other) : Elementwise related value other

variable {related : Json → Json → Prop} {value other : Json}

theorem Elementwise.elements (each : Elementwise related value other) :
    Forall₂ related value.elements other.elements := by
  cases each with
  | list each => exact each
  | single plain made one =>
    rw [elements_of_plain plain, elements_of_plain made]
    exact .cons one .nil

theorem Elementwise.refl (each : ∀ element ∈ value.elements, related element element) :
    Elementwise related value value := by
  cases plain : value.array? with
  | none =>
    rw [elements_of_plain plain, List.forall_mem_singleton] at each
    exact .single plain plain each
  | some items =>
    cases value <;> cases plain
    exact .list (List.forall₂_same.mpr each)

theorem Elementwise.forall_iff {p q : Json → Prop} (each : Elementwise related value other)
    (same : ∀ {value other : Json}, related value other → (p other ↔ q value)) :
    (∀ element ∈ other.elements, p element) ↔ ∀ element ∈ value.elements, q element := by
  have pairs := each.elements
  generalize value.elements = given, other.elements = made at pairs
  induction pairs with
  | nil => simp
  | cons one _ ih => simp [same one, ih]

end Json

namespace KeyType

variable {type : KeyType} {field : String} {value key : Json}

inductive Canonical : KeyType → Json → Prop
  | text (s : String) : Canonical .string (.str s)
  | integer {i : Int} (low : Number.minInt64 ≤ i) (high : i ≤ Number.maxInt64) :
      Canonical .int (.int i)
  | uuid {s : String} (hyphenated : Uuid.Hyphenated s.toList) : Canonical .uuid (.str s)
  | objectId {s : String} (length : s.toList.length = 24)
      (lower : ∀ c ∈ s.toList, c ∈ Text.lowerHexDigits) :
      Canonical .objectId (.obj [("$oid", .str s)])

inductive Spells : KeyType → Json → Json → Prop
  | text (s : String) : Spells .string (.str s) (.str s)
  | number (n : Number) : Spells .string (.num n) (.str n.text)
  | integer (i : Int) : Spells .int (.int i) (.int i)
  | decimal {s : String} {body : List Char} {i : Int} (padded : Text.Padded body s.toList)
      (decimal : Decimal body i) : Spells .int (.str s) (.int i)
  | uuid {s u : String} (form : Text.lowerAsciiChars s ∈ Uuid.forms u.toList) :
      Spells .uuid (.str s) (.str u)
  | hex {s id : String} (same : Text.lowerAsciiChars s = id.toList) :
      Spells .objectId (.str s) (.obj [("$oid", .str id)])

inductive Leaves : KeyType → Json → Json → Prop
  | key {type : KeyType} {value key : Json} (canonical : Canonical type key)
      (spelled : Spells type value key) : Leaves type value key
  | object (id : Json) : Leaves .objectId (.obj [("$oid", id)]) (.obj [("$oid", id)])

theorem coerceString_eq_ok : coerceString field value = .ok key ↔ Leaves .string value key := by
  constructor
  · intro made
    unfold coerceString at made
    split at made
    next s =>
      cases made
      exact .key (.text s) (.text s)
    next n =>
      cases made
      exact .key (.text n.text) (.number n)
    next => cases made
  · rintro (⟨-, spelled⟩ | -)
    cases spelled <;> rfl

theorem asInt64?_isSome {n : Number} (fits : n.asInt64?.isSome = true) :
    ∃ i, n = .int i ∧ Number.minInt64 ≤ i ∧ i ≤ Number.maxInt64 := by
  cases n with
  | int i =>
    obtain ⟨same, bounds⟩ := asInt64?_int.mp (Option.some_get fits).symm
    exact ⟨i, rfl, same ▸ bounds⟩
  | real _ => cases fits

theorem coerceInt_eq_ok : coerceInt field value = .ok key ↔ Leaves .int value key := by
  constructor
  · intro made
    unfold coerceInt at made
    split at made
    next n =>
      split at made
      next fits =>
        cases made
        obtain ⟨i, rfl, low, high⟩ := asInt64?_isSome fits
        exact .key (.integer low high) (.integer i)
      next => cases made
    next s =>
      split at made
      next i read =>
        cases made
        obtain ⟨decimal, low, high⟩ := integerText?_eq_some.mp read
        exact .key (.integer low high) (.decimal (Text.padded_trimChars _) decimal)
      next => cases made
    next => cases made
  · rintro (⟨canonical, spelled⟩ | -)
    cases canonical with
    | integer low high =>
      cases spelled with
      | integer i =>
        have fits := asInt64?_int.mpr ⟨rfl, low, high⟩
        simp [coerceInt, Json.int, fits]
      | decimal padded decimal =>
        have trimmed := Text.trimChars_of_padded decimal.filled decimal.unblank padded
        have read := integerText?_eq_some.mpr ⟨decimal, low, high⟩
        simp [coerceInt, trimmed, read]

theorem coerceUuid_eq_ok : coerceUuid field value = .ok key ↔ Leaves .uuid value key := by
  constructor
  · intro made
    unfold coerceUuid at made
    split at made
    next s =>
      split at made
      next u read =>
        cases made
        obtain ⟨hyphenated, form⟩ := Uuid.canonical?_eq_some.mp read
        exact .key (.uuid hyphenated) (.uuid form)
      next => cases made
    next => cases made
  · rintro (⟨canonical, spelled⟩ | -)
    cases canonical with
    | uuid hyphenated =>
      cases spelled with
      | uuid form => simp [coerceUuid, Uuid.canonical?_eq_some.mpr ⟨hyphenated, form⟩]

theorem isObjectIdText_iff {s : String} :
    isObjectIdText s = true ↔ (Text.lowerAsciiChars s).length = 24 ∧
      ∀ c ∈ Text.lowerAsciiChars s, c ∈ Text.lowerHexDigits := by
  simp [isObjectIdText, Text.lowerAsciiChars, Text.isHexDigit_iff]

theorem objectIdOf_eq {s : String} :
    objectIdOf s = key ↔
      ∃ id : String, Text.lowerAsciiChars s = id.toList ∧ key = .obj [("$oid", .str id)] := by
  constructor
  · rintro rfl
    exact ⟨_, String.toList_ofList.symm, rfl⟩
  · rintro ⟨id, same, rfl⟩
    have text : String.ofList (Text.lowerAsciiChars s) = id := by rw [same, String.ofList_toList]
    rw [← text]
    rfl

theorem coerceObjectId_eq_ok :
    coerceObjectId field value = .ok key ↔ Leaves .objectId value key := by
  constructor
  · intro made
    unfold coerceObjectId at made
    split at made
    next s =>
      split at made
      next hex =>
        obtain ⟨length, lower⟩ := isObjectIdText_iff.mp hex
        obtain ⟨id, same, rfl⟩ := objectIdOf_eq.mp (Except.ok.inj made)
        rw [same] at length lower
        exact .key (.objectId length lower) (.hex same)
      next => cases made
    next id =>
      cases made
      exact .object id
    next => cases made
  · rintro (⟨canonical, spelled⟩ | id)
    · cases canonical with
      | objectId length lower =>
        cases spelled with
        | hex same =>
          have hex := isObjectIdText_iff.mpr ⟨same ▸ length, same ▸ lower⟩
          simp [coerceObjectId, hex, objectIdOf_eq.mpr ⟨_, same, rfl⟩]
    · rfl

theorem coerceScalar_eq_ok : type.coerceScalar field value = .ok key ↔ Leaves type value key := by
  cases type with
  | string => exact coerceString_eq_ok
  | int => exact coerceInt_eq_ok
  | uuid => exact coerceUuid_eq_ok
  | objectId => exact coerceObjectId_eq_ok

theorem Leaves.plain (leaves : Leaves type value key) :
    value.array? = none ∧ key.array? = none := by
  rcases leaves with ⟨-, spelled⟩ | id
  · cases spelled <;> exact ⟨rfl, rfl⟩
  · exact ⟨rfl, rfl⟩

theorem coerce_eq_ok :
    type.coerce field value = .ok key ↔ value.Elementwise (Leaves type) key := by
  unfold coerce
  split
  next items =>
    simp only [Outcome.map_eq_ok, Outcome.mapM_forall₂, coerceScalar_eq_ok]
    constructor
    · rintro ⟨others, each, rfl⟩
      exact .list each
    · intro each
      cases each with
      | list each => exact ⟨_, each, rfl⟩
      | single plain => cases plain
  next scalar unlisted =>
    rw [coerceScalar_eq_ok]
    constructor
    · intro leaves
      exact .single leaves.plain.1 leaves.plain.2 leaves
    · intro each
      cases each with
      | list => exact absurd rfl (unlisted _)
      | single plain made leaves => exact leaves

theorem Canonical.leaves (canonical : Canonical type key) : Leaves type key key := by
  cases canonical with
  | text s => exact .key (.text s) (.text s)
  | integer low high => exact .key (.integer low high) (.integer _)
  | uuid hyphenated =>
    have form : Text.lowerAsciiChars _ = _ := hyphenated.lowered
    exact .key (.uuid hyphenated) (.uuid (form ▸ List.mem_cons_self))
  | objectId => exact .object _

theorem Leaves.settled (leaves : Leaves type value key) : Leaves type key key := by
  cases leaves with
  | key canonical => exact canonical.leaves
  | object id => exact .object id

theorem coerce_settled {other : String} (made : type.coerce field value = .ok key) :
    type.coerce other key = .ok key := by
  have each := coerce_eq_ok.mp made
  refine coerce_eq_ok.mpr (.refl ((each.forall_iff ?_).mpr fun _ _ => trivial))
  exact fun leaves => iff_true_intro leaves.settled

theorem Leaves.canonical_iff (leaves : Leaves type value key) :
    Canonical type key ↔ (value.isObject = true → Canonical type value) := by
  cases leaves with
  | key canonical spelled =>
    have plain : value.isObject = false := by cases spelled <;> rfl
    simp [canonical, plain]
  | object id => simp [Json.isObject]

/-- Coercion gives stored forms, exactly up to the objects that it is given: whatever spells a key
becomes that key, a stored form stays, and an object stays whether it is one or not. -/
theorem coerce_canonical_iff (type : KeyType) (field : String) :
    (∀ value key, type.coerce field value = .ok key ↔ value.Elementwise (Leaves type) key) ∧
    (∀ value key, type.coerce field value = .ok key →
      ((∀ element ∈ key.elements, Canonical type element) ↔
        ∀ element ∈ value.elements, element.isObject = true → Canonical type element)) ∧
    (∀ key : Json, (∀ element ∈ key.elements, Canonical type element) →
      type.coerce field key = .ok key) ∧
    ∀ value key, Canonical type key → Spells type value key →
      type.coerce field value = .ok key := by
  refine ⟨fun value key => coerce_eq_ok, ?_, ?_, ?_⟩
  · intro value key made
    exact (coerce_eq_ok.mp made).forall_iff Leaves.canonical_iff
  · intro key canonical
    exact coerce_eq_ok.mpr (.refl fun element inside => (canonical element inside).leaves)
  · intro value key canonical spelled
    have leaves := Leaves.key canonical spelled
    exact coerce_eq_ok.mpr (.single leaves.plain.1 leaves.plain.2 leaves)

theorem bracedUuid_coerced :
    uuid.coerce "_id" (.arr [.str "\x7b67E55044-10B1-426F-9247-BB680E5FE0C8\x7d"]) =
        .ok (.arr [.str "67e55044-10b1-426f-9247-bb680e5fe0c8"]) ∧
      Canonical .uuid (.str "67e55044-10b1-426f-9247-bb680e5fe0c8") := by
  have made : uuid.coerce "_id" (.arr [.str "\x7b67E55044-10B1-426F-9247-BB680E5FE0C8\x7d"]) =
      .ok (.arr [.str "67e55044-10b1-426f-9247-bb680e5fe0c8"]) := by rfl
  refine ⟨made, ((coerce_canonical_iff .uuid "_id").2.1 _ _ made).mpr ?_ _ List.mem_cons_self⟩
  simp [Json.elements, Json.isObject]

theorem upperObjectId_unchanged :
    objectId.coerce "_id" (.obj [("$oid", .str "507F1F77BCF86CD799439011")]) =
        .ok (.obj [("$oid", .str "507F1F77BCF86CD799439011")]) ∧
      ¬ Canonical .objectId (.obj [("$oid", .str "507F1F77BCF86CD799439011")]) ∧
      objectId.coerce "_id" (.str "507F1F77BCF86CD799439011") =
        .ok (.obj [("$oid", .str "507f1f77bcf86cd799439011")]) := by
  refine ⟨rfl, fun canonical => ?_, rfl⟩
  cases canonical with
  | objectId _ lower => exact absurd (lower 'F' (by decide)) (by decide)

end KeyType

end DocQuery
