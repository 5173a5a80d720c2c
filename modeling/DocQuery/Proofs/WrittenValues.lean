import DocQuery.Decode
import DocQuery.Proofs.Members
import DocQuery.Proofs.Outcome
import DocQuery.Proofs.Suffixes

set_option autoImplicit false

namespace DocQuery

namespace Document

theorem ofItems_eq (values : List Json) : ofItems values = values.map ofJson := by
  induction values with
  | nil => rfl
  | cons value rest ih => rw [ofItems, ih, List.map_cons]

def Settled (value : Json) : Prop := (ofJson value).value? = some value

theorem items?_of_settled {values : List Json} (each : ∀ value ∈ values, Settled value) :
    items? (ofItems values) = some values := by
  induction values with
  | nil => rfl
  | cons value rest ih =>
    obtain ⟨first, others⟩ := List.forall_mem_cons.mp each
    simp only [Settled] at first
    simp [ofItems, items?, first, ih others]

theorem members?_of_settled {members : List (String × Json)}
    (each : ∀ member ∈ members, Settled member.2) :
    members? (ofMembers members) = some members := by
  induction members with
  | nil => rfl
  | cons member rest ih =>
    obtain ⟨first, others⟩ := List.forall_mem_cons.mp each
    simp only [Settled] at first
    simp [ofMembers, members?, first, ih others]

mutual

theorem settled_of_value? : ∀ (d : Document) (value : Json), d.value? = some value → Settled value
  | .unreadable, _, read => by cases read
  | .null, _, read => by cases read; rfl
  | .bool _, _, read => by cases read; rfl
  | .num _, _, read => by cases read; rfl
  | .str _, _, read => by cases read; rfl
  | .arr items, _, read => by
    obtain ⟨values, found, rfl⟩ := Option.map_eq_some_iff.mp read
    have each := settled_of_items? items values found
    simp [Settled, ofJson, value?, items?_of_settled each]
  | .obj members, _, read => by
    obtain ⟨values, found, rfl⟩ := Option.map_eq_some_iff.mp read
    have each := settled_of_members? members values found
    have kept : ∀ member ∈ Fields.ofList values, Settled member.2 :=
      fun member inside => each member (Fields.ofList_subset values inside)
    simp [Settled, ofJson, value?, members?_of_settled kept]

theorem settled_of_items? : ∀ (items : List Document) (values : List Json),
    items? items = some values → ∀ value ∈ values, Settled value
  | [], _, read => by cases read; simp
  | item :: rest, _, read => by
    simp only [items?, Option.bind_eq_bind, Option.bind_eq_some_iff] at read
    obtain ⟨value, found, values, others, made⟩ := read
    cases made
    exact List.forall_mem_cons.mpr
      ⟨settled_of_value? item value found, settled_of_items? rest values others⟩

theorem settled_of_members? : ∀ (members : List (String × Document))
    (values : List (String × Json)), members? members = some values →
      ∀ member ∈ values, Settled member.2
  | [], _, read => by cases read; simp
  | (key, item) :: rest, _, read => by
    simp only [members?, Option.bind_eq_bind, Option.bind_eq_some_iff] at read
    obtain ⟨value, found, values, others, made⟩ := read
    cases made
    exact List.forall_mem_cons.mpr
      ⟨settled_of_value? item value found, settled_of_members? rest values others⟩

end

theorem value?_eq_null {d : Document} : d.value? = some .null ↔ d = .null := by
  cases d <;> simp [value?]

theorem ofJson_eq_null {value : Json} : ofJson value = .null ↔ value = .null := by
  cases value <;> simp [ofJson]

end Document

namespace Decode

open Outcome

variable {α : Type} {decoder : Decoder α} {encode : α → Json}

theorem refuse_ne_ok {expected : String} {d : Document} {a : α} : refuse expected d ≠ .ok a := by
  intro refused
  cases d <;> cases refused

theorem nat64_eq_ok {expected : String} {d : Document} {n : Nat} :
    nat64 expected d = .ok n ↔ d = .num (.int n) ∧ n ≤ Number.maxNat64 := by
  unfold nat64
  split
  next i =>
    by_cases fits : 0 ≤ i ∧ i ≤ Number.maxNat64
    · simp only [Number.asNat64?, if_pos fits, Except.ok.injEq, Document.num.injEq,
        Number.int.injEq]
      omega
    · simp only [Number.asNat64?, if_neg fits, Document.num.injEq, Number.int.injEq, reduceCtorEq,
        false_iff]
      omega
  next other =>
    simp only [refuse_ne_ok, false_iff]
    rintro ⟨rfl, -⟩
    exact other n rfl

theorem list_eq_ok {item : Decoder α} {d : Document} {as : List α} :
    list item d = .ok as ↔ ∃ items, d = .arr items ∧ items.mapM item = .ok as := by
  unfold list
  split
  next items => simp
  next other =>
    simp only [refuse_ne_ok, false_iff]
    rintro ⟨items, rfl, -⟩
    exact other items rfl

theorem value_eq_ok {d : Document} {v : Json} : value d = .ok v ↔ d.value? = some v := by
  unfold value
  cases d.value? <;> simp

theorem option_of_ne_null {inner : Decoder α} {d : Document} (present : d ≠ .null) :
    option inner d = (inner d).map some := by
  cases d <;> first | rfl | exact absurd rfl present

def Restores (decoder : Decoder α) (encode : α → Json) : Prop :=
  ∀ d a, decoder d = .ok a → decoder (.ofJson (encode a)) = .ok a

theorem restores_string : Restores string .str := fun _ _ _ => rfl

theorem restores_nat64 (expected : String) : Restores (nat64 expected) .nat := by
  intro d n read
  exact nat64_eq_ok.mpr ⟨rfl, (nat64_eq_ok.mp read).2⟩

theorem restores_value : Restores value id := by
  intro d v read
  exact value_eq_ok.mpr (Document.settled_of_value? d v (value_eq_ok.mp read))

theorem Restores.option (restores : Restores decoder encode)
    (filled : ∀ d a, d ≠ .null → decoder d = .ok a → encode a ≠ .null) :
    Restores (option decoder) fun a => .ofOption (a.map encode) := by
  intro d a read
  by_cases absent : d = .null
  · subst absent
    cases read
    rfl
  · rw [option_of_ne_null absent, map_eq_ok] at read
    obtain ⟨a, found, rfl⟩ := read
    have shown : Document.ofJson (encode a) ≠ .null :=
      fun null => filled d a absent found (Document.ofJson_eq_null.mp null)
    have again := restores d a found
    simp only [Option.map_some, Json.ofOption, option_of_ne_null shown, again, map_ok]

theorem Restores.list (restores : Restores decoder encode) :
    Restores (list decoder) fun as => .arr (as.map encode) := by
  intro d as read
  obtain ⟨items, -, found⟩ := list_eq_ok.mp read
  refine list_eq_ok.mpr ⟨as.map fun a => .ofJson (encode a), ?_, ?_⟩
  · simp [Document.ofJson, Document.ofItems_eq]
  · rw [mapM_eq_ok, List.map_map]
    refine List.map_congr_left fun a inside => ?_
    have listed : Except.ok a ∈ items.map decoder := by
      rw [mapM_eq_ok.mp found]
      exact List.mem_map_of_mem inside
    obtain ⟨item, -, here⟩ := List.mem_map.mp listed
    exact restores item a here

section Records

variable {shape : Shape} {slots : Slots} {members : List (String × Document)} {name : String}
  {d : Document}

theorem find?_isSome : (slots.find? name).isSome ↔ name ∈ slots.map (·.1) := by
  simp [Slots.find?]

theorem read_of_mem (name : String) {a : α} (read : decoder d = .ok a)
    (distinct : (slots.map (·.1)).Nodup) (inside : (name, d) ∈ slots) (absent : α) :
    slots.read name decoder absent = .ok a := by
  have found : List.find? (·.1 == name) slots = some (name, d) :=
    (find?_eq_some_of_distinct distinct).mpr ⟨inside, rfl⟩
  rw [Slots.read, Slots.find?, found]
  exact read

theorem read_restored (restores : Restores decoder encode) {absent a : α}
    (plain : decoder (.ofJson (encode absent)) = .ok absent)
    (found : slots.read name decoder absent = .ok a) : decoder (.ofJson (encode a)) = .ok a := by
  unfold Slots.read at found
  split at found
  next d _ => exact restores d a found
  next =>
    cases found
    exact plain

def Stands (shape : Shape) (member : String × Document) : Prop :=
  ∃ field, shape.fields.find? (·.answersTo member.1) = some field ∧ field.name = member.1 ∧
    field.check member.2 = .ok ()

theorem stands_of {presence : Presence} {aliases : List String} {a : α}
    (known : shape.fields.find? (·.answersTo name) =
      some { Field.of name presence decoder with aliases })
    (read : decoder d = .ok a) : Stands shape (name, d) :=
  ⟨_, known, rfl, by simp [Field.of, read]⟩

theorem takeMembers_eq (each : ∀ m ∈ members, Stands shape m)
    (distinct : ((slots ++ members).map (·.1)).Nodup) :
    takeMembers shape members slots = .ok (slots ++ members) := by
  induction members generalizing slots with
  | nil => simp [takeMembers]
  | cons member rest ih =>
    obtain ⟨key, d⟩ := member
    obtain ⟨⟨field, known, rfl, checked⟩, others⟩ := List.forall_mem_cons.mp each
    have fresh : ¬(slots.find? field.name).isSome := by
      rw [List.map_append, List.nodup_append] at distinct
      exact fun taken => distinct.2.2 _ (find?_isSome.mp taken) _ (by simp) rfl
    have later := @ih (slots ++ [(field.name, d)]) others (by simpa using distinct)
    simp only at known
    simp only [takeMembers, known, if_neg fresh, checked, ok_bind]
    simpa using later

theorem requireFields_eq (fields : List Field)
    (complete : ∀ field ∈ fields, field.presence = .required → field.name ∈ slots.map (·.1)) :
    requireFields slots fields = .ok () := by
  induction fields with
  | nil => rfl
  | cons field rest ih =>
    obtain ⟨first, others⟩ := List.forall_mem_cons.mp complete
    have given : ¬(field.presence == .required && (slots.find? field.name).isNone) = true := by
      simp only [Bool.and_eq_true, beq_iff_eq, Option.isNone_iff_eq_none, not_and]
      intro required missing
      simpa [missing] using find?_isSome.mpr (first required)
    rw [requireFields, if_neg given, ih others]

theorem record_eq (each : ∀ m ∈ members, Stands shape m) (distinct : (members.map (·.1)).Nodup)
    (complete : ∀ field ∈ shape.fields, field.presence = .required →
      field.name ∈ members.map (·.1)) : record shape (.obj members) = .ok members := by
  have taken : takeMembers shape members [] = .ok members := takeMembers_eq each distinct
  simp only [record, taken, ok_bind, requireFields_eq shape.fields complete, pure_eq_ok]

end Records

end Decode

end DocQuery
