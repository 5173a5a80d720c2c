import DocQuery.Json.Basic
import Mathlib.Data.List.Induction
import Mathlib.Data.List.Nodup

set_option autoImplicit false

namespace DocQuery.Fields

theorem ofList_snoc (members : List (String × Json)) (last : String × Json) :
    ofList (members ++ [last]) = (ofList members).insert last.1 last.2 :=
  List.foldl_append

theorem mem_insert {fields : Fields} {key : String} {value : Json} {member : String × Json}
    (inside : member ∈ fields.insert key value) : member ∈ fields ∨ member = (key, value) := by
  induction fields with
  | nil => simpa [insert] using inside
  | cons first rest ih =>
    obtain ⟨k, v⟩ := first
    by_cases same : k = key
    · simp only [insert, same, if_true, List.mem_cons] at inside
      rcases inside with rfl | later
      · exact .inr rfl
      · exact .inl (List.mem_cons_of_mem _ later)
    · simp only [insert, same, if_false, List.mem_cons] at inside
      rcases inside with rfl | later
      · exact .inl List.mem_cons_self
      · exact (ih later).imp_left (List.mem_cons_of_mem _)

theorem ofList_subset (members : List (String × Json)) : ofList members ⊆ members := by
  induction members using List.reverseRecOn with
  | nil => simp [ofList]
  | append_singleton members last ih =>
    intro member inside
    rw [ofList_snoc] at inside
    rcases mem_insert inside with earlier | rfl
    · exact List.mem_append_left _ (ih earlier)
    · simp

theorem nodup_insert {fields : Fields} (distinct : fields.keys.Nodup) (key : String)
    (value : Json) : (fields.insert key value).keys.Nodup := by
  rw [keys_insert]
  split
  next => exact distinct
  next fresh =>
    refine List.nodup_append.mpr ⟨distinct, by simp, ?_⟩
    intro other inside added last same
    exact fresh (List.mem_singleton.mp last ▸ same ▸ inside)

theorem nodup_ofList (members : List (String × Json)) : (ofList members).keys.Nodup := by
  induction members using List.reverseRecOn with
  | nil => simp [ofList, keys]
  | append_singleton members last ih =>
    rw [ofList_snoc]
    exact nodup_insert ih last.1 last.2

theorem ofList_of_nodup {members : List (String × Json)} (distinct : (keys members).Nodup) :
    ofList members = members := by
  induction members using List.reverseRecOn with
  | nil => rfl
  | append_singleton members last ih =>
    simp only [keys, List.map_append, List.map_singleton, List.nodup_append] at distinct
    obtain ⟨first, -, apart⟩ := distinct
    rw [ofList_snoc, ih first]
    refine insert_of_not_mem ?_ last.2
    intro inside
    exact apart last.1 inside last.1 (by simp) rfl

@[simp] theorem ofList_ofList (members : List (String × Json)) :
    ofList (ofList members) = ofList members :=
  ofList_of_nodup (nodup_ofList members)

end DocQuery.Fields
