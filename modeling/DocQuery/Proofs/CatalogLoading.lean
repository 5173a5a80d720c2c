import DocQuery.Catalog.Source
import DocQuery.Proofs.Outcome
import Mathlib.Data.List.Induction
import Mathlib.Data.List.Nodup

set_option autoImplicit false

namespace DocQuery.Catalog

open Outcome

def key (entry : String × Relation) : String × String := (entry.1, entry.2.name)

structure Declarable (entries : List (String × Relation)) : Prop where
  filled : ∀ entry ∈ entries, entry.2.blankName? = none
  distinct : (entries.map key).Nodup

theorem declarable_iff {entries : List (String × Relation)} :
    Declarable entries ↔ (∀ entry ∈ entries, entry.2.blankName? = none) ∧ (entries.map key).Nodup :=
  ⟨fun declarable => ⟨declarable.1, declarable.2⟩, fun both => ⟨both.1, both.2⟩⟩

instance (entries : List (String × Relation)) : Decidable (Declarable entries) :=
  decidable_of_iff _ declarable_iff.symm

theorem Declarable.perm {entries others : List (String × Relation)} (same : entries.Perm others) :
    Declarable entries ↔ Declarable others := by
  simp only [declarable_iff, same.mem_iff, (same.map key).nodup_iff]

section

variable {catalog next : Catalog} {source collection name : String} {r : Relation} {e : QueryError}
  {entries : List (String × Relation)}

theorem objection?_eq_none :
    catalog.objection? collection r = none ↔
      r.blankName? = none ∧ (collection, r.name) ∉ catalog.entries.map key := by
  have known : catalog.isRelation collection r.name = true ↔
      (collection, r.name) ∈ catalog.entries.map key := by
    simp [isRelation, relation?, key]
  unfold objection?
  cases r.blankName? with
  | some label => simp
  | none => simp [← known]

theorem declarable_snoc {entry : String × Relation} :
    Declarable (entries ++ [entry]) ↔
      Declarable entries ∧ (⟨entries⟩ : Catalog).objection? entry.1 entry.2 = none := by
  have distinct : ((entries ++ [entry]).map key).Nodup ↔
      (entries.map key).Nodup ∧ key entry ∉ entries.map key := by
    rw [List.map_append, List.map_singleton, ← List.concat_eq_append, List.nodup_concat, and_comm]
  simp only [objection?_eq_none, declarable_iff, List.forall_mem_append, List.forall_mem_singleton,
    distinct]
  simp only [key]
  tauto

theorem declare_eq_ok :
    catalog.declare source collection r = .ok next ↔
      catalog.objection? collection r = none ∧ next = ⟨catalog.entries ++ [(collection, r)]⟩ := by
  unfold declare
  cases catalog.objection? collection r <;> simp [eq_comm]

theorem declare_eq_error :
    catalog.declare source collection r = .error e ↔
      ∃ reason, catalog.objection? collection r = some reason ∧
        e = .catalogMalformed source reason := by
  unfold declare
  cases catalog.objection? collection r <;> simp [eq_comm]

theorem declareAll_snoc (source : String) (entries : List (String × Relation))
    (entry : String × Relation) :
    declareAll source (entries ++ [entry]) =
      declareAll source entries >>= fun catalog => catalog.declare source entry.1 entry.2 := by
  simp only [declareAll, List.foldlM_append, List.foldlM_cons, List.foldlM_nil, bind_pure]

theorem declareAll_eq_ok :
    declareAll source entries = .ok catalog ↔ Declarable entries ∧ catalog = ⟨entries⟩ := by
  induction entries using List.reverseRecOn generalizing catalog with
  | nil =>
    have none : Declarable [] := by decide
    simp [declareAll, empty, none, eq_comm]
  | append_singleton entries entry ih =>
    simp only [declareAll_snoc, bind_eq_ok, ih, declare_eq_ok, declarable_snoc]
    constructor
    · rintro ⟨first, ⟨declarable, rfl⟩, unobjected, rfl⟩
      exact ⟨⟨declarable, unobjected⟩, rfl⟩
    · rintro ⟨⟨declarable, unobjected⟩, rfl⟩
      exact ⟨⟨entries⟩, ⟨declarable, rfl⟩, unobjected, rfl⟩

theorem declareAll_eq_error (failed : declareAll source entries = .error e) :
    ∃ before entry after reason, entries = before ++ entry :: after ∧ Declarable before ∧
      (⟨before⟩ : Catalog).objection? entry.1 entry.2 = some reason ∧
      e = .catalogMalformed source reason := by
  induction entries using List.reverseRecOn with
  | nil => cases failed
  | append_singleton entries last ih =>
    rw [declareAll_snoc] at failed
    cases declared : declareAll source entries with
    | ok catalog =>
      obtain ⟨declarable, rfl⟩ := declareAll_eq_ok.mp declared
      rw [declared, ok_bind, declare_eq_error] at failed
      obtain ⟨reason, objected, made⟩ := failed
      exact ⟨entries, last, [], reason, rfl, declarable, objected, made⟩
    | error earlier =>
      rw [declared, error_bind] at failed
      cases failed
      obtain ⟨before, entry, after, reason, split, rest⟩ := ih declared
      exact ⟨before, entry, after ++ [last], reason, by simp [split], rest⟩

theorem key_of_found {entry : String × Relation}
    (found : entries.find? (fun e => e.1 == collection && e.2.name == name) = some entry) :
    entry ∈ entries ∧ key entry = (collection, name) := by
  have matched := List.find?_some found
  simp only [Bool.and_eq_true, beq_iff_eq] at matched
  exact ⟨List.mem_of_find?_eq_some found, Prod.ext matched.1 matched.2⟩

theorem relation?_iff (distinct : (catalog.entries.map key).Nodup) :
    catalog.relation? collection name = some r ↔
      (collection, r) ∈ catalog.entries ∧ r.name = name := by
  constructor
  · intro known
    obtain ⟨entry, found, rfl⟩ := Option.map_eq_some_iff.mp known
    obtain ⟨declared, same⟩ := key_of_found found
    cases same
    exact ⟨declared, rfl⟩
  · rintro ⟨declared, rfl⟩
    have there :
        (catalog.entries.find? fun e => e.1 == collection && e.2.name == r.name).isSome := by
      rw [List.find?_isSome]
      exact ⟨(collection, r), declared, by simp⟩
    obtain ⟨entry, found⟩ := Option.isSome_iff_exists.mp there
    obtain ⟨inside, same⟩ := key_of_found found
    have unique : entry = (collection, r) := List.inj_on_of_nodup_map distinct inside declared same
    rw [relation?, found, unique]
    rfl

end

namespace Declarations

def relations (d : Declarations) : List (String × Relation) :=
  d.flatMap fun c => c.2.map fun r => (c.1, r)

def latest : Declarations → Declarations
  | [] => []
  | first :: rest =>
    if (rest.map (·.1)).contains first.1 then latest rest else first :: latest rest

theorem latest_of_distinct {d : Declarations} (distinct : (d.map (·.1)).Nodup) : d.latest = d := by
  induction d with
  | nil => rfl
  | cons first rest ih =>
    rw [List.map_cons, List.nodup_cons] at distinct
    rw [latest, if_neg (by simpa using distinct.1), ih distinct.2]

theorem ordered_perm (d : Declarations) : d.ordered.Perm d.relations :=
  (List.mergeSort_perm d _).flatMap_right _

theorem foldl_put (stated d : Declarations) :
    stated.foldl (fun d c => d.put c.1 c.2) d =
      d.filter (fun c => !(stated.map (·.1)).contains c.1) ++ stated.latest := by
  induction stated generalizing d with
  | nil => simp [latest]
  | cons first rest ih =>
    have others : (d.put first.1 first.2).filter (fun c => !(rest.map (·.1)).contains c.1) =
        d.filter (fun c => !((first :: rest).map (·.1)).contains c.1) ++
          if (rest.map (·.1)).contains first.1 then [] else [first] := by
      rw [put, List.filter_append, List.filter_filter]
      congr 1
      · refine List.filter_congr fun c _ => ?_
        simp [Bool.and_comm, bne, Bool.not_or]
      · simp only [List.filter_cons, List.filter_nil]
        cases (rest.map (·.1)).contains first.1 <;> simp
    rw [List.foldl_cons, ih, others, latest, List.append_assoc]
    split <;> rfl

def statedBy (members : List (String × Document)) : Except Decode.Error Declarations :=
  members.mapM fun m => (Decode.list Relation.decode m.2).map (m.1, ·)

theorem decode_members (members : List (String × Document)) (d : Declarations) :
    members.foldlM (fun d m => do return d.put m.1 (← Decode.list Relation.decode m.2)) d =
      (statedBy members).map fun stated => stated.foldl (fun d c => d.put c.1 c.2) d := by
  induction members generalizing d with
  | nil => rfl
  | cons first rest ih =>
    simp only [statedBy] at ih
    rw [List.foldlM_cons, statedBy, List.mapM_cons]
    cases Decode.list Relation.decode first.2 with
    | error e => rfl
    | ok relations =>
      have later := ih (d.put first.1 relations)
      simp only [ok_bind, map_ok, pure_eq_ok] at later ⊢
      rw [later]
      cases rest.mapM fun m => (Decode.list Relation.decode m.2).map (m.1, ·) <;> rfl

theorem decode_stated {members : List (String × Document)} {stated : Declarations}
    (lists : statedBy members = .ok stated) :
    decodeDeclarations (.obj members) = .ok stated.latest := by
  rw [decodeDeclarations, decode_members, lists, map_ok, foldl_put]
  rfl

end Declarations

structure Loads (source : String) (relations : List (String × Relation))
    (loaded : Except QueryError Catalog) : Prop where
  succeeds : (∃ catalog, loaded = .ok catalog) ↔ Declarable relations
  found : ∀ catalog, loaded = .ok catalog → ∀ collection name r,
    catalog.relation? collection name = some r ↔ (collection, r) ∈ relations ∧ r.name = name
  size : ∀ catalog, loaded = .ok catalog → catalog.size = relations.length
  refused : ∀ e, loaded = .error e → ∃ others entry reason, others ⊆ relations ∧
    Declarable others ∧ entry ∈ relations ∧
      (⟨others⟩ : Catalog).objection? entry.1 entry.2 = some reason ∧
        e = .catalogMalformed source reason

theorem loads_of_perm {source : String} {entries relations : List (String × Relation)}
    (same : entries.Perm relations) : Loads source relations (declareAll source entries) where
  succeeds := by
    simp only [declareAll_eq_ok, ← Declarable.perm same, exists_and_left, exists_eq, and_true]
  found catalog loaded collection name r := by
    obtain ⟨declarable, rfl⟩ := declareAll_eq_ok.mp loaded
    rw [relation?_iff declarable.distinct, same.mem_iff]
  size catalog loaded := by
    obtain ⟨-, rfl⟩ := declareAll_eq_ok.mp loaded
    exact same.length_eq
  refused e failed := by
    obtain ⟨before, entry, after, reason, split, declarable, objected, made⟩ :=
      declareAll_eq_error failed
    have whole : before ++ entry :: after ⊆ relations := split ▸ same.subset
    refine ⟨before, entry, reason, ?_, declarable, whole (by simp), objected, made⟩
    exact fun other inside => whole (List.mem_append_left _ inside)

def stated? (text : String) : Option Declarations :=
  match Document.ofText? text with
  | some (.obj members) => (Declarations.statedBy members).toOption
  | _ => none

theorem load_stated {text : String} {stated : Declarations} (lists : stated? text = some stated)
    (source : String) : load source text = declareAll source stated.latest.ordered := by
  unfold stated? at lists
  split at lists
  next members read =>
    cases found : Declarations.statedBy members with
    | error e => simp [found, Except.toOption] at lists
    | ok given =>
      obtain rfl : given = stated := by simpa [found, Except.toOption] using lists
      have declared : declarations? text = some given.latest := by
        rw [declarations?, read, Option.bind_some, Declarations.decode_stated found]
        rfl
      rw [load, declared]
  next => cases lists

/-- Of a text whose members are lists of relations, the last list of each collection is declared,
wherever it stands, if its relations can be declared together, and the text is refused otherwise.
Where no collection is repeated, these are all the relations of the text. -/
theorem load_declares {text : String} {stated : Declarations} (lists : stated? text = some stated)
    (source : String) :
    Loads source stated.latest.relations (load source text) ∧
      ((stated.map (·.1)).Nodup → stated.latest = stated) := by
  refine ⟨?_, Declarations.latest_of_distinct⟩
  rw [load_stated lists]
  exact loads_of_perm stated.latest.ordered_perm

def relationText (name target localField foreignField : String) : String :=
  "\x7b\"name\":\"" ++ name ++ "\",\"targetCollection\":\"" ++ target ++
    "\",\"localField\":\"" ++ localField ++ "\",\"foreignField\":\"" ++ foreignField ++
    "\",\"cardinality\":\"one\"\x7d"

def blogText : String :=
  "\x7b\"User\":[" ++ relationText "company" "Company" "companyId" "_id" ++ "],\"Post\":[" ++
    relationText "author" "User" "authorId" "_id" ++ "]\x7d"

def blogStated : Declarations :=
  [("User", [⟨"company", "Company", "companyId", "_id", .one⟩]),
    ("Post", [⟨"author", "User", "authorId", "_id", .one⟩])]

theorem blogText_loads :
    stated? blogText = some blogStated ∧ (blogStated.map (·.1)).Nodup ∧
      ∃ catalog, load "blog" blogText = .ok catalog ∧ catalog.size = 2 ∧
        catalog.relation? "Post" "author" =
          some ⟨"author", "User", "authorId", "_id", .one⟩ := by
  have lists : stated? blogText = some blogStated := by decide +kernel
  have distinct : (blogStated.map (·.1)).Nodup := by decide
  obtain ⟨loads, whole⟩ := load_declares lists "blog"
  rw [whole distinct] at loads
  obtain ⟨catalog, loaded⟩ := loads.succeeds.mpr (by decide)
  refine ⟨lists, distinct, catalog, loaded, loads.size catalog loaded, ?_⟩
  rw [loads.found catalog loaded]
  decide

def repeatedText : String :=
  "\x7b\"Post\":[" ++ relationText "author" "User" "authorId" "_id" ++ "],\"Post\":[]\x7d"

def repeatedStated : Declarations :=
  [("Post", [⟨"author", "User", "authorId", "_id", .one⟩]), ("Post", [])]

theorem repeatedText_loses_relation :
    stated? repeatedText = some repeatedStated ∧ repeatedStated.relations.length = 1 ∧
      ∃ catalog, load "posts" repeatedText = .ok catalog ∧ catalog.size = 0 ∧
        catalog.relation? "Post" "author" = none := by
  have lists : stated? repeatedText = some repeatedStated := by decide +kernel
  refine ⟨lists, rfl, empty, ?_, rfl, rfl⟩
  rw [load_stated lists, declareAll_eq_ok]
  have none : repeatedStated.latest.ordered = [] :=
    List.nil_perm.mp (Declarations.ordered_perm repeatedStated.latest).symm
  rw [none]
  exact ⟨by decide, rfl⟩

end DocQuery.Catalog
