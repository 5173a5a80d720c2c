import DocQuery.Proofs.Declared
import DocQuery.Proofs.Suffixes

set_option autoImplicit false

namespace DocQuery

open Traced (refusal refusal_bind refusal_return refusal_eq_none refusal_eq_some)
open List (Forall₂)

def SuffixedKeyword (catalog : Catalog) (owner key : String) : Prop :=
  ∃ name suffix, name ≠ "" ∧ key = name ++ "_" ++ suffix ∧ (Operator.ofSuffix? suffix).isSome ∧
    ((Connective.ofKey? name).isSome ∨ catalog.isRelation owner name)

/-- The entries of a filter on a collection, with room for `levels` of groups and relations. -/
inductive Legal (catalog : Catalog) : Nat → String → String × Json → Prop
  | field {levels : Nat} {owner key : String} {value : Json} (filled : key ≠ "")
      (ungrouped : Connective.ofKey? key = none) (undeclared : catalog.isRelation owner key = false)
      (unsuffixed : ¬ SuffixedKeyword catalog owner key) : Legal catalog levels owner (key, value)
  | relation {levels : Nat} {owner key : String} {r : Relation} {members : List (String × Json)}
      (filled : key ≠ "") (ungrouped : Connective.ofKey? key = none)
      (known : catalog.relation? owner key = some r)
      (below : ∀ entry ∈ members, Legal catalog levels r.target entry) :
      Legal catalog (levels + 1) owner (key, .obj members)
  | group {levels : Nat} {owner key : String} {items : List Json}
      (keyword : (Connective.ofKey? key).isSome) (objects : ∀ item ∈ items, item.isObject)
      (below : ∀ members, .obj members ∈ items → ∀ entry ∈ members,
        Legal catalog levels owner entry) :
      Legal catalog (levels + 1) owner (key, .arr items)

inductive Accepted (p : FilterParser) (collection : String) : Json → Prop
  | null : Accepted p collection .null
  | object {members : List (String × Json)}
      (entries : ∀ entry ∈ members, Legal p.catalog p.maxDepth collection entry) :
      Accepted p collection (.obj members)

inductive Site where
  | root (collection : String) (filter : Json)
  | entry (path : List String) (owner key : String) (value : Json)
  | item (path : List String) (key : String) (value : Json)

namespace Site

def keys : Site → List String
  | root _ _ => []
  | entry path _ key _ => path ++ [key]
  | item path _ _ => path

def tooDeep? (p : FilterParser) (keys : List String) : Option QueryError :=
  if p.maxDepth < keys.length then some (.depthExceeded p.maxDepth (Text.joinPath keys)) else none

def fault? (p : FilterParser) : Site → Option QueryError
  | root collection filter =>
    if filter.isNull || filter.isObject then none
    else some (.malformedFilter ("filter for '" ++ collection ++ "' must be an object, got "
      ++ FilterParser.kindLabel filter))
  | entry path owner key value =>
    if key = "" then some (.malformedFilter ("empty key in filter for '" ++ owner ++ "'"))
    else
      match Connective.ofKey? key, p.catalog.relation? owner key with
      | some _, _ =>
        if value.array?.isSome then tooDeep? p (path ++ [key])
        else some (.malformedLogicalGroup key)
      | none, some _ =>
        if value.isObject then tooDeep? p (path ++ [key])
        else some (.malformedFilter ("relation '" ++ key ++ "' on '" ++ owner
          ++ "' expects a nested filter object, got " ++ FilterParser.kindLabel value))
      | none, none =>
        let name := (SplitKey.ofKey key).field
        if p.isKeyword owner name then
          some (.malformedFilter ("'" ++ key ++ "' on '" ++ owner ++ "' applies an operator to '"
            ++ name ++ "', which is a logical or relation keyword"))
        else none
  | item _ key value => if value.isObject then none else some (.malformedLogicalGroup key)

mutual

def ofEntry (catalog : Catalog) (path : List String) (owner key : String) (value : Json) :
    List Site :=
  entry path owner key value ::
    match value with
    | .arr items =>
      if (Connective.ofKey? key).isSome then ofItems catalog (path ++ [key]) owner key items else []
    | .obj members =>
      match Connective.ofKey? key, catalog.relation? owner key with
      | none, some r => ofMembers catalog (path ++ [key]) r.target members
      | _, _ => []
    | _ => []

def ofMembers (catalog : Catalog) (path : List String) (owner : String) :
    List (String × Json) → List Site
  | [] => []
  | (key, value) :: rest =>
    ofEntry catalog path owner key value ++ ofMembers catalog path owner rest

def ofItems (catalog : Catalog) (path : List String) (owner key : String) : List Json → List Site
  | [] => []
  | .obj members :: rest =>
    item path key (.obj members) :: ofMembers catalog path owner members
      ++ ofItems catalog path owner key rest
  | other :: rest => item path key other :: ofItems catalog path owner key rest

end

section

variable {catalog : Catalog} {path : List String} {owner key : String}

theorem ofEntry_field (ungrouped : Connective.ofKey? key = none)
    (undeclared : catalog.relation? owner key = none) (value : Json) :
    ofEntry catalog path owner key value = [entry path owner key value] := by
  cases value <;> simp [ofEntry, ungrouped, undeclared]

theorem ofEntry_relation (ungrouped : Connective.ofKey? key = none) {r : Relation}
    (known : catalog.relation? owner key = some r) (members : List (String × Json)) :
    ofEntry catalog path owner key (.obj members) =
      entry path owner key (.obj members) :: ofMembers catalog (path ++ [key]) r.target members := by
  simp [ofEntry, ungrouped, known]

theorem ofEntry_group (keyword : (Connective.ofKey? key).isSome) (items : List Json) :
    ofEntry catalog path owner key (.arr items) =
      entry path owner key (.arr items) :: ofItems catalog (path ++ [key]) owner key items := by
  simp [ofEntry, keyword]

theorem mem_ofMembers {members : List (String × Json)} {site : Site} :
    site ∈ ofMembers catalog path owner members ↔
      ∃ entry ∈ members, site ∈ ofEntry catalog path owner entry.1 entry.2 := by
  induction members with
  | nil => simp [ofMembers]
  | cons member rest ih => simp [ofMembers, ih]

theorem mem_ofItems {items : List Json} {site : Site}
    (inside : site ∈ ofItems catalog path owner key items) :
    ∃ item ∈ items, site = .item path key item ∨
      ∃ members, item = .obj members ∧ site ∈ ofMembers catalog path owner members := by
  induction items with
  | nil => simp [ofItems] at inside
  | cons item rest ih =>
    cases item with
    | obj members =>
      simp only [ofItems, List.cons_append, List.mem_cons, List.mem_append] at inside
      rcases inside with same | below | later
      · exact ⟨.obj members, List.mem_cons_self, .inl same⟩
      · exact ⟨.obj members, List.mem_cons_self, .inr ⟨members, rfl, below⟩⟩
      · obtain ⟨item, listed, found⟩ := ih later
        exact ⟨item, List.mem_cons_of_mem _ listed, found⟩
    | _ =>
      simp only [ofItems, List.mem_cons] at inside
      rcases inside with same | later
      · exact ⟨_, List.mem_cons_self, .inl same⟩
      · obtain ⟨item, listed, found⟩ := ih later
        exact ⟨item, List.mem_cons_of_mem _ listed, found⟩

variable {p : FilterParser}

theorem fault?_field {value : Json} (filled : key ≠ "") (ungrouped : Connective.ofKey? key = none)
    (undeclared : p.catalog.relation? owner key = none)
    (plain : p.isKeyword owner (SplitKey.ofKey key).field = false) :
    fault? p (.entry path owner key value) = none := by
  simp [fault?, filled, ungrouped, undeclared, plain]

theorem fault?_relation {r : Relation} {members : List (String × Json)} (filled : key ≠ "")
    (ungrouped : Connective.ofKey? key = none) (known : p.catalog.relation? owner key = some r) :
    fault? p (.entry path owner key (.obj members)) = tooDeep? p (path ++ [key]) := by
  simp [fault?, filled, ungrouped, known, Json.isObject]

theorem fault?_group {items : List Json} {connective : Connective} (filled : key ≠ "")
    (grouping : Connective.ofKey? key = some connective) :
    fault? p (.entry path owner key (.arr items)) = tooDeep? p (path ++ [key]) := by
  simp [fault?, filled, grouping, Json.array?]

theorem eq_of_tooDeep? {keys : List String} {limit : Nat} {path : String}
    (deep : tooDeep? p keys = some (.depthExceeded limit path)) :
    limit = p.maxDepth ∧ path = Text.joinPath keys := by
  unfold tooDeep? at deep
  split at deep
  next =>
    cases deep
    exact ⟨rfl, rfl⟩
  next => cases deep

theorem tooDeep?_eq_none {keys : List String} :
    tooDeep? p keys = none ↔ keys.length ≤ p.maxDepth := by
  simp [tooDeep?]

end

def ofFilter (catalog : Catalog) (collection : String) (filter : Json) : List Site :=
  root collection filter :: ofMembers catalog [] collection (FilterParser.membersOf filter)

end Site

namespace FilterParser

open Site

theorem findSome?_cons_or {α β : Type} (f : α → Option β) (first : α) (rest : List α) :
    (first :: rest).findSome? f = (f first).or (rest.findSome? f) := by
  cases found : f first <;> simp [found]

variable (p : FilterParser)

theorem refusal_enter (place : Place) : refusal (p.enter place) = tooDeep? p place.path := by
  unfold enter tooDeep?
  split <;> rfl

theorem refusal_noteCycle (outer inner : Place) : refusal (noteCycle outer inner) = none :=
  refusal_eq_none.mpr ⟨(), noteCycle_result outer inner⟩

theorem refusal_parseField {place : Place} {key : String} {value : Json} (filled : key ≠ "")
    (ungrouped : Connective.ofKey? key = none)
    (undeclared : p.catalog.relation? place.collection key = none) :
    refusal (Traced.lift (p.parseField place key value)) =
      fault? p (.entry place.path place.collection key value) := by
  simp only [fault?, parseField, filled, ungrouped, undeclared, if_false]
  cases p.isKeyword place.collection (SplitKey.ofKey key).field <;> rfl

-- The error of the parser is the first fault in pre-order. The recursion is that of the parser.
mutual

theorem refusal_parseEntry (place : Place) (key : String) (value : Json) :
    refusal (p.parseEntry place key value) =
      (ofEntry p.catalog place.path place.collection key value).findSome? (fault? p) := by
  unfold parseEntry
  by_cases empty : key = ""
  · unfold ofEntry
    rw [if_pos empty, findSome?_cons_or]
    simp [fault?, empty]
  rw [if_neg empty]
  cases grouping : Connective.ofKey? key with
  | some connective =>
    cases value with
    | arr items =>
      have below := refusal_parseBranches (place.inGroup key) key items
      simp only
      rw [refusal_bind _ fun _ => refusal_return _ _, refusal_enter, below,
        ofEntry_group (by simp [grouping]), findSome?_cons_or, fault?_group empty grouping]
      rfl
    | _ => simp [ofEntry, notAGroup, fault?, empty, grouping, Json.array?]
  | none =>
    cases known : p.catalog.relation? place.collection key with
    | some r =>
      cases value with
      | obj members =>
        have below := refusal_parseMembers (place.inRelation key r.target) members
        simp only
        rw [refusal_bind _ fun _ => refusal_bind _ fun _ => refusal_return _ _, refusal_enter,
          refusal_noteCycle, Option.none_or, below, ofEntry_relation grouping known,
          findSome?_cons_or, fault?_relation empty grouping known]
        rfl
      | _ => simp [ofEntry, notARelation, fault?, empty, grouping, known, Json.isObject]
    | none =>
      rw [ofEntry_field grouping known, List.findSome?_singleton]
      exact p.refusal_parseField empty grouping known

theorem refusal_parseMembers (place : Place) (members : List (String × Json)) :
    refusal (p.parseMembers place members) =
      (ofMembers p.catalog place.path place.collection members).findSome? (fault? p) := by
  cases members with
  | nil => rfl
  | cons member rest =>
    obtain ⟨key, value⟩ := member
    unfold parseMembers ofMembers
    rw [refusal_bind _ fun _ => refusal_return _ _, refusal_parseEntry place key value,
      refusal_parseMembers place rest, List.findSome?_append]

theorem refusal_parseBranches (place : Place) (key : String) (items : List Json) :
    refusal (p.parseBranches place key items) =
      (ofItems p.catalog place.path place.collection key items).findSome? (fault? p) := by
  cases items with
  | nil => rfl
  | cons item rest =>
    cases item with
    | obj members =>
      have object : fault? p (.item place.path key (.obj members)) = none := rfl
      unfold parseBranches ofItems
      rw [refusal_bind _ fun _ => refusal_return _ _, refusal_parseMembers place members,
        refusal_parseBranches place key rest, List.cons_append, findSome?_cons_or, object,
        Option.none_or, List.findSome?_append]
    | _ => simp [parseBranches, ofItems, notAGroup, fault?, Json.isObject]

end

theorem refusal_parse (collection : String) (filter : Json) :
    refusal (p.parse collection filter) =
      (Site.ofFilter p.catalog collection filter).findSome? (fault? p) := by
  cases filter with
  | null => rfl
  | obj members => exact p.refusal_parseMembers (.root collection) members
  | _ => rfl

theorem isKeyword_split {owner key : String} (ungrouped : Connective.ofKey? key = none)
    (undeclared : p.catalog.isRelation owner key = false) :
    p.isKeyword owner (SplitKey.ofKey key).field = true ↔ SuffixedKeyword p.catalog owner key := by
  simp only [isKeyword, Bool.or_eq_true]
  constructor
  · intro keyword
    rcases SplitKey.ofKey_cases key with whole | ⟨name, suffix, op, filled, joined, found, split⟩
    · simp [whole, ungrouped, undeclared] at keyword
    · rw [split] at keyword
      exact ⟨name, suffix, filled, joined, by simp [found], keyword⟩
  · rintro ⟨name, suffix, filled, rfl, registered, keyword⟩
    obtain ⟨op, found⟩ := Option.isSome_iff_exists.mp registered
    rwa [SplitKey.ofKey_suffixed filled found]

theorem reads_legal :
    p.Reads fun place entry _ =>
      Legal p.catalog (p.maxDepth - place.path.length) place.collection entry where
  field place key value filled ungrouped undeclared plain := by
    have unknown : p.catalog.isRelation place.collection key = false := by
      simp [Catalog.isRelation, undeclared]
    refine .field filled ungrouped unknown ?_
    rw [← p.isKeyword_split ungrouped unknown, plain]
    exact Bool.false_ne_true
  relation place key members r children filled ungrouped known within below := by
    have left : p.maxDepth - place.path.length =
        p.maxDepth - (place.inRelation key r.target).path.length + 1 := by
      rw [Place.length_inRelation]
      omega
    rw [left]
    refine .relation filled ungrouped known ?_
    intro entry inside
    obtain ⟨-, -, legal⟩ := forall₂_left below entry inside
    exact legal
  group place key items connective branches grouping within below := by
    have left : p.maxDepth - place.path.length =
        p.maxDepth - (place.inGroup key).path.length + 1 := by
      rw [Place.length_inGroup]
      omega
    rw [left]
    refine .group (by simp [grouping]) ?_ ?_
    · intro item listed
      obtain ⟨-, -, members, rfl, -⟩ := forall₂_left below item listed
      rfl
    · intro members listed entry inside
      obtain ⟨branch, -, others, same, related⟩ := forall₂_left below _ listed
      cases same
      obtain ⟨-, -, legal⟩ := forall₂_left related entry inside
      exact legal

end FilterParser

namespace Site

theorem faultless_of_legal {p : FilterParser} {levels : Nat} {path : List String} {owner : String}
    {entry : String × Json}
    (legal : Legal p.catalog levels owner entry) (room : path.length + levels ≤ p.maxDepth) :
    ∀ site ∈ ofEntry p.catalog path owner entry.1 entry.2, site.fault? p = none := by
  induction legal generalizing path with
  | @field levels owner key value filled ungrouped undeclared unsuffixed =>
    have unknown : p.catalog.relation? owner key = none := by
      simpa [Catalog.isRelation] using undeclared
    have plain : p.isKeyword owner (SplitKey.ofKey key).field = false := by
      rw [← Bool.not_eq_true, p.isKeyword_split ungrouped undeclared]
      exact unsuffixed
    rw [ofEntry_field ungrouped unknown, List.forall_mem_singleton]
    exact fault?_field filled ungrouped unknown plain
  | @relation levels owner key r members filled ungrouped known _ ih =>
    have deeper : (path ++ [key]).length + levels ≤ p.maxDepth := by
      rw [List.length_append, List.length_singleton]
      omega
    rw [ofEntry_relation ungrouped known, List.forall_mem_cons,
      fault?_relation filled ungrouped known, tooDeep?_eq_none]
    refine ⟨by omega, ?_⟩
    intro site inside
    obtain ⟨entry, member, found⟩ := mem_ofMembers.mp inside
    exact ih entry member deeper site found
  | @group levels owner key items keyword objects _ ih =>
    have deeper : (path ++ [key]).length + levels ≤ p.maxDepth := by
      rw [List.length_append, List.length_singleton]
      omega
    obtain ⟨connective, grouping⟩ := Option.isSome_iff_exists.mp keyword
    have filled : key ≠ "" := by
      rintro rfl
      cases grouping
    rw [ofEntry_group keyword, List.forall_mem_cons, fault?_group filled grouping, tooDeep?_eq_none]
    refine ⟨by omega, ?_⟩
    intro site inside
    obtain ⟨item, listed, rfl | ⟨members, rfl, below⟩⟩ := mem_ofItems inside
    · simp [fault?, objects item listed]
    · obtain ⟨entry, member, found⟩ := mem_ofMembers.mp below
      exact ih members listed entry member deeper site found

end Site

namespace Node

mutual

def rebuild : Node → String × Json
  | .field i _ _ => (i.key, i.value)
  | .relation i _ children => (i.key, .obj (rebuildAll children))
  | .group i _ branches => (i.key, .arr (rebuildBranches branches))

def rebuildAll : List Node → List (String × Json)
  | [] => []
  | n :: rest => rebuild n :: rebuildAll rest

def rebuildBranches : List (List Node) → List Json
  | [] => []
  | branch :: rest => .obj (rebuildAll branch) :: rebuildBranches rest

end

theorem rebuildAll_of {members : List (String × Json)} {nodes : List Node}
    (each : Forall₂ (fun entry n => rebuild n = entry) members nodes) :
    rebuildAll nodes = members := by
  induction each with
  | nil => rfl
  | cons first _ ih => rw [rebuildAll, first, ih]

theorem rebuildBranches_of {items : List Json} {branches : List (List Node)}
    (each : Forall₂ (fun item branch => ∃ members, item = .obj members ∧
      Forall₂ (fun entry n => rebuild n = entry) members branch) items branches) :
    rebuildBranches branches = items := by
  induction each with
  | nil => rfl
  | cons first _ ih =>
    obtain ⟨members, rfl, entries⟩ := first
    rw [rebuildBranches, rebuildAll_of entries, ih]

end Node

namespace FilterParser

variable (p : FilterParser)

theorem reads_rebuilt : p.Reads fun _ entry n => n.rebuild = entry where
  field _ _ _ _ _ _ _ := rfl
  relation _ _ _ _ _ _ _ _ _ below := by rw [Node.rebuild, Node.rebuildAll_of below]
  group _ _ _ _ _ _ _ below := by rw [Node.rebuild, Node.rebuildBranches_of below]

theorem accepted_of_parse {collection : String} {filter : Json} {nodes : List Node}
    (parsed : (p.parse collection filter).result = .ok nodes) : Accepted p collection filter := by
  have legal := forall₂_left (p.reads_legal.parse parsed)
  cases filter with
  | null => exact .null
  | obj members =>
    refine .object fun entry inside => ?_
    obtain ⟨-, -, allowed⟩ := legal entry inside
    exact allowed
  | _ => simp [parse] at parsed

theorem parse_of_accepted {collection : String} {filter : Json}
    (accepted : Accepted p collection filter) :
    ∃ nodes, (p.parse collection filter).result = .ok nodes := by
  rw [← refusal_eq_none, refusal_parse, List.findSome?_eq_none_iff]
  cases accepted with
  | null => simp [Site.ofFilter, membersOf, Site.ofMembers, Site.fault?, Json.isNull]
  | object entries =>
    refine List.forall_mem_cons.mpr ⟨rfl, ?_⟩
    intro site inside
    obtain ⟨entry, member, found⟩ := Site.mem_ofMembers.mp inside
    exact Site.faultless_of_legal (entries entry member) (by simp) site found

theorem parse_rebuilt {collection : String} {filter : Json} {nodes : List Node}
    (parsed : (p.parse collection filter).result = .ok nodes) :
    filter = .null ∧ nodes = [] ∨ filter = .obj (Node.rebuildAll nodes) := by
  have rebuilt := Node.rebuildAll_of (p.reads_rebuilt.parse parsed)
  cases filter with
  | null =>
    cases parsed
    exact .inl ⟨rfl, rfl⟩
  | obj members => exact .inr (congrArg Json.obj rebuilt.symm)
  | _ => simp [parse] at parsed

theorem keys_of_depthExceeded {site : Site} {limit : Nat} {path : String}
    (fault : site.fault? p = some (.depthExceeded limit path)) :
    limit = p.maxDepth ∧ path = Text.joinPath site.keys := by
  cases site with
  | root collection filter =>
    simp only [Site.fault?] at fault
    split at fault <;> cases fault
  | item path key value =>
    simp only [Site.fault?] at fault
    split at fault <;> cases fault
  | entry above owner key value =>
    simp only [Site.fault?] at fault
    split at fault
    next => cases fault
    next =>
      split at fault
      next =>
        split at fault
        next => exact Site.eq_of_tooDeep? fault
        next => cases fault
      next =>
        split at fault
        next => exact Site.eq_of_tooDeep? fault
        next => cases fault
      next => split at fault <;> cases fault

/-- What the parser accepts, what it makes of it, and how it refuses the rest.

A filter is read exactly if it follows the grammar, with groups and relations nested at most as deep
as the limit. The tree that is read gives back the filter, entry by entry, and its nodes are on the
collections and of the kinds that their keys have. The error of a refused filter is the first fault
in pre-order, and a filter that is too deep is refused with the keys that lead there. -/
theorem parse_exact (collection : String) (filter : Json) :
    ((∃ nodes, (p.parse collection filter).result = .ok nodes) ↔ Accepted p collection filter) ∧
    (∀ nodes, (p.parse collection filter).result = .ok nodes →
      (filter = .null ∧ nodes = [] ∨ filter = .obj (Node.rebuildAll nodes)) ∧
      ∀ n ∈ nodes, n.Declared p.catalog (Node.AsRead p.catalog) collection) ∧
    ∀ e, (p.parse collection filter).result = .error e →
      ∃ before site after, Site.ofFilter p.catalog collection filter = before ++ site :: after ∧
        (∀ s ∈ before, s.fault? p = none) ∧ site.fault? p = some e ∧
        ∀ limit path, e = .depthExceeded limit path →
          limit = p.maxDepth ∧ path = Text.joinPath site.keys := by
  refine ⟨⟨?_, p.parse_of_accepted⟩, ?_, ?_⟩
  · rintro ⟨nodes, parsed⟩
    exact p.accepted_of_parse parsed
  · intro nodes parsed
    exact ⟨p.parse_rebuilt parsed, p.parse_declared parsed⟩
  · intro e failed
    rw [← refusal_eq_some, refusal_parse, List.findSome?_eq_some_iff] at failed
    obtain ⟨before, site, after, split, fault, clean⟩ := failed
    refine ⟨before, site, after, split, clean, fault, ?_⟩
    rintro limit path rfl
    exact p.keys_of_depthExceeded fault

end FilterParser

def Catalog.threads : Catalog := ⟨[("Comment", ⟨"replies", "Comment", "_id", "parentId", .many⟩)]⟩

def repliesFilter : Json :=
  .obj [("body_contains", .str "Lean"),
    ("replies", .obj [("OR", .arr [.obj [("replies", .obj [("score_gt", .int 3)])]])])]

theorem repliesFilter_exact :
    (∃ nodes, (FilterParser.parse ⟨.threads, 3⟩ "Comment" repliesFilter).result = .ok nodes ∧
      repliesFilter = .obj (Node.rebuildAll nodes)) ∧
    ∃ before site after,
      Site.ofFilter Catalog.threads "Comment" repliesFilter = before ++ site :: after ∧
        site.fault? ⟨.threads, 2⟩ = some (.depthExceeded 2 "replies.OR.replies") ∧
        "replies.OR.replies" = Text.joinPath site.keys := by
  obtain ⟨-, read, -⟩ := FilterParser.parse_exact ⟨.threads, 3⟩ "Comment" repliesFilter
  obtain ⟨-, -, refused⟩ := FilterParser.parse_exact ⟨.threads, 2⟩ "Comment" repliesFilter
  constructor
  · obtain ⟨rebuilt, -⟩ := read _ rfl
    exact ⟨_, rfl, rebuilt.resolve_left (by simp [repliesFilter])⟩
  · obtain ⟨before, site, after, split, -, fault, deep⟩ := refused _ rfl
    exact ⟨before, site, after, split, fault, (deep 2 _ rfl).2⟩

end DocQuery
