import DocQuery.Proofs.Grammar
import DocQuery.Proofs.Rewriting

set_option autoImplicit false

namespace DocQuery

namespace Outcome

variable {ε α β γ : Type}

theorem mapM_ok_index {f : α → Except ε β} {xs : List α} {ys : List β} (made : xs.mapM f = .ok ys)
    {i : Nat} {y : β} (listed : ys[i]? = some y) : ∃ x, xs[i]? = some x ∧ f x = .ok y := by
  have same := congrArg (·[i]?) (mapM_eq_ok.mp made)
  simpa [listed, List.getElem?_map, Option.map_eq_some_iff] using same

theorem mapM_modify {f : α → Except ε β} {xs : List α} {ys : List β} (made : xs.mapM f = .ok ys)
    {i : Nat} {x : α} {y : β} (before : xs[i]? = some x) (after : ys[i]? = some y) {edit : α → α}
    {r : Except ε γ} {change : γ → β → β} (edited : f (edit x) = r.map (change · y)) :
    (xs.modify i edit).mapM f = r.map fun c => ys.modify i (change c) := by
  induction xs generalizing ys i with
  | nil => simp at before
  | cons first rest ih =>
    simp only [List.mapM_cons, bind_eq_ok, pure_eq_ok, Except.ok.injEq] at made
    obtain ⟨own, found, others, more, rfl⟩ := made
    cases i with
    | zero =>
      obtain rfl : first = x := by simpa using before
      obtain rfl : own = y := by simpa using after
      simp only [List.modify_zero_cons, List.mapM_cons, edited, more]
      cases r <;> rfl
    | succ i =>
      have later := ih more (by simpa using before) (by simpa using after)
      simp only [List.modify_succ_cons, List.mapM_cons, found, later]
      cases r <;> rfl

end Outcome

namespace FilterParser

variable {p : FilterParser} {place other : Place} {key : String}

theorem parseMembers_result (members : List (String × Json)) :
    (p.parseMembers place members).result =
      members.mapM fun member => (p.parseEntry place member.1 member.2).result := by
  induction members with
  | nil => rfl
  | cons member rest ih =>
    simp only [parseMembers, List.mapM_cons, Traced.result_bind, Traced.result_pure, ih]
    rfl

def parseItem (p : FilterParser) (place : Place) (key : String) :
    Json → Except QueryError (List Node)
  | .obj members => (p.parseMembers place members).result
  | _ => .error (.malformedLogicalGroup key)

theorem parseBranches_result (items : List Json) :
    (p.parseBranches place key items).result = items.mapM (p.parseItem place key) := by
  induction items with
  | nil => rfl
  | cons item rest ih =>
    cases item with
    | obj members =>
      simp only [parseBranches, parseItem, List.mapM_cons, Traced.result_bind, Traced.result_pure,
        ih]
      rfl
    | _ => rfl

theorem enter_congr (path : place.path = other.path) : p.enter place = p.enter other := by
  rw [enter, enter, path]

mutual

theorem parseEntry_congr {place other : Place} (path : place.path = other.path)
    (home : place.collection = other.collection) (key : String) (value : Json) :
    (p.parseEntry place key value).result = (p.parseEntry other key value).result := by
  unfold parseEntry
  rw [home]
  split
  next => rfl
  next =>
    cases Connective.ofKey? key with
    | some connective =>
      cases value with
      | arr items =>
        have longer : (place.inGroup key).path = (other.inGroup key).path := by
          simp [Place.inGroup, path]
        have below := parseBranches_congr longer home key items
        simp only [Traced.result_bind, enter_congr longer, below, Traced.result_pure]
      | _ => rfl
    | none =>
      cases p.catalog.relation? other.collection key with
      | some r =>
        cases value with
        | obj members =>
          have longer : (place.inRelation key r.target).path =
              (other.inRelation key r.target).path := by
            simp [Place.inRelation, path]
          have below := parseMembers_congr longer rfl members
          simp only [Traced.result_bind, enter_congr longer, noteCycle_result, below,
            Traced.result_pure]
        | _ => simp [notARelation, home]
      | none => simp [parseField, home]

theorem parseMembers_congr {place other : Place} (path : place.path = other.path)
    (home : place.collection = other.collection) (members : List (String × Json)) :
    (p.parseMembers place members).result = (p.parseMembers other members).result := by
  cases members with
  | nil => rfl
  | cons member rest =>
    obtain ⟨key, value⟩ := member
    simp only [parseMembers, Traced.result_bind, parseEntry_congr path home key value,
      parseMembers_congr path home rest]

theorem parseBranches_congr {place other : Place} (path : place.path = other.path)
    (home : place.collection = other.collection) (key : String) (items : List Json) :
    (p.parseBranches place key items).result = (p.parseBranches other key items).result := by
  cases items with
  | nil => rfl
  | cons item rest =>
    cases item with
    | obj members =>
      simp only [parseBranches, Traced.result_bind, parseMembers_congr path home members,
        parseBranches_congr path home key rest]
    | _ => rfl

end

end FilterParser

/-- A branch of a tree: the collection that its entries belong to, the keys of the groups and
relations around it, and its nodes. -/
structure Spot where
  owner : String
  path : List String
  branch : List Node

def Node.inner : Node → String
  | .relation _ r _ => r.target
  | n => n.info.collection

def Spot.find? (spot : Spot) : List (Nat × Nat) → Option Spot
  | [] => some spot
  | (i, j) :: rest => do
    let n ← spot.branch[i]?
    let branch ← n.branches[j]?
    find? ⟨n.inner, spot.path ++ [n.info.key], branch⟩ rest

theorem Spot.find?_of_within {m : Node} {owner : String} {path : List String} {nodes : List Node}
    (inside : m ∈ Node.withinAll nodes) :
    ∃ position spot, Spot.find? ⟨owner, path, nodes⟩ position = some spot ∧ m ∈ spot.branch := by
  rw [Node.mem_withinAll] at inside
  obtain ⟨n, listed, inside⟩ := inside
  induction n using Node.induct_branches generalizing owner path nodes with
  | step n ih =>
    rw [n.within_eq_branches, List.mem_cons, List.mem_flatMap] at inside
    rcases inside with rfl | ⟨branch, enclosed, deeper⟩
    · exact ⟨[], _, rfl, listed⟩
    · obtain ⟨k, member, deeper⟩ := Node.mem_withinAll.mp deeper
      obtain ⟨i, first⟩ := List.getElem?_of_mem listed
      obtain ⟨j, second⟩ := List.getElem?_of_mem enclosed
      obtain ⟨rest, spot, found, there⟩ := ih branch enclosed k member member deeper
      exact ⟨(i, j) :: rest, spot, by simpa [find?, first, second] using found, there⟩

def Json.editMembers (edit : Fields → Fields) : Json → Json
  | .obj members => .obj (edit members)
  | other => other

def Json.editBranch (j : Nat) (edit : Fields → Fields) : Json → Json
  | .arr items => .arr (items.modify j (editMembers edit))
  | other => other.editMembers edit

def Fields.editAt (edit : Fields → Fields) : List (Nat × Nat) → Fields → Fields
  | [], members => edit members
  | (i, j) :: rest, members =>
    members.modify i fun member => (member.1, member.2.editBranch j (editAt edit rest))

def Node.editBranch (j : Nat) (edit : Fields → Fields) (change : List Node → List Node)
    (n : Node) : Node :=
  (n.withInfo { n.info with value := n.info.value.editBranch j edit }).withBranches
    (n.branches.modify j change)

def Node.editAt (edit : Fields → Fields) (change : List Node → List Node) :
    List (Nat × Nat) → List Node → List Node
  | [], nodes => change nodes
  | (i, j) :: rest, nodes =>
    nodes.modify i (editBranch j (Fields.editAt edit rest) (editAt edit change rest))

namespace FilterParser

variable {p : FilterParser}

theorem parseEntry_editBranch {place : Place} {key : String} {value : Json} {n : Node}
    (parsed : (p.parseEntry place key value).result = .ok n) {j : Nat} {branch : List Node}
    (enclosed : n.branches[j]? = some branch) :
    ∃ inner members, inner.path = place.path ++ [n.info.key] ∧ inner.collection = n.inner ∧
      (p.parseMembers inner members).result = .ok branch ∧
      ∀ (edit : Fields → Fields) (γ : Type) (r : Except QueryError γ)
        (change : γ → List Node → List Node),
        (p.parseMembers inner (edit members)).result = r.map (change · branch) →
          (p.parseEntry place key (value.editBranch j edit)).result =
            r.map fun c => n.editBranch j edit (change c) := by
  unfold parseEntry at parsed
  by_cases empty : key = ""
  · simp [empty] at parsed
  rw [if_neg empty] at parsed
  cases grouping : Connective.ofKey? key with
  | some connective =>
    cases value with
    | arr items =>
      simp only [grouping, Traced.result_bind, Outcome.bind_eq_ok] at parsed
      obtain ⟨u, entered, branches, found, made⟩ := parsed
      cases made
      rw [parseBranches_result] at found
      simp only [Node.branches] at enclosed
      obtain ⟨item, listed, read⟩ := Outcome.mapM_ok_index found enclosed
      cases item with
      | obj members =>
        refine ⟨place.inGroup key, members, rfl, rfl, read, fun edit γ r change edited => ?_⟩
        have all : (items.modify j (Json.editMembers edit)).mapM
            (p.parseItem (place.inGroup key) key) =
              r.map fun c => branches.modify j (change c) :=
          Outcome.mapM_modify found listed enclosed edited
        simp only [Json.editBranch]
        unfold parseEntry
        simp only [empty, grouping, if_false, Traced.result_bind, entered, parseBranches_result,
          all]
        cases r <;> rfl
      | _ => cases read
    | _ => simp [grouping, notAGroup] at parsed
  | none =>
    cases known : p.catalog.relation? place.collection key with
    | some r =>
      cases value with
      | obj members =>
        simp only [grouping, known, Traced.result_bind, Outcome.bind_eq_ok] at parsed
        obtain ⟨u, entered, -, -, children, found, made⟩ := parsed
        cases made
        obtain ⟨rfl, rfl⟩ : j = 0 ∧ children = branch := by
          cases j <;> simp_all [Node.branches]
        refine ⟨place.inRelation key r.target, members, rfl, rfl, found, ?_⟩
        intro edit γ s change edited
        simp only [Json.editBranch, Json.editMembers]
        unfold parseEntry
        simp only [empty, grouping, known, if_false, Traced.result_bind, entered, noteCycle_result,
          Outcome.ok_bind, edited]
        cases s with
        | error e => rfl
        | ok c =>
          simp [Node.editBranch, Node.branches, Node.withInfo, Node.withBranches, Node.info,
            Json.editBranch, Json.editMembers]
      | _ => simp [grouping, known, notARelation] at parsed
    | none =>
      simp only [grouping, known, Traced.result_lift, parseField_eq_ok] at parsed
      obtain ⟨plain, rfl⟩ := parsed
      simp [Node.branches] at enclosed

theorem parseMembers_editAt (position : List (Nat × Nat)) {place : Place} {members : Fields}
    {nodes : List Node} (parsed : (p.parseMembers place members).result = .ok nodes) {spot : Spot}
    (found : Spot.find? ⟨place.collection, place.path, nodes⟩ position = some spot) :
    ∃ inner entries, inner.path = spot.path ∧ inner.collection = spot.owner ∧
      (p.parseMembers inner entries).result = .ok spot.branch ∧
      ∀ (edit : Fields → Fields) (γ : Type) (r : Except QueryError γ)
        (change : γ → List Node → List Node),
        (p.parseMembers inner (edit entries)).result = r.map (change · spot.branch) →
          (p.parseMembers place (members.editAt edit position)).result =
            r.map fun c => Node.editAt edit (change c) position nodes := by
  induction position generalizing place members nodes with
  | nil =>
    cases found
    exact ⟨place, members, rfl, rfl, parsed, fun edit γ r change edited => edited⟩
  | cons step rest ih =>
    obtain ⟨i, j⟩ := step
    simp only [Spot.find?, Option.bind_eq_bind, Option.bind_eq_some_iff] at found
    obtain ⟨n, listed, branch, enclosed, found⟩ := found
    rw [parseMembers_result] at parsed
    obtain ⟨⟨key, value⟩, own, read⟩ := Outcome.mapM_ok_index parsed listed
    obtain ⟨inner, below, path, home, opened, reread⟩ := parseEntry_editBranch read enclosed
    rw [← path, ← home] at found
    obtain ⟨last, entries, lastPath, lastHome, lastRead, again⟩ := ih opened found
    refine ⟨last, entries, lastPath, lastHome, lastRead, fun edit γ r change edited => ?_⟩
    have changed := reread (Fields.editAt edit rest) γ r
      (fun c => Node.editAt edit (change c) rest) (again edit γ r change edited)
    rw [parseMembers_result]
    exact Outcome.mapM_modify parsed own listed changed

theorem reads_info : p.Reads fun place entry n =>
    n.info.key = entry.1 ∧ n.info.value = entry.2 ∧ n.info.collection = place.collection where
  field _ _ _ _ _ _ _ := ⟨rfl, rfl, rfl⟩
  relation _ _ _ _ _ _ _ _ _ _ := ⟨rfl, rfl, rfl⟩
  group _ _ _ _ _ _ _ _ := ⟨rfl, rfl, rfl⟩

-- Reading on below a path forgets the collections entered on the way, which only the log tells.
theorem entryAt_result (place : Place) (key : String) (value : Json) :
    (p.entryAt place.collection place.path key value).result =
      (p.parseEntry place key value).result := by
  have path : (Place.at place.collection place.path).path = place.path := rfl
  have home : (Place.at place.collection place.path).collection = place.collection := rfl
  exact parseEntry_congr path home key value

theorem entryAt_info {place : Place} {members : Fields} {nodes : List Node}
    (parsed : (p.parseMembers place members).result = .ok nodes) {n : Node} (inside : n ∈ nodes) :
    n.info.collection = place.collection ∧
      (p.entryAt n.info.collection place.path n.info.key n.info.value).result = .ok n := by
  rw [parseMembers_result] at parsed
  obtain ⟨i, listed⟩ := List.getElem?_of_mem inside
  obtain ⟨⟨key, value⟩, -, read⟩ := Outcome.mapM_ok_index parsed listed
  obtain ⟨rfl, rfl, home⟩ := reads_info.entry place key value read
  rw [home, entryAt_result]
  exact ⟨rfl, read⟩

theorem parseMembers_insert {place : Place} {members : Fields} {nodes : List Node}
    (parsed : (p.parseMembers place members).result = .ok nodes) {key : String}
    (fresh : ∀ n ∈ nodes, n.info.key ≠ key) (value : Json) :
    (p.parseMembers place (members.insert key value)).result =
      (p.entryAt place.collection place.path key value).result.map fun n => nodes ++ [n] := by
  have unused : key ∉ members.keys := by
    intro used
    obtain ⟨member, inside, rfl⟩ := List.mem_map.mp used
    obtain ⟨n, read, same, -⟩ :=
      forall₂_left (reads_info.members place members parsed) member inside
    exact fresh n read same
  rw [Fields.insert_of_not_mem unused, parseMembers_result, List.mapM_append, ← parseMembers_result,
    parsed, entryAt_result]
  simp only [List.mapM_cons, List.mapM_nil]
  cases (p.parseEntry place key value).result <;> rfl

/-- Reading an entry anew, with the keys around it and on its collection, is reading it where it
stands. Every node of a filter that is read is read again with all that it encloses. An entry with a
new key, put at any position of the filter, is read there as it is alone, or refused for the same
reason. -/
theorem parse_resumed {collection : String} {filter : Json} {nodes : List Node}
    (parsed : (p.parse collection filter).result = .ok nodes) :
    (∀ m ∈ Node.withinAll nodes, ∃ position spot,
      Spot.find? ⟨collection, [], nodes⟩ position = some spot ∧ m ∈ spot.branch) ∧
    ∀ (position : List (Nat × Nat)) (spot : Spot),
      Spot.find? ⟨collection, [], nodes⟩ position = some spot →
      (∀ n ∈ spot.branch, n.info.collection = spot.owner ∧
        (p.entryAt n.info.collection spot.path n.info.key n.info.value).result = .ok n) ∧
      ∀ (key : String) (value : Json), (∀ n ∈ spot.branch, n.info.key ≠ key) →
        (p.parse collection
          (.obj (Fields.editAt (·.insert key value) position (membersOf filter)))).result =
            (p.entryAt spot.owner spot.path key value).result.map fun n =>
              Node.editAt (·.insert key value) (· ++ [n]) position nodes := by
  have read : (p.parseMembers (.root collection) (membersOf filter)).result = .ok nodes := by
    cases filter with
    | null => exact parsed
    | obj members => exact parsed
    | _ => simp [parse] at parsed
  refine ⟨fun m inside => Spot.find?_of_within inside, fun position spot found => ?_⟩
  obtain ⟨inner, entries, path, home, opened, reread⟩ := parseMembers_editAt position read found
  rw [← path, ← home]
  constructor
  · exact fun n inside => entryAt_info opened inside
  · intro key value fresh
    exact reread (·.insert key value) Node _ (fun n => (· ++ [n]))
      (parseMembers_insert opened fresh value)

end FilterParser

theorem repliesFilter_resumed :
    ∃ nodes spot, (FilterParser.parse ⟨.threads, 3⟩ "Comment" repliesFilter).result = .ok nodes ∧
      Spot.find? ⟨"Comment", [], nodes⟩ [(1, 0), (0, 0), (0, 0)] = some spot ∧
      spot.path = ["replies", "OR", "replies"] ∧
      (∀ n ∈ spot.branch, n.info.key ≠ "body" ∧ n.info.key ≠ "replies") ∧
      (∃ others, (FilterParser.parse ⟨.threads, 3⟩ "Comment"
        (.obj (Fields.editAt (·.insert "body" (.str "Lean")) [(1, 0), (0, 0), (0, 0)]
          (FilterParser.membersOf repliesFilter)))).result = .ok others) ∧
      (FilterParser.parse ⟨.threads, 3⟩ "Comment"
        (.obj (Fields.editAt (·.insert "replies" (.obj [])) [(1, 0), (0, 0), (0, 0)]
          (FilterParser.membersOf repliesFilter)))).result =
            .error (.depthExceeded 3 "replies.OR.replies.replies") := by
  obtain ⟨-, resumed⟩ := @FilterParser.parse_resumed ⟨.threads, 3⟩ "Comment" repliesFilter _ rfl
  obtain ⟨-, put⟩ := resumed [(1, 0), (0, 0), (0, 0)] _ rfl
  refine ⟨_, _, rfl, rfl, rfl, by simp [Node.info], ?_, ?_⟩
  · rw [put "body" (.str "Lean") (by simp [Node.info])]
    exact ⟨_, rfl⟩
  · rw [put "replies" (.obj []) (by simp [Node.info])]
    rfl

end DocQuery
