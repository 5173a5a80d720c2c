import DocQuery.Proofs.CatalogAgreement
import DocQuery.Proofs.Routing

set_option autoImplicit false

namespace DocQuery

open Outcome Compile

namespace Staging

theorem newJoins_covers (deduplicate : Bool) (staged joins : List Lookup) :
    ∀ join ∈ joins, ∃ there ∈ staged ++ newJoins deduplicate staged joins,
      there.relation = join.relation ∧ there.output = join.output := by
  induction joins generalizing staged with
  | nil => simp
  | cons first rest ih =>
    unfold newJoins
    split
    next known =>
      simp only [Bool.and_eq_true, List.any_eq_true, sameJoin, beq_iff_eq] at known
      obtain ⟨-, there, inside, same⟩ := known
      refine List.forall_mem_cons.mpr ⟨?_, ih staged⟩
      exact ⟨there, List.mem_append_left _ inside, same⟩
    next =>
      have later := ih (staged ++ [first])
      rw [List.append_assoc, List.singleton_append] at later
      refine List.forall_mem_cons.mpr ⟨?_, later⟩
      exact ⟨first, by simp, rfl, rfl⟩

end Staging

namespace JoinSite

def found? (site : JoinSite) (s : Staging) : Option Relation :=
  s.catalog.relation? (site.call.owner s) site.relation.name

variable {site : JoinSite} {s : Staging}

theorem resolve_of_missing (missing : site.found? s = none) :
    site.call.resolve s =
      .error (.catalogInconsistent (site.call.owner s) site.relation.name) := by
  have missing : s.catalog.relation? (site.call.owner s) site.call.relation = none := missing
  rw [JoinCall.resolve, missing]
  rfl

theorem resolve_of_found {r : Relation} (found : site.found? s = some r) :
    ∃ join, site.call.resolve s = .ok join ∧ join.relation = r ∧ join.output = site.output := by
  have named : r.name = site.relation.name := Catalog.relation?_name found
  have found : s.catalog.relation? (site.call.owner s) site.call.relation = some r := found
  refine ⟨Staging.joinFor r { parent := site.call.parent }, ?_, rfl, site.joinFor_output named⟩
  rw [JoinCall.resolve, found]

theorem found?_isSome :
    (site.found? s).isSome = true ↔ ∃ join, site.call.resolve s = .ok join := by
  cases known : site.found? s with
  | none => simp [resolve_of_missing known]
  | some r =>
    obtain ⟨join, made, -⟩ := resolve_of_found known
    exact iff_of_true rfl ⟨join, made⟩

end JoinSite

namespace Compile

open Node

/-- What is looked up again when a tree is staged on a pipeline whose catalog need not be the one
that the tree was read with. -/
structure Rechecked (nodes : List Node) (s : Staging) : Prop where
  found : ∀ t, (stage nodes s).result = .ok t → ∀ site ∈ joinSites [] nodes,
    ∃ r, site.found? s = some r ∧
      ∃ join ∈ t.lookups, join.relation = r ∧ join.output = site.output
  -- The nodes that need no join are compiled before the first look-up.
  early : ∀ e, (predicate (plainNodes nodes) "" s).result = .error e →
    (stage nodes s).result = .error e
  missing : ∀ draft, (predicate (plainNodes nodes) "" s).result = .ok draft →
    (∃ site ∈ joinSites [] nodes, site.found? s = none) →
      ∃ before first after, joinSites [] nodes = before ++ first :: after ∧
        (∀ site ∈ before, (site.found? s).isSome) ∧ first.found? s = none ∧
        (stage nodes s).result =
          .error (.catalogInconsistent (first.call.owner s) first.relation.name)
  present : (∀ site ∈ joinSites [] nodes, (site.found? s).isSome) →
    FailsOnly QueryError.Blameless (stage nodes s).result

variable {nodes : List Node} {s : Staging}

theorem resolve_sites_of_missing
    (missing : ∃ site ∈ joinSites [] nodes, site.found? s = none) :
    ∃ before first after, joinSites [] nodes = before ++ first :: after ∧
      (∀ site ∈ before, (site.found? s).isSome) ∧ first.found? s = none ∧
      (joinSites [] nodes).mapM (fun site => site.call.resolve s) =
        .error (.catalogInconsistent (first.call.owner s) first.relation.name) := by
  obtain ⟨gone, listed, missing⟩ := missing
  cases resolved : (joinSites [] nodes).mapM fun site => site.call.resolve s with
  | ok joins =>
    obtain ⟨join, -, made⟩ := mapM_ok_at resolved listed
    simp [JoinSite.resolve_of_missing missing] at made
  | error e =>
    obtain ⟨before, first, after, split, passed, failed⟩ := mapM_eq_error resolved
    have absent : first.found? s = none := by
      cases known : first.found? s with
      | none => rfl
      | some r =>
        obtain ⟨join, made, -⟩ := JoinSite.resolve_of_found known
        simp [made] at failed
    rw [JoinSite.resolve_of_missing absent] at failed
    cases failed
    refine ⟨before, first, after, split, ?_, absent, rfl⟩
    intro site earlier
    exact JoinSite.found?_isSome.mpr (passed site earlier)

theorem stage_rechecked (standard : ∀ m ∈ withinAll nodes, m.Standard) (s : Staging) :
    Rechecked nodes s where
  found t compiled site inside := by
    obtain ⟨before, joins, after, -, resolved, -, rfl⟩ := parts_of_stage standard compiled
    obtain ⟨join, joined, made⟩ := mapM_ok_at resolved inside
    obtain ⟨r, known⟩ := Option.isSome_iff_exists.mp (JoinSite.found?_isSome.mpr ⟨join, made⟩)
    obtain ⟨other, resolved, relation, output⟩ := JoinSite.resolve_of_found known
    cases made.symm.trans resolved
    -- With deduplication the join may stand for an earlier site, or may have been there before.
    obtain ⟨there, staged, same⟩ :=
      Staging.newJoins_covers s.deduplicate s.lookups joins join joined
    refine ⟨r, known, there, by simpa using staged, ?_, ?_⟩
    · rw [same.1, relation]
    · rw [same.2, output]
  early e failed := by
    have failed : (predicate (nodes.filter fun n => !n.embedsRelation) "" s).result = .error e :=
      failed
    simp [stage, matchStage, failed]
  missing draft compiles missing := by
    have plain : ∀ m ∈ withinAll (plainNodes nodes), m.Standard := withinAll_filter standard _
    rw [predicate_exact plain, Traced.result_lift] at compiles
    obtain ⟨p, early, -⟩ := map_eq_ok.mp compiles
    obtain ⟨before, first, after, split, passed, absent, failed⟩ := resolve_sites_of_missing missing
    refine ⟨before, first, after, split, passed, absent, ?_⟩
    rw [stage_sites standard, early, failed]
    rfl
  present known := by
    have joined : FailsOnly QueryError.Blameless
        ((joinSites [] nodes).mapM fun site => site.call.resolve s) := by
      refine FailsOnly.mapM fun site inside => ?_
      obtain ⟨join, made⟩ := JoinSite.found?_isSome.mp (known site inside)
      rw [made]
      exact failsOnly_ok join
    rw [stage_sites standard]
    refine (plainPredicate_failsOnly "" _).bind fun _ _ => joined.bind fun _ _ => ?_
    exact (plainPredicate_failsOnly "" _).bind fun _ _ => failsOnly_ok _

end Compile

/-- A tree read with one catalog and staged on a pipeline with another is looked up again by name.
What is found is joined, and the first relation that is gone is the error; nothing else about a
relation is compared. The look-ups ask on the collections that the tree was read on. -/
theorem FilterCompiler.changed_catalog {c : FilterCompiler}
    (plain : ∀ v ∈ c.visitors, v.AttachesNone c.parser) {collection : String} {filter : Json}
    {nodes : List Node} (parsed : (c.parse collection filter).result = .ok nodes) (s : Staging) :
    Compile.Rechecked nodes s ∧
      ((∀ v ∈ c.visitors, v.InPlace c.parser) → s.collection = collection →
        ∀ site ∈ Node.joinSites [] nodes, site.call.owner s = site.info.collection ∧
          c.catalog.relation? site.info.collection site.relation.name = some site.relation) := by
  constructor
  · exact Compile.stage_rechecked (c.parse_attaches_none plain parsed) s
  · intro inPlace home site inside
    have agrees := Node.joinSites_agree (c.parse_home inPlace parsed) site inside
    exact ⟨agrees.owner home, agrees.known⟩

def postReader : FilterCompiler := ⟨Catalog.posts, [], {}⟩

def memberPosts : Staging where
  collection := "Post"
  catalog := ⟨[("Post", ⟨"author", "Member", "authorId", "_id", .one⟩)]⟩

def barePosts : Staging := { collection := "Post", catalog := .empty }

def authorFilter : Json := .obj [("author", .obj [("name", .str "Ann")])]

def invalidTitleFilter : Json :=
  .obj [("title_between", .int 3), ("author", .obj [("name", .str "Ann")])]

-- A changed relation is joined as the later catalog has it. Where it is gone, an invalid operand
-- beside it is reported first.
theorem changed_catalog_undetected :
    (∃ nodes t, (postReader.parse "Post" authorFilter).result = .ok nodes ∧
      (stage nodes memberPosts).result = .ok t ∧
      ∃ site ∈ Node.joinSites [] nodes, site.found? memberPosts ≠ some site.relation ∧
        ∀ join ∈ t.lookups, join.output = site.output → join.relation ≠ site.relation) ∧
    ∃ nodes, (postReader.parse "Post" invalidTitleFilter).result = .ok nodes ∧
      (∃ site ∈ Node.joinSites [] nodes, site.found? barePosts = none) ∧
      (stage nodes barePosts).result =
        .error (.invalidOperand "title" "between" "expected a two-element [min, max] list") := by
  refine ⟨⟨_, _, rfl, rfl, _, List.mem_singleton_self _, ?_, ?_⟩,
    ⟨_, rfl, ⟨_, List.mem_singleton_self _, rfl⟩, rfl⟩⟩
  · decide
  · decide

theorem authorFilter_rechecked :
    (∀ v ∈ postReader.visitors, v.AttachesNone postReader.parser) ∧
    ∃ nodes, (postReader.parse "Post" authorFilter).result = .ok nodes ∧
      Rechecked nodes memberPosts ∧ Rechecked nodes barePosts ∧
      (stage nodes barePosts).result = .error (.catalogInconsistent "Post" "author") := by
  have unvisited : ∀ v ∈ postReader.visitors, v.AttachesNone postReader.parser := nofun
  have parsed : ∃ nodes, (postReader.parse "Post" authorFilter).result = .ok nodes ∧
      (stage nodes barePosts).result = .error (.catalogInconsistent "Post" "author") :=
    ⟨_, rfl, rfl⟩
  obtain ⟨nodes, parsed, failed⟩ := parsed
  have changed (s : Staging) := (FilterCompiler.changed_catalog unvisited parsed s).1
  exact ⟨unvisited, nodes, parsed, changed memberPosts, changed barePosts, failed⟩

end DocQuery
