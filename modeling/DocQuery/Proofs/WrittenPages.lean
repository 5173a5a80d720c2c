import DocQuery.Paging.Window
import DocQuery.Proofs.WrittenValues

set_option autoImplicit false

namespace DocQuery

namespace PageArgs

open Outcome Decode

theorem restores_direction : Restores direction fun d => .str d.label := by
  intro d way _
  cases way <;> rfl

theorem restores_count : Restores count natOrNull :=
  (restores_nat64 "u64").option fun _ _ _ _ => Json.noConfusion

theorem restores_token : Restores token Json.ofOption := by
  have restores := restores_value.option (by
    rintro d v present read rfl
    exact present (Document.value?_eq_null.mp (value_eq_ok.mp read)))
  simpa [token] using restores

def sortKeyMembers (k : SortKey) : List (String × Document) :=
  [("field", .ofJson (.str k.field)), ("order", .ofJson (.str k.direction.label))]

def members (a : PageArgs) : List (String × Document) :=
  [("skip", .ofJson (natOrNull a.skip)), ("first", .ofJson (natOrNull a.first)),
    ("last", .ofJson (natOrNull a.last)), ("after", .ofJson (.ofOption a.after)),
    ("before", .ofJson (.ofOption a.before)),
    ("orderBy", .ofJson (.arr (a.orderBy.map sortKeyJson)))]

theorem ofJson_sortKeyJson (k : SortKey) :
    Document.ofJson (sortKeyJson k) = .obj (sortKeyMembers k) := rfl

theorem ofJson_toJson (a : PageArgs) : Document.ofJson a.toJson = .obj a.members := rfl

theorem restores_sortKey : Restores sortKey sortKeyJson := by
  intro d k made
  simp only [sortKey, bind_eq_ok] at made
  obtain ⟨slots, -, field, named, way, directed, made⟩ := made
  cases made
  have fieldRead := read_restored restores_string rfl named
  have orderRead := read_restored restores_direction rfl directed
  have distinct : ((sortKeyMembers ⟨field, way⟩).map (·.1)).Nodup := by simp [sortKeyMembers]
  have taken : record sortKeyShape (.obj (sortKeyMembers ⟨field, way⟩)) =
      .ok (sortKeyMembers ⟨field, way⟩) := by
    refine record_eq ?_ distinct (by simp [sortKeyShape, Decode.Field.of, sortKeyMembers])
    simp only [sortKeyMembers, List.forall_mem_cons]
    exact ⟨stands_of rfl fieldRead, stands_of rfl orderRead, by simp⟩
  have atField := read_of_mem "field" fieldRead distinct (by simp [sortKeyMembers]) ""
  have atOrder := read_of_mem "order" orderRead distinct (by simp [sortKeyMembers]) .ascending
  rw [ofJson_sortKeyJson, sortKey, taken, ok_bind, atField, ok_bind, atOrder]
  rfl

structure Rereads (a : PageArgs) : Prop where
  skip : count (.ofJson (natOrNull a.skip)) = .ok a.skip
  first : count (.ofJson (natOrNull a.first)) = .ok a.first
  last : count (.ofJson (natOrNull a.last)) = .ok a.last
  after : token (.ofJson (.ofOption a.after)) = .ok a.after
  before : token (.ofJson (.ofOption a.before)) = .ok a.before
  orderBy : Decode.list sortKey (.ofJson (.arr (a.orderBy.map sortKeyJson))) = .ok a.orderBy

theorem rereads_of_decode {d : Document} {a : PageArgs} (made : decode d = .ok a) : a.Rereads := by
  simp only [decode, bind_eq_ok] at made
  obtain ⟨slots, -, skip, skipped, first, cut, last, ended, after, follows, before, precedes,
    orderBy, ordered, made⟩ := made
  cases made
  exact {
    skip := read_restored restores_count rfl skipped
    first := read_restored restores_count rfl cut
    last := read_restored restores_count rfl ended
    after := read_restored restores_token rfl follows
    before := read_restored restores_token rfl precedes
    orderBy := read_restored restores_sortKey.list rfl ordered }

theorem Rereads.record_eq {a : PageArgs} (rereads : a.Rereads) :
    record shape (.obj a.members) = .ok a.members := by
  refine Decode.record_eq ?_ (by simp [members]) (by simp [shape, Decode.Field.of, members])
  simp only [members, List.forall_mem_cons]
  exact ⟨stands_of rfl rereads.skip, stands_of rfl rereads.first, stands_of rfl rereads.last,
    stands_of rfl rereads.after, stands_of rfl rereads.before, stands_of rfl rereads.orderBy,
    by simp⟩

theorem Rereads.decode_eq {a : PageArgs} (rereads : a.Rereads) :
    decode (.ofJson a.toJson) = .ok a := by
  have distinct : (a.members.map (·.1)).Nodup := by simp [members]
  have atSkip := read_of_mem "skip" rereads.skip distinct (by simp [members]) none
  have atFirst := read_of_mem "first" rereads.first distinct (by simp [members]) none
  have atLast := read_of_mem "last" rereads.last distinct (by simp [members]) none
  have atAfter := read_of_mem "after" rereads.after distinct (by simp [members]) none
  have atBefore := read_of_mem "before" rereads.before distinct (by simp [members]) none
  have atOrderBy := read_of_mem "orderBy" rereads.orderBy distinct (by simp [members]) []
  simp only [ofJson_toJson, decode, rereads.record_eq, ok_bind, atSkip, atFirst, atLast, atAfter,
    atBefore, atOrderBy, pure_eq_ok]

/-- Arguments that could be read are read again from what is written of them, in whichever form
they were given. So the page asked for is the same. -/
theorem decode_written {d : Document} {args : PageArgs} (read : decode d = .ok args) :
    ∃ again, decode (.ofJson args.toJson) = .ok again ∧ again = args ∧
      again.pivotToken? = args.pivotToken? ∧ Window.validate again = Window.validate args ∧
      ∀ primaryKey pivot,
        Window.ofArgs primaryKey again pivot = Window.ofArgs primaryKey args pivot :=
  ⟨args, (rereads_of_decode read).decode_eq, rfl, rfl, rfl, fun _ _ => rfl⟩

def listedPage : Document :=
  .arr [.null, .num (.int 10), .null,
    .obj [("$oid", .str "a"), ("kind", .null), ("$oid", .str "b")], .null,
    .arr [.obj [("direction", .str "ASC"), ("note", .bool true), ("field", .str "age")],
      .arr [.str "name", .null], .arr [.str "rank"]]]

def listedArgs : PageArgs :=
  { first := some 10
    after := some (.obj [("$oid", .str "b"), ("kind", .null)])
    orderBy := [⟨"age", .ascending⟩, ⟨"name", .descending⟩, ⟨"rank", .ascending⟩] }

theorem listedPage_rewritten :
    decode listedPage = .ok listedArgs ∧
      decode (.ofJson listedArgs.toJson) = .ok listedArgs := by
  have read : decode listedPage = .ok listedArgs := by rfl
  obtain ⟨again, written, rfl, -⟩ := decode_written read
  exact ⟨read, written⟩

end PageArgs

end DocQuery
