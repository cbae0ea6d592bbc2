import Maestro.Server.Publish
import Maestro.Api.Reference

/-!
# The answer to a status resync

A status resync names the hashes that a source has last seen. The answer is broadcast: the
resources of the source whose status has moved on, or all of them when no hash is given.
-/

namespace Maestro
open Concurrent Data

/-- The hash given with the first occurrence of an ID. -/
def FirstHash (hashes : List (String × String)) (id hash : String) : Prop :=
  ∃ before after, hashes = before ++ (id,hash) :: after ∧ ∀ h ∈ before, h.1 ≠ id

theorem findStatusHash_eq_some {id hash : String} {hashes : List (String × String)} :
    findStatusHash id hashes = some hash ↔ FirstHash hashes id hash := by
  rw [findStatusHash,Option.map_eq_some_iff]
  constructor
  · rintro ⟨⟨id',hash'⟩,hfind,rfl⟩
    obtain ⟨hid,before,after,hsplit,hfirst⟩ := List.find?_eq_some_iff_append.mp hfind
    obtain rfl : id = id' := by simpa using hid
    refine ⟨before,after,hsplit,?_⟩
    intro h hh he
    simpa [he] using hfirst h hh
  · rintro ⟨before,after,hsplit,hfirst⟩
    refine ⟨(id,hash),List.find?_eq_some_iff_append.mpr ⟨by simp,before,after,hsplit,?_⟩,rfl⟩
    intro h hh
    simpa using (hfirst h hh).symm

variable (ext : External)

/-- What a status resync with some hashes has to answer: every resource when there is no hash,
and otherwise the resources that are named whose hash can be computed and is not the one given
first. -/
def Answered (hashes : List (String × String)) (obj : Resource) : Prop :=
  hashes = [] ∨ ∃ last current, FirstHash hashes obj.id last ∧
    resourceStatusHashGetter ext obj = .ok current ∧ current ≠ last

theorem statusChanged_iff {hashes : List (String × String)} {obj : Resource} :
    statusChanged ext hashes obj = true ↔ ∃ last current, FirstHash hashes obj.id last ∧
      resourceStatusHashGetter ext obj = .ok current ∧ current ≠ last := by
  simp only [← findStatusHash_eq_some]
  unfold statusChanged
  cases hfind : findStatusHash obj.id hashes with
  | none => simp
  | some last =>
    cases hget : resourceStatusHashGetter ext obj with
    | error err => simp
    | ok current => simp

/-- The broadcasts are the only effect of the loop. -/
theorem eval_broadcastAll {t : ℕ} {α : Type} (objs : List Resource) (k : Unit → M α)
    (env : ℕ → Choice) (s : State) (hfault : ∀ n c, (env n).fault c = none) :
    Prog.eval (exec t) env (broadcastAll objs >>= k) s =
      Prog.eval (exec t) (fun n => env (n+objs.length)) (k ())
        (s.record t (objs.map Act.broadcast)) := by
  induction objs generalizing env s with
  | nil => simp [broadcastAll,State.record]
  | cons obj objs ih =>
    have hx : exec t (env 0) (.broadcast obj) s = some ((),s.record t [.broadcast obj]) := by
      rw [exec_of_no_fault (hfault _ _)]
      rfl
    show Prog.eval (exec t) env (.call (.broadcast obj) fun _ => broadcastAll objs >>= k) s = _
    rw [Prog.eval,hx]
    dsimp only
    rw [ih _ _ fun n => hfault (n+1)]
    simp [State.record,Nat.add_assoc]

/-- The whole request: one query, and a broadcast for each resource that it picks. -/
theorem eval_respondResyncStatusRequest {t : ℕ} {env : ℕ → Choice} {evt : CloudEvent}
    {hashes : List (String × String)} (s : State) (hfault : ∀ n c, (env n).fault c = none)
    (hdecode : ext.decodeStatusResyncRequest evt = .ok hashes) :
    Prog.eval (exec t) env (respondResyncStatusRequest ext evt) s =
      some (.ok (),s.record t ((((s.resources.rows.filter fun row => row.source = evt.source).map
        ResourceRow.scan).filter fun obj => hashes.isEmpty || statusChanged ext hashes obj).map
          Act.broadcast)) := by
  have hx : exec t (env 0) (.findResourcesBySource evt.source) s = some (.ok
      ((s.resources.rows.filter fun row => row.source = evt.source).map ResourceRow.scan),s) := by
    rw [exec_of_no_fault (hfault _ _)]
    rfl
  simp only [respondResyncStatusRequest,ResourceService.findBySource,ResourceDao.findBySource,
    Prog.lift_bind,Prog.call_bind,Prog.eval,hx,Prog.pure_eq,Prog.ret_bind]
  rw [hdecode]
  cases hashes with
  | nil =>
    dsimp only
    rw [eval_broadcastAll _ _ _ _ fun n => hfault (n+1)]
    simp [Prog.eval]
  | cons h hs =>
    dsimp only
    rw [eval_broadcastAll _ _ _ _ fun n => hfault (n+1)]
    simp [Prog.eval]

/-- A status resync broadcasts, in table order and each once, the resources of its source that it
has to answer, and does nothing else. -/
theorem respondResyncStatusRequest_answers {t : ℕ} {env : ℕ → Choice} {evt : CloudEvent}
    {hashes : List (String × String)} (s : State) (hfault : ∀ n c, (env n).fault c = none)
    (hdecode : ext.decodeStatusResyncRequest evt = .ok hashes) :
    ∃ sent : List Resource, Prog.eval (exec t) env (respondResyncStatusRequest ext evt) s =
        some (.ok (),s.record t (sent.map Act.broadcast)) ∧
      sent.Sublist (s.resources.rows.map ResourceRow.scan) ∧ (sent.map Resource.id).Nodup ∧
      ∀ row ∈ s.resources.rows, row.scan ∈ sent ↔
        row.source = evt.source ∧ Answered ext hashes row.scan := by
  refine ⟨_,eval_respondResyncStatusRequest ext s hfault hdecode,?_,?_,?_⟩
  · exact List.filter_sublist.trans (List.Sublist.map _ List.filter_sublist)
  · have hids : ((s.resources.rows.map ResourceRow.scan).map Resource.id).Nodup := by
      rw [List.map_map]
      exact s.resources.nodup
    exact hids.sublist (List.Sublist.map _
      (List.filter_sublist.trans (List.Sublist.map _ List.filter_sublist)))
  · intro row hrow
    have hanswer : Answered ext hashes row.scan ↔
        (hashes.isEmpty || statusChanged ext hashes row.scan) = true := by
      rw [Answered,Bool.or_eq_true,statusChanged_iff,List.isEmpty_iff]
    rw [List.mem_filter,hanswer]
    refine and_congr_left fun _ => ?_
    constructor
    · intro hmem
      obtain ⟨row',hrow',he⟩ := List.mem_map.mp hmem
      obtain ⟨-,hsource⟩ := List.mem_filter.mp hrow'
      have hs : row'.source = row.source := congrArg Resource.source he
      rw [← hs]
      exact of_decide_eq_true hsource
    · intro hsource
      exact List.mem_map_of_mem (List.mem_filter.mpr ⟨hrow,decide_eq_true hsource⟩)

/-- A source that asks about one resource twice, and whose first hash is stale. -/
def resyncTwice : External :=
  { Reference.packages with
    decodeStatusResyncRequest := fun _ => .ok [("db","old"),("web","old"),
      ("web","e3b0c44298fc1c149afbf4c8996fb92427ae41e4649b934ca495991b7852b855")] }

def resyncEvent : CloudEvent where
  id := "resync"
  source := "src"
  type := "io.open-cluster-management.works.v1alpha1.manifestbundles.status.resync_request"

theorem respondResyncStatusRequest_answers_web : ∃ sent : List Resource,
    Prog.eval (exec 0) (Choice.counting fun _ => none)
        (respondResyncStatusRequest resyncTwice resyncEvent) (.single Reference.webRow) =
      some (.ok (),(State.single Reference.webRow).record 0 (sent.map Act.broadcast)) ∧
    Reference.webRow.scan ∈ sent := by
  obtain ⟨sent,heval,-,-,hsent⟩ := respondResyncStatusRequest_answers resyncTwice (t := 0)
    (.single Reference.webRow) (fun n c => (rfl : (Choice.counting (fun _ => none) n).fault c = none))
    (rfl : resyncTwice.decodeStatusResyncRequest resyncEvent = .ok [("db","old"),("web","old"),
      ("web","e3b0c44298fc1c149afbf4c8996fb92427ae41e4649b934ca495991b7852b855")])
  refine ⟨sent,heval,(hsent Reference.webRow (List.mem_singleton_self _)).mpr ⟨rfl,.inr ?_⟩⟩
  refine ⟨"old",_,⟨[("db","old")],_,rfl,by decide⟩,rfl,by decide⟩

end Maestro
