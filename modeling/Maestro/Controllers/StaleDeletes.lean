import Maestro.Dao.Tables
import Maestro.Db.EventEffects
import Maestro.Data.Chunks
import Maestro.Api.Reference

/-!
# Retiring stale delete events

One call of `ReconcileStaleDeleteEvents` retires a batch of the stale delete events, and the
database decides which. However it decides, as many calls as there are batches retire them all.
-/

namespace Maestro
open Concurrent Data

section Stale

variable {s s' s₁ : State} {cutoff : Time} {e : Event}

/-- An unreconciled delete event, created before the cutoff, of a resource that was soft-deleted
before the cutoff. -/
def IsStale (s : State) (cutoff : Time) (e : Event) : Prop :=
  e.reconciledDate = none ∧ e.source = "Resources" ∧ e.eventType = .delete ∧
    e.createdAt < cutoff ∧
    ∃ row ∈ s.resources.rows, row.id = e.sourceID ∧ ∃ time ∈ row.deletedAt, time < cutoff

instance (s : State) (cutoff : Time) : DecidablePred (IsStale s cutoff) := fun e => by
  unfold IsStale
  infer_instance

/-- The inner query finds the resource of an event when its row is deleted before the cutoff. -/
theorem deletedBefore_iff (s : State) (cutoff : Time) (id : String) :
    (((s.resources.find id).bind ResourceRow.deletedAt).any fun t => decide (t < cutoff)) = true ↔
      ∃ row ∈ s.resources.rows, row.id = id ∧ ∃ time ∈ row.deletedAt, time < cutoff := by
  constructor
  · intro h
    obtain ⟨time,htime,hlt⟩ := (Option.any_eq_true _ _).mp h
    obtain ⟨row,hfind,hdel⟩ := Option.bind_eq_some_iff.mp htime
    exact ⟨row,Table.find_some_mem hfind,Table.find_some_key hfind,time,hdel,
      of_decide_eq_true hlt⟩
  · rintro ⟨row,hrow,rfl,time,hdel,hlt⟩
    rw [Table.find_of_mem hrow]
    exact (Option.any_eq_true _ _).mpr ⟨time,hdel,decide_eq_true hlt⟩

theorem staleDeleteEvents_eq (s : State) (cutoff : Time) :
    s.staleDeleteEvents cutoff = s.events.rows.filter fun e => IsStale s cutoff e := by
  refine List.filter_congr fun e _ => ?_
  rw [decide_eq_decide,deletedBefore_iff,IsStale]
  tauto

theorem mem_staleDeleteEvents :
    e ∈ s.staleDeleteEvents cutoff ↔ e ∈ s.events.rows ∧ IsStale s cutoff e := by
  rw [staleDeleteEvents_eq,List.mem_filter,decide_eq_true_iff]

/-- Only the resources decide whether an event is stale. -/
theorem IsStale.congr (h : s'.resources = s.resources) :
    IsStale s' cutoff e ↔ IsStale s cutoff e := by
  rw [IsStale,IsStale,h]

/-- The rows that a step changed. -/
def changedEvents (s s' : State) : List Event :=
  s.events.rows.filter fun e => s'.events.find e.id ≠ some e

/-- Between two states nothing but the reconciled date, and the time of the update, of stale
events has changed. -/
structure Retires (cutoff : Time) (s s' : State) : Prop where
  resources : s'.resources = s.resources
  statusEvents : s'.statusEvents = s.statusEvents
  ids : s'.events.rows.map Event.id = s.events.rows.map Event.id
  rows : ∀ e ∈ s.events.rows, s'.events.find e.id = some e ∨ IsStale s cutoff e ∧
    ∃ date now, s'.events.find e.id = some { e with reconciledDate := some date, updatedAt := now }

theorem Retires.refl (cutoff : Time) (s : State) : Retires cutoff s s :=
  ⟨rfl,rfl,rfl,fun _ he => .inl (Table.find_of_mem he)⟩

theorem Retires.trans (h₁ : Retires cutoff s s₁) (h₂ : Retires cutoff s₁ s') :
    Retires cutoff s s' := by
  refine ⟨h₂.resources.trans h₁.resources,h₂.statusEvents.trans h₁.statusEvents,
    h₂.ids.trans h₁.ids,?_⟩
  intro e he
  rcases h₁.rows e he with hsame | ⟨hstale,date,now,hfind⟩
  · rcases h₂.rows e (Table.find_some_mem hsame) with hsame' | ⟨hstale,date,now,hfind⟩
    · exact .inl hsame'
    · exact .inr ⟨(IsStale.congr h₁.resources).mp hstale,date,now,hfind⟩
  · refine .inr ⟨hstale,date,now,?_⟩
    -- what is retired is no longer stale, so the second step leaves it alone
    rcases h₂.rows _ (Table.find_some_mem hfind) with hsame | ⟨hstale',-⟩
    · exact hsame
    · cases hstale'.1

/-- When no stale event is left, exactly the stale ones have been retired. -/
theorem Retires.all (h : Retires cutoff s s') (hnone : ∀ e ∈ s'.events.rows, ¬ IsStale s' cutoff e)
    (he : e ∈ s.events.rows) (hstale : IsStale s cutoff e) :
    ∃ date now, s'.events.find e.id =
      some { e with reconciledDate := some date, updatedAt := now } := by
  rcases h.rows e he with hsame | ⟨-,hfind⟩
  · exact absurd ((IsStale.congr h.resources).mpr hstale) (hnone e (Table.find_some_mem hsame))
  · exact hfind

end Stale

section Batch

variable {s : State} {cutoff : Time} {picked : List Event}

theorem setReconciled_ne_iff {date now : Time} {e : Event} (h : ∀ e ∈ picked, IsStale s cutoff e) :
    e.setReconciled picked date now ≠ e ↔ e ∈ picked := by
  unfold Event.setReconciled
  split
  · next hmem =>
    refine iff_of_true ?_ hmem
    intro he
    have hdate : some date = e.reconciledDate := congrArg Event.reconciledDate he
    cases hdate.trans (h e hmem).1
  · next hmem => simpa using hmem

/-- The events that are still stale after a batch. -/
theorem isStale_setReconciled {date now : Time} {e : Event} :
    IsStale s cutoff (e.setReconciled picked date now) ↔ IsStale s cutoff e ∧ e ∉ picked := by
  unfold Event.setReconciled
  split
  · next hmem => simp [IsStale,hmem]
  · next hmem => simp [hmem]

variable (t : ℕ) (date now : Time)

theorem retires_retireEvents (h : ∀ e ∈ picked, IsStale s cutoff e) :
    Retires cutoff s (s.retireEvents t picked date now) := by
  refine ⟨rfl,rfl,?_,?_⟩
  · show (s.events.rows.map _).map Event.id = _
    rw [List.map_map]
    exact List.map_congr_left fun e _ => Event.setReconciled_id _ _ _ e
  · intro e he
    rw [State.find_retireEvents,Table.find_of_mem he,Option.map_some,Event.setReconciled]
    by_cases hmem : e ∈ picked
    · rw [if_pos hmem]
      exact .inr ⟨h e hmem,date,now,rfl⟩
    · exact .inl (by rw [if_neg hmem])

theorem changedEvents_retireEvents (h : ∀ e ∈ picked, IsStale s cutoff e) :
    changedEvents s (s.retireEvents t picked date now) =
      s.events.rows.filter fun e => e ∈ picked := by
  refine List.filter_congr fun e he => ?_
  rw [State.find_retireEvents,Table.find_of_mem he,Option.map_some,decide_eq_decide,
    Ne,Option.some.injEq]
  exact setReconciled_ne_iff h

/-- Picking rows of a list without repetition keeps their number. -/
theorem length_filter_mem {α : Type} [DecidableEq α] {xs picked : List α} (hxs : xs.Nodup)
    (hpicked : picked.Nodup) (h : ∀ a ∈ picked, a ∈ xs) :
    (xs.filter fun a => a ∈ picked).length = picked.length := by
  refine ((List.perm_ext_iff_of_nodup (hxs.filter _) hpicked).mpr fun a => ?_).length_eq
  rw [List.mem_filter,decide_eq_true_iff]
  exact and_iff_right_of_imp (h a)

theorem events_nodup (s : State) : s.events.rows.Nodup := List.Nodup.of_map _ s.events.nodup

theorem staleDeleteEvents_nodup (s : State) (cutoff : Time) : (s.staleDeleteEvents cutoff).Nodup :=
  (events_nodup s).filter _

/-- A batch takes its events off the stale ones. -/
theorem length_stale_retireEvents (hsub : ∀ e ∈ picked, e ∈ s.staleDeleteEvents cutoff)
    (hnodup : picked.Nodup) :
    ((s.retireEvents t picked date now).staleDeleteEvents cutoff).length =
      (s.staleDeleteEvents cutoff).length - picked.length := by
  have hrows : (s.retireEvents t picked date now).staleDeleteEvents cutoff =
      ((s.staleDeleteEvents cutoff).filter fun e => e ∉ picked).map
        (Event.setReconciled picked date now) := by
    rw [staleDeleteEvents_eq,staleDeleteEvents_eq]
    show (s.events.rows.map _).filter _ = _
    rw [List.filter_map,List.filter_filter]
    refine congrArg (List.map _) (List.filter_congr fun e _ => ?_)
    show decide (IsStale s cutoff (e.setReconciled picked date now)) = _
    simp [isStale_setReconciled,Bool.and_comm]
  have hsplit := List.length_eq_length_filter_add (l := s.staleDeleteEvents cutoff)
    fun e => decide (e ∈ picked)
  rw [length_filter_mem (staleDeleteEvents_nodup s cutoff) hnodup hsub] at hsplit
  rw [hrows,List.length_map,hsplit]
  simp

end Batch

section Calls

variable {t : ℕ} {env : ℕ → Choice} (s : State) (cutoff : Time)

/-- One call: the database picks a batch of the stale events. -/
theorem eval_reconcileStaleDeleteEvents (hfault : ∀ n c, (env n).fault c = none)
    (horder : ∀ n events, ((env n).order events).Perm events) :
    ∃ picked date now, Prog.eval (exec t) env (EventDao.reconcileStaleDeleteEvents cutoff) s =
        some (.ok picked.length,s.retireEvents t picked date now) ∧
      picked.Nodup ∧ (∀ e ∈ picked, e ∈ s.staleDeleteEvents cutoff) ∧
      picked.length = min (s.staleDeleteEvents cutoff).length staleDeleteReconcileBatchSize := by
  have hperm := horder 1 (s.staleDeleteEvents cutoff)
  refine ⟨((env 1).order (s.staleDeleteEvents cutoff)).take staleDeleteReconcileBatchSize,
    (env 0).now,(env 1).now,?_,?_,?_,?_⟩
  · have hnow : exec t (env 0) .now s = some ((env 0).now,s) := exec_of_no_fault (hfault _ _) s
    have hupdate := exec_of_no_fault (t := t)
      (hfault 1 (.reconcileStaleDeleteEvents cutoff (env 0).now)) s
    simp only [commit,hperm,if_true] at hupdate
    simp only [EventDao.reconcileStaleDeleteEvents,timeNow,flagging,Prog.lift_bind,Prog.eval,hnow,
      hupdate,Nat.zero_add]
    rfl
  · exact (hperm.nodup_iff.mpr (staleDeleteEvents_nodup s cutoff)).sublist (List.take_sublist _ _)
  · exact fun e he => hperm.mem_iff.mp (List.mem_of_mem_take he)
  · rw [List.length_take,hperm.length_eq,Nat.min_comm]

/-- Successive calls with one cutoff. -/
def reconcileTimes (cutoff : Time) : ℕ → M (List (Except DbErr ℕ))
  | 0 => return []
  | calls+1 => do
    let count ← EventDao.reconcileStaleDeleteEvents cutoff
    let counts ← reconcileTimes cutoff calls
    return count :: counts

/-- Enough calls leave no stale event, whichever events each of them picks. -/
theorem eval_reconcileTimes {env : ℕ → Choice} {calls : ℕ} {s : State}
    (hfault : ∀ n c, (env n).fault c = none)
    (horder : ∀ n events, ((env n).order events).Perm events)
    (hcalls : (s.staleDeleteEvents cutoff).length ≤ calls * staleDeleteReconcileBatchSize) :
    ∃ (counts : List ℕ) (s' : State), Prog.eval (exec t) env (reconcileTimes cutoff calls) s =
        some (counts.map .ok,s') ∧ counts.sum = (s.staleDeleteEvents cutoff).length ∧
      Retires cutoff s s' ∧ s'.staleDeleteEvents cutoff = [] := by
  induction calls generalizing env s with
  | zero =>
    have hnone : (s.staleDeleteEvents cutoff).length = 0 := by omega
    exact ⟨[],s,rfl,hnone.symm,.refl cutoff s,List.eq_nil_of_length_eq_zero hnone⟩
  | succ calls ih =>
    obtain ⟨picked,date,now,heval,hnodup,hsub,hlen⟩ :=
      eval_reconcileStaleDeleteEvents (t := t) s cutoff hfault horder
    obtain ⟨m,hm⟩ := Prog.eval_bind_of heval
    have hleft := length_stale_retireEvents t date now hsub hnodup
    have hrest : ((s.retireEvents t picked date now).staleDeleteEvents cutoff).length ≤
        calls * staleDeleteReconcileBatchSize := by
      rw [Nat.succ_mul] at hcalls
      omega
    obtain ⟨counts,s',heval',hsum,hret,hnil⟩ :=
      ih (fun n => hfault (n+m)) (fun n => horder (n+m)) hrest
    obtain ⟨m',hm'⟩ := Prog.eval_bind_of heval'
    refine ⟨picked.length :: counts,s',?_,?_,?_,hnil⟩
    · rw [reconcileTimes,hm,hm']
      rfl
    · rw [List.sum_cons,hsum,hleft]
      omega
    · exact (retires_retireEvents t date now fun e he =>
        (mem_staleDeleteEvents.mp (hsub e he)).2).trans hret

/-- The number of stale events. -/
def staleCount (s : State) (cutoff : Time) : ℕ := s.events.rows.countP fun e => IsStale s cutoff e

theorem length_staleDeleteEvents : (s.staleDeleteEvents cutoff).length = staleCount s cutoff := by
  rw [staleDeleteEvents_eq,staleCount,List.countP_eq_length_filter]

/-- One call retires a full batch of the stale events, or all of them, returns how many, and
changes nothing else; and as many calls as there are batches retire every stale event. -/
theorem reconcileStaleDeleteEvents_drains (hfault : ∀ n c, (env n).fault c = none)
    (horder : ∀ n events, ((env n).order events).Perm events) :
    (∃ s', Prog.eval (exec t) env (EventDao.reconcileStaleDeleteEvents cutoff) s =
        some (.ok (min (staleCount s cutoff) staleDeleteReconcileBatchSize),s') ∧
      Retires cutoff s s' ∧
      (changedEvents s s').length = min (staleCount s cutoff) staleDeleteReconcileBatchSize) ∧
    ∃ (counts : List ℕ) (s' : State), Prog.eval (exec t) env
        (reconcileTimes cutoff (staleCount s cutoff ⌈/⌉ staleDeleteReconcileBatchSize)) s =
          some (counts.map .ok,s') ∧
      counts.sum = staleCount s cutoff ∧ Retires cutoff s s' ∧
      ∀ e ∈ s.events.rows, IsStale s cutoff e → ∃ date now, s'.events.find e.id =
        some { e with reconciledDate := some date, updatedAt := now } := by
  constructor
  · obtain ⟨picked,date,now,heval,hnodup,hsub,hlen⟩ :=
      eval_reconcileStaleDeleteEvents (t := t) s cutoff hfault horder
    have hstale : ∀ e ∈ picked, IsStale s cutoff e := fun e he =>
      (mem_staleDeleteEvents.mp (hsub e he)).2
    rw [length_staleDeleteEvents] at hlen
    refine ⟨s.retireEvents t picked date now,hlen ▸ heval,
      retires_retireEvents t date now hstale,?_⟩
    rw [changedEvents_retireEvents t date now hstale,← hlen]
    exact length_filter_mem (events_nodup s) hnodup fun e he =>
      (mem_staleDeleteEvents.mp (hsub e he)).1
  · have hcalls : (s.staleDeleteEvents cutoff).length ≤
        (staleCount s cutoff ⌈/⌉ staleDeleteReconcileBatchSize) * staleDeleteReconcileBatchSize := by
      rw [length_staleDeleteEvents,Nat.mul_comm]
      exact (ceilDiv_le_iff_le_mul (by decide)).mp le_rfl
    obtain ⟨counts,s',heval,hsum,hret,hnil⟩ :=
      eval_reconcileTimes (t := t) cutoff hfault horder hcalls
    refine ⟨counts,s',heval,hsum.trans (length_staleDeleteEvents s cutoff),hret,?_⟩
    intro e he hstale
    refine hret.all (fun e' he' hstale' => ?_) he hstale
    have hmem := mem_staleDeleteEvents.mpr ⟨he',hstale'⟩
    rw [hnil] at hmem
    cases hmem

end Calls

/-- A resource that was soft-deleted long ago, with its delete event. -/
def staleState : State where
  resources := ⟨[{ Reference.webRow with deletedAt := some 1 }],by decide⟩
  events := ⟨[{ id := "e", source := "Resources", sourceID := "web", eventType := .delete }],
    by decide⟩

theorem reconcileStaleDeleteEvents_drains_web :
    staleCount staleState 5 = 1 ∧ ∃ (counts : List ℕ) (s' : State), counts.sum = 1 ∧
      Prog.eval (exec 0) (Choice.counting fun _ => none) (reconcileTimes 5 1) staleState =
        some (counts.map .ok,s') := by
  have hcount : staleCount staleState 5 = 1 := by decide
  obtain ⟨-,counts,s',heval,hsum,-⟩ := reconcileStaleDeleteEvents_drains (t := 0) staleState 5
    (fun n c => (rfl : (Choice.counting (fun _ => none) n).fault c = none))
    (fun n events => List.Perm.refl events)
  rw [hcount] at heval hsum
  exact ⟨hcount,counts,s',hsum,heval⟩

end Maestro
