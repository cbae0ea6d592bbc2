import Maestro.Controllers.Framework
import Maestro.Db.AdvisoryLocks

/-!
# Locks that are taken and given back

The lock factory over sequences of calls, and the `locks` map of the lock based filter
over one `handleEvent`.
-/

namespace Maestro
open Concurrent Data

section Filter

variable {V : (c : Call) → c.Resp → Prop} {controllers : Controllers} {locks : List (String × String)}
    {id : String}

/-- What `Filter` stores is what `DeferredAction` removes. -/
theorem deferredAction_locks (owner : String) :
    ((EventFilter.lockBased ((id,owner) :: locks.filter fun p => p.1 ≠ id)).deferredAction id).Calls V
      (fun _ => True) fun h => h = .lockBased (locks.filter fun p => p.1 ≠ id) := by
  have hfind : ((id,owner) :: locks.filter fun p => p.1 ≠ id).find? (fun p => decide (p.1 = id)) =
      some (id,owner) := by simp
  simp only [EventFilter.deferredAction,hfind]
  refine (Prog.Calls.trivial (unlock owner)).bind fun _ _ => ?_
  simp [Prog.Calls]

/-- Whatever the calls answer, `handleEvent` leaves the map as it was but for the key of the event. -/
theorem handleEvent_locks :
    (handleEvent controllers (.lockBased locks) id).Calls V (fun _ => True)
      fun a => a.2 = .lockBased (locks.filter fun p => p.1 ≠ id) := by
  have hlast : ∀ owner (result : Except String Bool), ((EventFilter.lockBased
      ((id,owner) :: locks.filter fun p => p.1 ≠ id)).deferredAction id >>= fun h =>
        (pure (result,h) : M _)).Calls V (fun _ => True)
      fun a => a.2 = .lockBased (locks.filter fun p => p.1 ≠ id) :=
    fun owner result => (deferredAction_locks owner).bind fun _ h => h
  refine .lift_bind trivial fun r _ => ?_
  obtain ⟨owner,acquired,err⟩ := r
  cases err with
  | some err => exact hlast owner _
  | none =>
    cases acquired with
    | false => exact hlast owner _
    | true =>
      change (processEvent controllers id >>= fun result => (EventFilter.lockBased
        ((id,owner) :: locks.filter fun p => p.1 ≠ id)).deferredAction id >>= fun h =>
          (pure (result,h) : M _)).Calls V _ _
      exact (Prog.Calls.trivial _).bind fun result _ => hlast owner result

end Filter

/-- When every owner ID that was returned has been unlocked, the lock store is empty and every
transaction has been ended, provided that no lock statement failed; and one `handleEvent`, whatever
its calls answer, leaves the `locks` map of the lock based filter as it was. -/
theorem lock_transactions_end {calls : List LockCall} (h : Deferred {} calls) :
    (AdvisoryLockFactory.run {} calls).lockStore.rows = [] ∧
    ((AdvisoryLockFactory.run {} calls).connection.running = [] ↔
      ∀ c ∈ calls, c.statementFails = false) ∧
    ∀ (σ ω : Type) (exec : ω → (c : Call) → σ → Option (c.Resp × σ)) (env : ℕ → ω)
      (controllers : Controllers) (locks : List (String × String)) (id : String) (s s' : σ)
      (result : Except String Bool) (filter : EventFilter), (∀ p ∈ locks, p.1 ≠ id) →
      Prog.eval exec env (handleEvent controllers (.lockBased locks) id) s =
        some ((result,filter),s') → filter = .lockBased locks := by
  have hstart : Accounted {} [] calls := ⟨.refl _,fun p hp => by cases hp⟩
  obtain ⟨hstore,hrun⟩ := hstart.run h
  refine ⟨hstore,?_,?_⟩
  · rw [← leaked_eq_nil (f := {})]
    constructor
    · intro hnil
      rw [hnil] at hrun
      exact hrun.nil_eq.symm
    · intro hnil
      rw [hnil] at hrun
      exact hrun.eq_nil
  · intro σ ω exec env controllers locks id s s' result filter hid heval
    have hlocks := (Prog.eval_invariant (V := fun _ _ => True) (I := fun _ => True)
      (fun _ _ _ _ _ _ _ _ => ⟨trivial,trivial⟩) handleEvent_locks trivial heval).1
    have hsame : (locks.filter fun p => decide (p.1 ≠ id)) = locks :=
      List.filter_eq_self.mpr fun p hp => decide_eq_true (hid p hp)
    rwa [hsame] at hlocks

/-- A lock, another one that is not obtained, and a transaction that cannot be begun. -/
def balancedCalls : List LockCall :=
  [.newAdvisoryLock "web" .resources { uuid := "a" },
    .newNonBlockingLock "event" .events { uuid := "b", acquired := false },
    .unlock "a" none,
    .newNonBlockingLock "event" .events { uuid := "c", beginErr := some (.other "no connection") },
    .unlock "b" (some (.other "broken")),
    .unlock "" none]

/-- All transactions are ended, and an event handled among them leaves the filter's map as it was. -/
theorem lock_transactions_end_balanced :
    (AdvisoryLockFactory.run {} balancedCalls).lockStore.rows = [] ∧
    (AdvisoryLockFactory.run {} balancedCalls).connection.running = [] ∧
    ∀ result filter s, Prog.eval (exec 0) (Choice.counting fun _ => none)
      (handleEvent [] (.lockBased [("other","x")]) "event") {} = some ((result,filter),s) →
      filter = .lockBased [("other","x")] := by
  have hd : Deferred {} balancedCalls := by decide
  obtain ⟨hstore,hended,hfilter⟩ := lock_transactions_end hd
  refine ⟨hstore,hended.mpr (by decide),fun result filter s => ?_⟩
  exact hfilter State Choice (exec 0) _ [] [("other","x")] "event" {} s result filter (by decide)

/-- A lock statement fails: the owner ID is returned, but `Unlock` finds nothing under it. -/
def failingCalls : List LockCall :=
  [.newNonBlockingLock "event" .events { uuid := "a", lockErr := some (.other "statement timeout") },
    .unlock "a" none]

/-- The transaction stays open. -/
theorem lock_transaction_leaks :
    Deferred {} failingCalls ∧
    (AdvisoryLockFactory.run {} failingCalls).connection = ⟨1,[0]⟩ := by
  decide

end Maestro
