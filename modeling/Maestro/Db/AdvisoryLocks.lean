import Maestro.Db.Store

/-!
# The lock factory

`AdvisoryLockFactory` with its store and the transactions that it begins. The calls are in
any order and each is answered in any way; every owner ID that a lock call returned is
unlocked later. A transaction stays open exactly when its lock statement failed.
-/

namespace Maestro
open Data

/-- `AdvisoryLock`. The fields are nil once it is unlocked; `g2` is the number of its transaction. -/
structure AdvisoryLock where
  g2 : Option ℕ := none
  uuid : Option String := none
  id : Option String := none
  lockType : Option LockType := none
deriving DecidableEq

/-- The transactions of a session factory: how many were begun, and which are open. -/
structure Transactions where
  begun : ℕ := 0
  running : List ℕ := []
deriving DecidableEq

/-- `AdvisoryLockFactory`. The store maps owner IDs to locks. -/
structure AdvisoryLockFactory where
  connection : Transactions := {}
  lockStore : Table (Prod.fst : String × AdvisoryLock → String) := .empty
deriving DecidableEq

/-- What happens during one lock call: the UUID that is generated, whether the transaction cannot
be begun, whether the lock statement fails, and else whether it obtains the lock. -/
structure LockOutcome where
  uuid : String
  beginErr : Option DbErr := none
  lockErr : Option DbErr := none
  acquired : Bool := true

namespace AdvisoryLock

/-- The checks before a lock statement. -/
def check (l : AdvisoryLock) : Except String Unit :=
  if l.g2.isNone then
    .error "AdvisoryLock: transaction is missing"
  else if l.id.isNone then
    .error "AdvisoryLock: id is missing"
  else if l.lockType.isNone then
    .error "AdvisoryLock: lockType is missing"
  else
    .ok ()

def lock (l : AdvisoryLock) (lockErr : Option DbErr) : Except String Unit :=
  match l.check with
  | .error err => .error err
  | .ok () =>
    match lockErr with
    | some err => .error err.error
    | none => .ok ()

def nonBlockingLock (l : AdvisoryLock) (lockErr : Option DbErr) (acquired : Bool) :
    Except String Bool :=
  match l.check with
  | .error err => .error err
  | .ok () =>
    match lockErr with
    | some err => .error err.error
    | none => .ok acquired

/-- `unlock`: the commit is attempted, whatever its result. -/
def unlock (l : AdvisoryLock) (tx : Transactions) (commitErr : Option DbErr) :
    Option String × Transactions :=
  match l.g2 with
  | none => (some "AdvisoryLock: transaction is missing",tx)
  | some g2 => (commitErr.map DbErr.error,{ tx with running := tx.running.erase g2 })

end AdvisoryLock

namespace AdvisoryLockFactory

def newLock (f : AdvisoryLockFactory) (id : String) (lockType : LockType) (o : LockOutcome) :
    Except DbErr AdvisoryLock × AdvisoryLockFactory :=
  match o.beginErr with
  | some err => (.error err,f)
  | none =>
    let tx := f.connection
    (.ok ⟨some tx.begun,some o.uuid,some id,some lockType⟩,
      { f with connection := ⟨tx.begun + 1,tx.begun :: tx.running⟩ })

/-- The owner ID and the error. -/
def newAdvisoryLock (f : AdvisoryLockFactory) (id : String) (lockType : LockType)
    (o : LockOutcome) : (String × Option String) × AdvisoryLockFactory :=
  match f.newLock id lockType o with
  | (.error err,f) => (("",some err.error),f)
  | (.ok lock,f) =>
    match lock.lock o.lockErr with
    | .error err => ((o.uuid,some ("error obtaining the advisory lock for id " ++ id ++ " type " ++
        lockType.text ++ ", " ++ err)),f)
    | .ok () => ((o.uuid,none),{ f with lockStore := f.lockStore.save (o.uuid,lock) })

/-- The owner ID, whether the lock was obtained, and the error. -/
def newNonBlockingLock (f : AdvisoryLockFactory) (id : String) (lockType : LockType)
    (o : LockOutcome) : (String × Bool × Option String) × AdvisoryLockFactory :=
  match f.newLock id lockType o with
  | (.error err,f) => (("",false,some err.error),f)
  | (.ok lock,f) =>
    match lock.nonBlockingLock o.lockErr o.acquired with
    | .error err => ((o.uuid,false,some ("error obtaining the non blocking advisory lock for id " ++
        id ++ " type " ++ lockType.text ++ ", " ++ err)),f)
    | .ok acquired =>
      ((o.uuid,acquired,none),{ f with lockStore := f.lockStore.save (o.uuid,lock) })

def unlock (f : AdvisoryLockFactory) (uuid : String) (commitErr : Option DbErr) :
    AdvisoryLockFactory :=
  if uuid = "" then
    f
  else
    match f.lockStore.find uuid with
    | none => f
    | some (_,lock) => ⟨(lock.unlock f.connection commitErr).2,f.lockStore.erase uuid⟩

end AdvisoryLockFactory

/-- A call of the lock factory. -/
inductive LockCall
  | newAdvisoryLock (id : String) (lockType : LockType) (o : LockOutcome)
  | newNonBlockingLock (id : String) (lockType : LockType) (o : LockOutcome)
  | unlock (uuid : String) (commitErr : Option DbErr)

namespace LockCall

def outcome : LockCall → Option LockOutcome
  | .newAdvisoryLock _ _ o => some o
  | .newNonBlockingLock _ _ o => some o
  | .unlock _ _ => none

def unlocks (owner : String) : LockCall → Bool
  | .unlock uuid _ => uuid = owner
  | _ => false

/-- The owner ID that a lock call returns, and the factory afterwards. -/
def apply (f : AdvisoryLockFactory) : LockCall → Option String × AdvisoryLockFactory
  | .newAdvisoryLock id lockType o =>
    let r := f.newAdvisoryLock id lockType o
    (some r.1.1,r.2)
  | .newNonBlockingLock id lockType o =>
    let r := f.newNonBlockingLock id lockType o
    (some r.1.1,r.2)
  | .unlock uuid commitErr => (none,f.unlock uuid commitErr)

/-- The transaction was begun and its lock statement failed. -/
def statementFails (c : LockCall) : Bool :=
  c.outcome.any fun o => o.beginErr.isNone && o.lockErr.isSome

end LockCall

/-- The factory after a sequence of calls. -/
def AdvisoryLockFactory.run : AdvisoryLockFactory → List LockCall → AdvisoryLockFactory
  | f, [] => f
  | f, c :: calls => (c.apply f).2.run calls

/-- The transactions of the calls whose lock statement failed. -/
def leaked : AdvisoryLockFactory → List LockCall → List ℕ
  | _, [] => []
  | f, c :: calls =>
    (if c.statementFails then [f.connection.begun] else []) ++ leaked (c.apply f).2 calls

/-- UUIDs are new, and every owner ID that a lock call returned is unlocked later. -/
def Deferred : AdvisoryLockFactory → List LockCall → Prop
  | _, [] => True
  | f, c :: calls => (∀ o ∈ c.outcome, o.uuid ≠ "" ∧ f.lockStore.find o.uuid = none) ∧
    (∀ owner ∈ (c.apply f).1, calls.any (LockCall.unlocks owner)) ∧ Deferred (c.apply f).2 calls

instance decidableDeferred : (f : AdvisoryLockFactory) → (calls : List LockCall) →
    Decidable (Deferred f calls)
  | _, [] => .isTrue trivial
  | f, c :: calls =>
    have := decidableDeferred (c.apply f).2 calls
    inferInstanceAs (Decidable (_ ∧ _ ∧ _))

section Runs

variable {f : AdvisoryLockFactory} {c : LockCall} {calls : List LockCall}

/-- What a call does to the transactions and to the store. -/
inductive LockStep (f : AdvisoryLockFactory) : LockCall → Option String × AdvisoryLockFactory → Prop
  | refused {c : LockCall} {o : LockOutcome} (ho : c.outcome = some o) (hb : o.beginErr.isSome) :
      LockStep f c (some "",f)
  | failed {c : LockCall} {o : LockOutcome} (ho : c.outcome = some o) (hf : c.statementFails) :
      LockStep f c (some o.uuid,
        { f with connection := ⟨f.connection.begun + 1,f.connection.begun :: f.connection.running⟩ })
  | stored {c : LockCall} {o : LockOutcome} {lock : AdvisoryLock} (ho : c.outcome = some o)
      (hf : c.statementFails = false) (hl : lock.g2 = some f.connection.begun) :
      LockStep f c (some o.uuid,
        ⟨⟨f.connection.begun + 1,f.connection.begun :: f.connection.running⟩,
          f.lockStore.save (o.uuid,lock)⟩)
  | unlocked (uuid : String) (commitErr : Option DbErr) :
      LockStep f (.unlock uuid commitErr) (none,f.unlock uuid commitErr)

theorem lockStep (f : AdvisoryLockFactory) (c : LockCall) : LockStep f c (c.apply f) := by
  cases c with
  | newAdvisoryLock id lockType o =>
    simp only [LockCall.apply,AdvisoryLockFactory.newAdvisoryLock,AdvisoryLockFactory.newLock]
    cases hb : o.beginErr with
    | some err => exact .refused rfl (by simp [hb])
    | none =>
      cases hl : o.lockErr with
      | some err => exact .failed rfl (by simp [LockCall.statementFails,LockCall.outcome,hb,hl])
      | none => exact .stored rfl (by simp [LockCall.statementFails,LockCall.outcome,hb,hl]) rfl
  | newNonBlockingLock id lockType o =>
    simp only [LockCall.apply,AdvisoryLockFactory.newNonBlockingLock,AdvisoryLockFactory.newLock]
    cases hb : o.beginErr with
    | some err => exact .refused rfl (by simp [hb])
    | none =>
      cases hl : o.lockErr with
      | some err => exact .failed rfl (by simp [LockCall.statementFails,LockCall.outcome,hb,hl])
      | none => exact .stored rfl (by simp [LockCall.statementFails,LockCall.outcome,hb,hl]) rfl
  | unlock uuid commitErr => exact .unlocked uuid commitErr

/-- The open transactions are those that failed before and those of the locks in the store, each of
which is still to be unlocked. -/
structure Accounted (f : AdvisoryLockFactory) (failed : List ℕ) (calls : List LockCall) : Prop where
  running : f.connection.running.Perm (failed ++ f.lockStore.rows.filterMap fun p => p.2.g2)
  pending : ∀ p ∈ f.lockStore.rows, p.1 ≠ "" ∧ calls.any (LockCall.unlocks p.1)

/-- A call that unlocks nothing of the store is not waited for. -/
theorem Accounted.tail {failed : List ℕ} (h : Accounted f failed (c :: calls))
    (hc : ∀ p ∈ f.lockStore.rows, c.unlocks p.1 = false) : Accounted f failed calls := by
  refine ⟨h.running,fun p hp => ⟨(h.pending p hp).1,?_⟩⟩
  have hany := (h.pending p hp).2
  rwa [List.any_cons,hc p hp,Bool.false_or] at hany

theorem Accounted.unlock {failed : List ℕ} {uuid : String} {commitErr : Option DbErr}
    (h : Accounted f failed (.unlock uuid commitErr :: calls)) :
    Accounted (f.unlock uuid commitErr) failed calls := by
  have hskip : (∀ p ∈ f.lockStore.rows, p.1 ≠ uuid) → Accounted f failed calls := fun hne =>
    h.tail fun p hp => decide_eq_false (Ne.symm (hne p hp))
  unfold AdvisoryLockFactory.unlock
  split
  · next hu =>
    subst hu
    exact hskip fun p hp => (h.pending p hp).1
  · split
    · next hnone => exact hskip (Table.find_eq_none_iff.mp hnone)
    · next key lock hfind =>
      have hrows := Table.perm_erase hfind
      refine ⟨?_,fun p hp => ?_⟩
      · have hrun := h.running.trans ((hrows.filterMap fun p => p.2.g2).append_left failed)
        unfold AdvisoryLock.unlock
        cases hg : lock.g2 with
        | none => simpa [hg] using hrun
        | some tx =>
          rw [List.filterMap_cons_some (by exact hg)] at hrun
          have herase := (hrun.trans List.perm_middle).erase tx
          rwa [List.erase_cons_head] at herase
      · obtain ⟨hp,hne⟩ := List.mem_filter.mp hp
        refine ⟨(h.pending p hp).1,?_⟩
        have hany := (h.pending p hp).2
        have hno : (LockCall.unlock uuid commitErr).unlocks p.1 = false :=
          decide_eq_false (Ne.symm (of_decide_eq_true hne))
        rwa [List.any_cons,hno,Bool.false_or] at hany

/-- One call, and what it leaks. -/
theorem Accounted.step {failed : List ℕ} (hd : Deferred f (c :: calls))
    (h : Accounted f failed (c :: calls)) :
    Accounted (c.apply f).2 (failed ++ if c.statementFails then [f.connection.begun] else []) calls := by
  obtain ⟨hfresh,howner,-⟩ := hd
  have hlock : ∀ {o}, c.outcome = some o → Accounted f failed calls := fun ho =>
    h.tail fun p hp => by cases c <;> first | rfl | cases ho
  have hstep := lockStep f c
  generalize c.apply f = r at hstep howner
  cases hstep with
  | @refused _ o ho hb =>
    obtain ⟨err,he⟩ := Option.isSome_iff_exists.mp hb
    have hno : c.statementFails = false := by simp [LockCall.statementFails,ho,he]
    simpa [hno] using hlock ho
  | failed ho hf =>
    obtain ⟨hrun,hpend⟩ := hlock ho
    refine ⟨?_,hpend⟩
    rw [if_pos hf,List.append_assoc]
    exact (hrun.cons _).trans List.perm_middle.symm
  | @stored _ o lock ho hf hl =>
    obtain ⟨hrun,hpend⟩ := hlock ho
    obtain ⟨hne,hnone⟩ := hfresh o (by rw [ho]; rfl)
    have hsave : f.lockStore.save (o.uuid,lock) = f.lockStore.insert (o.uuid,lock) hnone :=
      dif_pos hnone
    rw [hf,hsave,if_neg Bool.false_ne_true,List.append_nil]
    refine ⟨?_,fun p hp => ?_⟩
    · have hg : [(o.uuid,lock)].filterMap (fun p => p.2.g2) = [f.connection.begun] := by simp [hl]
      simp only [Table.insert,List.filterMap_append,hg]
      rw [← List.append_assoc]
      exact (hrun.cons _).trans (List.perm_append_singleton _ _).symm
    · rcases List.mem_append.mp hp with hp | hp
      · exact hpend p hp
      · rw [List.mem_singleton.mp hp]
        exact ⟨hne,howner o.uuid rfl⟩
  | unlocked uuid commitErr =>
    have hno : (LockCall.unlock uuid commitErr).statementFails = false := rfl
    simpa [hno] using h.unlock

/-- After the last call the store is empty, and the transactions that are still open are those whose
lock statement failed. -/
theorem Accounted.run {failed : List ℕ} (hd : Deferred f calls) (h : Accounted f failed calls) :
    (f.run calls).lockStore.rows = [] ∧
      (f.run calls).connection.running.Perm (failed ++ leaked f calls) := by
  induction calls generalizing f failed with
  | nil =>
    have hnil : f.lockStore.rows = [] := by
      refine List.eq_nil_iff_forall_not_mem.mpr fun p hp => ?_
      obtain ⟨-,hm⟩ := h.pending p hp
      cases hm
    refine ⟨hnil,?_⟩
    have hrun := h.running
    rwa [hnil] at hrun
  | cons c calls ih =>
    have hrest := ih hd.2.2 (h.step hd)
    rwa [List.append_assoc] at hrest

theorem leaked_eq_nil : leaked f calls = [] ↔ ∀ c ∈ calls, c.statementFails = false := by
  induction calls generalizing f with
  | nil => simp [leaked]
  | cons c calls ih => cases hf : c.statementFails <;> simp [leaked,hf,ih]

end Runs

end Maestro
