import Maestro.Db.Effects
import Maestro.Services.Resource

namespace Maestro
open Concurrent

variable {t : ℕ} {env : ℕ → Choice} {s s' : State}

/-- Flagging the transaction after an error changes nothing. -/
theorem eval_flagging {α : Type} {p : M (Except DbErr α)} {r : Except DbErr α}
    (h : Prog.eval (exec t) env (flagging p) s = some (r,s')) :
    Prog.eval (exec t) env p s = some (r,s') := by
  obtain ⟨r',s₁,m,hp,hk⟩ := Prog.eval_bind h
  cases r' with
  | error err =>
    obtain ⟨u,s₂,hm,hr⟩ := Prog.eval_call.mp hk
    rw [exec_markForRollback] at hm
    cases hm
    obtain ⟨rfl,rfl⟩ := Prog.eval_ret.mp hr
    exact hp
  | ok a =>
    obtain ⟨rfl,rfl⟩ := Prog.eval_ret.mp hk
    exact hp

theorem eval_unlock {uuid : String} (h : Prog.eval (exec t) env (unlock uuid) s = some ((),s')) :
    ∃ locks, s' = { s with locks := locks } := by
  unfold unlock at h
  split at h
  · obtain ⟨-,rfl⟩ := Prog.eval_ret.mp h
    exact ⟨s'.locks,rfl⟩
  · have hx := Prog.eval_lift.mp h
    rw [exec_unlock] at hx
    cases hx
    exact ⟨_,rfl⟩

/-- A read leaves at most its journal entry, and returns the row that it found. -/
theorem eval_get {ext : External} {id : String} {r : Except ServiceError Resource}
    (h : Prog.eval (exec t) env (ResourceService.get ext id) s = some (r,s')) :
    (s' = s ∨ s' = s.record t [.readResource id (s.resources.find id)]) ∧
      ∀ found, r = .ok found → ∃ row, s.resources.find id = some row ∧
        found = syncTimestampsFromResourceMeta ext row.scan := by
  obtain ⟨r₁,s₁,hx,hk⟩ := Prog.eval_lift_bind.mp h
  rcases exec_cases hx with ⟨err,-,he,rfl⟩ | ⟨-,hc⟩
  · cases he
    obtain ⟨rfl,rfl⟩ := Prog.eval_ret.mp hk
    exact ⟨Or.inl rfl,by simp⟩
  · obtain ⟨rfl,⟨hrow,rfl⟩ | ⟨row,hrow,rfl⟩⟩ := commit_takeResource hc
    · obtain ⟨rfl,rfl⟩ := Prog.eval_ret.mp hk
      exact ⟨Or.inr rfl,by simp⟩
    · obtain ⟨rfl,rfl⟩ := Prog.eval_ret.mp hk
      exact ⟨Or.inr rfl,fun found hf => ⟨row,hrow,by cases hf; rfl⟩⟩

/-- Under an advisory lock only the lock table is touched besides the body. -/
theorem eval_withAdvisoryLock {α : Type} {id : String} {lockType : LockType}
    {body : M (Except ServiceError α)} {a : Except ServiceError α}
    (h : Prog.eval (exec t) env (ResourceService.withAdvisoryLock id lockType body) s =
      some (a,s')) :
    (∃ err, (env 0).fault (.newAdvisoryLock id lockType) = some err ∧
      a = .error (Errors.databaseAdvisoryLock err) ∧ s' = s) ∨
    ∃ locks s₁ locks',
      Prog.eval (exec t) (fun n => env (n+1)) body { s with locks := locks } = some (a,s₁) ∧
        s' = { s₁ with locks := locks' } := by
  obtain ⟨r,s₁,hx,hk⟩ := Prog.eval_call.mp h
  rcases exec_cases hx with ⟨err,hf,he,rfl⟩ | ⟨-,hc⟩
  · cases he
    cases hk
    exact Or.inl ⟨err,hf,rfl,rfl⟩
  · simp only [commit,Option.map_eq_some_iff] at hc
    obtain ⟨locks,-,hl⟩ := hc
    cases hl
    have hk : Prog.eval (exec t) (fun n => env (n+1))
      (Prog.deferring (unlock (env 0).uuid) body) { s with locks := locks } = some (a,s') := hk
    obtain ⟨s₂,m,hb,hu⟩ := Prog.eval_deferring hk
    obtain ⟨locks',rfl⟩ := eval_unlock hu
    exact Or.inr ⟨locks,s₂,locks',hb,rfl⟩

end Maestro
