import Maestro.Server.Operations
import Mathlib.Data.Fintype.EquivFin

/-!
# No operation is stuck

A statement can be executed unless it waits for a lock that is held. An operation holds at most
one lock and waits for none while it does, so some operation can always go on.
-/

namespace Maestro
open Concurrent Data

theorem exists_fresh (used : List String) : ∃ uuid : String, uuid ≠ "" ∧ uuid ∉ used := by
  obtain ⟨uuid,h⟩ := Infinite.exists_notMem_finset ("" :: used).toFinset
  simp only [List.mem_toFinset,List.mem_cons,not_or] at h
  exact ⟨uuid,h.1,h.2⟩

/-- A choice whose UUID is in use nowhere. -/
theorem exists_choice (s : State) : ∃ ch : Choice, s.resources.find ch.uuid = none ∧
    s.events.find ch.uuid = none ∧ s.statusEvents.find ch.uuid = none ∧
    (∀ l ∈ s.locks.held, l.owner ≠ ch.uuid) ∧ ch.order = id ∧ ch.remoteErr = none := by
  obtain ⟨uuid,hne,hnew⟩ := exists_fresh (s.resources.rows.map ResourceRow.id ++
    s.events.rows.map Event.id ++ s.statusEvents.rows.map StatusEvent.id ++
    s.locks.held.map Lock.owner)
  simp only [List.mem_append,List.mem_map,not_or,not_exists,not_and] at hnew
  obtain ⟨⟨⟨hres,hev⟩,hst⟩,hown⟩ := hnew
  refine ⟨{ now := 0, uuid := uuid, uuid_ne := hne },?_,?_,?_,hown,rfl,rfl⟩
  · exact Table.find_eq_none_iff.mpr hres
  · exact Table.find_eq_none_iff.mpr hev
  · exact Table.find_eq_none_iff.mpr hst

/-- A statement can be executed, or it waits for a lock. -/
theorem exists_commit (t : ℕ) (c : Call) (s : State) :
    (∃ ch r s', commit t ch c s = some (r,s')) ∨
      ∃ id lockType, c = .newAdvisoryLock id lockType ∧
        ∃ l ∈ s.locks.held, l.key = lockKey id lockType := by
  obtain ⟨ch,hres,hev,hst,hown,horder,hremote⟩ := exists_choice s
  cases c with
  | newAdvisoryLock id lockType =>
    by_cases hk : ∃ l ∈ s.locks.held, l.key = lockKey id lockType
    · exact Or.inr ⟨id,lockType,rfl,hk⟩
    · have hfree : ∀ l ∈ s.locks.held, l.key ≠ lockKey id lockType := fun l hl he => hk ⟨l,hl,he⟩
      obtain ⟨locks,hl⟩ := LockTable.exists_acquire t hfree hown
      exact Or.inl ⟨ch,_,_,by rw [commit,hl]; rfl⟩
  | newNonBlockingLock id lockType =>
    left
    by_cases hk : lockKey id lockType ∈ s.locks.held.map Lock.key
    · exact ⟨ch,_,_,by rw [commit,if_pos hk]⟩
    · have hfree : ∀ l ∈ s.locks.held, l.key ≠ lockKey id lockType :=
        fun l hl he => hk (List.mem_map.mpr ⟨l,hl,he⟩)
      obtain ⟨locks,hl⟩ := LockTable.exists_acquire t hfree hown
      exact ⟨ch,_,_,by rw [commit,if_neg hk,hl]; rfl⟩
  | createResource resource =>
    left
    by_cases hid : resource.id = ""
    · have hfree : s.resources.find ((resource.beforeCreate ch.now ch.uuid).row ch.now).id = none := by
        simpa [Resource.beforeCreate,Resource.row,hid] using hres
      refine ⟨ch,?_⟩
      simp only [commit,dif_pos hfree]
      split
      · exact ⟨_,_,rfl⟩
      · exact ⟨_,_,rfl⟩
    · refine ⟨ch,?_⟩
      simp only [commit]
      split
      · split
        · exact ⟨_,_,rfl⟩
        · exact ⟨_,_,rfl⟩
      · exact ⟨_,_,rfl⟩
  | updateResource id version payload =>
    refine Or.inl ⟨ch,?_⟩
    simp only [commit]
    split <;> exact ⟨_,_,rfl⟩
  | updateResourceStatus id status =>
    refine Or.inl ⟨ch,?_⟩
    simp only [commit]
    split <;> exact ⟨_,_,rfl⟩
  | deleteResource id unscoped =>
    refine Or.inl ⟨ch,?_⟩
    simp only [commit]
    repeat' split
    all_goals exact ⟨_,_,rfl⟩
  | createEvent event =>
    have hfree : s.events.find (event.beforeCreate ch.now ch.uuid).id = none := hev
    exact Or.inl ⟨ch,_,_,by rw [commit,dif_pos hfree]⟩
  | createStatusEvent event =>
    have hfree : s.statusEvents.find (event.beforeCreate ch.now ch.uuid).id = none := hst
    exact Or.inl ⟨ch,_,_,by rw [commit,dif_pos hfree]⟩
  | findUnreconciledEvents =>
    exact Or.inl ⟨ch,_,_,by simp only [commit,horder]; exact if_pos (.refl _)⟩
  | reconcileStaleDeleteEvents cutoff now =>
    exact Or.inl ⟨ch,_,_,by simp only [commit,horder]; exact if_pos (.refl _)⟩
  | publish action resource => exact Or.inl ⟨ch,_,_,by rw [commit,hremote]⟩
  | _ => exact Or.inl ⟨ch,_,_,rfl⟩

section Pool

variable {ext : External} {n : ℕ} {ops : Fin n → Op} {s₀ : State}
    {cfg : Config (Fin n) State Call Call.Resp Reply}

/-- Where the pool holds all the locks, no other session does later. -/
theorem reach_lock_sessions (h₀ : s₀.Fresh n) (hlocks : s₀.locks.held = [])
    (hr : Reach (pool n) (start ext ops s₀) cfg) : ∀ l ∈ cfg.shared.locks.held, l.session < n := by
  refine (start_verified ext ops h₀).invariant
    (K := fun s => ∀ l ∈ s.locks.held, l.session < n) ?_ hr (by simp [start,hlocks])
  intro i ch c s r s' _ hx hK l hl
  rcases commit_locks hx with he | ⟨owner,-,he⟩ | ⟨k,he⟩
  · rw [he] at hl
    exact hK l hl
  · rw [he] at hl
    exact hK l (LockTable.mem_release.mp hl).1
  · rcases (LockTable.mem_acquire he).mp hl with rfl | hl
    · exact i.isLt
    · exact hK l hl

/-- An unfinished configuration can always go on. -/
theorem reach_step (h₀ : s₀.Fresh n) (hlocks : s₀.locks.held = [])
    (hr : Reach (pool n) (start ext ops s₀) cfg) (hfin : ¬ Finished cfg) :
    ∃ cfg', Step (pool n) cfg cfg' := by
  have hv := (start_verified ext ops h₀).reach hr
  obtain ⟨i,hi⟩ := not_forall.mp hfin
  cases hti : cfg.threads i with
  | ret a => exact absurd ⟨a,hti⟩ hi
  | call c k =>
    rcases exists_commit i c cfg.shared with ⟨ch,r,s',hx⟩ | ⟨id,lockType,rfl,l,hl,-⟩
    · exact ⟨_,.mk i ch hti hx⟩
    -- the lock is held by a session that is neither done nor waiting itself
    have hj := reach_lock_sessions h₀ hlocks hr l hl
    cases htj : cfg.threads ⟨l.session,hj⟩ with
    | ret a => exact absurd rfl ((hv.result htj).1 l hl)
    | call c' k' =>
      rcases exists_commit l.session c' cfg.shared with ⟨ch,r,s',hx⟩ | ⟨id',lockType',rfl,-⟩
      · exact ⟨_,.mk ⟨l.session,hj⟩ ch htj hx⟩
      · exact absurd rfl (hv.next htj l hl)

/-- Every run of the pool can be completed, and no run goes on forever. -/
theorem reach_finished (h₀ : s₀.Fresh n) (hlocks : s₀.locks.held = [])
    (hr : Reach (pool n) (start ext ops s₀) cfg) :
    ∃ cfg', Reach (pool n) cfg cfg' ∧ Finished cfg' :=
  exists_finished (pool n) (fun _ hr hfin => reach_step h₀ hlocks hr hfin) hr

end Pool

end Maestro
