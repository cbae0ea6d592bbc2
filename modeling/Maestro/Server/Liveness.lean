import Maestro.Server.HealthCheck

/-!
# Heartbeats against liveness checks

`pulse` writes the whole row that it has read, and `checkInstances` marks rows under another
lock. A mark that falls between the read and the write of a pulse is undone by the write. When
none does, only a later mark changes what a mark has written. The heartbeats themselves never
go back: the lock of the instance orders the pulses.
-/

namespace Maestro
open Data Concurrent

/-- What a call does to the table. -/
inductive InstanceEffect (t : ℕ) (c : HealthCall) (s s' : HealthState) : Prop
  | quiet (hi : s'.instances = s.instances) (hl : s'.log = s.log)
  | read (id : String) (hi : s'.instances = s.instances)
      (hl : s'.log = s.log ++ [⟨t,.read id (s.instances.find id)⟩])
  | created (row : InstanceRow) (hn : s.instances.find row.id = none)
      (hc : c = .createInstance row) (hi : s'.instances = s.instances.insert row hn)
      (hl : s'.log = s.log ++ [⟨t,.created row⟩])
  | saved (row : InstanceRow) (hc : c = .replaceInstance row)
      (hi : s'.instances = s.instances.save row) (hl : s'.log = s.log ++ [⟨t,.saved row⟩])
  | marked (ids : List String) (ready : Bool)
      (hi : s'.instances = s.instances.map (.mark ids ready) (InstanceRow.mark_id ids ready))
      (hl : s'.log = s.log ++
        [⟨t,.marked (ids.filter fun id => (s.instances.find id).isSome) ready⟩])

def HealthCall.locking : HealthCall → Bool
  | .newAdvisoryLock _ | .newNonBlockingLock _ | .unlock _ => true
  | _ => false

/-- What a call does to the locks and to the owner IDs. -/
inductive OwnerEffect (t : ℕ) (c : HealthCall) (s s' : HealthState) : Prop
  | kept (ho : s'.owners = s.owners) (hl : s'.locks = s.locks)
  | released (owner : String) (hc : c = .unlock owner) (ho : s'.owners = s.owners)
      (hl : s'.locks = s.locks.release owner)
  | drawn (uuid : String) (hc : c.locking = true) (hne : uuid ≠ "") (hfresh : uuid ∉ s.owners)
      (ho : s'.owners = s.owners ++ [uuid])
      (hl : s'.locks = s.locks ∨ ∃ k, s.locks.acquire k uuid t = some s'.locks)

section Effects

variable {t : ℕ} {ch : HealthChoice} {c : HealthCall} {s s' : HealthState} {r : c.Resp}

theorem healthExec_cases (hx : healthExec t ch c s = some (r,s')) :
    (∃ err, c.failure err = some r ∧ s' = s) ∨ healthCommit t ch c s = some (r,s') := by
  unfold healthExec at hx
  split at hx
  · next r' hr =>
    cases hx
    obtain ⟨err,-,he⟩ := Option.bind_eq_some_iff.mp hr
    exact Or.inl ⟨err,he,rfl⟩
  · exact Or.inr hx

/-- Everything that a call can do: to the table, to the locks and to the clock. -/
theorem healthExec_effects (hx : healthExec t ch c s = some (r,s')) :
    InstanceEffect t c s s' ∧ OwnerEffect t c s s' ∧ s.clock ≤ s'.clock := by
  have hsame : OwnerEffect t c s s := .kept rfl rfl
  rcases healthExec_cases hx with ⟨-,-,rfl⟩ | hx
  · exact ⟨.quiet rfl rfl,hsame,le_rfl⟩
  cases c with
  | cloudEventsNotReady => cases hx; exact ⟨.quiet rfl rfl,hsame,le_rfl⟩
  | newAdvisoryLock id =>
    simp only [healthCommit] at hx
    split at hx
    · cases hx
    · next hn =>
      obtain ⟨_,ha,he⟩ := Option.map_eq_some_iff.mp hx
      cases he
      exact ⟨.quiet rfl rfl,.drawn _ rfl ch.uuid_ne hn rfl (Or.inr ⟨_,ha⟩),le_rfl⟩
  | newNonBlockingLock id =>
    simp only [healthCommit] at hx
    split at hx
    · cases hx
    · next hn =>
      split at hx
      · cases hx; exact ⟨.quiet rfl rfl,.drawn _ rfl ch.uuid_ne hn rfl (Or.inl rfl),le_rfl⟩
      · obtain ⟨_,ha,he⟩ := Option.map_eq_some_iff.mp hx
        cases he
        exact ⟨.quiet rfl rfl,.drawn _ rfl ch.uuid_ne hn rfl (Or.inr ⟨_,ha⟩),le_rfl⟩
  | unlock owner =>
    cases hx
    exact ⟨.quiet rfl rfl,.released owner rfl rfl rfl,le_rfl⟩
  | now =>
    simp only [healthCommit] at hx
    split at hx
    · next h => cases hx; exact ⟨.quiet rfl rfl,.kept rfl rfl,h⟩
    · cases hx
  | getInstance id =>
    cases hx; exact ⟨.read id rfl rfl,.kept rfl rfl,le_rfl⟩
  | createInstance row =>
    simp only [healthCommit] at hx
    split at hx
    · next hn =>
      cases hx; exact ⟨.created row hn rfl rfl rfl,.kept rfl rfl,le_rfl⟩
    · cases hx; exact ⟨.quiet rfl rfl,hsame,le_rfl⟩
  | replaceInstance row =>
    cases hx; exact ⟨.saved row rfl rfl rfl,.kept rfl rfl,le_rfl⟩
  | allInstances =>
    simp only [healthCommit] at hx
    split at hx <;> cases hx
    exact ⟨.quiet rfl rfl,hsame,le_rfl⟩
  | markByIDs ids ready =>
    cases hx; exact ⟨.marked ids ready rfl rfl,.kept rfl rfl,le_rfl⟩

end Effects

section Heartbeats

/-- The owners of the held locks were drawn, and no heartbeat is ahead of the clock. -/
structure HealthState.Sound (s : HealthState) : Prop where
  drawn : ∀ l ∈ s.locks.held, l.owner ∈ s.owners
  named : "" ∉ s.owners
  beats : ∀ row ∈ s.instances.rows, row.lastHeartbeat ≤ s.clock

/-- A lock with this owner is of session `t`, now and later. -/
def HealthState.Mine (s : HealthState) (t : ℕ) (owner : String) : Prop :=
  (owner = "" ∨ owner ∈ s.owners) ∧ ∀ l ∈ s.locks.held, l.owner = owner → l.session = t

def HealthState.HasLock (s : HealthState) (t : ℕ) (id owner : String) : Prop :=
  (⟨lockKey id .instances,owner,t⟩ : Lock LockKey String ℕ) ∈ s.locks.held

/-- The row is there and its heartbeat is not after `time`. -/
def HealthState.BeatBy (s : HealthState) (id : String) (time : Time) : Prop :=
  time ≤ s.clock ∧ ∃ row, s.instances.find id = some row ∧ row.lastHeartbeat ≤ time

/-- A session releases its own locks, and renews a heartbeat under the lock of the instance. -/
def beatRule {n : ℕ} (i : Fin n) : HealthCall → HealthState → Prop
  | .unlock owner, s => s.Mine i owner
  | .createInstance row, s => row.lastHeartbeat ≤ s.clock
  | .replaceInstance row, s => (∃ owner, s.HasLock i row.id owner) ∧ s.BeatBy row.id row.lastHeartbeat
  | _, _ => True

variable {n : ℕ} {i : Fin n} {t : ℕ} {ch : HealthChoice} {c : HealthCall} {s s' : HealthState}
  {r : c.Resp} {id owner : String}

/-- No row is lost, and no heartbeat goes back. -/
theorem heartbeat_step (ha : beatRule i c s) (hx : healthExec i ch c s = some (r,s'))
    {row : InstanceRow} (hrow : s.instances.find id = some row) :
    ∃ row', s'.instances.find id = some row' ∧ row.lastHeartbeat ≤ row'.lastHeartbeat := by
  cases (healthExec_effects hx).1 with
  | quiet hi _ => exact ⟨row,by rw [hi,hrow],le_rfl⟩
  | read _ hi _ => exact ⟨row,by rw [hi,hrow],le_rfl⟩
  | created new hn _ hi _ =>
    have hne : id ≠ new.id := by
      rintro rfl
      rw [hn] at hrow
      cases hrow
    exact ⟨row,by rw [hi,Table.find_insert_ne _ _ _ hne,hrow],le_rfl⟩
  | saved new hc hi _ =>
    subst hc
    rw [hi,Table.find_save]
    split
    · next he =>
      obtain ⟨-,-,old,hold,hle⟩ := ha
      subst he
      cases hrow.symm.trans hold
      exact ⟨new,rfl,hle⟩
    · exact ⟨row,hrow,le_rfl⟩
  | marked ids ready hi _ =>
    refine ⟨row.mark ids ready,by rw [hi,Table.find_map,hrow]; rfl,?_⟩
    rw [InstanceRow.mark_lastHeartbeat]

theorem HealthState.Sound.step (h : s.Sound) (ha : beatRule i c s)
    (hx : healthExec i ch c s = some (r,s')) : s'.Sound := by
  obtain ⟨hi,ho,hclock⟩ := healthExec_effects hx
  have hbeats : ∀ row ∈ s'.instances.rows, row.lastHeartbeat ≤ s'.clock := by
    intro row hrow
    cases hi with
    | quiet hi _ => exact (h.beats row (hi ▸ hrow)).trans hclock
    | read _ hi _ => exact (h.beats row (hi ▸ hrow)).trans hclock
    | created new hn hc hi _ =>
      subst hc
      rw [hi,Table.insert] at hrow
      rcases List.mem_append.mp hrow with hrow | hrow
      · exact (h.beats row hrow).trans hclock
      · rw [List.mem_singleton.mp hrow]
        exact le_trans ha hclock
    | saved new hc hi _ =>
      subst hc
      rw [hi] at hrow
      rcases Table.mem_save hrow with rfl | hrow
      · exact ha.2.1.trans hclock
      · exact (h.beats row hrow).trans hclock
    | marked ids ready hi _ =>
      rw [hi] at hrow
      obtain ⟨old,hold,rfl⟩ := List.mem_map.mp hrow
      rw [InstanceRow.mark_lastHeartbeat]
      exact (h.beats old hold).trans hclock
  cases ho with
  | kept ho hl => exact ⟨by rw [ho,hl]; exact h.drawn,ho ▸ h.named,hbeats⟩
  | released owner _ ho hl =>
    refine ⟨fun l hm => ?_,ho ▸ h.named,hbeats⟩
    rw [hl,LockTable.mem_release] at hm
    exact ho ▸ h.drawn l hm.1
  | drawn uuid _ hne hfresh ho hl =>
    refine ⟨fun l hm => ?_,?_,hbeats⟩
    · rw [ho]
      rcases hl with hl | ⟨k,hl⟩
      · exact List.mem_append_left _ (h.drawn l (hl ▸ hm))
      · rcases (LockTable.mem_acquire hl).mp hm with rfl | hm
        · simp
        · exact List.mem_append_left _ (h.drawn l hm)
    · rw [ho]
      simpa using ⟨h.named,hne⟩

theorem kept_sound : Kept (healthPool (n := n)) beatRule HealthState.Sound :=
  fun _ _ _ _ _ _ ha hx h => h.step ha hx

/-- Nobody else comes to hold a lock under an owner ID that was drawn before. -/
theorem stable_mine (i : Fin n) (owner : String) :
    Stable (healthPool (n := n)) beatRule i fun s => s.Mine i owner := by
  intro j hj ch c s r s' ha hx h
  cases (healthExec_effects hx).2.1 with
  | kept ho hl => exact ⟨ho ▸ h.1,hl ▸ h.2⟩
  | released owner' _ ho hl =>
    refine ⟨ho ▸ h.1,fun l hm => ?_⟩
    rw [hl,LockTable.mem_release] at hm
    exact h.2 l hm.1
  | drawn uuid _ hne hfresh ho hl =>
    refine ⟨h.1.imp_right fun hm => ho ▸ List.mem_append_left _ hm,fun l hm he => ?_⟩
    rcases hl with hl | ⟨k,hl⟩
    · exact h.2 l (hl ▸ hm) he
    · rcases (LockTable.mem_acquire hl).mp hm with rfl | hm
      · subst he
        exact absurd h.1 (by simp [hne,hfresh])
      · exact h.2 l hm he

theorem stable_instanceLock (i : Fin n) (id owner : String) :
    Stable (healthPool (n := n)) beatRule i fun s => s.HasLock i id owner := by
  intro j hj ch c s r s' ha hx h
  cases (healthExec_effects hx).2.1 with
  | kept _ hl => rwa [HealthState.HasLock,hl]
  | released owner' hc _ hl =>
    subst hc
    rw [HealthState.HasLock,hl,LockTable.mem_release]
    refine ⟨h,fun ho => hj (Fin.ext ?_)⟩
    exact (ha.2 _ h ho).symm
  | drawn uuid _ _ _ _ hl =>
    rcases hl with hl | ⟨k,hl⟩
    · rwa [HealthState.HasLock,hl]
    · exact (LockTable.mem_acquire hl).mpr (Or.inr h)

/-- Under the lock of the instance, nobody else renews its heartbeat. -/
theorem stable_beatBy (i : Fin n) (id owner : String) (time : Time) :
    Stable (healthPool (n := n)) beatRule i fun s => s.HasLock i id owner ∧ s.BeatBy id time := by
  intro j hj ch c s r s' ha hx h
  obtain ⟨hlock,htime,row,hrow,hle⟩ := h
  obtain ⟨hi,-,hclock⟩ := healthExec_effects hx
  refine ⟨stable_instanceLock i id owner j hj ch c s r s' ha hx hlock,htime.trans hclock,?_⟩
  cases hi with
  | quiet hi _ => exact ⟨row,by rw [hi,hrow],hle⟩
  | read _ hi _ => exact ⟨row,by rw [hi,hrow],hle⟩
  | created new hn _ hi _ =>
    have hne : id ≠ new.id := by
      rintro rfl
      rw [hn] at hrow
      cases hrow
    exact ⟨row,by rw [hi,Table.find_insert_ne _ _ _ hne,hrow],hle⟩
  | saved new hc hi _ =>
    subst hc
    obtain ⟨⟨owner',hlock'⟩,-⟩ := ha
    have hne : new.id ≠ id := by
      rintro rfl
      exact hj (Fin.ext (congrArg Lock.session (LockTable.eq_of_key hlock' hlock rfl)))
    exact ⟨row,by rw [hi,Table.find_save,if_neg hne,hrow],hle⟩
  | marked ids ready hi _ =>
    refine ⟨row.mark ids ready,by rw [hi,Table.find_map,hrow]; rfl,?_⟩
    rwa [InstanceRow.mark_lastHeartbeat]

theorem HealthState.Mine.own (h : s.Mine t owner) (hc : c.locking = false)
    (hx : healthExec t ch c s = some (r,s')) : s'.Mine t owner := by
  cases (healthExec_effects hx).2.1 with
  | kept ho hl => exact ⟨ho ▸ h.1,hl ▸ h.2⟩
  | released _ he => subst he; cases hc
  | drawn _ he => rw [hc] at he; cases he

theorem HealthState.HasLock.own (h : s.HasLock t id owner) (hc : c.locking = false)
    (hx : healthExec t ch c s = some (r,s')) : s'.HasLock t id owner := by
  cases (healthExec_effects hx).2.1 with
  | kept _ hl => rwa [HealthState.HasLock,hl]
  | released _ he => subst he; cases hc
  | drawn _ he => rw [hc] at he; cases he

theorem newAdvisoryLock_owned {err : Option DbErr} (h : s.Sound)
    (hx : healthExec t ch (.newAdvisoryLock id) s = some ((owner,err),s')) :
    s'.Mine t owner ∧ (err = none → s'.HasLock t id owner) := by
  rcases healthExec_cases hx with ⟨err',hf,rfl⟩ | hx
  · cases hf
    refine ⟨⟨Or.inl rfl,fun l hl he => ?_⟩,fun he => by cases he⟩
    exact absurd (he ▸ h.drawn l hl) h.named
  · simp only [healthCommit] at hx
    split at hx
    · cases hx
    · next hfresh =>
      obtain ⟨locks,ha,he⟩ := Option.map_eq_some_iff.mp hx
      cases he
      refine ⟨⟨Or.inr (by simp),fun l hl he => ?_⟩,fun _ => (LockTable.mem_acquire ha).mpr (Or.inl rfl)⟩
      rcases (LockTable.mem_acquire ha).mp hl with rfl | hl
      · rfl
      · exact absurd (he ▸ h.drawn l hl) hfresh

theorem newNonBlockingLock_owned {acquired : Bool} {err : Option DbErr} (h : s.Sound)
    (hx : healthExec t ch (.newNonBlockingLock id) s = some ((owner,acquired,err),s')) :
    s'.Mine t owner := by
  rcases healthExec_cases hx with ⟨err',hf,rfl⟩ | hx
  · cases hf
    refine ⟨Or.inl rfl,fun l hl he => ?_⟩
    exact absurd (he ▸ h.drawn l hl) h.named
  · simp only [healthCommit] at hx
    split at hx
    · cases hx
    · next hfresh =>
      split at hx
      · cases hx
        exact ⟨Or.inr (by simp),fun l hl he => absurd (he ▸ h.drawn l hl) hfresh⟩
      · obtain ⟨locks,ha,he⟩ := Option.map_eq_some_iff.mp hx
        cases he
        refine ⟨Or.inr (by simp),fun l hl he => ?_⟩
        rcases (LockTable.mem_acquire ha).mp hl with rfl | hl
        · rfl
        · exact absurd (he ▸ h.drawn l hl) hfresh

/-- The deferred `Unlock` releases what the session has locked. -/
theorem safe_unlocking {body : HealthM Unit} {P : HealthState → Prop}
    (hb : Safe healthPool beatRule i (fun _ s => s.Sound ∧ s.Mine i owner) body P) :
    Safe healthPool beatRule i (fun _ s => s.Sound) (Prog.deferring (consult (.unlock owner)) body)
      P :=
  hb.bind fun _ => Safe.call fun s hs => ⟨hs.2,fun ch r s' hx =>
    ⟨_,kept_sound.stable i,kept_sound i ch (.unlock owner) s r s' hs.2 hx hs.1,
      Safe.ret fun _ h => h⟩⟩

/-- A call that is allowed and takes no lock, while the session has an owner ID. -/
theorem safe_beating {β : Type} {Q : β → HealthState → Prop} {P : HealthState → Prop}
    {k : c.Resp → HealthM β} (hc : c.locking = false)
    (ha : ∀ s, s.Sound ∧ s.Mine i owner ∧ P s → beatRule i c s)
    (hk : ∀ ch s r s', healthExec i ch c s = some (r,s') → s.Sound → P s → ∃ P',
      Stable healthPool beatRule i P' ∧ P' s' ∧
      Safe healthPool beatRule i Q (k r) fun s => s.Sound ∧ s.Mine i owner ∧ P' s) :
    Safe healthPool beatRule i Q (.call c k) fun s => s.Sound ∧ s.Mine i owner ∧ P s := by
  refine Safe.call fun s hs => ⟨ha s hs,fun ch r s' hx => ?_⟩
  obtain ⟨P',hst,hP',hsafe⟩ := hk ch s r s' hx hs.1 hs.2.2
  exact ⟨_,(kept_sound.stable i).and ((stable_mine i owner).and hst),
    ⟨hs.1.step (ha s hs) hx,hs.2.1.own hc hx,hP'⟩,hsafe⟩

theorem now_spec {now : Time} (hx : healthExec t ch .now s = some (now,s')) :
    now = s'.clock ∧ s.clock ≤ now ∧ s'.instances = s.instances ∧ s'.log = s.log := by
  rcases healthExec_cases hx with ⟨err,hf,-⟩ | hx
  · cases hf
  · simp only [healthCommit] at hx
    split at hx
    · next h => cases hx; exact ⟨rfl,h,rfl,rfl⟩
    · cases hx

theorem getInstance_spec {found : InstanceRow}
    (hx : healthExec t ch (.getInstance id) s = some (.ok found,s')) :
    found.id = id ∧ s'.instances.find id = some found ∧
      s'.log = s.log ++ [⟨t,.read id (some found)⟩] := by
  rcases healthExec_cases hx with ⟨err,hf,-⟩ | hx
  · cases hf
  · simp only [healthCommit,Option.some.injEq,Prod.mk.injEq] at hx
    obtain ⟨hr,rfl⟩ := hx
    split at hr
    · cases hr
    · next row hrow =>
      cases hr
      exact ⟨Table.find_some_key hrow,hrow,by rw [← hrow]; rfl⟩

theorem stable_clock (i : Fin n) (time : Time) :
    Stable healthPool beatRule i fun s => time ≤ s.clock :=
  fun _ _ _ _ _ _ _ _ hx h => h.trans (healthExec_effects hx).2.2

theorem stable_there (i : Fin n) (id owner : String) : Stable healthPool beatRule i
    fun s => s.HasLock i id owner ∧ ∃ row, s.instances.find id = some row := by
  intro j hj ch c s r s' ha hx ⟨hlock,row,hrow⟩
  obtain ⟨row',hrow',-⟩ := heartbeat_step ha hx hrow
  exact ⟨stable_instanceLock i id owner j hj ch c s r s' ha hx hlock,row',hrow'⟩

theorem safe_pulse (instanceID : String) : Safe healthPool beatRule i (fun _ s => s.Sound)
    (HealthCheckServer.pulse instanceID) HealthState.Sound := by
  simp only [HealthCheckServer.pulse,Prog.lift_bind]
  refine Safe.call fun s hs => ⟨trivial,fun ch notReady s' hx =>
    ⟨_,kept_sound.stable i,kept_sound i ch .cloudEventsNotReady s _ s' trivial hx hs,?_⟩⟩
  cases notReady with
  | true => exact Safe.ret fun _ h => h
  | false =>
    refine Safe.call fun s hs => ⟨trivial,fun ch lock s' hx => ?_⟩
    obtain ⟨lockOwnerID,err⟩ := lock
    obtain ⟨hmine,hlock⟩ := newAdvisoryLock_owned hs hx
    have hs' := kept_sound i ch (.newAdvisoryLock instanceID) s _ s' trivial hx hs
    cases err with
    | some err =>
      exact ⟨_,(kept_sound.stable i).and (stable_mine i lockOwnerID),⟨hs',hmine⟩,
        safe_unlocking (Safe.ret fun _ h => h)⟩
    | none =>
      refine ⟨_,(kept_sound.stable i).and ((stable_mine i lockOwnerID).and
        (stable_instanceLock i instanceID lockOwnerID)),⟨hs',hmine,hlock rfl⟩,safe_unlocking ?_⟩
      refine safe_beating rfl (fun _ _ => trivial) fun ch s r s' hx hs hlock => ?_
      cases r with
      | error err =>
        cases err with
        | recordNotFound =>
          refine ⟨fun _ => True,.const True,trivial,?_⟩
          refine safe_beating rfl (fun _ _ => trivial) fun ch s now s' hx hs _ => ?_
          refine ⟨_,stable_clock i now,(now_spec hx).1.le,?_⟩
          refine safe_beating rfl (fun _ h => h.2.2) fun ch s r s' hx hs _ => ?_
          exact ⟨fun _ => True,.const True,trivial,Safe.ret fun _ h => ⟨h.1,h.2.1⟩⟩
        | other text =>
          exact ⟨fun _ => True,.const True,trivial,Safe.ret fun _ h => ⟨h.1,h.2.1⟩⟩
      | ok found =>
        obtain ⟨hfound,hfind,-⟩ := getInstance_spec hx
        refine ⟨_,stable_there i instanceID lockOwnerID,⟨hlock.own rfl hx,found,hfind⟩,?_⟩
        refine safe_beating rfl (fun _ _ => trivial) fun ch s now s' hx hs hthere => ?_
        obtain ⟨hnow,hle,hsame,-⟩ := now_spec hx
        obtain ⟨hlock,row,hrow⟩ := hthere
        refine ⟨_,stable_beatBy i instanceID lockOwnerID now,⟨hlock.own rfl hx,hnow.le,row,
          by rw [hsame,hrow],(hs.beats row (Table.find_some_mem hrow)).trans hle⟩,?_⟩
        refine safe_beating rfl (fun s h => ?_) fun ch s r s' hx hs _ => ?_
        · exact hfound ▸ ⟨⟨lockOwnerID,h.2.2.1⟩,h.2.2.2⟩
        · exact ⟨fun _ => True,.const True,trivial,Safe.ret fun _ h => ⟨h.1,h.2.1⟩⟩

/-- The calls of `checkInstances` under its lock. -/
def HealthCall.checks : HealthCall → Bool
  | .allInstances | .now | .markByIDs _ _ => true
  | _ => false

variable {V : (c : HealthCall) → c.Resp → Prop}

theorem sortInstances_calls (heartbeatInterval : ℤ) (rows : List InstanceRow)
    (active inactive : List String) :
    (HealthCheckServer.sortInstances heartbeatInterval rows active inactive).Calls V
      (fun c => c.checks = true) fun _ => True := by
  induction rows generalizing active inactive with
  | nil => exact trivial
  | cons row rest ih =>
    refine .lift_bind rfl fun now _ => ?_
    split
    · exact ih _ _
    · refine .lift_bind rfl fun now _ => ?_
      split
      · exact ih _ _
      · exact ih _ _

theorem markInstances_calls (active inactive : List String) :
    (HealthCheckServer.markInstances active inactive).Calls V (fun c => c.checks = true)
      fun _ => True := by
  simp only [HealthCheckServer.markInstances]
  split
  · refine .lift_bind rfl fun _ _ => ?_
    split
    · exact .lift_bind rfl fun _ _ => trivial
    · exact trivial
  · split
    · exact .lift_bind rfl fun _ _ => trivial
    · exact trivial

theorem safe_checkInstances (heartbeatInterval : ℤ) : Safe healthPool beatRule i
    (fun _ s => s.Sound) (HealthCheckServer.checkInstances heartbeatInterval)
    HealthState.Sound := by
  simp only [HealthCheckServer.checkInstances,Prog.lift_bind]
  refine Safe.call fun s hs => ⟨trivial,fun ch lock s' hx => ?_⟩
  obtain ⟨lockOwnerID,acquired,err⟩ := lock
  have hs' := kept_sound i ch (.newNonBlockingLock _) s _ s' trivial hx hs
  have hstable := (kept_sound.stable i).and (stable_mine i lockOwnerID)
  refine ⟨_,hstable,⟨hs',newNonBlockingLock_owned hs hx⟩,safe_unlocking ?_⟩
  have hallowed : ∀ c s, c.checks = true → beatRule i c s := by
    intro c s hc
    cases c with
    | allInstances | now | markByIDs => trivial
    | _ => cases hc
  refine (Safe.of_own (V := fun _ _ => True) (A := fun c => c.checks = true) (S := fun _ => True)
    (fun _ _ _ _ _ _ => trivial) hstable (fun c s hc _ => hallowed c s hc) ?_ ?_).weaken
    (fun _ h => h) fun _ _ h => h.1
  · intro ch c s r s' hc hx hs
    have hlocking : c.locking = false := by
      cases c with
      | allInstances | now | markByIDs => rfl
      | _ => cases hc
    exact ⟨kept_sound i ch c s r s' (hallowed c s hc) hx hs.1,hs.2.own hlocking hx⟩
  · cases err with
    | some err => exact trivial
    | none =>
      cases acquired with
      | false => exact trivial
      | true =>
        refine .lift_bind rfl fun r _ => ?_
        cases r with
        | error err => exact trivial
        | ok instances =>
          exact (sortInstances_calls _ _ _ _).bind fun _ _ => markInstances_calls _ _

theorem safe_rounds {P : HealthState → Prop} {allowed : Fin n → HealthCall → HealthState → Prop}
    {exec : Fin n → HealthChoice → (c : HealthCall) → HealthState → Option (c.Resp × HealthState)}
    {body : HealthM Unit} (hb : Safe exec allowed i (fun _ s => P s) body P) (k : ℕ) :
    Safe exec allowed i (fun _ s => P s) (HealthCheckServer.rounds body k) P := by
  induction k with
  | zero => exact Safe.ret fun _ h => h
  | succ k ih => exact hb.bind fun _ => ih

theorem verified_beats (tasks : Fin n → HealthCheckServer.Task) {s₀ : HealthState}
    (h₀ : s₀.Sound) : Verified healthPool beatRule (fun _ _ _ => True)
      ⟨s₀,fun i => (tasks i).program⟩ := by
  intro i
  refine ⟨_,kept_sound.stable i,h₀,?_⟩
  cases ht : tasks i with
  | pulsing instanceID k =>
    simp only [ht]
    exact (safe_rounds (safe_pulse instanceID) k).weaken (fun _ h => h) fun _ _ _ => trivial
  | checking heartbeatInterval k =>
    simp only [ht]
    exact (safe_rounds (safe_checkInstances heartbeatInterval) k).weaken (fun _ h => h)
      fun _ _ _ => trivial

/-- In every run, the heartbeat of an instance never goes back. -/
theorem heartbeat_mono (tasks : Fin n → HealthCheckServer.Task) {s₀ : HealthState}
    (h₀ : s₀.Sound) {cfg cfg' : Config (Fin n) HealthState HealthCall HealthCall.Resp Unit}
    (hr : Reach healthPool ⟨s₀,fun i => (tasks i).program⟩ cfg) (hr' : Reach healthPool cfg cfg')
    {row : InstanceRow} (hrow : cfg.shared.instances.find id = some row) :
    ∃ row', cfg'.shared.instances.find id = some row' ∧
      row.lastHeartbeat ≤ row'.lastHeartbeat := by
  refine ((verified_beats tasks h₀).reach hr).invariant (K := fun s => ∃ row',
    s.instances.find id = some row' ∧ row.lastHeartbeat ≤ row'.lastHeartbeat) ?_ hr'
    ⟨row,hrow,le_rfl⟩
  rintro i ch c s r s' ha hx ⟨row₁,hrow₁,hle⟩
  obtain ⟨row₂,hrow₂,hle₂⟩ := heartbeat_step ha hx hrow₁
  exact ⟨row₂,hrow₂,hle.trans hle₂⟩

end Heartbeats

section Ready

def HealthAct.marks (id : String) : HealthAct → Bool
  | .marked ids _ => id ∈ ids
  | _ => false

/-- Session `t` read the row. -/
def HealthEntry.reads (t : ℕ) (id : String) : HealthEntry → Bool
  | ⟨session,.read id' _⟩ => session = t ∧ id' = id
  | _ => false

/-- No mark of a row falls between the read and the write of a pulse. -/
def HealthState.undisturbed (s : HealthState) (t : ℕ) : HealthCall → Bool
  | .replaceInstance row => !since (fun e => e.act.marks row.id) (HealthEntry.reads t row.id) s.log
  | _ => true

def undisturbedPool {n : ℕ} (i : Fin n) (ch : HealthChoice) (c : HealthCall) (s : HealthState) :
    Option (c.Resp × HealthState) :=
  if s.undisturbed i c then healthExec i ch c s else none

/-- Session `t` has read the row with this flag, which is the flag of the row as long as nobody
marks it. -/
def SinceRead (t : ℕ) (id : String) (ready : Bool) (s : HealthState) : Prop :=
  ∃ row, SinceLast (fun e => e.act.marks id) (HealthEntry.reads t id) ⟨t,.read id row⟩ s.log
    (∃ row', s.instances.find id = some row' ∧ row'.ready = ready)

/-- A pulse writes the flag that it has read. -/
def readyRule {n : ℕ} (i : Fin n) : HealthCall → HealthState → Prop
  | .replaceInstance row, s => SinceRead i row.id row.ready s
  | _, _ => True

/-- The flag of a row is what the last mark has written. -/
def HealthState.Marked (s : HealthState) : Prop :=
  ∀ before after t ids ready, s.log = before ++ ⟨t,.marked ids ready⟩ :: after → ∀ id ∈ ids,
    (∀ e ∈ after, e.act.marks id = false) →
    ∃ row, s.instances.find id = some row ∧ row.ready = ready

variable {n : ℕ} {i : Fin n} {t : ℕ} {ch : HealthChoice} {c : HealthCall} {s s' : HealthState}
  {r : c.Resp} {id : String} {ready : Bool}

theorem undisturbedPool_exec (h : undisturbedPool i ch c s = some (r,s')) :
    s.undisturbed i c = true ∧ healthExec i ch c s = some (r,s') := by
  unfold undisturbedPool at h
  split at h
  · next hu => exact ⟨hu,h⟩
  · cases h

/-- A pulse that is not disturbed writes the flag of the row. -/
theorem SinceRead.unmarked {row : InstanceRow} (h : SinceRead t row.id row.ready s)
    (hu : s.undisturbed t (.replaceInstance row) = true) :
    ∃ row', s.instances.find row.id = some row' ∧ row'.ready = row.ready := by
  obtain ⟨old,h⟩ := h
  refine h.elim rfl (by simp [HealthEntry.reads]) ?_
  simpa [HealthState.undisturbed] using hu

/-- Only a mark changes the flag of a row, and it is recorded for the rows that it changed. -/
theorem ready_step (ha : readyRule i c s) (hx : undisturbedPool i ch c s = some (r,s')) :
    ∃ acts : List HealthAct, s'.log = s.log ++ acts.map (HealthEntry.mk i) ∧
      (∀ id row, s.instances.find id = some row → ∃ row', s'.instances.find id = some row' ∧
        ((∀ act ∈ acts, act.marks id = false) → row'.ready = row.ready)) ∧
      ∀ ids ready, .marked ids ready ∈ acts → ∀ id ∈ ids,
        ∃ row, s'.instances.find id = some row ∧ row.ready = ready := by
  obtain ⟨hu,hx⟩ := undisturbedPool_exec hx
  cases (healthExec_effects hx).1 with
  | quiet hi hl =>
    exact ⟨[],by simp [hl],fun id row hrow => ⟨row,by rw [hi,hrow],fun _ => rfl⟩,by simp⟩
  | read _ hi hl =>
    exact ⟨[_],hl,fun id row hrow => ⟨row,by rw [hi,hrow],fun _ => rfl⟩,by simp⟩
  | created new hn _ hi hl =>
    refine ⟨[_],hl,fun id row hrow => ?_,by simp⟩
    have hne : id ≠ new.id := by
      rintro rfl
      rw [hn] at hrow
      cases hrow
    exact ⟨row,by rw [hi,Table.find_insert_ne _ _ _ hne,hrow],fun _ => rfl⟩
  | saved new hc hi hl =>
    subst hc
    refine ⟨[_],hl,fun id row hrow => ?_,by simp⟩
    rw [hi,Table.find_save]
    split
    · next he =>
      obtain ⟨old,hold,hready⟩ := SinceRead.unmarked ha hu
      subst he
      cases hrow.symm.trans hold
      exact ⟨new,rfl,fun _ => hready.symm⟩
    · exact ⟨row,hrow,fun _ => rfl⟩
  | marked ids ready hi hl =>
    refine ⟨[_],hl,fun id row hrow =>
      ⟨row.mark ids ready,by rw [hi,Table.find_map,hrow]; rfl,fun hm => ?_⟩,?_⟩
    · have hm : id ∉ ids := by simpa [HealthAct.marks,hrow] using hm
      rw [InstanceRow.mark,if_neg (Table.find_some_key hrow ▸ hm)]
    · intro ids' ready' hm id hid
      cases List.mem_singleton.mp hm
      obtain ⟨hid,hfound⟩ := List.mem_filter.mp hid
      obtain ⟨row,hrow⟩ := Option.isSome_iff_exists.mp hfound
      refine ⟨row.mark ids ready,by rw [hi,Table.find_map,hrow]; rfl,?_⟩
      rw [InstanceRow.mark,if_pos (Table.find_some_key hrow ▸ hid)]

theorem SinceRead.step (h : SinceRead t id ready s) (ha : readyRule i c s)
    (hx : undisturbedPool i ch c s = some (r,s')) (hi : (i : ℕ) ≠ t) :
    SinceRead t id ready s' := by
  obtain ⟨row,h⟩ := h
  obtain ⟨acts,hl,hkeep,-⟩ := ready_step ha hx
  refine ⟨row,hl ▸ h.append ?_ ?_⟩
  · intro e he
    obtain ⟨act,-,rfl⟩ := List.mem_map.mp he
    cases act <;> simp [HealthEntry.reads,hi]
  · rintro ⟨row₁,hrow₁,hready⟩ hm
    obtain ⟨row₂,hrow₂,hsame⟩ := hkeep id row₁ hrow₁
    exact ⟨row₂,hrow₂,(hsame fun act hact => hm ⟨i,act⟩ (List.mem_map_of_mem hact)).trans hready⟩

theorem HealthState.Marked.step (h : s.Marked) (ha : readyRule i c s)
    (hx : undisturbedPool i ch c s = some (r,s')) : s'.Marked := by
  intro before after t ids ready hlog id hid hafter
  obtain ⟨acts,hl,hkeep,hmark⟩ := ready_step ha hx
  rw [hl] at hlog
  rcases append_split hlog with ⟨rest,hold,rfl⟩ | ⟨mid,hnew,-⟩
  · obtain ⟨row,hrow,hready⟩ := h before rest t ids ready hold id hid
      fun e he => hafter e (List.mem_append_left _ he)
    obtain ⟨row',hrow',hsame⟩ := hkeep id row hrow
    refine ⟨row',hrow',(hsame fun act hact => ?_).trans hready⟩
    exact hafter ⟨i,act⟩ (List.mem_append_right _ (List.mem_map_of_mem hact))
  · have hmem : ⟨t,.marked ids ready⟩ ∈ acts.map (HealthEntry.mk i) := by rw [hnew]; simp
    obtain ⟨act,hact,he⟩ := List.mem_map.mp hmem
    cases he
    exact hmark ids ready hact id hid

theorem safe_pulse_ready (instanceID : String) : Safe undisturbedPool readyRule i
    (fun _ _ => True) (HealthCheckServer.pulse instanceID) fun _ => True := by
  have hfree : ∀ {β : Type} {c : HealthCall} {k : c.Resp → HealthM β} {Q : β → HealthState → Prop},
      (∀ s, readyRule i c s) → (∀ r, Safe undisturbedPool readyRule i Q (k r) fun _ => True) →
      Safe undisturbedPool readyRule i Q (.call c k) fun _ => True := fun hc hk =>
    Safe.call fun s _ => ⟨hc s,fun _ r _ _ => ⟨fun _ => True,.const True,trivial,hk r⟩⟩
  simp only [HealthCheckServer.pulse,Prog.lift_bind]
  refine hfree (fun _ => trivial) fun notReady => ?_
  cases notReady with
  | true => exact Safe.ret fun _ _ => trivial
  | false =>
    refine hfree (fun _ => trivial) fun lock => ?_
    obtain ⟨lockOwnerID,err⟩ := lock
    refine Safe.bind (Q := fun _ _ => True) ?_ fun _ => hfree (fun _ => trivial) fun _ =>
      Safe.ret fun _ _ => trivial
    cases err with
    | some err => exact Safe.ret fun _ _ => trivial
    | none =>
      refine Safe.call fun s _ => ⟨trivial,fun ch r s' hx => ?_⟩
      cases r with
      | error err =>
        refine ⟨fun _ => True,.const True,trivial,?_⟩
        cases err with
        | recordNotFound =>
          exact hfree (fun _ => trivial) fun now => hfree (fun _ => trivial) fun _ =>
            Safe.ret fun _ _ => trivial
        | other text => exact Safe.ret fun _ _ => trivial
      | ok found =>
        obtain ⟨-,hx⟩ := undisturbedPool_exec hx
        have hstable : Stable undisturbedPool readyRule i (SinceRead i instanceID found.ready) :=
          fun j hj _ _ _ _ _ ha hx h => h.step ha hx fun he => hj (Fin.ext he)
        obtain ⟨hid,hfind,hlog⟩ := getInstance_spec hx
        refine ⟨_,hstable,⟨some found,hlog ▸ .snoc ⟨found,hfind,rfl⟩⟩,?_⟩
        refine Safe.call fun s hs => ⟨trivial,fun ch now s' hx => ⟨_,hstable,?_,?_⟩⟩
        · obtain ⟨-,-,hsame,hlog⟩ := now_spec (undisturbedPool_exec hx).2
          rwa [SinceRead,hsame,hlog]
        · refine Safe.call fun s hs => ⟨hid ▸ hs,fun ch r s' hx =>
            ⟨fun _ => True,.const True,trivial,Safe.ret fun _ _ => trivial⟩⟩

theorem checkInstances_calls (heartbeatInterval : ℤ) {V : (c : HealthCall) → c.Resp → Prop} :
    (HealthCheckServer.checkInstances heartbeatInterval).Calls V
      (fun c => c.checks = true ∨ c.locking = true) fun _ => True := by
  refine .lift_bind (Or.inr rfl) fun lock _ => ?_
  obtain ⟨lockOwnerID,acquired,err⟩ := lock
  refine .deferring ?_ ⟨Or.inr rfl,fun _ _ => trivial⟩
  cases err with
  | some err => exact trivial
  | none =>
    cases acquired with
    | false => exact trivial
    | true =>
      refine .lift_bind (Or.inl rfl) fun r _ => ?_
      cases r with
      | error err => exact trivial
      | ok instances =>
        refine Prog.Calls.mono ?_ (fun c hc => Or.inl hc) fun _ h => h
        exact (sortInstances_calls _ _ _ _).bind fun _ _ => markInstances_calls _ _

theorem verified_ready (tasks : Fin n → HealthCheckServer.Task) (s₀ : HealthState) :
    Verified undisturbedPool readyRule (fun _ _ _ => True) ⟨s₀,fun i => (tasks i).program⟩ := by
  intro i
  refine ⟨fun _ => True,.const True,trivial,?_⟩
  cases ht : tasks i with
  | pulsing instanceID k =>
    simp only [ht]
    exact safe_rounds (safe_pulse_ready instanceID) k
  | checking heartbeatInterval k =>
    simp only [ht]
    refine safe_rounds (P := fun _ => True) ?_ k
    refine (Safe.of_calls (V := fun _ _ => True) (fun _ _ _ _ _ _ => trivial)
      (fun _ _ _ _ _ _ _ _ _ => trivial) (fun c s hc _ => ?_)
      (checkInstances_calls heartbeatInterval)).weaken (fun _ h => h) fun _ _ _ => trivial
    cases c with
    | replaceInstance row => rcases hc with hc | hc <;> cases hc
    | _ => trivial

/-- When no mark of a row falls between the read and the write of a pulse, only a later mark
changes the flag that a mark has written, and the heartbeats never go back. -/
theorem marks_survive_pulses (tasks : Fin n → HealthCheckServer.Task) {s₀ : HealthState}
    (h₀ : s₀.Sound) (hlog : s₀.log = [])
    {cfg : Config (Fin n) HealthState HealthCall HealthCall.Resp Unit}
    (hr : Reach undisturbedPool ⟨s₀,fun i => (tasks i).program⟩ cfg) :
    (∀ before after t ids ready,
      cfg.shared.log = before ++ ⟨t,.marked ids ready⟩ :: after → ∀ id ∈ ids,
      (∀ e ∈ after, e.act.marks id = false) →
      ∃ row, cfg.shared.instances.find id = some row ∧ row.ready = ready) ∧
    ∀ cfg', Reach undisturbedPool cfg cfg' →
      ∀ id row, cfg.shared.instances.find id = some row →
        ∃ row', cfg'.shared.instances.find id = some row' ∧
          row.lastHeartbeat ≤ row'.lastHeartbeat := by
  have hpool : ∀ (i : Fin n) ch c s r s', undisturbedPool i ch c s = some (r,s') →
      healthPool i ch c s = some (r,s') := fun _ _ _ _ _ _ hx => (undisturbedPool_exec hx).2
  refine ⟨?_,fun cfg' hr' id row hrow => ?_⟩
  · refine (verified_ready tasks s₀).invariant (K := HealthState.Marked)
      (fun i ch c s r s' ha hx h => h.step ha hx) hr ?_
    simp [HealthState.Marked,hlog]
  · exact heartbeat_mono tasks h₀ (hr.mono _ hpool) (hr'.mono _ hpool) hrow

end Ready

/-- A pulse and a liveness check of one instance. -/
def livenessTasks : Fin 2 → HealthCheckServer.Task
  | 0 => .pulsing "maestro-0" 1
  | 1 => .checking 10 1

/-- The instance has pulsed before and nobody has marked it. -/
def livenessState : HealthState where
  instances := Table.empty.save { id := "maestro-0", lastHeartbeat := 0 }
  clock := 0

theorem livenessState_sound : livenessState.Sound :=
  ⟨by decide,by decide,by decide⟩

abbrev livenessStart : Config (Fin 2) HealthState HealthCall HealthCall.Resp Unit :=
  ⟨livenessState,fun i => (livenessTasks i).program⟩

def livenessTurns (sessions : List (Fin 2)) : List (Fin 2 × HealthChoice) :=
  sessions.zipIdx.map fun (i,k) =>
    (i,{ now := k, uuid := "uuid-" ++ toString k, uuid_ne := uuid_text_ne k })

theorem marks_survive_pulses_once :
    ∃ cfg : Config (Fin 2) HealthState HealthCall HealthCall.Resp Unit,
      Reach undisturbedPool livenessStart cfg ∧ Finished cfg ∧
      ∃ row, cfg.shared.instances.find "maestro-0" = some row ∧ row.ready = true := by
  have h : (follow undisturbedPool (livenessTurns [1,1,1,1,1,0,0,0,0,0,0]) livenessStart).any
      fun cfg => decide ((∀ i, (cfg.threads i).result.isSome) ∧ cfg.shared.log =
        [⟨1,.marked ["maestro-0"] true⟩,⟨0,.read "maestro-0" (some ⟨"maestro-0",0,true⟩)⟩,
          ⟨0,.saved ⟨"maestro-0",8,true⟩⟩]) := by
    decide +kernel
  obtain ⟨cfg,hr,h⟩ := (Option.any_eq_true _ _).mp h
  obtain ⟨hf,hlog⟩ := of_decide_eq_true h
  have hr := Reach.of_follow _ hr
  refine ⟨cfg,hr,.of_result hf,?_⟩
  exact (marks_survive_pulses livenessTasks livenessState_sound rfl hr).1 [] _ 1 ["maestro-0"] true
    hlog "maestro-0" (by simp) (by simp [HealthAct.marks])

/-- The pulse reads the row, the check marks it as ready, and the pulse writes back what it has
read: the instance is not ready, although no check has marked it so. -/
theorem mark_undone_by_pulse :
    ∃ cfg : Config (Fin 2) HealthState HealthCall HealthCall.Resp Unit,
      Reach healthPool livenessStart cfg ∧ Finished cfg ∧
      cfg.shared.log = [⟨0,.read "maestro-0" (some ⟨"maestro-0",0,false⟩)⟩,
        ⟨1,.marked ["maestro-0"] true⟩,⟨0,.saved ⟨"maestro-0",8,false⟩⟩] ∧
      cfg.shared.instances.find "maestro-0" = some ⟨"maestro-0",8,false⟩ := by
  have h : (follow healthPool (livenessTurns [0,0,0,1,1,1,1,1,0,0,0]) livenessStart).any
      fun cfg => decide ((∀ i, (cfg.threads i).result.isSome) ∧
        cfg.shared.log = [⟨0,.read "maestro-0" (some ⟨"maestro-0",0,false⟩)⟩,
          ⟨1,.marked ["maestro-0"] true⟩,⟨0,.saved ⟨"maestro-0",8,false⟩⟩] ∧
        cfg.shared.instances.find "maestro-0" = some ⟨"maestro-0",8,false⟩) := by
    decide +kernel
  obtain ⟨cfg,hr,h⟩ := (Option.any_eq_true _ _).mp h
  obtain ⟨hf,hlog,hrow⟩ := of_decide_eq_true h
  exact ⟨cfg,.of_follow _ hr,.of_result hf,hlog,hrow⟩

end Maestro
