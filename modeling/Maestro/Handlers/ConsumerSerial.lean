import Maestro.Handlers.Consumer

/-!
# When requests on consumers are serializable

`Patch` reads a consumer and saves it as a whole, without a lock, and the save inserts the row
when it is gone. When no other write of the consumer falls between the two statements, every
request takes effect at its last statement, and the requests in that order, one after the
other, give the same table and the same answers.
-/

namespace Maestro
open Data Concurrent

def ConsumerAct.writes (id : String) : ConsumerAct → Bool
  | .saved _ row => row.id = id
  | .deleted row => row.id = id
  | .read _ _ => false

/-- Session `t` read the consumer. -/
def ConsumerEntry.reads (t : ℕ) (id : String) : ConsumerEntry → Bool
  | ⟨session,.read id' _⟩ => session = t ∧ id' = id
  | _ => false

/-- No write of a consumer falls between the read and the save of a patch. -/
def ConsumerState.exclusive (s : ConsumerState) (t : ℕ) : ConsumerCall → Bool
  | .save row => !since (fun e => e.act.writes row.id) (ConsumerEntry.reads t row.id) s.log
  | _ => true

/-- Requests in any interleaving of their statements. -/
def consumerPool {n : ℕ} (i : Fin n) :
    ConsumerChoice → (c : ConsumerCall) → ConsumerState → Option (c.Resp × ConsumerState) :=
  consumerExec i

def exclusivePool {n : ℕ} (i : Fin n) (ch : ConsumerChoice) (c : ConsumerCall)
    (s : ConsumerState) : Option (c.Resp × ConsumerState) :=
  if s.exclusive i c then consumerExec i ch c s else none

/-- The request waits to be run, or it is a patch that has read its consumer, which has not
changed as long as nobody writes it. -/
def ConsumerRequest.Waits (request : ConsumerRequest) (t : ℕ) (s : ConsumerState)
    (p : ConsumerM ConsumerReply) : Prop :=
  p = request.program ∨ ∃ id labels found, request = .patch id labels ∧ found.id = id ∧
    p = ConsumerHandler.replaceFound labels found ∧
    SinceLast (fun e => e.act.writes id) (ConsumerEntry.reads t id) ⟨t,.read id (some found)⟩ s.log
      (s.consumers.find id = some found)

/-- The requests that are answered, in an order in which they give the table and the answers one
after the other. -/
structure Serialized {n : ℕ} (tasks : Fin n → ConsumerRequest) (s₀ : ConsumerState)
    (cfg : Config (Fin n) ConsumerState ConsumerCall ConsumerCall.Resp ConsumerReply)
    (order : List (Fin n × ConsumerReply)) (s : ConsumerState) : Prop where
  serial : SerialOrder consumerPool (fun i => (tasks i).program) s₀ order s
  consumers : s.consumers = cfg.shared.consumers
  referenced : s.referenced = cfg.shared.referenced
  nodup : (order.map Prod.fst).Nodup
  answered : ∀ i b, (i,b) ∈ order → cfg.threads i = .ret b
  waiting : ∀ i, i ∉ order.map Prod.fst → (tasks i).Waits i cfg.shared (cfg.threads i)

section

variable {n : ℕ} {i : Fin n} {t u : ℕ} {ch : ConsumerChoice} {c : ConsumerCall}
  {s s' z : ConsumerState} {r : c.Resp}

theorem exclusivePool_exec (h : exclusivePool i ch c s = some (r,s')) :
    s.exclusive i c = true ∧ consumerExec i ch c s = some (r,s') := by
  unfold exclusivePool at h
  split at h
  · next he => exact ⟨he,h⟩
  · cases h

theorem consumerExec_eq : consumerExec t ch c s = some (r,s') ↔
    (consumerAnswer ch s.referenced c s.consumers).1 = r ∧
      s' = { s with
        consumers := (consumerAnswer ch s.referenced c s.consumers).2.1
        log := s.log ++
          (consumerAnswer ch s.referenced c s.consumers).2.2.map (ConsumerEntry.mk t) } := by
  simp only [consumerExec,Option.some.injEq,Prod.mk.injEq,eq_comm (a := s')]

/-- A row changes only by a statement that is recorded as a write of it. -/
theorem consumerAnswer_find {referenced : List String} {consumers : Table Consumer.id}
    {id : String}
    (h : ∀ act ∈ (consumerAnswer ch referenced c consumers).2.2, act.writes id = false) :
    (consumerAnswer ch referenced c consumers).2.1.find id = consumers.find id := by
  revert h
  unfold consumerAnswer
  split
  · exact fun _ => rfl
  cases c with
  | take id => exact fun _ => rfl
  | save consumer =>
    have hfind : consumer.id ≠ id → (consumers.save { consumer with updatedAt := ch.now }).find id =
        consumers.find id := fun hne => by rw [Table.find_save,if_neg hne]
    simp only [consumerCommit]
    split
    · exact fun h => hfind (by simpa [ConsumerAct.writes] using h)
    · split
      · exact fun _ => rfl
      · exact fun h => hfind (by simpa [ConsumerAct.writes] using h)
  | delete key =>
    simp only [consumerCommit]
    split
    · exact fun _ => rfl
    split
    · exact fun _ => rfl
    · next row hrow =>
      split
      · exact fun _ => rfl
      · intro h
        have hne : row.id ≠ id := by simpa [ConsumerAct.writes] using h
        rw [Table.find_some_key hrow] at hne
        exact Table.find_erase_ne _ hne.symm

theorem ConsumerRequest.Waits.step {request : ConsumerRequest} {p : ConsumerM ConsumerReply}
    (h : request.Waits u s p) (hx : consumerExec t ch c s = some (r,s')) (hne : t ≠ u) :
    request.Waits u s' p := by
  rcases h with h | ⟨id,labels,found,hreq,hid,hp,hread⟩
  · exact Or.inl h
  obtain ⟨-,rfl⟩ := consumerExec_eq.mp hx
  refine Or.inr ⟨id,labels,found,hreq,hid,hp,hread.append ?_ fun hfind hw => ?_⟩
  · intro e he
    obtain ⟨act,-,rfl⟩ := List.mem_map.mp he
    cases act <;> simp [ConsumerEntry.reads,hne]
  · refine (consumerAnswer_find fun act hact => ?_).trans hfind
    exact hw ⟨t,act⟩ (List.mem_map_of_mem hact)

end

/-- What `Patch` answers after its save. -/
def saveReply : Except DbErr Consumer → ConsumerReply
  | .error err => .failed (handleUpdateError "Consumer" err.error)
  | .ok consumer => .body (presentConsumer consumer)

def deleteReply : Except DbErr Unit → ConsumerReply
  | .error err => .failed (handleDeleteError "Consumer" err.error)
  | .ok () => .noContent

theorem replaceFound_eq (labels : Option StringMap) (found : Consumer) :
    ConsumerHandler.replaceFound labels found =
      .call (.save (ConsumerHandler.patched labels found)) fun r => .ret (saveReply r) := by
  refine congrArg (Prog.call _) (funext fun r => ?_)
  cases r <;> rfl

theorem delete_eq (id : String) : ConsumerHandler.delete id =
    .call (.delete id) fun r => .ret (deleteReply r) := by
  refine congrArg (Prog.call _) (funext fun r => ?_)
  cases r <;> rfl

theorem patch_eq (id : String) (labels : Option StringMap) : ConsumerHandler.patch id labels =
    .call (.take id) fun r => match r with
      | .error err => .ret (.failed (handleGetError "Consumer" "id" id err))
      | .ok found => ConsumerHandler.replaceFound labels found := by
  refine congrArg (Prog.call _) (funext fun r => ?_)
  cases r <;> rfl

section

variable {n : ℕ} {tasks : Fin n → ConsumerRequest} {s₀ s : ConsumerState}
  {cfg : Config (Fin n) ConsumerState ConsumerCall ConsumerCall.Resp ConsumerReply}
  {order : List (Fin n × ConsumerReply)} {i : Fin n} {ch : ConsumerChoice} {c : ConsumerCall}
  {r : c.Resp} {s₁ s₂ : ConsumerState}

/-- A statement depends on the tables, not on the log or the session. -/
theorem consumerExec_same {t u : ℕ} {z : ConsumerState} (hc : z.consumers = s.consumers)
    (hr : z.referenced = s.referenced) (hx : consumerExec t ch c s = some (r,s₁)) :
    ∃ z₁, consumerExec u ch c z = some (r,z₁) ∧ z₁.consumers = s₁.consumers ∧
      z₁.referenced = s₁.referenced := by
  obtain ⟨rfl,rfl⟩ := consumerExec_eq.mp hx
  rw [← hc,← hr]
  exact ⟨_,rfl,rfl,rfl⟩

/-- A request that is answered goes to the end of the order. -/
theorem Serialized.answer (h : Serialized tasks s₀ cfg order s)
    (hi : i ∉ order.map Prod.fst) (hx : consumerExec i ch c cfg.shared = some (r,s₁))
    {b : ConsumerReply} (env : ℕ → ConsumerChoice)
    (he : Prog.eval (consumerPool i) env (tasks i).program s = some (b,s₂))
    (hc : s₂.consumers = s₁.consumers) (hr : s₂.referenced = s₁.referenced) :
    Serialized tasks s₀ ⟨s₁,Function.update cfg.threads i (.ret b)⟩ (order ++ [(i,b)]) s₂ where
  serial := h.serial.snoc env he
  consumers := hc
  referenced := hr
  nodup := by
    rw [List.map_append,List.nodup_append]
    refine ⟨h.nodup,by simp,?_⟩
    rintro j hj k hk rfl
    have hji : j = i := List.mem_singleton.mp hk
    exact hi (hji ▸ hj)
  answered j b' hj := by
    rcases List.mem_append.mp hj with hold | hnew
    · have hne : j ≠ i := by
        rintro rfl
        exact hi (List.mem_map.mpr ⟨_,hold,rfl⟩)
      simp only [Function.update_of_ne hne]
      exact h.answered j b' hold
    · cases List.mem_singleton.mp hnew
      simp
  waiting j hj := by
    have hj : j ∉ order.map Prod.fst ∧ j ≠ i := by simpa using hj
    simp only [Function.update_of_ne hj.2]
    exact (h.waiting j hj.1).step hx fun he => hj.2 (Fin.ext he.symm)

/-- A request that has read goes on waiting. -/
theorem Serialized.go_on (h : Serialized tasks s₀ cfg order s)
    (hx : consumerExec i ch c cfg.shared = some (r,s₁)) {p : ConsumerM ConsumerReply}
    (hp : (tasks i).Waits i s₁ p) (hi : i ∉ order.map Prod.fst)
    (hc : s₁.consumers = cfg.shared.consumers) :
    Serialized tasks s₀ ⟨s₁,Function.update cfg.threads i p⟩ order s where
  serial := h.serial
  consumers := h.consumers.trans hc.symm
  referenced := by
    obtain ⟨-,rfl⟩ := consumerExec_eq.mp hx
    exact h.referenced
  nodup := h.nodup
  answered j b hj := by
    have hne : j ≠ i := by
      rintro rfl
      exact hi (List.mem_map.mpr ⟨_,hj,rfl⟩)
    simp only [Function.update_of_ne hne]
    exact h.answered j b hj
  waiting j hj := by
    by_cases hji : j = i
    · subst hji
      simpa using hp
    · simp only [Function.update_of_ne hji]
      exact (h.waiting j hj).step hx fun he => hji (Fin.ext he.symm)

/-- A row that was taken is in the table, and the table stays as it was. -/
theorem take_spec {id : String} {found : Consumer} {t : ℕ}
    (hx : consumerExec t ch (.take id) s = some (.ok found,s₁)) :
    s.consumers.find id = some found ∧ s₁.consumers = s.consumers ∧
      s₁.log = s.log ++ [⟨t,.read id (some found)⟩] := by
  obtain ⟨hr,rfl⟩ := consumerExec_eq.mp hx
  cases hf : ch.fault with
  | some err =>
    simp only [consumerAnswer,hf] at hr
    cases hr
  | none =>
    simp only [consumerAnswer,hf,consumerCommit] at hr ⊢
    split at hr
    · cases hr
    · next row hrow =>
      cases hr
      exact ⟨hrow,trivial,by rw [hrow]; rfl⟩

/-- A thread that has a statement to run is not answered yet. -/
theorem Serialized.not_answered (h : Serialized tasks s₀ cfg order s)
    {k : c.Resp → ConsumerM ConsumerReply} (ht : cfg.threads i = .call c k) :
    i ∉ order.map Prod.fst := by
  intro hi
  obtain ⟨⟨j,b⟩,hm,rfl⟩ := List.mem_map.mp hi
  rw [h.answered _ _ hm] at ht
  cases ht

theorem patched_id (labels : Option StringMap) (found : Consumer) :
    (ConsumerHandler.patched labels found).id = found.id := by
  unfold ConsumerHandler.patched
  split <;> rfl

/-- A save is the second half of a patch, and the consumer is as the patch has read it. -/
theorem Serialized.save (h : Serialized tasks s₀ cfg order s) {consumer : Consumer}
    {k : Except DbErr Consumer → ConsumerM ConsumerReply}
    (ht : cfg.threads i = .call (.save consumer) k)
    (he : cfg.shared.exclusive i (.save consumer) = true) :
    ∃ labels found, tasks i = .patch found.id labels ∧
      consumer = ConsumerHandler.patched labels found ∧
      cfg.shared.consumers.find found.id = some found := by
  rcases h.waiting i (h.not_answered ht) with hp | ⟨id,labels,found,hreq,rfl,hp,hread⟩
  · rw [hp] at ht
    cases hreq : tasks i with
    | delete id => rw [hreq,ConsumerRequest.program,delete_eq] at ht; cases ht
    | patch id labels => rw [hreq,ConsumerRequest.program,patch_eq] at ht; cases ht
  · rw [hp,replaceFound_eq] at ht
    cases ht
    refine ⟨labels,found,hreq,rfl,hread.elim rfl (by simp [ConsumerEntry.reads]) ?_⟩
    simpa [ConsumerState.exclusive,patched_id] using he

theorem Serialized.step (h : Serialized tasks s₀ cfg order s)
    {cfg' : Config (Fin n) ConsumerState ConsumerCall ConsumerCall.Resp ConsumerReply}
    (hs : Step exclusivePool cfg cfg') : ∃ order' s', Serialized tasks s₀ cfg' order' s' := by
  obtain ⟨i,ch,ht,hx⟩ := hs
  obtain ⟨hexcl,hx⟩ := exclusivePool_exec hx
  have hi := h.not_answered ht
  obtain ⟨s₂,hx₂,hc₂,hr₂⟩ := consumerExec_same (u := i) h.consumers h.referenced hx
  rcases h.waiting i hi with hp | ⟨id,labels,found,hreq,rfl,hp,-⟩
  · rw [hp] at ht
    cases hreq : tasks i with
    | delete id =>
      rw [hreq,ConsumerRequest.program,delete_eq] at ht
      cases ht
      refine ⟨_,_,h.answer hi hx (fun _ => ch) ?_ hc₂ hr₂⟩
      rw [hreq,ConsumerRequest.program,delete_eq]
      exact Prog.eval_call.mpr ⟨_,_,hx₂,rfl⟩
    | patch id labels =>
      rw [hreq,ConsumerRequest.program,patch_eq] at ht
      cases ht
      rename_i r s₁
      cases r with
      | error err =>
        refine ⟨_,_,h.answer hi hx (fun _ => ch) ?_ hc₂ hr₂⟩
        rw [hreq,ConsumerRequest.program,patch_eq]
        exact Prog.eval_call.mpr ⟨_,_,hx₂,rfl⟩
      | ok found =>
        obtain ⟨hfind,hc,hl⟩ := take_spec hx
        refine ⟨order,s,h.go_on hx (Or.inr ⟨id,labels,found,hreq,Table.find_some_key hfind,rfl,?_⟩)
          hi hc⟩
        rw [hl,hc]
        exact .snoc hfind
  · -- the consumer is as the patch has read it, so that the whole patch can run here
    have hnext := ht
    rw [hp,replaceFound_eq] at ht
    cases ht
    generalize ConsumerHandler.patched labels found = consumer at *
    obtain ⟨labels',found',hreq',rfl,hfind⟩ := h.save hnext hexcl
    have htake : consumerPool i {} (.take found'.id) s =
        some (.ok found',{ s with log := s.log ++ [⟨i,.read found'.id (some found')⟩] }) := by
      simp [consumerPool,consumerExec,consumerAnswer,consumerCommit,h.consumers,hfind]
    obtain ⟨s₃,hx₃,hc₃,hr₃⟩ := consumerExec_same (u := i)
      (z := { s with log := s.log ++ [⟨i,.read found'.id (some found')⟩] })
      h.consumers h.referenced hx
    refine ⟨_,_,h.answer hi hx (fun k => if k = 0 then {} else ch) ?_ hc₃ hr₃⟩
    rw [hreq',ConsumerRequest.program,patch_eq]
    refine Prog.eval_call.mpr ⟨_,_,htake,?_⟩
    simp only [replaceFound_eq]
    exact Prog.eval_call.mpr ⟨_,_,hx₃,rfl⟩

theorem Serialized.reach {s₀ : ConsumerState}
    (hr : Reach exclusivePool ⟨s₀,fun i => (tasks i).program⟩ cfg) :
    ∃ order s, Serialized tasks s₀ cfg order s := by
  induction hr with
  | refl => exact ⟨[],s₀,.nil,rfl,rfl,List.nodup_nil,by simp,fun _ _ => Or.inl rfl⟩
  | tail _ hs ih =>
    obtain ⟨order,s,h⟩ := ih
    exact h.step hs

/-- What a step can write: a patch saves over the consumer that it has read. -/
theorem Serialized.written (h : Serialized tasks s₀ cfg order s)
    {k : c.Resp → ConsumerM ConsumerReply} (ht : cfg.threads i = .call c k)
    (hx : exclusivePool i ch c cfg.shared = some (r,s₁)) :
    (∀ id, cfg.shared.consumers.find id = none → s₁.consumers.find id = none) ∧
    ∃ acts : List ConsumerAct, s₁.log = cfg.shared.log ++ acts.map (ConsumerEntry.mk i) ∧
      ∀ old row, .saved old row ∈ acts → ∃ labels found, tasks i = .patch found.id labels ∧
        old = some found ∧ row.labels = (ConsumerHandler.patched labels found).labels := by
  obtain ⟨hexcl,hx⟩ := exclusivePool_exec hx
  obtain ⟨-,rfl⟩ := consumerExec_eq.mp hx
  simp only [consumerAnswer]
  split
  · exact ⟨fun _ hn => hn,[],rfl,by simp⟩
  cases c with
  | take id => exact ⟨fun _ hn => hn,[_],rfl,by simp⟩
  | save consumer =>
    obtain ⟨labels,found,hreq,rfl,hfind⟩ := h.save ht hexcl
    simp only [consumerCommit,patched_id,hfind]
    refine ⟨fun id hn => ?_,[_],rfl,?_⟩
    · rw [Table.find_save,if_neg]
      · exact hn
      · rintro rfl
        cases hfind.symm.trans hn
    · rintro old row hm
      cases List.mem_singleton.mp hm
      exact ⟨labels,found,hreq,rfl,rfl⟩
  | delete id =>
    simp only [consumerCommit]
    split
    · exact ⟨fun _ hn => hn,[],rfl,by simp⟩
    split
    · exact ⟨fun _ hn => hn,[],rfl,by simp⟩
    split
    · exact ⟨fun _ hn => hn,[],rfl,by simp⟩
    · refine ⟨fun id' hn => ?_,[_],rfl,by simp⟩
      rw [Table.find_erase,hn]
      split <;> rfl

end

/-- When no write of a consumer falls between the read and the save of a patch, the requests on
consumers are serializable: the answered requests, one after the other in some order, give the
same table and the same answers. In particular a consumer that is gone stays away, and a patch
without labels leaves the labels. -/
theorem consumer_requests_serializable {n : ℕ} (tasks : Fin n → ConsumerRequest)
    {s₀ : ConsumerState} (hlog : s₀.log = [])
    {cfg : Config (Fin n) ConsumerState ConsumerCall ConsumerCall.Resp ConsumerReply}
    (hr : Reach exclusivePool ⟨s₀,fun i => (tasks i).program⟩ cfg) :
    (∃ order s, SerialOrder consumerPool (fun i => (tasks i).program) s₀ order s ∧
      s.consumers = cfg.shared.consumers ∧ (order.map Prod.fst).Nodup ∧
      (∀ i b, (i,b) ∈ order → cfg.threads i = .ret b) ∧
      (Finished cfg → (order.map Prod.fst).Perm (List.finRange n))) ∧
    (∀ cfg', Reach exclusivePool cfg cfg' → ∀ id, cfg.shared.consumers.find id = none →
      cfg'.shared.consumers.find id = none) ∧
    ∀ (i : Fin n) id, tasks i = .patch id none → ∀ old row,
      ⟨i,.saved old row⟩ ∈ cfg.shared.log → ∃ found, old = some found ∧
        row.labels = found.labels := by
  refine ⟨?_,?_,?_⟩
  · obtain ⟨order,s,h⟩ := Serialized.reach hr
    refine ⟨order,s,h.serial,h.consumers,h.nodup,h.answered,fun hf => ?_⟩
    refine (List.perm_ext_iff_of_nodup h.nodup (List.nodup_finRange n)).mpr fun i => ?_
    refine iff_of_true ?_ (List.mem_finRange i)
    by_contra hi
    obtain ⟨b,hb⟩ := hf i
    rcases h.waiting i hi with hp | ⟨id,labels,found,-,-,hp,-⟩
    · rw [hp] at hb
      cases hreq : tasks i with
      | delete id => rw [hreq,ConsumerRequest.program,delete_eq] at hb; cases hb
      | patch id labels => rw [hreq,ConsumerRequest.program,patch_eq] at hb; cases hb
    · rw [hp,replaceFound_eq] at hb
      cases hb
  · intro cfg' hr' id hn
    induction hr' with
    | refl => exact hn
    | tail hr' hs ih =>
      obtain ⟨order,s,h⟩ := Serialized.reach (hr.trans hr')
      obtain ⟨i,ch,ht,hx⟩ := hs
      exact (h.written ht hx).1 id ih
  · induction hr with
    | refl => simp [hlog]
    | tail hr' hs ih =>
      intro i id hreq old row hm
      obtain ⟨order,s,h⟩ := Serialized.reach hr'
      obtain ⟨j,ch,ht,hx⟩ := hs
      obtain ⟨-,acts,hl,hsaved⟩ := h.written ht hx
      rw [hl] at hm
      rcases List.mem_append.mp hm with hm | hm
      · exact ih i id hreq old row hm
      · obtain ⟨act,hact,he⟩ := List.mem_map.mp hm
        obtain ⟨hj,rfl⟩ := ConsumerEntry.mk.inj he
        obtain ⟨labels,found,hreq',rfl,hlabels⟩ := hsaved old row hact
        rw [Fin.ext hj,hreq] at hreq'
        cases hreq'
        exact ⟨found,rfl,hlabels⟩

def blueConsumer : Consumer := { id := "1", name := "cluster1", labels := some [("color","blue")] }

/-- The table has one consumer. -/
def blueState : ConsumerState where
  consumers := Table.empty.save blueConsumer

/-- A patch without labels beside another request on the same consumer. -/
def besideTasks (other : ConsumerRequest) : Fin 2 → ConsumerRequest
  | 0 => .patch "1" none
  | 1 => other

abbrev besideStart (other : ConsumerRequest) :
    Config (Fin 2) ConsumerState ConsumerCall ConsumerCall.Resp ConsumerReply :=
  ⟨blueState,fun i => (besideTasks other i).program⟩

def besideTurns (sessions : List (Fin 2)) : List (Fin 2 × ConsumerChoice) :=
  sessions.zipIdx.map fun (i,k) => (i,{ now := k })

theorem consumer_requests_serializable_patches :
    ∃ (cfg : Config (Fin 2) ConsumerState ConsumerCall ConsumerCall.Resp ConsumerReply)
      (order : List (Fin 2 × ConsumerReply)) (s : ConsumerState),
      Reach exclusivePool (besideStart (.patch "1" (some [("color","red")]))) cfg ∧ Finished cfg ∧
      SerialOrder consumerPool
        (fun i => (besideTasks (.patch "1" (some [("color","red")])) i).program) blueState order s ∧
      s.consumers = cfg.shared.consumers ∧
      (s.consumers.find "1").bind Consumer.labels = some [("color","red")] := by
  have h : (follow exclusivePool (besideTurns [0,0,1,1])
      (besideStart (.patch "1" (some [("color","red")])))).any fun cfg =>
      decide ((∀ i, (cfg.threads i).result.isSome) ∧
        (cfg.shared.consumers.find "1").bind Consumer.labels = some [("color","red")]) := by
    decide +kernel
  obtain ⟨cfg,hr,h⟩ := (Option.any_eq_true _ _).mp h
  obtain ⟨hf,hlabels⟩ := of_decide_eq_true h
  have hr := Reach.of_follow _ hr
  obtain ⟨⟨order,s,hs,hc,-⟩,-⟩ := consumer_requests_serializable (besideTasks _) rfl hr
  exact ⟨cfg,order,s,hr,.of_result hf,hs,hc,hc ▸ hlabels⟩

/-- A patch that has read the consumer saves it again after a delete, which was answered; and a
patch without labels takes the labels back that another patch has set meanwhile. -/
theorem patch_overwrites :
    (∃ cfg : Config (Fin 2) ConsumerState ConsumerCall ConsumerCall.Resp ConsumerReply,
      Reach consumerPool (besideStart (.delete "1")) cfg ∧ cfg.threads 1 = .ret .noContent ∧
      cfg.shared.log = [⟨0,.read "1" (some blueConsumer)⟩,⟨1,.deleted blueConsumer⟩,
        ⟨0,.saved none { blueConsumer with updatedAt := 2 }⟩] ∧
      cfg.shared.consumers.find "1" = some { blueConsumer with updatedAt := 2 }) ∧
    ∃ (cfg : Config (Fin 2) ConsumerState ConsumerCall ConsumerCall.Resp ConsumerReply)
      (red : Consumer),
      Reach consumerPool (besideStart (.patch "1" (some [("color","red")]))) cfg ∧
      red = { blueConsumer with labels := some [("color","red")], updatedAt := 2 } ∧
      cfg.threads 1 = .ret (.body (presentConsumer red)) ∧
      cfg.shared.log = [⟨0,.read "1" (some blueConsumer)⟩,⟨1,.read "1" (some blueConsumer)⟩,
        ⟨1,.saved (some blueConsumer) red⟩,
        ⟨0,.saved (some red) { blueConsumer with updatedAt := 3 }⟩] := by
  constructor
  · have h : (follow consumerPool (besideTurns [0,1,0]) (besideStart (.delete "1"))).any fun cfg =>
        decide ((cfg.threads 1).result = some .noContent ∧
          cfg.shared.log = [⟨0,.read "1" (some blueConsumer)⟩,⟨1,.deleted blueConsumer⟩,
            ⟨0,.saved none { blueConsumer with updatedAt := 2 }⟩] ∧
          cfg.shared.consumers.find "1" = some { blueConsumer with updatedAt := 2 }) := by
      decide +kernel
    obtain ⟨cfg,hr,h⟩ := (Option.any_eq_true _ _).mp h
    obtain ⟨hret,hlog,hrow⟩ := of_decide_eq_true h
    exact ⟨cfg,.of_follow _ hr,Prog.result_eq_some.mp hret,hlog,hrow⟩
  · let red : Consumer := { blueConsumer with labels := some [("color","red")], updatedAt := 2 }
    have h : (follow consumerPool (besideTurns [0,1,1,0])
        (besideStart (.patch "1" (some [("color","red")])))).any fun cfg =>
        decide ((cfg.threads 1).result = some (.body (presentConsumer red)) ∧
          cfg.shared.log = [⟨0,.read "1" (some blueConsumer)⟩,⟨1,.read "1" (some blueConsumer)⟩,
            ⟨1,.saved (some blueConsumer) red⟩,
            ⟨0,.saved (some red) { blueConsumer with updatedAt := 3 }⟩]) := by
      decide +kernel
    obtain ⟨cfg,hr,h⟩ := (Option.any_eq_true _ _).mp h
    obtain ⟨hret,hlog⟩ := of_decide_eq_true h
    exact ⟨cfg,red,.of_follow _ hr,rfl,Prog.result_eq_some.mp hret,hlog⟩

end Maestro
