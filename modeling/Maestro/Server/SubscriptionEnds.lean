import Maestro.Server.SubscriptionStream

/-!
# How subscriptions end

`Subscribe` returns unregistered, with the error of the `Send` that failed or without one, and no
handler reaches its channels afterwards. A session whose context is done never holds up the others:
the goroutines of the server alone can bring every round to its end and every such session to its
return, however full the buffers are.
-/

namespace Maestro
open Data Concurrent

namespace Subscription

variable {ext : External} {pkg : StreamPackages} {svr : GRPCServer} {heartbeatDisable : Bool}

/-- The steps that need neither the client nor a tick, and in which no `Send` fails. -/
def SessionAct.Internal : SessionAct → Prop
  | .closeStream | .sendFails _ | .tick _ => False
  | _ => True

/-- The steps of the goroutines that are running: no new call, broadcast or end of the server. -/
def Act.Internal : Act → Prop
  | .session _ act => act.Internal
  | .register _ | .unregister _ | .rLock _ | .hand _ | .rUnlock => True
  | .subscribe _ _ | .broadcast _ | .stop => False

/-- The handler of a session can put a message into `eventCh` or sees that the context is done. -/
def Session.Free (x : Session) : Prop := x.done = true ∨ x.eventCh.items.length < 100

/-- What the future of a session cannot change: a `Send` that failed was the last one, and nothing
is accepted after the return. -/
structure Session.Later (x x' : Session) : Prop where
  failure : ∀ f, x.failure = some f → x'.failure = some f ∧ x'.sent = x.sent
  returned : ∀ r, x.main = .returned r → x'.main = .returned r ∧ x'.accepted = x.accepted

namespace Session

variable {x x' x'' : Session}

theorem Later.refl (x : Session) : x.Later x := ⟨fun _ h => ⟨h,rfl⟩,fun _ h => ⟨h,rfl⟩⟩

theorem Later.trans (h : x.Later x') (h' : x'.Later x'') : x.Later x'' := by
  refine ⟨fun f hf => ?_,fun r hr => ?_⟩
  · obtain ⟨hf,hs⟩ := h.failure f hf
    obtain ⟨hf',hs'⟩ := h'.failure f hf
    exact ⟨hf',hs'.trans hs⟩
  · obtain ⟨hr,ha⟩ := h.returned r hr
    obtain ⟨hr',ha'⟩ := h'.returned r hr
    exact ⟨hr',ha'.trans ha⟩

theorem Goes.later (h : x.Goes x') : x.Later x' := by
  refine ⟨h.failure,fun r hr => ⟨?_,h.accepted⟩⟩
  rcases h.main with hm | ⟨hm,-⟩
  · exact hm.trans hr
  · cases hm.symm.trans hr

/-- A step of a session that has not returned and sends nothing. -/
theorem Later.of_open (hm : ∀ r, x.main ≠ .returned r) (hf : x'.failure = x.failure)
    (hs : x'.sent = x.sent) : x.Later x' :=
  ⟨fun _ h => ⟨hf.trans h,hs⟩,fun r hr => absurd hr (hm r)⟩

theorem not_returned_of_registered (h : x.registered = true) (r : Except String Unit) :
    x.main ≠ .returned r := by
  intro hm
  rw [registered,hm] at h
  cases h

end Session

namespace System

variable {s s' s'' : System} {id : String} {x : Session}

/-- Every session is still there, and as it was up to `r`. -/
def Each (r : Session → Session → Prop) (s s' : System) : Prop :=
  ∀ id x, s.sessions id = some x → ∃ x', s'.sessions id = some x' ∧ r x x'

section Each

variable {r : Session → Session → Prop}

theorem Each.trans (hr : ∀ x x' x'', r x x' → r x' x'' → r x x'') (h : s.Each r s')
    (h' : s'.Each r s'') : s.Each r s'' := by
  intro id x hx
  obtain ⟨x',hx',hl⟩ := h id x hx
  obtain ⟨x'',hx'',hl'⟩ := h' id x' hx'
  exact ⟨x'',hx'',hr x x' x'' hl hl'⟩

variable (hr : ∀ x, r x x)
include hr

theorem Each.refl (s : System) : s.Each r s := fun _ x hx => ⟨x,hx,hr x⟩

theorem Each.setSession {x' : Session} (hx : s.sessions id = some x) (hl : r x x')
    (hs : s'.sessions = (s.setSession id x').sessions) : s.Each r s' := by
  intro id' y hy
  rw [hs,sessions_setSession]
  by_cases he : id' = id
  · subst he
    cases hx.symm.trans hy
    exact ⟨x',if_pos rfl,hl⟩
  · exact ⟨y,(if_neg he).trans hy,hr y⟩

end Each

theorem Inv.later {act : Act} (h : s.Inv ext pkg)
    (hs : s.step ext pkg svr heartbeatDisable act = some s') : s.Each Session.Later s' := by
  have hrefl := Session.Later.refl
  cases act with
  | subscribe id req =>
    obtain ⟨hfree,rfl | rfl⟩ := subscribe_some hs
    · exact .refl hrefl s'
    · intro id' y hy
      have hne : id' ≠ id := by
        rintro rfl
        cases hfree.symm.trans hy
      exact ⟨y,by rw [sessions_setSession,if_neg hne]; exact hy,.refl y⟩
  | session id act =>
    obtain ⟨x,x',hx,hx',rfl⟩ := sessionStep_some hs
    have hg := (Session.step_moves hx').goes (h.session _ _ hx).own.sender
    exact .setSession hrefl hx hg.later rfl
  | register id =>
    obtain ⟨x,ticker,hx,hm,-,rfl⟩ := register_some hs
    refine .setSession hrefl hx ?_ rfl
    exact .of_open (by rw [hm]; simp) rfl rfl
  | unregister id =>
    obtain ⟨x,r,hx,hm,-,rfl⟩ := unregister_some hs
    refine .setSession hrefl hx ?_ rfl
    exact .of_open (by rw [hm]; simp) rfl rfl
  | broadcast | rUnlock | stop =>
    obtain ⟨start,-,-,-,rfl⟩ := start_some (by simp) hs
    exact .refl hrefl s
  | rLock order =>
    obtain ⟨res,-,-,rfl⟩ := rLock_some hs
    exact .refl hrefl s
  | hand accept =>
    obtain ⟨res,client,rest,x,-,-,hx,hr,⟨-,ch,new,rfl,-⟩,rfl⟩ := h.hand_some hs
    refine .setSession hrefl hx ?_ rfl
    exact .of_open (Session.not_returned_of_registered hr) rfl rfl

theorem Inv.later_run (h : s.Inv ext pkg) {acts : List Act}
    (hr : (machine ext pkg svr heartbeatDisable).run acts s = some s') : s.Each Session.Later s' :=
  (Machine.invariant (P := fun t => t.Inv ext pkg ∧ s.Each Session.Later t)
    (fun _ _ _ hs hi => ⟨hi.1.step hs,hi.2.trans (fun _ _ _ h h' => h.trans h') (hi.1.later hs)⟩) hr
    ⟨h,.refl Session.Later.refl s⟩).2

/-- A `Send` that failed. It was the last one: the session sends nothing more in any continuation.
Its error is in the hands of the sender, waits for `Subscribe`, or `Subscribe` has left its `select`
with it or because the context is done; another error is never returned. -/
theorem failed_send_ends {acts : List Act}
    (h : (machine ext pkg svr heartbeatDisable).run acts {} = some s)
    (hx : s.sessions id = some x) {msg : Message} {err : String} (hf : x.failure = some (msg,err)) :
    (x.sender = .failed err ∨ x.done = true ∧ (x.sender = .cancelled err ∨
        x.sender = .returned ∧ (err ∈ x.sendErrCh.items ∨ ¬ x.Open))) ∧
      (∀ r, x.main = .unregistering r ∨ x.main = .returned r → r = .ok () ∨ r = .error err) ∧
      ∀ acts' s', (machine ext pkg svr heartbeatDisable).run acts' s = some s' →
        ∃ x', s'.sessions id = some x' ∧ x'.sent = x.sent ∧ x'.failure = some (msg,err) := by
  have hinv := Inv.of_run h
  have hi := (hinv.session _ _ hx).own
  refine ⟨?_,fun r hr => ?_,fun acts' s' hr => ?_⟩
  · have hs := hi.sender
    unfold Session.SenderOk at hs
    cases hp : x.sender <;> simp only [hp] at hs
    case selecting | sending => cases hs.1.symm.trans hf
    case failed err' =>
      obtain ⟨⟨msg',hf'⟩,-⟩ := hs
      cases hf'.symm.trans hf
      exact Or.inl rfl
    case cancelled err' =>
      obtain ⟨⟨msg',hf'⟩,-,hd⟩ := hs
      cases hf'.symm.trans hf
      exact Or.inr ⟨hd,Or.inl rfl⟩
    case returned =>
      refine Or.inr ⟨hs.1,Or.inr ⟨rfl,?_⟩⟩
      by_cases ho : x.Open
      · exact Or.inl (hs.2.2 ho err ⟨msg,hf⟩)
      · exact Or.inr ho
  · cases r with
    | ok u => exact Or.inl rfl
    | error err' =>
      obtain ⟨msg',hf'⟩ := (hi.result _ hr).2 err' rfl
      cases hf'.symm.trans hf
      exact Or.inr rfl
  · obtain ⟨x',hx',hl⟩ := hinv.later_run hr id x hx
    obtain ⟨hf',hs⟩ := hl.failure _ hf
    exact ⟨x',hx',hs,hf'⟩

/-- The connection breaks while a message is sent; the sender reports it. -/
def brokenActs : List Act :=
  [.subscribe "client" { source := "src" },.register "client",.broadcast (reportedWeb "1"),
    .rLock [⟨"client","src"⟩],.hand true,.rUnlock,.session "client" .takeEvent,
    .session "client" (.sendFails "EOF"),.session "client" .cancel,.session "client" .report]

theorem failed_send_ends_reported : ∃ s x, exampleMachine.run brokenActs {} = some s ∧
    s.sessions "client" = some x ∧ (∃ msg, x.failure = some (msg,"EOF")) ∧
    (x.sender = .failed "EOF" ∨ x.done = true ∧ (x.sender = .cancelled "EOF" ∨
      x.sender = .returned ∧ ("EOF" ∈ x.sendErrCh.items ∨ ¬ x.Open))) := by
  have h : (exampleMachine.run brokenActs {}).any fun s => (s.sessions "client").any fun x =>
      x.failure.any fun f => decide (f.2 = "EOF") := by
    decide +kernel
  obtain ⟨s,hr,h⟩ := (Option.any_eq_true _ _).mp h
  obtain ⟨x,hx,h⟩ := (Option.any_eq_true _ _).mp h
  obtain ⟨f,hf,h⟩ := (Option.any_eq_true _ _).mp h
  obtain ⟨msg,err⟩ := f
  cases of_decide_eq_true h
  exact ⟨s,x,hr,hx,⟨msg,hf⟩,(failed_send_ends hr hx hf).1⟩

/-- After its return a subscription is over: the broadcaster does not know it, its context is done,
an error that it returned is that of a failed `Send`, and no handler puts anything into its channel
in any continuation. -/
theorem subscribe_returned {acts : List Act}
    (h : (machine ext pkg svr heartbeatDisable).run acts {} = some s)
    (hx : s.sessions id = some x) {r : Except String Unit} (hm : x.main = .returned r) :
    x.done = true ∧ (∀ err, r = .error err → x.FailedWith err) ∧
      ∀ acts' s', (machine ext pkg svr heartbeatDisable).run acts' s = some s' →
        s'.clients.find id = none ∧ ¬ s'.Pending id ∧
        ∃ x', s'.sessions id = some x' ∧ x'.main = .returned r ∧ x'.accepted = x.accepted := by
  have hinv := Inv.of_run h
  have hres := (hinv.session _ _ hx).own.result r (Or.inr hm)
  refine ⟨hres.1,hres.2,fun acts' s' hr => ?_⟩
  obtain ⟨x',hx',hl⟩ := hinv.later_run hr id x hx
  obtain ⟨hm',ha⟩ := hl.returned r hm
  have hinv' : s'.Inv ext pkg := Machine.invariant (fun _ _ _ hs hi => hi.step hs) hr hinv
  have hfind : s'.clients.find id = none := by
    rw [hinv'.clients id,hx']
    simp [Session.client,Session.registered,hm']
  refine ⟨hfind,fun hp => ?_,x',hx',hm',ha⟩
  obtain ⟨c,hc,rfl⟩ := List.mem_map.mp hp
  exact absurd rfl (Table.find_eq_none_iff.mp hfind c (hinv'.rest hc))

theorem subscribe_returned_error : ∃ s x,
    exampleMachine.run (brokenActs ++ [.session "client" .takeError,.unregister "client"]) {} =
      some s ∧ s.sessions "client" = some x ∧ x.main = .returned (.error "EOF") ∧ x.FailedWith "EOF" := by
  have h : (exampleMachine.run (brokenActs ++ [.session "client" .takeError,.unregister "client"])
      {}).any fun s => (s.sessions "client").any fun x =>
        decide (x.main = .returned (.error "EOF")) := by
    decide +kernel
  obtain ⟨s,hr,h⟩ := (Option.any_eq_true _ _).mp h
  obtain ⟨x,hx,h⟩ := (Option.any_eq_true _ _).mp h
  have hm := of_decide_eq_true h
  exact ⟨s,x,hr,hx,hm,(subscribe_returned hr hx hm).2.1 "EOF" rfl⟩

/-- The session stands where it stood, and a context that was done still is. -/
def Steady (x x' : Session) : Prop := x'.main = x.main ∧ (x.done = true → x'.done = true)

theorem Steady.refl (x : Session) : Steady x x := ⟨rfl,id⟩

theorem Steady.trans (x x' x'' : Session) (h : Steady x x') (h' : Steady x' x'') : Steady x x'' :=
  ⟨h'.1.trans h.1,fun hd => h'.2 (h.2 hd)⟩

variable (ext pkg) in
/-- The turn of a client whose handler does not have to wait. -/
theorem hand_of_free {res : Resource} {client : Client} {rest : List Client}
    (hst : s.start = .handing res (client :: rest)) (hx : s.sessions client.id = some x)
    (hfree : x.Free) : ∃ accept s', s.hand ext pkg accept = some s' := by
  unfold System.hand
  rw [hst]
  dsimp only
  by_cases hsource : client.source = res.source
  · simp only [if_pos hsource,handle,hx]
    cases hevt : statusMessage ext pkg res with
    | error err => exact ⟨false,_,rfl⟩
    | ok evt =>
      by_cases hd : x.done = true
      · exact ⟨false,_,by simp [hd]; rfl⟩
      · obtain ⟨ch,hch⟩ := Channel.send_of_lt evt (hfree.resolve_left hd)
        exact ⟨true,_,by simp [Session.accept,hch]; rfl⟩
  · exact ⟨false,_,if_neg hsource⟩

section Round

variable {s₀ : System}

/-- The states in which the handler of a session does not have to wait. -/
def Frees (ext : External) (pkg : StreamPackages) (s₀ : System) (start : Start) (id : String)
    (s : System) : Prop :=
  s.Inv ext pkg ∧ s₀.Each Steady s ∧ s.start = start ∧ ∃ x, s.sessions id = some x ∧ x.Free

/-- A sender makes a step. -/
theorem Inv.sender_step {Q : System → Prop} {act : SessionAct} {x' : Session} (h : s.Inv ext pkg)
    (h₀ : s₀.Each Steady s) (hx : s.sessions id = some x) (hstep : x.step pkg act = some x')
    (hm : x'.main = x.main) (hact : act.Internal)
    (hQ : (s.setSession id x').Inv ext pkg → s₀.Each Steady (s.setSession id x') →
      (machine ext pkg svr heartbeatDisable).CanReach Act.Internal Q (s.setSession id x')) :
    (machine ext pkg svr heartbeatDisable).CanReach Act.Internal Q s := by
  have hs : s.sessionStep pkg id act = some (s.setSession id x') := by
    simp only [System.sessionStep,hx,hstep]
  have hg := (Session.step_moves hstep).goes (h.session _ _ hx).own.sender
  refine .after (a := .session id act) hact hs (hQ (h.sessionStep hs) ?_)
  exact h₀.trans Steady.trans (.setSession Steady.refl hx ⟨hm,hg.done⟩ rfl)

/-- A handler that has to wait waits for a sender that takes the next message. -/
theorem Inv.frees_selecting (h : s.Inv ext pkg) (h₀ : s₀.Each Steady s)
    (hx : s.sessions id = some x) (hs : x.sender = .selecting) :
    (machine ext pkg svr heartbeatDisable).CanReach Act.Internal
      (Frees ext pkg s₀ s.start id) s := by
  by_cases hfree : x.Free
  · exact .here ⟨h,h₀,rfl,x,hx,hfree⟩
  · obtain ⟨evt,ch,hr⟩ := Channel.receive_of_full (by decide) (not_or.mp hfree).2
    have hlt : ch.items.length < 100 := by
      have hb := x.eventCh.bounded
      rw [Channel.items_of_receive hr] at hb
      exact hb
    have hstep : x.step pkg .takeEvent =
        some { x with eventCh := ch, sender := .sending (.event evt) } := by
      simp only [Session.step,Session.takeEvent,hs,hr]
    exact h.sender_step h₀ hx hstep rfl trivial fun hi hst =>
      .here ⟨hi,hst,rfl,_,sessions_setSession_self,Or.inr hlt⟩

/-- However full the buffer is, the sender can come to the point where the handler goes on. -/
theorem Inv.frees (h : s.Inv ext pkg) (h₀ : s₀.Each Steady s) (hx : s.sessions id = some x) :
    (machine ext pkg svr heartbeatDisable).CanReach Act.Internal
      (Frees ext pkg s₀ s.start id) s := by
  have hok := (h.session _ _ hx).own.sender
  unfold Session.SenderOk at hok
  cases hs : x.sender <;> simp only [hs] at hok
  case selecting => exact h.frees_selecting h₀ hx hs
  case sending msg =>
    have hstep : x.step pkg .sendOk =
        some { x with sender := .selecting, sent := x.sent ++ [msg] } := by
      simp only [Session.step,Session.sendOk,hs]
    exact h.sender_step h₀ hx hstep rfl trivial fun hi hst =>
      hi.frees_selecting hst sessions_setSession_self rfl
  case failed err =>
    have hstep : x.step pkg .cancel = some { x with sender := .cancelled err, done := true } := by
      simp only [Session.step,Session.cancel,hs]
    exact h.sender_step h₀ hx hstep rfl trivial fun hi hst =>
      .here ⟨hi,hst,rfl,_,sessions_setSession_self,Or.inl rfl⟩
  case cancelled err => exact .here ⟨h,h₀,rfl,x,hx,Or.inl hok.2.2⟩
  case returned => exact .here ⟨h,h₀,rfl,x,hx,Or.inl hok.1⟩

/-- The clients that are left get their turns. -/
theorem Inv.turns_end {res : Resource} {rest : List Client} (h : s.Inv ext pkg)
    (h₀ : s₀.Each Steady s) (hst : s.start = .handing res rest) :
    (machine ext pkg svr heartbeatDisable).CanReach Act.Internal
      (fun s' => s₀.Each Steady s' ∧ s'.start.reading = false) s := by
  induction rest generalizing s with
  | nil =>
    have hs : s.rUnlock = some { s with start := .selecting } := by simp only [System.rUnlock,hst]
    exact .after (a := .rUnlock) trivial hs (.here ⟨h₀,rfl⟩)
  | cons client rest ih =>
    obtain ⟨x,hx,-,-⟩ := h.of_client (h.rest (by rw [hst]; exact List.mem_cons_self))
    refine (h.frees h₀ hx).trans ?_
    rintro s₁ ⟨hi,h₁,hst₁,x₁,hx₁,hfree⟩
    obtain ⟨accept,s₂,hs⟩ := hand_of_free ext pkg (hst₁.trans hst) hx₁ hfree
    obtain ⟨res',client',rest',y,-,hst',hy,-,⟨-,ch,new,rfl,-⟩,rfl⟩ := hi.hand_some hs
    cases (hst₁.trans hst).symm.trans hst'
    refine .after (a := .hand accept) trivial hs (ih (hi.hand hs) (h₁.trans Steady.trans ?_) rfl)
    refine .setSession Steady.refl hy ?_ rfl
    exact ⟨rfl,id⟩

variable (svr heartbeatDisable) in
/-- The round that `Start` is in can be brought to its end. -/
theorem Inv.round_ends (h : s.Inv ext pkg) : (machine ext pkg svr heartbeatDisable).CanReach
    Act.Internal (fun s' => s.Each Steady s' ∧ s'.start.reading = false) s := by
  cases hst : s.start with
  | handing res rest => exact h.turns_end (.refl Steady.refl s) hst
  | selecting | received | returned => exact .here ⟨.refl Steady.refl s,by rw [hst]; rfl⟩

end Round

/-- The call of `Subscribe` has returned. -/
def Returned (id : String) (s : System) : Prop :=
  ∃ x r, s.sessions id = some x ∧ x.main = .returned r

section Return

variable (hread : s.start.reading = false) (hx : s.sessions id = some x)
include hread hx

theorem unregister_returns {r : Except String Unit} (hm : x.main = .unregistering r) :
    (machine ext pkg svr heartbeatDisable).CanReach Act.Internal (Returned id) s := by
  have hs : s.unregister id = some { s.setSession id
      { x with main := .returned r, done := true } with clients := s.clients.erase id } := by
    simp only [System.unregister,hx,hm,hread]
    rfl
  refine .after (a := .unregister id) trivial hs (.here ?_)
  exact ⟨_,r,sessions_setSession_self,rfl⟩

theorem select_returns (hd : x.done = true) (hm : x.main = .selecting) :
    (machine ext pkg svr heartbeatDisable).CanReach Act.Internal (Returned id) s := by
  have hs : s.sessionStep pkg id .seeDone =
      some (s.setSession id { x with main := .unregistering (.ok ()) }) := by
    simp [System.sessionStep,hx,Session.step,Session.seeDone,hm,hd]
  refine .after (a := .session id .seeDone) trivial hs ?_
  exact unregister_returns hread sessions_setSession_self rfl

theorem done_returns (hd : x.done = true) :
    (machine ext pkg svr heartbeatDisable).CanReach Act.Internal (Returned id) s := by
  cases hm : x.main with
  | registering =>
    have hs : s.register heartbeatDisable id = some { s.setSession id { x with
        main := .selecting
        ticker := if heartbeatDisable then none else some .selecting
        joined := some s.rounds.length } with clients := s.clients.save ⟨id,x.source⟩ } := by
      simp only [System.register,hx,hm,hread,and_self,if_true]
    refine .after (a := .register id) trivial hs ?_
    exact select_returns hread sessions_setSession_self hd rfl
  | selecting => exact select_returns hread hx hd hm
  | unregistering r => exact unregister_returns hread hx hm
  | returned r => exact .here ⟨x,r,hx,hm⟩

end Return

/-- A client goes while the broadcaster is about to call its handler. -/
def goneActs : List Act :=
  [.subscribe "client" { source := "src" },.register "client",.broadcast (reportedWeb "1"),
    .rLock [⟨"client","src"⟩],.session "client" .closeStream]

end System

end Subscription

end Maestro
