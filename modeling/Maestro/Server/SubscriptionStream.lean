import Maestro.Server.Subscription

/-!
# What goes over a subscription

A session sends what its handler accepted, in that order, each message once; what the handler
accepted is, as long as the context is not done, the message of every resource of the source that
was broadcast since the registration. Both are invariants: the first of a session alone, the second
of the sessions together with the round that the broadcaster is in.
-/

namespace Maestro
open Data Concurrent

namespace Subscription

variable {ext : External} {pkg : StreamPackages} {svr : GRPCServer} {heartbeatDisable : Bool}

namespace Session

/-- The status events among what was sent. -/
def sentEvents (x : Session) : List PBEvent := x.sent.filterMap Message.event?

/-- The status event that a failed `Send` had. -/
def lostEvents (x : Session) : List PBEvent := (x.failure.bind fun f => f.1.event?).toList

/-- The status event that the sender has taken and not yet sent. -/
def held (x : Session) : List PBEvent :=
  match x.sender with
  | .sending msg => msg.event?.toList
  | _ => []

/-- A `Send` of the session failed with this error. -/
def FailedWith (x : Session) (err : String) : Prop := ∃ msg, x.failure = some (msg,err)

/-- `Subscribe` has not yet left its last `select`. -/
def Open (x : Session) : Prop := x.main = .registering ∨ x.main = .selecting

/-- What the place of the sender says about the stream: a `Send` that failed was the last one, the
context is done before the error is reported, and the report is never dropped. -/
def SenderOk (x : Session) : Prop :=
  match x.sender with
  | .selecting | .sending _ => x.failure = none ∧ x.sendErrCh.items = []
  | .failed err => x.FailedWith err ∧ x.sendErrCh.items = []
  | .cancelled err => x.FailedWith err ∧ x.sendErrCh.items = [] ∧ x.done = true
  | .returned => x.done = true ∧ (∀ err ∈ x.sendErrCh.items, x.FailedWith err) ∧
      (x.Open → ∀ err, x.FailedWith err → err ∈ x.sendErrCh.items)

structure Inv (x : Session) : Prop where
  conserved : x.accepted = x.sentEvents ++ x.lostEvents ++ x.held ++ x.eventCh.items
  sender : x.SenderOk
  result : ∀ r, x.main = .unregistering r ∨ x.main = .returned r → x.done = true ∧
    ∀ err, r = .error err → x.FailedWith err

/-- What a step of the session's own goroutines, or of its client, leaves as it was. -/
structure Goes (x x' : Session) : Prop where
  source : x'.source = x.source
  joined : x'.joined = x.joined
  accepted : x'.accepted = x.accepted
  done : x.done = true → x'.done = true
  failure : ∀ f, x.failure = some f → x'.failure = some f ∧ x'.sent = x.sent
  main : x'.main = x.main ∨ x.main = .selecting ∧ ∃ r, x'.main = .unregistering r

/-- What each action of a session needs and does. Of the heartbeat goroutine only what it can write
is kept. -/
inductive Moves (x : Session) : SessionAct → Session → Prop
  | closeStream : Moves x .closeStream { x with done := true }
  | senderDone (hs : x.sender = .selecting) (hd : x.done = true) :
      Moves x .senderDone { x with sender := .returned }
  | takeHeartbeat {evt : PBEvent} {ch : Channel PBEvent 10} (hs : x.sender = .selecting)
      (hr : x.heartbeatCh.receive = some (evt,ch)) :
      Moves x .takeHeartbeat { x with heartbeatCh := ch, sender := .sending (.heartbeat evt) }
  | takeEvent {evt : PBEvent} {ch : Channel PBEvent 100} (hs : x.sender = .selecting)
      (hr : x.eventCh.receive = some (evt,ch)) :
      Moves x .takeEvent { x with eventCh := ch, sender := .sending (.event evt) }
  | sendOk {msg : Message} (hs : x.sender = .sending msg) :
      Moves x .sendOk { x with sender := .selecting, sent := x.sent ++ [msg] }
  | sendFails {msg : Message} {err : String} (hs : x.sender = .sending msg) :
      Moves x (.sendFails err) { x with sender := .failed err, failure := some (msg,err) }
  | cancel {err : String} (hs : x.sender = .failed err) :
      Moves x .cancel { x with sender := .cancelled err, done := true }
  | report {err : String} (hs : x.sender = .cancelled err) :
      Moves x .report
        { x with sender := .returned, sendErrCh := (x.sendErrCh.send err).getD x.sendErrCh }
  | ticker {act : SessionAct} (ticker : Option Ticker) (ch : Channel PBEvent 10) :
      Moves x act { x with ticker := ticker, heartbeatCh := ch }
  | takeError {err : String} {ch : Channel String 1} (hm : x.main = .selecting)
      (hr : x.sendErrCh.receive = some (err,ch)) :
      Moves x .takeError { x with main := .unregistering (.error err), sendErrCh := ch }
  | seeDone (hm : x.main = .selecting) (hd : x.done = true) :
      Moves x .seeDone { x with main := .unregistering (.ok ()) }

section Steps

variable {x x' : Session} {act : SessionAct}

theorem step_moves (h : x.step pkg act = some x') : x.Moves act x' := by
  cases act <;> simp only [step,senderDone,Session.takeHeartbeat,Session.takeEvent,Session.sendOk,
    Session.sendFails,Session.cancel,Session.report,tick,putHeartbeat,tickerDone,
    Session.takeError,Session.seeDone] at h
  case closeStream => cases h; exact .closeStream
  all_goals
    split at h
    · cases h
      first
        | exact .ticker _ _
        | exact .senderDone (And.left ‹_›) (And.right ‹_›)
        | exact .seeDone (And.left ‹_›) (And.right ‹_›)
        | constructor <;> assumption
    · cases h

/-- While the sender can still send, no `Send` has failed. -/
theorem SenderOk.healthy (h : x.SenderOk)
    (hs : x.sender = .selecting ∨ ∃ msg, x.sender = .sending msg) :
    x.failure = none ∧ x.sendErrCh.items = [] := by
  unfold SenderOk at h
  rcases hs with hs | ⟨msg,hs⟩
  · rwa [hs] at h
  · rwa [hs] at h

/-- What `SenderOk` reads stays as it was, the context may be done and `Subscribe` leave. -/
theorem SenderOk.mono (h : x.SenderOk) (hs : x'.sender = x.sender) (hf : x'.failure = x.failure)
    (he : x'.sendErrCh = x.sendErrCh) (hd : x.done = true → x'.done = true)
    (ho : x'.Open → x.Open) : x'.SenderOk := by
  unfold SenderOk FailedWith at h ⊢
  rw [hs,hf,he]
  cases hp : x.sender <;> simp only [hp] at h ⊢
  case selecting | sending | failed => exact h
  case cancelled => exact ⟨h.1,h.2.1,hd h.2.2⟩
  case returned => exact ⟨hd h.1,h.2.1,fun hx => h.2.2 (ho hx)⟩

theorem Moves.goes (h : x.Moves act x') (hx : x.SenderOk) : x.Goes x' := by
  cases h with
  | closeStream | cancel =>
    exact ⟨rfl,rfl,rfl,fun _ => rfl,fun f hf => ⟨hf,rfl⟩,Or.inl rfl⟩
  | senderDone | takeHeartbeat | takeEvent | report | ticker =>
    exact ⟨rfl,rfl,rfl,fun hd => hd,fun f hf => ⟨hf,rfl⟩,Or.inl rfl⟩
  | @sendOk msg hs =>
    have hn := (hx.healthy (Or.inr ⟨msg,hs⟩)).1
    exact ⟨rfl,rfl,rfl,fun hd => hd,fun f hf => absurd (hn.symm.trans hf) (by simp),Or.inl rfl⟩
  | @sendFails msg err hs =>
    have hn := (hx.healthy (Or.inr ⟨msg,hs⟩)).1
    exact ⟨rfl,rfl,rfl,fun hd => hd,fun f hf => absurd (hn.symm.trans hf) (by simp),Or.inl rfl⟩
  | takeError hm | seeDone hm =>
    exact ⟨rfl,rfl,rfl,fun hd => hd,fun f hf => ⟨hf,rfl⟩,Or.inr ⟨hm,_,rfl⟩⟩

/-- What was accepted has been sent, was lost with the stream, is in the hands of the sender or
waits. -/
theorem Moves.conserved (h : x.Moves act x') (hx : x.Inv) :
    x'.accepted = x'.sentEvents ++ x'.lostEvents ++ x'.held ++ x'.eventCh.items := by
  have hc := hx.conserved
  cases h with
  | closeStream | ticker | takeError | seeDone => exact hc
  | senderDone hs | takeHeartbeat hs | cancel hs | report hs =>
    rw [held,hs] at hc
    exact hc
  | takeEvent hs hr =>
    rw [held,hs,Channel.items_of_receive hr] at hc
    rw [hc]
    simp [sentEvents,lostEvents,held,Message.event?]
  | @sendOk msg hs =>
    have hn := (hx.sender.healthy (Or.inr ⟨msg,hs⟩)).1
    rw [held,hs,lostEvents,hn] at hc
    rw [hc]
    cases msg <;> simp [sentEvents,lostEvents,held,hn,Message.event?]
  | @sendFails msg err hs =>
    have hn := (hx.sender.healthy (Or.inr ⟨msg,hs⟩)).1
    rw [held,hs,lostEvents,hn] at hc
    rw [hc]
    simp [sentEvents,lostEvents,held]

/-- The error channel has room as long as nothing was reported. -/
theorem items_report {ch : Channel String 1} (h : ch.items = []) (err : String) :
    ((ch.send err).getD ch).items = [err] := by
  obtain ⟨ch',hs⟩ : ∃ ch', ch.send err = some ch' :=
    Channel.send_of_lt err (by rw [h]; exact Nat.one_pos)
  rw [hs,Option.getD_some,Channel.items_of_send hs,h,List.nil_append]

theorem Moves.senderOk (h : x.Moves act x') (hx : x.SenderOk) : x'.SenderOk := by
  have hok := hx
  unfold SenderOk at hx ⊢
  cases h with
  | closeStream => exact hok.mono rfl rfl rfl (fun _ => rfl) id
  | ticker => exact hx
  | senderDone hs hd =>
    rw [hs] at hx
    refine ⟨hd,by simp [hx.2],?_⟩
    rintro - err ⟨msg,hf⟩
    exact absurd (hx.1.symm.trans hf) (by simp)
  | takeHeartbeat hs | takeEvent hs | sendOk hs => rw [hs] at hx; exact hx
  | @sendFails msg err hs => rw [hs] at hx; exact ⟨⟨msg,rfl⟩,hx.2⟩
  | cancel hs => rw [hs] at hx; exact ⟨hx.1,hx.2,rfl⟩
  | @report err hs =>
    rw [hs] at hx
    obtain ⟨⟨msg,hf⟩,hi,hd⟩ := hx
    refine ⟨hd,?_,?_⟩
    · intro err' he
      rw [items_report hi,List.mem_singleton] at he
      exact ⟨msg,he ▸ hf⟩
    · rintro - err' ⟨msg',hf'⟩
      rw [items_report hi,List.mem_singleton]
      exact (Prod.mk.inj (Option.some.inj (hf'.symm.trans hf))).2
  | @takeError err ch hm hr =>
    -- an error in the channel means that the sender has returned
    have hi := Channel.items_of_receive hr
    cases hs : x.sender <;> simp only [hs] at hx ⊢
    case selecting | sending | failed | cancelled => simp [hi] at hx
    case returned =>
      refine ⟨hx.1,fun err' he => hx.2.1 err' (hi ▸ List.mem_cons_of_mem _ he),?_⟩
      rintro (ho | ho) <;> cases ho
  | seeDone hm hd =>
    refine hok.mono rfl rfl rfl id ?_
    rintro (ho | ho) <;> cases ho

theorem Moves.result (h : x.Moves act x') (hx : x.Inv) (r : Except String Unit)
    (hr : x'.main = .unregistering r ∨ x'.main = .returned r) : x'.done = true ∧
      ∀ err, r = .error err → x'.FailedWith err := by
  have hg := h.goes hx.sender
  have hsame : x'.main = x.main → x'.done = true ∧ ∀ err, r = .error err → x'.FailedWith err := by
    intro hm
    obtain ⟨hd,he⟩ := hx.result r (hm ▸ hr)
    refine ⟨hg.done hd,fun err hre => ?_⟩
    obtain ⟨msg,hf⟩ := he err hre
    exact ⟨msg,(hg.failure _ hf).1⟩
  cases h with
  | @takeError err ch hm hrec =>
    rcases hr with hr | hr <;> cases hr
    have hi := Channel.items_of_receive hrec
    have hok := hx.sender
    unfold SenderOk at hok
    cases hs : x.sender <;> simp only [hs] at hok
    case selecting | sending | failed | cancelled => simp [hi] at hok
    case returned =>
      refine ⟨hok.1,fun err' he => ?_⟩
      cases he
      exact hok.2.1 err (hi ▸ List.mem_cons_self)
  | seeDone hm hd =>
    rcases hr with hr | hr <;> cases hr
    exact ⟨hd,fun err he => by cases he⟩
  | _ => exact hsame rfl

theorem Inv.step (hx : x.Inv) (h : x.step pkg act = some x') : x'.Inv :=
  have hm := step_moves h
  ⟨hm.conserved hx,hm.senderOk hx.sender,hm.result hx⟩

theorem inv_new (source : String) : Inv { source := source } := by
  refine ⟨rfl,⟨rfl,rfl⟩,?_⟩
  rintro r (h | h) <;> cases h

theorem Inv.accept {evt : PBEvent} (hx : x.Inv) (h : x.accept evt = some x') : x'.Inv := by
  unfold Session.accept at h
  split at h
  · next ch hs =>
    cases h
    refine ⟨?_,hx.sender,hx.result⟩
    change x.accepted ++ [evt] = x.sentEvents ++ x.lostEvents ++ x.held ++ ch.items
    rw [hx.conserved,Channel.items_of_send hs]
    simp only [List.append_assoc]
  · cases h

theorem Inv.register (hx : x.Inv) (hm : x.main = .registering) (ticker : Option Ticker) (n : ℕ) :
    Inv { x with main := .selecting, ticker := ticker, joined := some n } := by
  refine ⟨hx.conserved,hx.sender.mono rfl rfl rfl id fun _ => Or.inl hm,?_⟩
  rintro r (h | h) <;> cases h

theorem Inv.unregister {r : Except String Unit} (hx : x.Inv) (hm : x.main = .unregistering r) :
    Inv { x with main := .returned r, done := true } := by
  refine ⟨hx.conserved,hx.sender.mono rfl rfl rfl (fun _ => rfl) ?_,?_⟩
  · rintro (ho | ho) <;> cases ho
  · rintro r' (h | h) <;> cases h
    exact ⟨rfl,(hx.result r (Or.inl hm)).2⟩

end Steps

end Session

/-- `Register` has returned and `Unregister` has not. -/
def Session.registered (x : Session) : Bool :=
  match x.main with
  | .selecting | .unregistering _ => true
  | .registering | .returned _ => false

/-- The client of a session in the table of the broadcaster. -/
def Session.client (id : String) (x : Session) : Option Client :=
  if x.registered then some ⟨id,x.source⟩ else none

theorem Session.Goes.client {x x' : Session} (h : x.Goes x') (id : String) :
    x'.client id = x.client id := by
  have hr : x'.registered = x.registered := by
    rcases h.main with hm | ⟨hm,r,hm'⟩
    · rw [registered,registered,hm]
    · rw [registered,registered,hm,hm']
  rw [Session.client,Session.client,hr,h.source]

/-- The messages of some resources for the subscribers of a source. A resource that cannot be
encoded has none. -/
def streamOf (ext : External) (pkg : StreamPackages) (source : String) (resources : List Resource) :
    List PBEvent :=
  resources.filterMap fun res =>
    if res.source = source then (statusMessage ext pkg res).toOption else none

theorem streamOf_append (source : String) (rs rs' : List Resource) :
    streamOf ext pkg source (rs ++ rs') =
      streamOf ext pkg source rs ++ streamOf ext pkg source rs' := by
  simp [streamOf]

namespace System

/-- The round has still to come to the client. -/
def Pending (s : System) (id : String) : Prop := id ∈ s.start.rest.map Client.id

instance (s : System) (id : String) : Decidable (s.Pending id) :=
  inferInstanceAs (Decidable (id ∈ s.start.rest.map Client.id))

/-- The resources that the broadcaster has offered to a client which registered after `n` rounds. -/
def offered (s : System) (id : String) (n : ℕ) : List Resource :=
  if s.Pending id then (s.rounds.drop n).dropLast else s.rounds.drop n

/-- The handler has accepted messages of the offered resources, in order, and of all of them as long
as the context is not done. -/
structure Streams (ext : External) (pkg : StreamPackages) (s : System) (id : String) (x : Session)
    (n : ℕ) : Prop where
  joined : n ≤ s.rounds.length
  pending : s.Pending id → n < s.rounds.length
  order : x.accepted.Sublist (streamOf ext pkg x.source (s.offered id n))
  complete : x.done = false → x.accepted = streamOf ext pkg x.source (s.offered id n)

/-- What holds of one session in the system. -/
structure SessionInv (ext : External) (pkg : StreamPackages) (s : System) (id : String)
    (x : Session) : Prop where
  own : x.Inv
  unjoined : x.main = .registering ↔ x.joined = none
  unused : x.joined = none → x.accepted = []
  streams : ∀ n, x.joined = some n → s.Streams ext pkg id x n

structure Inv (ext : External) (pkg : StreamPackages) (s : System) : Prop where
  session : ∀ id x, s.sessions id = some x → s.SessionInv ext pkg id x
  clients : ∀ id, s.clients.find id = (s.sessions id).bind (Session.client id)
  rest : s.start.rest ⊆ s.clients.rows
  nodup : (s.start.rest.map Client.id).Nodup
  round : ∀ res rest, s.start = .handing res rest → ∃ before, s.rounds = before ++ [res]

section Sets

variable {s : System} {id id' : String} {x x' : Session}

theorem sessions_setSession : (s.setSession id x).sessions id' =
    if id' = id then some x else s.sessions id' :=
  Function.update_apply _ _ _ _

theorem sessions_setSession_self : (s.setSession id x).sessions id = some x := by
  rw [sessions_setSession,if_pos rfl]

theorem setSession_self (h : s.sessions id = some x) : s.setSession id x = s := by
  rw [setSession,← h,Function.update_eq_self]

/-- A session of the system after one of its sessions has changed. -/
theorem sessions_setSession_cases {y : Session} (h : (s.setSession id x').sessions id' = some y) :
    (id' = id ∧ y = x') ∨ (id' ≠ id ∧ s.sessions id' = some y) := by
  rw [sessions_setSession] at h
  split at h
  · next he => cases h; exact Or.inl ⟨he,rfl⟩
  · next hne => exact Or.inr ⟨hne,h⟩

end Sets

variable {s s' : System} {id : String} {x x' : Session}

/-- Steps that leave the rounds and the place of a client in the present one alone. -/
theorem Streams.same {n : ℕ} (h : s.Streams ext pkg id x n)
    (hp : s'.Pending id ↔ s.Pending id) (hr : s'.rounds = s.rounds) :
    s'.Streams ext pkg id x n := by
  have ho : s'.offered id n = s.offered id n := by
    rw [offered,offered,hr]
    exact if_congr hp rfl rfl
  exact ⟨hr ▸ h.joined,fun h' => hr ▸ h.pending (hp.mp h'),ho ▸ h.order,ho ▸ h.complete⟩

theorem offered_of_pending {n : ℕ} (h : s.Pending id) :
    s.offered id n = (s.rounds.drop n).dropLast :=
  if_pos h

theorem offered_of_not_pending {n : ℕ} (h : ¬ s.Pending id) : s.offered id n = s.rounds.drop n :=
  if_neg h

theorem SessionInv.same (h : s.SessionInv ext pkg id x) (hp : s'.Pending id ↔ s.Pending id)
    (hr : s'.rounds = s.rounds) : s'.SessionInv ext pkg id x :=
  ⟨h.own,h.unjoined,h.unused,fun n hn => (h.streams n hn).same hp hr⟩

theorem Inv.of_client (h : s.Inv ext pkg) {c : Client} (hc : c ∈ s.clients.rows) :
    ∃ x, s.sessions c.id = some x ∧ x.source = c.source ∧ x.registered = true := by
  have hf := (h.clients c.id).symm.trans (Table.find_of_mem hc)
  obtain ⟨x,hx,hclient⟩ := Option.bind_eq_some_iff.mp hf
  unfold Session.client at hclient
  split at hclient
  · next hr => exact ⟨x,hx,congrArg Client.source (Option.some.inj hclient),hr⟩
  · cases hclient

/-- A session whose own steps change it keeps what holds of it. -/
theorem SessionInv.goes (h : s.SessionInv ext pkg id x) (hg : x.Goes x') (hx' : x'.Inv) :
    s.SessionInv ext pkg id x' where
  own := hx'
  unjoined := by
    rw [hg.joined,← h.unjoined]
    rcases hg.main with hm | ⟨hm,r,hm'⟩
    · rw [hm]
    · simp [hm,hm']
  unused := by
    rw [hg.joined,hg.accepted]
    exact h.unused
  streams := by
    intro n hn
    obtain ⟨h₁,h₂,h₃,h₄⟩ := h.streams n (hg.joined ▸ hn)
    refine ⟨h₁,h₂,?_,fun hd => ?_⟩
    · rw [hg.accepted,hg.source]; exact h₃
    · rw [hg.accepted,hg.source]
      refine h₄ (Bool.eq_false_iff.mpr fun hd' => ?_)
      exact absurd (hg.done hd') (Bool.eq_false_iff.mp hd)

theorem sessionStep_some {act : SessionAct} (hs : s.sessionStep pkg id act = some s') :
    ∃ x x', s.sessions id = some x ∧ x.step pkg act = some x' ∧ s' = s.setSession id x' := by
  unfold System.sessionStep at hs
  split at hs
  · cases hs
  next x hx =>
  split at hs
  · cases hs
  next x' hx' =>
  cases hs
  exact ⟨x,x',hx,hx',rfl⟩

theorem Inv.sessionStep {act : SessionAct} (h : s.Inv ext pkg)
    (hs : s.sessionStep pkg id act = some s') : s'.Inv ext pkg := by
  obtain ⟨x,x',hx,hx',rfl⟩ := sessionStep_some hs
  have hi := h.session _ _ hx
  have hg := (Session.step_moves hx').goes hi.own.sender
  refine ⟨fun id' y hy => ?_,fun id' => ?_,h.rest,h.nodup,h.round⟩
  · rcases sessions_setSession_cases hy with ⟨rfl,rfl⟩ | ⟨-,hy⟩
    · exact (hi.goes hg (hi.own.step hx')).same Iff.rfl rfl
    · exact (h.session _ _ hy).same Iff.rfl rfl
  · rw [sessions_setSession]
    split
    · next he =>
      subst he
      exact (h.clients id').trans (by rw [hx]; exact (hg.client id').symm)
    · exact h.clients id'

theorem subscribe_some {req : SubscriptionRequest} (hs : s.subscribe svr id req = some s') :
    s.sessions id = none ∧ (s' = s ∨ s' = s.setSession id { source := req.source }) := by
  unfold System.subscribe at hs
  split at hs
  · cases hs
  next hfree =>
  refine ⟨Option.not_isSome_iff_eq_none.mp hfree,?_⟩
  split at hs
  · exact Or.inr (Option.some.inj hs).symm
  · exact Or.inl (Option.some.inj hs).symm

theorem Inv.subscribe {req : SubscriptionRequest} (h : s.Inv ext pkg)
    (hs : s.subscribe svr id req = some s') : s'.Inv ext pkg := by
  obtain ⟨hfree,rfl | rfl⟩ := subscribe_some hs
  · exact h
  · refine ⟨fun id' y hy => ?_,fun id' => ?_,h.rest,h.nodup,h.round⟩
    · rcases sessions_setSession_cases hy with ⟨rfl,rfl⟩ | ⟨-,hy⟩
      · exact ⟨Session.inv_new _,by simp,fun _ => rfl,fun n hn => by cases hn⟩
      · exact (h.session _ _ hy).same Iff.rfl rfl
    · rw [sessions_setSession]
      split
      · next he =>
        subst he
        exact (h.clients id').trans (by rw [hfree]; rfl)
      · exact h.clients id'

theorem rest_of_not_reading {start : Start} (h : start.reading = false) : start.rest = [] := by
  cases start <;> first | rfl | cases h

theorem rest_ok {start : Start} (h : start.rest = []) (clients : List Client) :
    start.rest ⊆ clients ∧ (start.rest.map Client.id).Nodup := by
  rw [h]
  exact ⟨List.nil_subset _,List.nodup_nil⟩

theorem not_pending_of_not_reading (h : s.start.reading = false) (id : String) :
    ¬ s.Pending id := by
  rw [Pending,rest_of_not_reading h]
  exact List.not_mem_nil

theorem register_some (hs : s.register heartbeatDisable id = some s') : ∃ x ticker,
    s.sessions id = some x ∧ x.main = .registering ∧ s.start.reading = false ∧
    s' = { s.setSession id { x with
        main := .selecting, ticker := ticker, joined := some s.rounds.length } with
      clients := s.clients.save ⟨id,x.source⟩ } := by
  unfold System.register at hs
  split at hs
  · cases hs
  next x hx =>
  split at hs
  · next hm => cases hs; exact ⟨x,_,hx,hm.1,hm.2,rfl⟩
  · cases hs

theorem Inv.register (h : s.Inv ext pkg) (hs : s.register heartbeatDisable id = some s') :
    s'.Inv ext pkg := by
  obtain ⟨x,ticker,hx,hm,hread,rfl⟩ := register_some hs
  have hi := h.session _ _ hx
  have hrest := rest_ok (rest_of_not_reading hread)
  refine ⟨fun id' y hy => ?_,fun id' => ?_,(hrest _).1,(hrest []).2,h.round⟩
  · rcases sessions_setSession_cases hy with ⟨rfl,rfl⟩ | ⟨-,hy⟩
    · refine ⟨hi.own.register hm _ _,by simp,by simp,fun n hn => ?_⟩
      cases hn
      have hnone : ¬ s.Pending id' := not_pending_of_not_reading hread id'
      have ho : s.offered id' s.rounds.length = [] := by
        rw [offered_of_not_pending hnone,List.drop_length]
      have ha := hi.unused (hi.unjoined.mp hm)
      refine Streams.same (s := s) ⟨le_rfl,fun hp => absurd hp hnone,?_,fun _ => ?_⟩ Iff.rfl rfl
      · change x.accepted.Sublist _
        rw [ha]
        exact List.nil_sublist _
      · change x.accepted = _
        rw [ha,ho]
        rfl
    · exact (h.session _ _ hy).same Iff.rfl rfl
  · change (s.clients.save ⟨id,x.source⟩).find id' = _
    rw [Table.find_save,sessions_setSession]
    by_cases he : id' = id
    · subst he
      rw [if_pos rfl,if_pos rfl]
      rfl
    · rw [if_neg (Ne.symm he),if_neg he]
      exact h.clients id'

theorem unregister_some (hs : s.unregister id = some s') : ∃ x r, s.sessions id = some x ∧
    x.main = .unregistering r ∧ s.start.reading = false ∧
    s' = { s.setSession id { x with main := .returned r, done := true } with
      clients := s.clients.erase id } := by
  unfold System.unregister at hs
  split at hs
  · cases hs
  next x hx =>
  split at hs
  · next r hm =>
    split at hs
    · cases hs
    · next hread => cases hs; exact ⟨x,r,hx,hm,Bool.eq_false_iff.mpr hread,rfl⟩
  · cases hs

theorem Inv.unregister (h : s.Inv ext pkg) (hs : s.unregister id = some s') : s'.Inv ext pkg := by
  obtain ⟨x,r,hx,hm,hread,rfl⟩ := unregister_some hs
  have hi := h.session _ _ hx
  have hrest := rest_ok (rest_of_not_reading hread)
  refine ⟨fun id' y hy => ?_,fun id' => ?_,(hrest _).1,(hrest []).2,h.round⟩
  · rcases sessions_setSession_cases hy with ⟨rfl,rfl⟩ | ⟨-,hy⟩
    · refine SessionInv.same (s := s) ⟨hi.own.unregister hm,?_,hi.unused,fun n hn => ?_⟩ Iff.rfl rfl
      · rw [← hi.unjoined,hm]
        simp
      · obtain ⟨h₁,h₂,h₃,-⟩ := hi.streams n hn
        exact ⟨h₁,h₂,h₃,by simp⟩
    · exact (h.session _ _ hy).same Iff.rfl rfl
  · change (s.clients.erase id).find id' = _
    rw [Table.find_erase,sessions_setSession]
    split
    · rfl
    · exact h.clients id'

/-- `Start` outside a round: it receives a resource, stops or ends the round. -/
theorem start_some {act : Act} (hact : act = .rUnlock ∨ act = .stop ∨ ∃ res, act = .broadcast res)
    (hs : s.step ext pkg svr heartbeatDisable act = some s') : ∃ start, s.start.rest = [] ∧
      start.rest = [] ∧ start.reading = false ∧ s' = { s with start := start } := by
  rcases hact with rfl | rfl | ⟨res,rfl⟩
  all_goals
    simp only [System.step,rUnlock,stop,broadcast] at hs
    split at hs
    · next hst => cases hs; exact ⟨_,by rw [hst]; rfl,rfl,rfl,rfl⟩
    · cases hs

theorem Inv.start {act : Act} (hact : act = .rUnlock ∨ act = .stop ∨ ∃ res, act = .broadcast res)
    (h : s.Inv ext pkg) (hs : s.step ext pkg svr heartbeatDisable act = some s') :
    s'.Inv ext pkg := by
  obtain ⟨start,hrest,hrest',hread,rfl⟩ := start_some hact hs
  refine ⟨fun id y hy => (h.session id y hy).same ?_ rfl,h.clients,(rest_ok hrest' _).1,
    (rest_ok hrest' []).2,?_⟩
  · rw [Pending,Pending,hrest,hrest']
  · intro res rest he
    rw [show start = .handing res rest from he] at hread
    cases hread

/-- A session that has joined and whose context is not done is registered. -/
theorem SessionInv.registered_of_not_done (h : s.SessionInv ext pkg id x) {n : ℕ}
    (hj : x.joined = some n) (hd : x.done = false) : x.registered = true := by
  unfold Session.registered
  split
  · rfl
  · rfl
  · next hm => exact absurd (hj.symm.trans (h.unjoined.mp hm)) (by simp)
  · next r hm => exact absurd (h.own.result r (Or.inr hm)).1 (by simp [hd])

theorem Inv.client_of_registered (h : s.Inv ext pkg) (hx : s.sessions id = some x)
    (hr : x.registered = true) : ⟨id,x.source⟩ ∈ s.clients.rows := by
  refine Table.find_some_mem (k := id) ?_
  rw [h.clients id,hx]
  exact if_pos hr

theorem rLock_some {order : List Client} (hs : s.rLock order = some s') : ∃ res,
    s.start = .received res ∧ order.Perm s.clients.rows ∧
    s' = { s with start := .handing res order, rounds := s.rounds ++ [res] } := by
  unfold System.rLock at hs
  split at hs
  · next res hst =>
    split at hs
    · next hperm => cases hs; exact ⟨res,hst,hperm,rfl⟩
    · cases hs
  · cases hs

/-- A round begins: it is due to every client, and only a session that has left misses it. -/
theorem Inv.rLock {order : List Client} (h : s.Inv ext pkg) (hs : s.rLock order = some s') :
    s'.Inv ext pkg := by
  obtain ⟨res,hst,hperm,rfl⟩ := rLock_some hs
  have hnone : ∀ id, ¬ s.Pending id := not_pending_of_not_reading (by rw [hst]; rfl)
  refine ⟨fun id x hx => ?_,h.clients,hperm.subset,?_,?_⟩
  · have hi := h.session id x hx
    refine ⟨hi.own,hi.unjoined,hi.unused,fun n hn => ?_⟩
    obtain ⟨h₁,-,h₃,h₄⟩ := hi.streams n hn
    rw [offered_of_not_pending (hnone id)] at h₃ h₄
    have hdrop : (s.rounds ++ [res]).drop n = s.rounds.drop n ++ [res] :=
      List.drop_append_of_le_length h₁
    have hlen : n < (s.rounds ++ [res]).length := by
      rw [List.length_append]
      exact Nat.lt_succ_of_le h₁
    refine ⟨hlen.le,fun _ => hlen,?_,fun hd => ?_⟩
    · simp only [offered]
      split
      · rw [hdrop,List.dropLast_concat]
        exact h₃
      · rw [hdrop,streamOf_append]
        exact h₃.trans (List.sublist_append_left _ _)
    · have hmem := h.client_of_registered hx (hi.registered_of_not_done hn hd)
      have hp : Pending { s with start := .handing res order, rounds := s.rounds ++ [res] } id :=
        List.mem_map.mpr ⟨_,hperm.mem_iff.mpr hmem,rfl⟩
      rw [offered_of_pending hp,hdrop,List.dropLast_concat]
      exact h₄ hd
  · exact (hperm.map _).nodup_iff.mpr s.clients.nodup
  · intro res' rest he
    cases he
    exact ⟨s.rounds,rfl⟩

/-- What a handler did with a resource: the messages that it put into `eventCh`. -/
def Handled (ext : External) (pkg : StreamPackages) (res : Resource) (x x' : Session) : Prop :=
  x'.Inv ∧ ∃ ch new, x' = { x with eventCh := ch, accepted := x.accepted ++ new } ∧
    new.Sublist (streamOf ext pkg x.source [res]) ∧
    (x.done = false → new = streamOf ext pkg x.source [res])

/-- The turn of a client is over: it has been offered one resource more, and nobody else has. -/
theorem Inv.turn {res : Resource} {client : Client} {rest : List Client} (h : s.Inv ext pkg)
    (hst : s.start = .handing res (client :: rest)) (hx : s.sessions client.id = some x)
    (hh : Handled ext pkg res x x') :
    (System.setSession { s with start := .handing res rest } client.id x').Inv ext pkg := by
  obtain ⟨hinv,ch,new,rfl,hsub,hall⟩ := hh
  obtain ⟨before,hrounds⟩ := h.round _ _ hst
  have hrest : client :: rest ⊆ s.clients.rows := by
    have := h.rest
    rwa [hst] at this
  have hnodup : client.id ∉ rest.map Client.id ∧ (rest.map Client.id).Nodup := by
    have := h.nodup
    rw [hst] at this
    exact List.nodup_cons.mp this
  have hp : s.Pending client.id := by
    rw [Pending,hst]
    exact List.mem_cons_self
  refine ⟨fun id y hy => ?_,fun id => ?_,?_,hnodup.2,?_⟩
  · rcases sessions_setSession_cases hy with ⟨rfl,rfl⟩ | ⟨hne,hy⟩
    · have hi := h.session _ _ hx
      refine ⟨hinv,hi.unjoined,fun hj => ?_,fun n hn => ?_⟩
      · -- a client has joined
        obtain ⟨y,hy,-,hr⟩ := h.of_client (hrest List.mem_cons_self)
        cases hx.symm.trans hy
        rw [Session.registered,hi.unjoined.mpr hj] at hr
        cases hr
      · obtain ⟨-,h₂,h₃,h₄⟩ := hi.streams n hn
        have hlt := h₂ hp
        have hle : n ≤ before.length := by
          rw [hrounds,List.length_append,List.length_singleton] at hlt
          omega
        have hdrop : s.rounds.drop n = before.drop n ++ [res] := by
          rw [hrounds]
          exact List.drop_append_of_le_length hle
        rw [offered_of_pending hp,hdrop,List.dropLast_concat] at h₃ h₄
        have hq (y : Session) : ¬ Pending (System.setSession { s with start := .handing res rest }
            client.id y) client.id := hnodup.1
        refine ⟨hlt.le,fun _ => hlt,?_,fun hd => ?_⟩
        · rw [(offered_of_not_pending (hq _)).trans hdrop,streamOf_append]
          exact h₃.append hsub
        · rw [(offered_of_not_pending (hq _)).trans hdrop,streamOf_append,← h₄ hd,← hall hd]
    · refine (h.session _ _ hy).same ?_ rfl
      simp only [Pending,setSession,hst,Start.rest,List.map_cons,List.mem_cons,hne,false_or]
  · rw [sessions_setSession]
    split
    · next he =>
      subst he
      refine (h.clients client.id).trans ?_
      rw [hx]
      rfl
    · exact h.clients id
  · exact fun c hc => hrest (List.mem_cons_of_mem _ hc)
  · intro res' rest' he
    cases he
    exact ⟨before,hrounds⟩

/-- A handler that puts nothing into `eventCh`: the resource has no message for the client, or the
context is done. -/
theorem Handled.nothing {res : Resource} (hx : x.Inv)
    (h : streamOf ext pkg x.source [res] = [] ∨ x.done = true) : Handled ext pkg res x x := by
  refine ⟨hx,x.eventCh,[],by rw [List.append_nil],List.nil_sublist _,fun hd => ?_⟩
  rcases h with h | h
  · exact h.symm
  · exact absurd h (by simp [hd])

theorem Handled.accept {res : Resource} {evt : PBEvent} (hx : x.Inv)
    (hevt : statusMessage ext pkg res = .ok evt) (hsource : res.source = x.source)
    (h : x.accept evt = some x') : Handled ext pkg res x x' := by
  have hx' := hx.accept h
  have hstream : streamOf ext pkg x.source [res] = [evt] := by
    simp [streamOf,hevt,hsource,Except.toOption]
  unfold Session.accept at h
  split at h
  · cases h
    exact ⟨hx',_,[evt],rfl,hstream ▸ List.Sublist.refl _,fun _ => hstream.symm⟩
  · cases h

/-- The turn of a client, whatever its handler does. -/
theorem Inv.hand_some {accept : Bool} (h : s.Inv ext pkg) (hs : s.hand ext pkg accept = some s') :
    ∃ res client rest x x', s.start = .handing res (client :: rest) ∧
      s.sessions client.id = some x ∧ x.registered = true ∧ Handled ext pkg res x x' ∧
      s' = System.setSession { s with start := .handing res rest } client.id x' := by
  unfold System.hand at hs
  split at hs
  · next res client rest hst =>
    have hmem : client ∈ s.clients.rows := h.rest (by rw [hst]; exact List.mem_cons_self)
    obtain ⟨x,hx,hsource,hr⟩ := h.of_client hmem
    have hi := (h.session _ _ hx).own
    have hself : System.setSession { s with start := .handing res rest } client.id x =
        { s with start := .handing res rest } := setSession_self hx
    refine ⟨res,client,rest,x,?_⟩
    dsimp only at hs
    split at hs
    · next heq =>
      unfold handle at hs
      split at hs
      · next err he =>
        cases hs
        exact ⟨x,hst,hx,hr,.nothing hi (Or.inl (by simp [streamOf,he,Except.toOption])),hself.symm⟩
      · cases hs
      · next evt y hevt hy =>
        cases hx.symm.trans hy
        split at hs
        · split at hs
          · cases hs
          · next x' ha =>
            cases hs
            exact ⟨x',hst,hx,hr,.accept hi hevt (heq.symm.trans hsource.symm) ha,rfl⟩
        · split at hs
          · next hd => cases hs; exact ⟨x,hst,hx,hr,.nothing hi (Or.inr hd),hself.symm⟩
          · cases hs
    · next hne =>
      cases hs
      have hno : streamOf ext pkg x.source [res] = [] := by simp [streamOf,hsource,Ne.symm hne]
      exact ⟨x,hst,hx,hr,.nothing hi (Or.inl hno),hself.symm⟩
  · cases hs

theorem Inv.hand {accept : Bool} (h : s.Inv ext pkg) (hs : s.hand ext pkg accept = some s') :
    s'.Inv ext pkg := by
  obtain ⟨res,client,rest,x,x',hst,hx,-,hh,rfl⟩ := h.hand_some hs
  exact h.turn hst hx hh

theorem Inv.step {act : Act} (h : s.Inv ext pkg)
    (hs : s.step ext pkg svr heartbeatDisable act = some s') : s'.Inv ext pkg := by
  cases act with
  | subscribe id req => exact h.subscribe hs
  | session id act => exact h.sessionStep hs
  | register id => exact h.register hs
  | unregister id => exact h.unregister hs
  | broadcast | rUnlock | stop => exact h.start (by simp) hs
  | rLock order => exact h.rLock hs
  | hand accept => exact h.hand hs

theorem inv_initial : Inv ext pkg {} := by
  refine ⟨?_,fun id => rfl,List.nil_subset _,List.nodup_nil,?_⟩
  · intro id x hx
    cases hx
  · intro res rest hst
    cases hst

theorem Inv.of_run {acts : List Act}
    (h : (machine ext pkg svr heartbeatDisable).run acts {} = some s) : s.Inv ext pkg :=
  Machine.invariant (fun _ _ _ hs hi => hi.step hs) h inv_initial

/-- What goes over the stream of a subscriber: the messages that the session has sent, the one that
was lost with the stream, the one that the sender holds and the buffered ones are messages of the
resources of its source that were broadcast since it registered, in order and none twice. As long as
the context is not done none of them is missing. -/
theorem subscriber_stream {acts : List Act}
    (h : (machine ext pkg svr heartbeatDisable).run acts {} = some s)
    (hx : s.sessions id = some x) {n : ℕ} (hj : x.joined = some n) :
    (x.sentEvents ++ x.lostEvents ++ x.held ++ x.eventCh.items).Sublist
        (streamOf ext pkg x.source (s.offered id n)) ∧
      (x.done = false → x.sentEvents ++ x.lostEvents ++ x.held ++ x.eventCh.items =
        streamOf ext pkg x.source (s.offered id n)) := by
  have hi := (Inv.of_run h).session _ _ hx
  have hs := hi.streams n hj
  rw [← hi.own.conserved]
  exact ⟨hs.order,hs.complete⟩

/-- A resource with a status of the agent. -/
def reportedWeb (sequenceID : String) : Resource :=
  ({ Reference.webRow with status := Reference.statusWith "Applied" sequenceID }).scan

/-- A subscriber gets one message and has another in its buffer while a third round runs. -/
def streamActs : List Act :=
  [.subscribe "client" { source := "src" },.register "client",.broadcast (reportedWeb "1"),
    .rLock [⟨"client","src"⟩],.hand true,.rUnlock,.session "client" .takeEvent,
    .session "client" .sendOk,.broadcast (reportedWeb "2"),.rLock [⟨"client","src"⟩],.hand true,
    .rUnlock,.broadcast (reportedWeb "3"),.rLock [⟨"client","src"⟩]]

/-- The server and its packages in the examples. -/
abbrev exampleMachine : Machine System Act :=
  machine Reference.packages Reference.streamPackages ⟨true,fun _ _ _ _ _ => .ok true,0⟩ false

theorem subscriber_stream_buffered : ∃ s x, exampleMachine.run streamActs {} = some s ∧
    s.sessions "client" = some x ∧ x.sentEvents.length = 1 ∧ x.eventCh.items.length = 1 ∧
    s.offered "client" 0 = [reportedWeb "1",reportedWeb "2"] ∧
    x.sentEvents ++ x.lostEvents ++ x.held ++ x.eventCh.items =
      streamOf Reference.packages Reference.streamPackages "src" (s.offered "client" 0) := by
  have h : (exampleMachine.run streamActs {}).any fun s => (s.sessions "client").any fun x =>
      decide (x.sentEvents.length = 1 ∧ x.eventCh.items.length = 1 ∧
        s.offered "client" 0 = [reportedWeb "1",reportedWeb "2"] ∧ x.joined = some 0 ∧
        x.done = false ∧ x.source = "src") := by
    decide +kernel
  obtain ⟨s,hr,h⟩ := (Option.any_eq_true _ _).mp h
  obtain ⟨x,hx,h⟩ := (Option.any_eq_true _ _).mp h
  obtain ⟨h₁,h₂,h₃,hj,hd,hsource⟩ := of_decide_eq_true h
  have hall := (subscriber_stream hr hx hj).2 hd
  rw [hsource] at hall
  exact ⟨s,x,hr,hx,h₁,h₂,h₃,hall⟩

end System

end Subscription

end Maestro
