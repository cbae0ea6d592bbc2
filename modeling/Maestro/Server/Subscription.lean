import Maestro.Concurrent.Machine
import Maestro.Data.Channel
import Maestro.Event.Broadcaster
import Maestro.Server.StatusMessage

/-!
# Subscriptions

`Subscribe` runs as three goroutines around three channels: it registers a handler that puts the
messages of broadcast resources into `eventCh`, sends what is in `eventCh` and `heartbeatCh` over
the stream, fills `heartbeatCh` at every tick, and waits for an error of the stream or the end of
its context. The broadcaster calls the handlers of all subscribers, one after the other, with the
read lock in hand. One action is one step of one goroutine, or of the client behind the stream.

## Main definitions

- `Session` — a call of `Subscribe`, with its channels and where its goroutines stand
- `System` — the broadcaster and all sessions of an instance
- `machine` — their interleaved steps
-/

namespace Maestro
open Data Concurrent

namespace Subscription

/-- What goes over a stream. -/
inductive Message
  | heartbeat (evt : PBEvent)
  | event (evt : PBEvent)
deriving DecidableEq

/-- The status event in a message. -/
def Message.event? : Message → Option PBEvent
  | .heartbeat _ => none
  | .event evt => some evt

/-- Where the goroutine that sends stands: at its `select`, in `Send`, after a `Send` that failed,
after the `cancel` that follows. -/
inductive Sender
  | selecting
  | sending (msg : Message)
  | failed (err : String)
  | cancelled (err : String)
  | returned
deriving DecidableEq

/-- Where the goroutine of the heartbeats stands. -/
inductive Ticker
  | selecting
  | ticked (heartbeat : PBEvent)
  | returned
deriving DecidableEq

/-- Where `Subscribe` itself stands: before `Register`, at its `select`, before `Unregister`. -/
inductive Main
  | registering
  | selecting
  | unregistering (result : Except String Unit)
  | returned (result : Except String Unit)
deriving DecidableEq

/-- A call of `Subscribe` that is past its header. -/
structure Session where
  source : String
  /-- The context is done. -/
  done : Bool := false
  eventCh : Channel PBEvent 100 := .empty
  heartbeatCh : Channel PBEvent 10 := .empty
  sendErrCh : Channel String 1 := .empty
  sender : Sender := .selecting
  /-- `none` as long as the goroutine is not started. -/
  ticker : Option Ticker := none
  main : Main := .registering
  /-- How many rounds had begun at `Register`. No step reads this or what follows. -/
  joined : Option ℕ := none
  /-- What the handler put into `eventCh`. -/
  accepted : List PBEvent := []
  /-- What `Send` sent. -/
  sent : List Message := []
  /-- The message and the error of the `Send` that failed. -/
  failure : Option (Message × String) := none

inductive SessionAct
  /-- The context of the stream ends: the client has cancelled or is gone. -/
  | closeStream
  | senderDone
  | takeHeartbeat
  | takeEvent
  | sendOk
  | sendFails (err : String)
  | cancel
  | report
  /-- The ticker fires; the heartbeat gets this ID. -/
  | tick (id : String)
  | putHeartbeat
  | tickerDone
  | takeError
  | seeDone
deriving DecidableEq

namespace Session

/-- The branches of the sender's `select`. -/
def takeHeartbeat (x : Session) : Option Session :=
  match x.sender,x.heartbeatCh.receive with
  | .selecting,some (evt,ch) =>
    some { x with heartbeatCh := ch, sender := .sending (.heartbeat evt) }
  | _,_ => none

@[inherit_doc takeHeartbeat]
def takeEvent (x : Session) : Option Session :=
  match x.sender,x.eventCh.receive with
  | .selecting,some (evt,ch) => some { x with eventCh := ch, sender := .sending (.event evt) }
  | _,_ => none

@[inherit_doc takeHeartbeat]
def senderDone (x : Session) : Option Session :=
  if x.sender = .selecting ∧ x.done then some { x with sender := .returned } else none

def sendOk (x : Session) : Option Session :=
  match x.sender with
  | .sending msg => some { x with sender := .selecting, sent := x.sent ++ [msg] }
  | _ => none

def sendFails (err : String) (x : Session) : Option Session :=
  match x.sender with
  | .sending msg => some { x with sender := .failed err, failure := some (msg,err) }
  | _ => none

def cancel (x : Session) : Option Session :=
  match x.sender with
  | .failed err => some { x with sender := .cancelled err, done := true }
  | _ => none

/-- The error goes to `sendErrCh` unless the channel is full. -/
def report (x : Session) : Option Session :=
  match x.sender with
  | .cancelled err =>
    some { x with sender := .returned, sendErrCh := (x.sendErrCh.send err).getD x.sendErrCh }
  | _ => none

def tick (heartbeat : PBEvent) (x : Session) : Option Session :=
  if x.ticker = some .selecting then some { x with ticker := some (.ticked heartbeat) } else none

/-- A heartbeat is dropped where `heartbeatCh` is full. -/
def putHeartbeat (x : Session) : Option Session :=
  match x.ticker with
  | some (.ticked heartbeat) =>
    some { x with
      ticker := some .selecting
      heartbeatCh := (x.heartbeatCh.send heartbeat).getD x.heartbeatCh }
  | _ => none

def tickerDone (x : Session) : Option Session :=
  if x.ticker = some .selecting ∧ x.done then some { x with ticker := some .returned } else none

/-- The branches of the last `select` of `Subscribe`. -/
def takeError (x : Session) : Option Session :=
  match x.main,x.sendErrCh.receive with
  | .selecting,some (err,ch) => some { x with main := .unregistering (.error err), sendErrCh := ch }
  | _,_ => none

@[inherit_doc takeError]
def seeDone (x : Session) : Option Session :=
  if x.main = .selecting ∧ x.done then some { x with main := .unregistering (.ok ()) } else none

/-- The handler puts a message into `eventCh`. -/
def accept (evt : PBEvent) (x : Session) : Option Session :=
  match x.eventCh.send evt with
  | some ch => some { x with eventCh := ch, accepted := x.accepted ++ [evt] }
  | none => none

def step (pkg : StreamPackages) : SessionAct → Session → Option Session
  | .closeStream,x => some { x with done := true }
  | .senderDone,x => x.senderDone
  | .takeHeartbeat,x => x.takeHeartbeat
  | .takeEvent,x => x.takeEvent
  | .sendOk,x => x.sendOk
  | .sendFails err,x => x.sendFails err
  | .cancel,x => x.cancel
  | .report,x => x.report
  | .tick id,x => x.tick (heartbeatMessage pkg id)
  | .putHeartbeat,x => x.putHeartbeat
  | .tickerDone,x => x.tickerDone
  | .takeError,x => x.takeError
  | .seeDone,x => x.seeDone

end Session

/-- Where `Start` of the broadcaster stands: at its `select`, before `RLock`, in a round with some
clients still to come. -/
inductive Start
  | selecting
  | received (res : Resource)
  | handing (res : Resource) (rest : List Client)
  | returned

/-- `Start` holds the read lock. -/
def Start.reading : Start → Bool
  | .handing _ _ => true
  | _ => false

/-- The clients that the round has still to come to. -/
def Start.rest : Start → List Client
  | .handing _ rest => rest
  | _ => []

structure System where
  clients : Table Client.id := .empty
  start : Start := .selecting
  sessions : String → Option Session := fun _ => none
  /-- The resources of the rounds that `Start` began. No step reads it. -/
  rounds : List Resource := []

inductive Act
  /-- A call of `Subscribe` comes to its goroutines; the client ID is new. -/
  | subscribe (id : String) (req : SubscriptionRequest)
  | session (id : String) (act : SessionAct)
  | register (id : String)
  | unregister (id : String)
  /-- `Start` receives a resource from a call of `Broadcast`. -/
  | broadcast (res : Resource)
  /-- `Start` takes the read lock; the iteration over the map has this order. -/
  | rLock (order : List Client)
  /-- The next client's turn. Its handler takes this branch of the `select` if it comes so far. -/
  | hand (accept : Bool)
  | rUnlock
  | stop

namespace System

variable (ext : External) (pkg : StreamPackages) (svr : GRPCServer) (heartbeatDisable : Bool)

def setSession (s : System) (id : String) (x : Session) : System :=
  { s with sessions := Function.update s.sessions id (some x) }

/-- The requests that are refused, or whose header cannot be sent, start nothing. -/
def subscribe (id : String) (req : SubscriptionRequest) (s : System) : Option System :=
  if (s.sessions id).isSome then none
  else
    match svr.authorizeSubscribe req,req.sendHeader with
    | .ok (),.ok () => some (s.setSession id { source := req.source })
    | _,_ => some s

def sessionStep (id : String) (act : SessionAct) (s : System) : Option System :=
  match s.sessions id with
  | none => none
  | some x =>
    match x.step pkg act with
    | none => none
    | some x' => some (s.setSession id x')

/-- `Register`, which waits for the write lock, and the start of the heartbeats. -/
def register (id : String) (s : System) : Option System :=
  match s.sessions id with
  | none => none
  | some x =>
    if x.main = .registering ∧ s.start.reading = false then
      some { s.setSession id { x with
          main := .selecting
          ticker := if heartbeatDisable then none else some .selecting
          joined := some s.rounds.length } with
        clients := s.clients.save ⟨id,x.source⟩ }
    else
      none

/-- `Unregister`, which waits for the write lock, and the return with its deferred `cancel`. -/
def unregister (id : String) (s : System) : Option System :=
  match s.sessions id with
  | none => none
  | some x =>
    match x.main with
    | .unregistering result =>
      if s.start.reading then none
      else
        some { s.setSession id { x with main := .returned result, done := true } with
          clients := s.clients.erase id }
    | _ => none

def broadcast (res : Resource) (s : System) : Option System :=
  match s.start with
  | .selecting => some { s with start := .received res }
  | _ => none

def rLock (order : List Client) (s : System) : Option System :=
  match s.start with
  | .received res =>
    if order.Perm s.clients.rows then
      some { s with start := .handing res order, rounds := s.rounds ++ [res] }
    else
      none
  | _ => none

/-- The handler of a client with the source of the resource. An error of the handler is logged. -/
def handle (res : Resource) (accept : Bool) (client : Client) (s : System) : Option System :=
  match statusMessage ext pkg res,s.sessions client.id with
  | .error _,_ => some s
  | .ok _,none => none
  | .ok evt,some x =>
    if accept then
      match x.accept evt with
      | none => none
      | some x' => some (s.setSession client.id x')
    else if x.done then some s
    else none

def hand (accept : Bool) (s : System) : Option System :=
  match s.start with
  | .handing res (client :: rest) =>
    let s' := { s with start := .handing res rest }
    if client.source = res.source then handle ext pkg res accept client s' else some s'
  | _ => none

def rUnlock (s : System) : Option System :=
  match s.start with
  | .handing _ [] => some { s with start := .selecting }
  | _ => none

def stop (s : System) : Option System :=
  match s.start with
  | .selecting => some { s with start := .returned }
  | _ => none

def step : Act → System → Option System
  | .subscribe id req,s => s.subscribe svr id req
  | .session id act,s => s.sessionStep pkg id act
  | .register id,s => s.register heartbeatDisable id
  | .unregister id,s => s.unregister id
  | .broadcast res,s => s.broadcast res
  | .rLock order,s => s.rLock order
  | .hand accept,s => s.hand ext pkg accept
  | .rUnlock,s => s.rUnlock
  | .stop,s => s.stop

end System

/-- The broadcaster and the sessions of an instance. -/
def machine (ext : External) (pkg : StreamPackages) (svr : GRPCServer) (heartbeatDisable : Bool) :
    Machine System Act :=
  ⟨System.step ext pkg svr heartbeatDisable⟩

end Subscription

end Maestro
