import Maestro.Client.LabelSearch
import Maestro.Concurrent.Interleaving
import Mathlib.Data.Prod.Lex

/-!
# The watcher store of a source client

`RESTFulAPIWatcherStore` keeps one watcher for each namespace. The works that it lists go through
a queue to the watchers, the ones that it receives go to them directly. Its methods are programs
over the calls of `StoreCall`, each of which is one atomic step: an operation on the mutex, the
map or the queue of the store, on a watcher, or a request to the server.
-/

namespace Maestro
open Data Concurrent

/-- A manifest work, with the fields that the store and the watchers look at. -/
structure Work where
  uid : String
  namespace_ : String := ""
  labels : StringMap := []
  incarnation : ℕ := 0
  version : ℕ := 0
  sequence : ℕ := 0
  /-- The condition `ResourceDeleted` is true. -/
  deleted : Bool := false
deriving DecidableEq

/-- How far a work has come: through its versions and status sequences until it is deleted, and
then on with its next incarnation. -/
def Work.rank (work : Work) : ℕ ×ₗ Bool ×ₗ ℕ ×ₗ ℕ :=
  toLex (work.incarnation,toLex (work.deleted,toLex (work.version,work.sequence)))

inductive WatchType
  | modified | deleted
deriving DecidableEq

structure WatchEvent where
  type : WatchType
  object : Work
deriving DecidableEq

/-- `metav1.NamespaceAll`. -/
def namespaceAll : String := ""

/-- `workWatcher`. Its channel `done` is closed together with `stopped`. -/
structure WorkWatcher where
  namespace_ : String
  labelSelector : LabelSelector
  stopped : Bool := false
  resultClosed : Bool := false
deriving DecidableEq

/-- The filters of `Receive`. -/
def WorkWatcher.accepts (pkg : LabelsPackage) (w : WorkWatcher) (work : Work) : Bool :=
  (w.namespace_ = namespaceAll || w.namespace_ = work.namespace_) &&
    w.labelSelector.matches pkg work.labels

/-! ### The calls -/

inductive StoreCall
  | rLock
  | rUnlock
  | lock
  | unlock
  | rangeWatchers
  | findWatcher (namespace_ : String)
  | putWatcher (namespace_ : String) (labelSelector : LabelSelector)
  | isStopped (watcher : ℕ)
  | stop (watcher : ℕ)
  | send (watcher : ℕ) (evt : WatchEvent)
  | pageList (search : String)
  | add (work : Work)
  | pop
  | nextReceived
  | change (work : Work) (publish : Bool)
deriving DecidableEq

abbrev StoreCall.Resp : StoreCall → Type
  | .rangeWatchers => List (ℕ × WorkWatcher)
  | .findWatcher _ => Option ℕ
  | .putWatcher _ _ => ℕ
  | .isStopped _ => Bool
  | .pageList _ => Except String (List Work)
  | .pop | .nextReceived => Work
  | .rLock | .rUnlock | .lock | .unlock | .stop _ | .send _ _ | .add _ | .change _ _ => Unit

abbrev StoreM := Prog StoreCall StoreCall.Resp

/-- The program of one call. -/
abbrev performStore (c : StoreCall) : StoreM c.Resp := Prog.lift c

/-! ### The methods -/

section Methods

variable (pkg : LabelsPackage) (quote : String → String) (sourceID : String)

/-- `Receive`, for a watcher and its number. -/
def receive (evt : WatchEvent) (w : ℕ × WorkWatcher) : StoreM Unit := do
  let stopped ← performStore (.isStopped w.1)
  if stopped then return ()
  else if w.2.accepts pkg evt.object then performStore (.send w.1 evt)
  else return ()

/-- The loop of `sendWatchEvent`. -/
def receiveEach (evt : WatchEvent) : List (ℕ × WorkWatcher) → StoreM Unit
  | [] => return ()
  | w :: ws => do
    receive pkg evt w
    receiveEach evt ws

def sendWatchEvent (evt : WatchEvent) : StoreM Unit := do
  performStore .rLock
  let watchers ← performStore .rangeWatchers
  receiveEach pkg evt watchers
  performStore .rUnlock

def handleReceivedResource (work : Work) : StoreM Unit :=
  sendWatchEvent pkg ⟨if work.deleted then .deleted else .modified,work⟩

def registerWatcher (namespace_ : String) (labelSelector : LabelSelector) : StoreM ℕ := do
  performStore .lock
  let found ← performStore (.findWatcher namespace_)
  match found with
  | none =>
    let watcher ← performStore (.putWatcher namespace_ labelSelector)
    performStore .unlock
    return watcher
  | some watcher =>
    let stopped ← performStore (.isStopped watcher)
    if stopped then do
      let watcher ← performStore (.putWatcher namespace_ labelSelector)
      performStore .unlock
      return watcher
    else do
      performStore .unlock
      return watcher

/-- The loop that saves the listed works to the queue. -/
def addEach : List Work → StoreM Unit
  | [] => return ()
  | work :: works => do
    performStore (.add work)
    addEach works

def getWatcher (namespace_ labelSelector : String) : StoreM (Except String ℕ) :=
  match toLabelSearch pkg quote labelSelector with
  | .error err => return .error err
  | .ok search => do
    let searches := ["source='" ++ sourceID ++ "'"] ++
      (if namespace_ ≠ namespaceAll then ["consumer_name='" ++ namespace_ ++ "'"] else []) ++
      (if search.selectable then [search.text] else [])
    let listed ← performStore (.pageList (" and ".intercalate searches))
    match listed with
    | .error err => return .error err
    | .ok works => do
      let watcher ← registerWatcher namespace_ search.selector
      addEach works
      return .ok watcher

def toSyncSearch (namespaces : List String) : String :=
  if namespaceAll ∈ namespaces then "source='" ++ sourceID ++ "'"
  else "source='" ++ sourceID ++ "' and (" ++
    " or ".intercalate (namespaces.map fun ns => "consumer_name='" ++ ns ++ "'") ++ ")"

def sync : StoreM (Except String Unit) := do
  performStore .rLock
  let watchers ← performStore .rangeWatchers
  if watchers = [] then do
    performStore .rUnlock
    return .ok ()
  else do
    let listed ← performStore (.pageList (toSyncSearch sourceID (watchers.map (·.2.namespace_))))
    match listed with
    | .error err => do
      performStore .rUnlock
      return .error err
    | .ok works => do
      addEach works
      performStore .rUnlock
      return .ok ()

/-- The first rounds of `process`. -/
def process : ℕ → StoreM Unit
  | 0 => return ()
  | n+1 => do
    let work ← performStore .pop
    sendWatchEvent pkg ⟨.modified,work⟩
    process n

/-- The first works that the subscription hands to `HandleReceivedResource`. -/
def subscription : ℕ → StoreM Unit
  | 0 => return ()
  | n+1 => do
    let work ← performStore .nextReceived
    handleReceivedResource pkg work
    subscription n

end Methods

/-! ### The shared state -/

inductive WatchEntry
  | registered (watcher : ℕ)
  | read (work : Work)
  | delivered (watcher : ℕ) (evt : WatchEvent)
deriving DecidableEq

/-- The store, its watchers and the server. `inHand` has the works that a thread has listed,
popped or received and not passed on, and `journal` what happened. -/
structure WatcherStore where
  readers : List ℕ := []
  writer : Option ℕ := none
  watchers : List (String × ℕ) := []
  heap : List WorkWatcher := []
  workQueue : List Work := []
  server : String → Option Work := fun _ => none
  published : List Work := []
  inHand : List (ℕ × Work) := []
  journal : List WatchEntry := []
  panicked : Bool := false

/-- What the environment decides: the order of a map, and the works on the pages of a list. -/
structure StoreChoice where
  order : List (String × ℕ) → List (String × ℕ) := id
  listed : Except String (List String) := .ok []

namespace WatcherStore

/-- The watchers of the map, in some order. -/
def range (o : StoreChoice) (s : WatcherStore) : List (ℕ × WorkWatcher) :=
  let entries := if (o.order s.watchers).isPerm s.watchers then o.order s.watchers else s.watchers
  entries.filterMap fun p => (s.heap[p.2]?).map fun w => (p.2,w)

/-- `Add` of the queue, which has one object for each work. -/
def enqueue (work : Work) : List Work → List Work
  | [] => [work]
  | queued :: rest => if queued.uid = work.uid then work :: rest else queued :: enqueue work rest

/-- The works with these uids that are on the server and match. -/
def list (selects : String → Work → Bool) (search : String) (uids : List String)
    (s : WatcherStore) : List Work :=
  (uids.filterMap s.server).filter fun work => !work.deleted && selects search work

/-- The watcher exists and is stopped. -/
def stopped (s : WatcherStore) (watcher : ℕ) : Bool := (s.heap[watcher]?).any WorkWatcher.stopped

def updateWatcher (s : WatcherStore) (watcher : ℕ) (f : WorkWatcher → WorkWatcher) :
    WatcherStore :=
  { s with heap := s.heap.modify watcher f }

theorem getElem?_updateWatcher (s : WatcherStore) (watcher : ℕ) (f : WorkWatcher → WorkWatcher)
    (k : ℕ) : (s.updateWatcher watcher f).heap[k]? =
      if k = watcher then (s.heap[k]?).map f else s.heap[k]? := by
  rw [updateWatcher,List.getElem?_modify]
  split
  · next h =>
    rw [if_pos h.symm]
    rfl
  · next h =>
    rw [if_neg (Ne.symm h)]
    exact id_map _

/-- The execution of a call by thread `i`. `none` is a call that cannot be executed now. A
consumer reads from its watcher until it stops it, so that an event can be sent to a watcher that
is not stopped. After a panic nothing is executed. -/
def exec (selects : String → Work → Bool) (i : ℕ) (o : StoreChoice) (c : StoreCall)
    (s : WatcherStore) : Option (c.Resp × WatcherStore) :=
  if s.panicked then none else
  match c with
  | .rLock => if s.writer = none then some ((),{ s with readers := i :: s.readers }) else none
  | .rUnlock => some ((),{ s with
      readers := s.readers.erase i
      inHand := s.inHand.filter fun p => p.1 ≠ i })
  | .lock =>
    if s.writer = none ∧ s.readers = [] then some ((),{ s with writer := some i }) else none
  | .unlock => some ((),{ s with writer := none })
  | .rangeWatchers => some (s.range o,s)
  | .findWatcher ns => some (s.watchers.lookup ns,s)
  | .putWatcher ns labelSelector => some (s.heap.length,{ s with
      heap := s.heap ++ [⟨ns,labelSelector,false,false⟩]
      watchers := s.watchers.filter (fun p => p.1 ≠ ns) ++ [(ns,s.heap.length)]
      journal := s.journal ++ [.registered s.heap.length] })
  | .isStopped watcher => some (s.stopped watcher,s)
  | .stop watcher =>
    match s.heap[watcher]? with
    | none => none
    | some w =>
      if !w.stopped then some ((),s.updateWatcher watcher fun w => { w with stopped := true })
      else if !w.resultClosed then
        some ((),s.updateWatcher watcher fun w => { w with resultClosed := true })
      else some ((),{ s with panicked := true })
  | .send watcher evt =>
    match s.heap[watcher]? with
    | none => none
    | some w =>
      if w.resultClosed then some ((),{ s with panicked := true })
      else if w.stopped then none
      else some ((),{ s with journal := s.journal ++ [.delivered watcher evt] })
  | .pageList search =>
    match o.listed with
    | .error err => some (.error err,s)
    | .ok uids => some (.ok (s.list selects search uids),{ s with
        inHand := s.inHand ++ (s.list selects search uids).map (i,·)
        journal := s.journal ++ (s.list selects search uids).map .read })
  | .add work => some ((),{ s with
      workQueue := enqueue work s.workQueue
      inHand := s.inHand.erase (i,work) })
  | .pop =>
    match s.workQueue with
    | [] => none
    | work :: rest => some (work,{ s with
        workQueue := rest
        inHand := s.inHand ++ [(i,work)] })
  | .nextReceived =>
    match s.published with
    | [] => none
    | work :: rest => some (work,{ s with
        published := rest
        inHand := s.inHand ++ [(i,work)]
        journal := s.journal ++ [.read work] })
  | .change work publish =>
    if (s.server work.uid).all fun old => decide (old.rank < work.rank) then
      some ((),{ s with
        server := Function.update s.server work.uid (some work)
        published := if publish then s.published ++ [work] else s.published })
    else none

/-- What the calls do. -/
inductive StoreEffect (selects : String → Work → Bool) (i : ℕ) (s : WatcherStore) :
    (c : StoreCall) → c.Resp → WatcherStore → Prop
  | rLock (h : s.writer = none) :
      StoreEffect selects i s .rLock () { s with readers := i :: s.readers }
  | rUnlock : StoreEffect selects i s .rUnlock ()
      { s with readers := s.readers.erase i, inHand := s.inHand.filter fun p => p.1 ≠ i }
  | lock (h : s.writer = none) (hr : s.readers = []) :
      StoreEffect selects i s .lock () { s with writer := some i }
  | unlock : StoreEffect selects i s .unlock () { s with writer := none }
  | rangeWatchers (o : StoreChoice) : StoreEffect selects i s .rangeWatchers (s.range o) s
  | findWatcher (ns : String) :
      StoreEffect selects i s (.findWatcher ns) (s.watchers.lookup ns) s
  | putWatcher (ns : String) (labelSelector : LabelSelector) :
      StoreEffect selects i s (.putWatcher ns labelSelector) s.heap.length
        { s with
          heap := s.heap ++ [⟨ns,labelSelector,false,false⟩]
          watchers := s.watchers.filter (fun p => p.1 ≠ ns) ++ [(ns,s.heap.length)]
          journal := s.journal ++ [.registered s.heap.length] }
  | isStopped (watcher : ℕ) : StoreEffect selects i s (.isStopped watcher) (s.stopped watcher) s
  | stop (watcher : ℕ) (f : WorkWatcher → WorkWatcher)
      (hf : ∀ w, (f w).namespace_ = w.namespace_ ∧ (f w).labelSelector = w.labelSelector ∧
        (w.stopped → (f w).stopped)) :
      StoreEffect selects i s (.stop watcher) () (s.updateWatcher watcher f)
  | stopPanic (watcher : ℕ) : StoreEffect selects i s (.stop watcher) () { s with panicked := true }
  | send (watcher : ℕ) (evt : WatchEvent) (h : s.stopped watcher = false) :
      StoreEffect selects i s (.send watcher evt) ()
        { s with journal := s.journal ++ [.delivered watcher evt] }
  | sendPanic (watcher : ℕ) (evt : WatchEvent) :
      StoreEffect selects i s (.send watcher evt) () { s with panicked := true }
  | listError (search err : String) : StoreEffect selects i s (.pageList search) (.error err) s
  | pageList (search : String) (uids : List String) :
      StoreEffect selects i s (.pageList search) (.ok (s.list selects search uids))
        { s with
          inHand := s.inHand ++ (s.list selects search uids).map (i,·)
          journal := s.journal ++ (s.list selects search uids).map .read }
  | add (work : Work) : StoreEffect selects i s (.add work) ()
      { s with workQueue := enqueue work s.workQueue, inHand := s.inHand.erase (i,work) }
  | pop (work : Work) (rest : List Work) (h : s.workQueue = work :: rest) :
      StoreEffect selects i s .pop work
        { s with workQueue := rest, inHand := s.inHand ++ [(i,work)] }
  | nextReceived (work : Work) (rest : List Work) (h : s.published = work :: rest) :
      StoreEffect selects i s .nextReceived work
        { s with
          published := rest
          inHand := s.inHand ++ [(i,work)]
          journal := s.journal ++ [.read work] }
  | change (work : Work) (publish : Bool)
      (h : ∀ old, s.server work.uid = some old → old.rank < work.rank) :
      StoreEffect selects i s (.change work publish) ()
        { s with
          server := Function.update s.server work.uid (some work)
          published := if publish then s.published ++ [work] else s.published }

theorem exec_effect {selects : String → Work → Bool} {i : ℕ} {o : StoreChoice} {c : StoreCall}
    {s s' : WatcherStore} {r : c.Resp} (h : exec selects i o c s = some (r,s')) :
    StoreEffect selects i s c r s' := by
  rw [exec.eq_def] at h
  split at h
  · cases h
  cases c <;> dsimp only at h
  case rLock =>
    split at h
    next hw => cases h; exact .rLock hw
    · cases h
  case lock =>
    split at h
    next hw => cases h; exact .lock hw.1 hw.2
    · cases h
  case stop watcher =>
    split at h
    · cases h
    split at h
    · cases h
      exact .stop watcher _ (by simp)
    split at h
    · cases h
      exact .stop watcher _ (by simp)
    · cases h
      exact .stopPanic watcher
  case send watcher evt =>
    split at h
    · cases h
    next w hw =>
      split at h
      · cases h
        exact .sendPanic watcher evt
      split at h
      · cases h
      next hs =>
        cases h
        exact .send watcher evt (by simpa [stopped,hw] using hs)
  case pageList search =>
    split at h
    · cases h
      exact .listError search _
    · cases h
      exact .pageList search _
  case pop =>
    split at h
    · cases h
    next hq => cases h; exact .pop _ _ hq
  case nextReceived =>
    split at h
    · cases h
    next hq => cases h; exact .nextReceived _ _ hq
  case change work publish =>
    split at h
    next hr =>
      cases h
      exact .change work publish fun old ho => by simpa [ho] using hr
    · cases h
  all_goals
    cases h
    constructor

end WatcherStore

/-- What a thread of a client program does with the store, and what the server does. -/
inductive Activity
  | getWatcher (namespace_ labelSelector : String)
  | sync
  | process (rounds : ℕ)
  | subscription (rounds : ℕ)
  | stop (watcher : ℕ)
  | change (work : Work) (publish : Bool)
deriving DecidableEq

def Activity.program (pkg : LabelsPackage) (quote : String → String) (sourceID : String) :
    Activity → StoreM Unit
  | .getWatcher ns labelSelector => do
    let _ ← Maestro.getWatcher pkg quote sourceID ns labelSelector
    return ()
  | .sync => do
    let _ ← Maestro.sync sourceID
    return ()
  | .process n => Maestro.process pkg n
  | .subscription n => Maestro.subscription pkg n
  | .stop watcher => performStore (.stop watcher)
  | .change work publish => performStore (.change work publish)

/-- A store without watchers, over some works on the server, and the threads that use it. -/
def storeStart (pkg : LabelsPackage) (quote : String → String) (sourceID : String)
    (works : List Work) (activities : ℕ → Activity) :
    Config ℕ WatcherStore StoreCall StoreCall.Resp Unit :=
  ⟨{ server := fun uid => works.find? fun work => work.uid = uid },
    fun i => (activities i).program pkg quote sourceID⟩

end Maestro
