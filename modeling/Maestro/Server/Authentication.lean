import Maestro.Api.Reference
import Maestro.Data.Text
import Maestro.Server.Operations
import Maestro.Server.Requests

/-!
# Who may write

The interceptors find out who calls, from the client certificate or from the token, and `Publish`
asks the cluster whether this caller may publish for the source of its event.
-/

namespace Maestro
open Concurrent Data

/-- The subject of a client certificate. -/
structure Subject where
  commonName : String
  organization : List String

/-- What the interceptors read from the context of a call. -/
structure CallContext where
  /-- The verified chains of a TLS peer. A peer with other credentials has none. -/
  peer : Option (Option (List (List (Option Subject)))) := none
  /-- The values of each header. -/
  metadata : Option (String → List String) := none

/-- The API of the cluster. -/
structure KubeClient where
  /-- Whether a token is authenticated, its user and their groups. -/
  tokenReviews : String → Except String (Bool × String × List String)
  /-- Whether a user with some groups may use a verb on a path. -/
  subjectAccessReviews : String → String → String → List String → Except String Bool

def KubeClient.tokenReview (kube : KubeClient) (token : String) :
    Except String (String × List String) :=
  match kube.tokenReviews token with
  | .error err => .error err
  | .ok (true,identity) => .ok identity
  | .ok (false,_) => .error "token not authenticated"

def KubeClient.accessReview (kube : KubeClient) (action resourceType resource user : String)
    (groups : List String) : Except String Bool :=
  if user ≠ "" ∧ groups = [] then .error "groups must be set when user is specified"
  else if action ≠ "pub" ∧ action ≠ "sub" then .error ("unsupported action: " ++ action)
  else if resource = "" then .error "resource cannot be empty"
  else if resourceType = "source" then
    kube.subjectAccessReviews ("/sources/" ++ resource) action user groups
  else .error ("unsupported resource type: " ++ resourceType)

def unauthenticated (desc : String) : String := "rpc error: code = Unauthenticated desc = " ++ desc

def identityFromCertificate (ctx : CallContext) : Except String (String × List String) :=
  match ctx.peer with
  | none => .error (unauthenticated "no peer found")
  | some none => .error (unauthenticated "unexpected peer transport credentials")
  | some (some ((some subject :: _) :: _)) =>
    if subject.commonName = "" then
      .error (unauthenticated "could not find user in peer certificate")
    else if subject.organization = [] then
      .error (unauthenticated "could not find group in peer certificate")
    else .ok (subject.commonName,subject.organization)
  | some (some _) => .error (unauthenticated "could not verify peer certificate")

/-- `strings.TrimPrefix`. -/
def trimStart (start s : String) : String :=
  if Text.startsWith start s then String.ofList (s.toList.drop start.length) else s

def identityFromToken (kube : KubeClient) (ctx : CallContext) :
    Except String (String × List String) :=
  match ctx.metadata with
  | none => .error "rpc error: code = InvalidArgument desc = missing metadata"
  | some md =>
    match md "authorization" with
    | [] => .error (unauthenticated "invalid token")
    | authorization :: _ => kube.tokenReview (trimStart "Bearer " authorization)

/-- The flags of the server. -/
structure GRPCServerConfig where
  tlsCertFile : String
  tlsKeyFile : String
  grpcAuthNType : String

def GRPCServerConfig.disableTLS (config : GRPCServerConfig) : Bool :=
  config.tlsCertFile = "" ∧ config.tlsKeyFile = ""

/-- The identity that the unary interceptor adds to the context. -/
def newAuthUnaryInterceptor (authNType : String) (kube : KubeClient) (ctx : CallContext) :
    Except String (String × List String) :=
  if authNType = "token" then identityFromToken kube ctx
  else if authNType = "mtls" then identityFromCertificate ctx
  else if authNType = "mock" then .ok ("mock",["mock-group"])
  else .error ("unsupported authentication type " ++ authNType)

def newGRPCServer (config : GRPCServerConfig) (kube : KubeClient) (interval : Time) : GRPCServer :=
  ⟨config.disableTLS,kube.accessReview,interval⟩

/-- A call of `Publish` as it reaches the server. -/
structure PublishCall where
  ctx : CallContext
  event : Except String CloudEvent

variable (ext : External) (config : GRPCServerConfig) (kube : KubeClient) (interval : Time)

/-- Without TLS there is no interceptor. -/
def PublishCall.serve (call : PublishCall) : M (Except String Unit) :=
  let svr := newGRPCServer config kube interval
  if config.disableTLS then svr.publish ext { event := call.event }
  else
    match newAuthUnaryInterceptor config.grpcAuthNType kube call.ctx with
    | .error err => return .error err
    | .ok (user,groups) => svr.publish ext ⟨call.event,user,groups⟩

/-- The caller is known and may publish for the source of its event. -/
def PublishCall.Allowed (call : PublishCall) (source : String) : Prop :=
  (∃ evt, call.event = .ok evt ∧ evt.source = source) ∧ ∃ user groups,
    newAuthUnaryInterceptor config.grpcAuthNType kube call.ctx = .ok (user,groups) ∧
      kube.subjectAccessReviews ("/sources/" ++ source) "pub" user groups = .ok true

/-- The source of the row that a call inserts. -/
def Call.createdSource : Call → Option String
  | .createResource res => some res.source
  | _ => none

/-- The source of the row that was inserted. -/
def Act.insertedSource : Act → Option String
  | .insertedResource row => some row.source
  | _ => none

/-- A call that writes a resource is made for an allowed source, which an insert writes. -/
def PublishCall.Permits (call : PublishCall) (c : Call) : Prop :=
  c.rowless ∨ ∃ source, call.Allowed config kube source ∧ ∀ src ∈ c.createdSource, src = source

/-- The writes to resources among some entries were allowed to their sessions. -/
def WritesAllowed {n : ℕ} (calls : Fin n → PublishCall) (J : List Entry) : Prop :=
  ∀ (i : Fin n) a, ⟨i,a⟩ ∈ J → ¬ a.quiet → ∃ source, (calls i).Allowed config kube source ∧
    ∀ src ∈ a.insertedSource, src = source

variable {ext config kube interval}

theorem PublishCall.serve_calls (htls : config.disableTLS = false) (call : PublishCall) :
    (call.serve ext config kube interval).Calls Answers (call.Permits config kube)
      fun _ => True := by
  simp only [PublishCall.serve,htls,Bool.false_eq_true,if_false]
  split
  · trivial
  next user groups hid =>
  refine publish_calls ext _ _ (fun _ => .inl trivial) (fun _ => .inl trivial) ?_
  intro evt action res hreq
  obtain ⟨hauth,hdec⟩ := GRPCServer.decodeRequest_some hreq
  have hallowed : call.Allowed config kube evt.source := by
    refine ⟨⟨evt,?_,rfl⟩,user,groups,hid,?_⟩
    · unfold GRPCServer.decodeRequest at hreq
      repeat' split at hreq
      all_goals first | (cases hreq; done) | (cases hreq; assumption)
    · simp only [GRPCServer.authorize,newGRPCServer,htls,Bool.false_eq_true,if_false] at hauth
      split at hauth
      · cases hauth
      · cases hauth
      next hreview =>
      unfold KubeClient.accessReview at hreview
      repeat' split at hreview
      all_goals first | exact hreview | cases hreview
  have hw : ∀ c : Call, (∀ src ∈ c.createdSource, src = res.source) →
      call.Permits config kube c := by
    rw [(decodeResourceSpec_ok ext hdec).2.1]
    exact fun c hc => .inr ⟨_,hallowed,hc⟩
  refine dispatch_calls (fun c hc => .inl (c.rowless_of_neutral hc)) ext _ action res ?_ ?_ ?_
    (.inl trivial) (.inl trivial)
  · exact fun _ => ⟨hw _ (by simp [Call.createdSource]),fun _ _ => .inl trivial⟩
  · exact fun _ _ _ => ⟨hw _ (by simp [Call.createdSource]),.inl trivial⟩
  · exact fun _ => ⟨hw _ (by simp [Call.createdSource]),.inl trivial,.inl trivial⟩

theorem WritesAllowed.exec {n : ℕ} {calls : Fin n → PublishCall} {j : Fin n} {ch : Choice}
    {c : Call} {s s' : State} {r : c.Resp} (hc : (calls j).Permits config kube c)
    (hx : exec j ch c s = some (r,s')) (h : WritesAllowed config kube calls s.journal) :
    WritesAllowed config kube calls s'.journal := by
  have hnew : ∀ acts : List Act, s'.journal = s.journal ++ acts.map (Entry.mk j) →
      (∀ b ∈ acts, b.quiet ∨ ¬ c.rowless ∧ b.insertedSource = c.createdSource) →
      WritesAllowed config kube calls s'.journal := by
    intro acts hj hb i a ha hq
    rw [hj] at ha
    rcases List.mem_append.mp ha with ha | ha
    · exact h i a ha hq
    · obtain ⟨b,hm,he⟩ := List.mem_map.mp ha
      obtain ⟨hi,rfl⟩ := Entry.mk.inj he
      rw [← Fin.ext hi]
      obtain ⟨hrow,hsource⟩ := (hb b hm).resolve_left hq
      rw [hsource]
      exact hc.resolve_left hrow
  cases exec_rowEffect hx with
  | quiet acts _ hj hb => exact hnew acts hj fun b hm => .inl (hb b hm).quiet
  | insert | spec | status | soft | hard =>
    exact hnew [_] rfl (List.forall_mem_singleton.mpr (.inr ⟨id,rfl⟩))

/-- A client with a certificate that creates a resource of a source. -/
def certified (source : String) : PublishCall where
  ctx := { peer := some (some [[some ⟨"client",["clients"]⟩]]) }
  event := .ok (Reference.specEvent "create_request" source "web" "web" 0)

/-- A cluster that allows this client one source. -/
def oneSource : KubeClient where
  tokenReviews _ := .error "not found"
  subjectAccessReviews path _ user _ := .ok (path = "/sources/src" ∧ user = "client")

end Maestro
