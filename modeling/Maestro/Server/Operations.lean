import Maestro.Server.Publish
import Maestro.Services.Outlines

/-!
# Concurrent operations on resources

Any number of operations, each on a session of its own, interleaved statement by
statement. `start_verified` gives each of them its proof outline.
-/

namespace Maestro
open Concurrent Data ResourceService

/-- An operation on a resource. What is created is not marked as deleting. -/
inductive Op
  | create (res : Resource) (h : res.deletedAt.valid = false)
  | update (res : Resource)
  | publishUpdate (res : Resource)
  | updateStatus (res : Resource)
  | markAsDeleting (interval : Time) (id : String)
  | delete (id : String)

inductive Reply
  | resource (r : Except ServiceError Resource)
  | status (r : Except ServiceError (Resource × Bool))
  | done (r : Except ServiceError Unit)
  | published (r : Except String Unit)
deriving DecidableEq

namespace Op

def id : Op → String
  | .create res _ => res.id
  | .update res => res.id
  | .publishUpdate res => res.id
  | .updateStatus res => res.id
  | .markAsDeleting _ id => id
  | .delete id => id

def run (ext : External) : Op → M Reply
  | .create res _ => .resource <$> ResourceService.create ext res
  | .update res => .resource <$> ResourceService.update ext res
  | .publishUpdate res => .published <$> GRPCServer.publishUpdate ext res
  | .updateStatus res => .status <$> ResourceService.updateStatus ext res
  | .markAsDeleting interval id => .done <$> ResourceService.markAsDeleting interval id
  | .delete id => .done <$> ResourceService.delete id

end Op

/-- The update of a publish request: version 0 stands for the version that was read. -/
def Resource.withVersion (res : Resource) (version : Int32) : Resource :=
  if res.version = 0 then { res with version := version } else res

theorem Resource.withVersion_id (res : Resource) (version : Int32) :
    (res.withVersion version).id = res.id := by
  unfold Resource.withVersion
  split <;> rfl

theorem Resource.withVersion_payload (res : Resource) (version : Int32) :
    (res.withVersion version).payload = res.payload := by
  unfold Resource.withVersion
  split <;> rfl

/-- The answer of `Publish` to the result of its update. -/
def updateReply : Except ServiceError Resource → Except String Unit
  | .error err => .error ("failed to update resource: " ++ err.error)
  | .ok _ => .ok ()

/-- The acts and the result of the update branch of `Publish`. -/
inductive PublishRun (ext : External) (res : Resource) (gone : Prop) :
    List Act → Except String Unit → Prop
  | missing : PublishRun ext res gone [.readResource res.id none]
      (.error ("failed to get resource: " ++
        (handleGetError "Resource" "id" res.id .recordNotFound).error))
  | updated {row : ResourceRow} {acts : List Act} {r : Except ServiceError Resource}
      (h : UpdateRun ext (res.withVersion row.version) gone acts r) :
      PublishRun ext res gone (.readResource res.id (some row) :: acts) (updateReply r)

section Outline

variable {ext : External} {n : ℕ} {i : Fin n} {A : List Act}

theorem safe_publishUpdate (res : Resource) :
    Safe (pool n) (permits ext n) i
      (fun a s => s.Free i ∧ Ran i A res.id (PublishRun ext res) a s)
      (GRPCServer.publishUpdate ext res) fun s => s.Free i ∧ s.acts i = A := by
  have hF : ∀ _ : ResourceRow, Stable (pool n) (permits ext n) i fun s => s.Free i ∧ True :=
    fun _ => stable_free.and (.const True)
  refine safe_take stable_free (persists_free _) hF (fun _ _ _ => trivial) ?_ fun row hid => ?_
  · exact Safe.ret fun s ⟨hf,hacts⟩ => ⟨hf,_,hacts,.missing⟩
  · have hver : (if res.version = 0 then
          { res with version := (syncTimestampsFromResourceMeta ext row.scan).version }
        else res) = res.withVersion row.version := by
      rw [syncTimestamps_version]
      rfl
    change Safe _ _ i _ (update ext (if res.version = 0 then
      { res with version := (syncTimestampsFromResourceMeta ext row.scan).version }
      else res) >>= _) _
    rw [hver]
    refine Safe.bind ((safe_update (A := A ++ [.readResource res.id (some row)])
      (res.withVersion row.version)).weaken (fun s ⟨⟨hf,_⟩,hacts⟩ => ⟨hf,hacts⟩)
      (fun a s h => h)) fun r => ?_
    have hdone : ∀ s : State, s.Free i ∧ Ran i (A ++ [.readResource res.id (some row)])
        (res.withVersion row.version).id (UpdateRun ext (res.withVersion row.version)) r s →
        s.Free i ∧ Ran i A res.id (PublishRun ext res) (updateReply r) s := by
      rintro s ⟨hf,acts,hacts,hr⟩
      rw [Resource.withVersion_id] at hr
      exact ⟨hf,.readResource res.id (some row) :: acts,by rw [hacts]; simp,.updated hr⟩
    cases r <;> exact Safe.ret hdone

end Outline

/-- What the acts of an operation say about its reply. Nothing is needed of creations
and of hard deletes. -/
def Op.Run (ext : External) : Op → Prop → List Act → Reply → Prop
  | .update res => fun gone acts a => ∃ r, a = .resource r ∧ UpdateRun ext res gone acts r
  | .publishUpdate res => fun gone acts a => ∃ r, a = .published r ∧ PublishRun ext res gone acts r
  | .updateStatus res => fun gone acts a => ∃ r, a = .status r ∧ StatusRun ext res gone acts r
  | .markAsDeleting _ id => fun gone acts a => ∃ r, a = .done r ∧ MarkRun id gone acts r
  | .create _ _ => fun _ _ _ => True
  | .delete _ => fun _ _ _ => True

/-- What holds when an operation has returned. -/
def Op.Post (ext : External) (t : ℕ) (op : Op) (a : Reply) (s : State) : Prop :=
  s.Free t ∧ Ran t [] op.id (op.Run ext) a s

theorem Op.safe (ext : External) {n : ℕ} (i : Fin n) (op : Op) :
    Safe (pool n) (permits ext n) i (op.Post ext i) (op.run ext)
      fun s => s.Free i ∧ s.acts i = [] := by
  cases op with
  | create res h =>
    exact ((safe_create res h).map fun a s hf => ⟨hf,_,rfl,trivial⟩).weaken (fun s hs => hs.1)
      fun a s ha => ha
  | update res =>
    exact (safe_update res).map fun a s ⟨hf,acts,hacts,hr⟩ => ⟨hf,acts,hacts,a,rfl,hr⟩
  | publishUpdate res =>
    exact (safe_publishUpdate res).map fun a s ⟨hf,acts,hacts,hr⟩ => ⟨hf,acts,hacts,a,rfl,hr⟩
  | updateStatus res =>
    exact (safe_updateStatus res).map fun a s ⟨hf,acts,hacts,hr⟩ => ⟨hf,acts,hacts,a,rfl,hr⟩
  | markAsDeleting interval id =>
    exact (safe_markAsDeleting interval id).map
      fun a s ⟨hf,acts,hacts,hr⟩ => ⟨hf,acts,hacts,a,rfl,hr⟩
  | delete id =>
    exact ((safe_delete id).map fun a s hf => ⟨hf,_,rfl,trivial⟩).weaken (fun s hs => hs.1)
      fun a s ha => ha

/-- The operations about to run from a state. -/
def start (ext : External) {n : ℕ} (ops : Fin n → Op) (s₀ : State) :
    Config (Fin n) State Call Call.Resp Reply :=
  ⟨s₀,fun i => (ops i).run ext⟩

/-- Nothing has been recorded and none of the sessions holds a lock. -/
structure State.Fresh (s₀ : State) (n : ℕ) : Prop where
  journal : s₀.journal = []
  free : ∀ i : Fin n, s₀.Free i

/-- A schedule: the sessions that take turns, the `n`-th turn at time `n`. -/
def turns {n : ℕ} (sessions : List (Fin n)) : List (Fin n × Choice) :=
  sessions.zipIdx.map fun (i,k) => (i,.counting (fun _ => none) k)

theorem start_verified (ext : External) {n : ℕ} (ops : Fin n → Op) {s₀ : State}
    (h : s₀.Fresh n) :
    Verified (pool n) (permits ext n) (fun i => (ops i).Post ext i) (start ext ops s₀) :=
  fun i => ⟨_,stable_free.and (stable_acts []),⟨h.free i,by simp [start,State.acts,h.journal]⟩,
    (ops i).safe ext i⟩

end Maestro
