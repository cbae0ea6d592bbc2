import Maestro.Controllers.StatusController
import Maestro.Db.ClusterEffects
import Maestro.Event.Broadcaster
import Maestro.Server.StatusUpdate

/-!
# The status pipeline of all instances

Any number of sessions, each on one of the instances: workers that handle status events, the
purge of handled ones, changes of readiness, messages of the agents, requests of the clients,
the broadcasters and their subscribers.
-/

namespace Maestro
open Concurrent

/-- A write of `server_instances`: `Create` and `Replace` of a heartbeat, or a batch of
readiness marks. -/
inductive InstanceWrite
  | save (row : ServerInstance)
  | mark (ids : List String) (ready : Bool)

def readinessWrites : List InstanceWrite → StatusM Unit
  | [] => return ()
  | .save row :: writes => do
    let _ ← InstanceDao.save row
    readinessWrites writes
  | .mark ids ready :: writes => do
    let _ ← InstanceDao.markByIDs ids ready
    readinessWrites writes

inductive StatusTask
  | work (queue : ℕ) (key : String)
  | sync
  | readiness (writes : List InstanceWrite)
  | report (message : Resource)
  | publish (req : PublishRequest)
  | broadcaster (rounds : ℕ)
  | subscribe (req : SubscriptionRequest)

inductive StatusReply
  | handled (result : Except String Unit)
  | synced (status : SyncStatus)
  | other
deriving DecidableEq

variable (ext : External) (svr : GRPCServer)

def StatusTask.run (instanceID : String) : StatusTask → StatusM StatusReply
  | .work queue key => .handled <$>
    StatusController.processNextEvent (statusControllers ext instanceID) queue key
  | .sync => .synced <$> StatusController.syncStatusEvents
  | .readiness writes => (fun _ => .other) <$> readinessWrites writes
  | .report message => (fun _ => .other) <$> (handleStatusUpdate ext message).inl
  | .publish req => (fun _ => .other) <$> (svr.publish ext req).inl
  | .broadcaster rounds => (fun _ => .other) <$> EventBroadcaster.start rounds
  | .subscribe req => (fun _ => .other) <$> svr.subscribe req

variable {n : ℕ} (inst : Fin n → String)

def pipelineStart (tasks : Fin n → StatusTask) (s₀ : Cluster) :
    Config (Fin n) Cluster ClusterCall ClusterCall.Resp StatusReply :=
  ⟨s₀,fun i => (tasks i).run ext svr (inst i)⟩

/-- The calls of the sessions of all instances. -/
abbrev clusterPool (i : Fin n) (ch : ClusterChoice) (c : ClusterCall) (s : Cluster) :
    Option (ClusterCall.Resp c × Cluster) :=
  clusterExec (inst i) i ch c s

end Maestro
