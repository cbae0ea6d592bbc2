import Maestro.Api.Consumer
import Maestro.Concurrent.Interleaving
import Maestro.Data.Search
import Maestro.Services.Events

/-!
# Requests on consumers

`Patch` and `Delete` of the consumer handler, with the service and the DAO below them, on one
`consumers` table. Every statement commits on its own. The log records what the statements did;
no function reads it.
-/

namespace Maestro
open Data Concurrent

inductive ConsumerAct
  | read (id : String) (row : Option Consumer)
  /-- A row was saved in the place of `old`. -/
  | saved (old : Option Consumer) (row : Consumer)
  | deleted (row : Consumer)
deriving DecidableEq

structure ConsumerEntry where
  session : ℕ
  act : ConsumerAct
deriving DecidableEq

structure ConsumerState where
  consumers : Table Consumer.id := .empty
  /-- The consumer names that resources refer to. -/
  referenced : List String := []
  log : List ConsumerEntry := []
deriving DecidableEq

inductive ConsumerCall
  | take (id : String)
  | save (consumer : Consumer)
  | delete (id : String)
deriving DecidableEq

abbrev ConsumerCall.Resp : ConsumerCall → Type
  | .take _ => Except DbErr Consumer
  | .save _ => Except DbErr Consumer
  | .delete _ => Except DbErr Unit

abbrev ConsumerM := Prog ConsumerCall ConsumerCall.Resp

/-- The program of one statement. -/
abbrev onConsumers (c : ConsumerCall) : ConsumerM c.Resp := Prog.lift c

/-- The answer of a statement that the database refuses. -/
def ConsumerCall.failure (err : DbErr) : (c : ConsumerCall) → c.Resp
  | .take _ => .error err
  | .save _ => .error err
  | .delete _ => .error err

/-- What the environment decides for one statement. -/
structure ConsumerChoice where
  fault : Option DbErr := none
  now : Time := 0

def errConsumerReferenced : DbErr :=
  .other ("ERROR: update or delete on table \"consumers\" violates foreign key constraint " ++
    "\"fk_resources_consumers\" on table \"resources\" (SQLSTATE 23503)")

/-- A statement that the database does not refuse: its answer, the table it leaves and what it
did. `Save` updates the row with the same key, or inserts one. -/
def consumerCommit (ch : ConsumerChoice) (referenced : List String) :
    (c : ConsumerCall) → Table Consumer.id → c.Resp × Table Consumer.id × List ConsumerAct
  | .take id, consumers =>
    let row := consumers.find id
    (match row with | none => .error .recordNotFound | some row => .ok row,consumers,[.read id row])
  | .save consumer, consumers =>
    let row : Consumer := { consumer with updatedAt := ch.now }
    match consumers.find row.id with
    | some old => (.ok row,consumers.save row,[.saved old row])
    | none =>
      if consumers.rows.any fun other => other.name = row.name then
        (.error (errUniqueViolation "idx_consumers_name"),consumers,[])
      else
        (.ok row,consumers.save row,[.saved none row])
  | .delete id, consumers =>
    if id = "" then
      (.error errMissingWhereClause,consumers,[])
    else
      match consumers.find id with
      | none => (.ok (),consumers,[])
      | some row =>
        if row.name ∈ referenced then
          (.error errConsumerReferenced,consumers,[])
        else
          (.ok (),consumers.erase id,[.deleted row])

/-- The same, when the database may refuse the statement. -/
def consumerAnswer (ch : ConsumerChoice) (referenced : List String) (c : ConsumerCall)
    (consumers : Table Consumer.id) : c.Resp × Table Consumer.id × List ConsumerAct :=
  match ch.fault with
  | some err => (c.failure err,consumers,[])
  | none => consumerCommit ch referenced c consumers

/-- Execute a statement in session `t`. -/
def consumerExec (t : ℕ) (ch : ConsumerChoice) (c : ConsumerCall) (s : ConsumerState) :
    Option (c.Resp × ConsumerState) :=
  let (r,consumers,acts) := consumerAnswer ch s.referenced c s.consumers
  some (r,{ s with consumers := consumers, log := s.log ++ acts.map (ConsumerEntry.mk t) })

namespace ConsumerService

def get (id : String) : ConsumerM (Except ServiceError Consumer) := do
  match ← onConsumers (.take id) with
  | .error err => return .error (handleGetError "Consumer" "id" id err)
  | .ok consumer => return .ok consumer

def replace (consumer : Consumer) : ConsumerM (Except ServiceError Consumer) := do
  match ← onConsumers (.save consumer) with
  | .error err => return .error (handleUpdateError "Consumer" err.error)
  | .ok consumer => return .ok consumer

def delete (id : String) : ConsumerM (Except ServiceError Unit) := do
  match ← onConsumers (.delete id) with
  | .error err => return .error (handleDeleteError "Consumer" err.error)
  | .ok () => return .ok ()

end ConsumerService

/-- What a request answers: a body, nothing, or an error. -/
inductive ConsumerReply
  | body (consumer : ConsumerBody)
  | noContent
  | failed (err : ServiceError)
deriving DecidableEq

namespace ConsumerHandler

/-- The labels that a patch leaves. -/
def patched (labels : Option StringMap) (found : Consumer) : Consumer :=
  if labels.isSome then { found with labels := emptyMapToNilStringMap labels } else found

/-- The second half of `Patch`. -/
def replaceFound (labels : Option StringMap) (found : Consumer) : ConsumerM ConsumerReply := do
  match ← ConsumerService.replace (patched labels found) with
  | .error err => return .failed err
  | .ok consumer => return .body (presentConsumer consumer)

def patch (id : String) (labels : Option StringMap) : ConsumerM ConsumerReply := do
  match ← ConsumerService.get id with
  | .error err => return .failed err
  | .ok found => replaceFound labels found

def delete (id : String) : ConsumerM ConsumerReply := do
  match ← ConsumerService.delete id with
  | .error err => return .failed err
  | .ok () => return .noContent

end ConsumerHandler

inductive ConsumerRequest
  | patch (id : String) (labels : Option StringMap)
  | delete (id : String)

def ConsumerRequest.program : ConsumerRequest → ConsumerM ConsumerReply
  | .patch id labels => ConsumerHandler.patch id labels
  | .delete id => ConsumerHandler.delete id

end Maestro
