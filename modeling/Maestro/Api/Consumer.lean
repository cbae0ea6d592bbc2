import Maestro.Api.Types

namespace Maestro

/-- `db.StringMap`, as the list of its entries. -/
abbrev StringMap := List (String × String)

/-- `EmptyMapToNilStringMap`. -/
def emptyMapToNilStringMap : Option StringMap → Option StringMap
  | none => none
  | some [] => none
  | some (entry :: rest) => some (entry :: rest)

/-- `api.Consumer`, a row of the `consumers` table. Nothing soft-deletes consumers. -/
structure Consumer where
  id : String
  createdAt : Time := 0
  updatedAt : Time := 0
  name : String
  labels : Option StringMap := none
deriving DecidableEq

/-- `openapi.Consumer`. -/
structure ConsumerBody where
  id : Option String := none
  kind : Option String := none
  href : Option String := none
  name : String
  labels : Option StringMap
  createdAt : Time
  updatedAt : Time
deriving DecidableEq

def presentConsumer (consumer : Consumer) : ConsumerBody :=
  let body : ConsumerBody := {
    name := consumer.name
    labels := consumer.labels
    createdAt := consumer.createdAt
    updatedAt := consumer.updatedAt }
  if consumer.id = "" then
    body
  else
    { body with
      id := consumer.id
      kind := "Consumer"
      href := "/api/maestro/v1/consumers/" ++ consumer.id }

end Maestro
