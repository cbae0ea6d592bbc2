import Maestro.Api.External

namespace Maestro

variable (ext : External)

/-- `compareSequenceIDs`: whether the first snowflake ID is newer than the second. -/
def compareSequenceIDs (sequenceID1 sequenceID2 : String) : Except ServiceError Bool :=
  if sequenceID1 ≠ "" ∧ sequenceID2 = "" then
    .ok true
  else
    match ext.snowflake.parseString sequenceID1 with
    | .error err => .error (Errors.generalError ("Unable to parse sequence ID: " ++ err))
    | .ok id1 =>
      match ext.snowflake.parseString sequenceID2 with
      | .error err => .error (Errors.generalError ("Unable to parse sequence ID: " ++ err))
      | .ok id2 =>
        if ext.snowflake.node id1 ≠ ext.snowflake.node id2 then
          .error (Errors.generalError "Sequence IDs are not from the same node")
        else if ext.snowflake.time id1 ≠ ext.snowflake.time id2 then
          .ok (ext.snowflake.time id1 > ext.snowflake.time id2)
        else
          .ok (ext.snowflake.step id1 > ext.snowflake.step id2)

end Maestro
