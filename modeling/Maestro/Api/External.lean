import Maestro.Api.Types

/-!
# Code outside the repository

The packages that the modelled functions call. What a proof needs to know about
one of them is a hypothesis of that proof.
-/

namespace Maestro

/-- The value of a CloudEvent extension attribute. -/
inductive ExtValue
  | str (s : String)
  | int (n : Int32)
  | bool (b : Bool)
  | bytes (b : List UInt8)
  | uri (s : String)
  | time (t : Time)
deriving DecidableEq

/-- `cloudevents.Event`. -/
structure CloudEvent where
  id : String
  source : String
  type : String
  time : Option Time := none
  extensions : List (String × ExtValue) := []
  data : Option Json := none
deriving DecidableEq

/-- The value of an extension, absent when the map has no such key. -/
def CloudEvent.extension (evt : CloudEvent) (name : String) : Option ExtValue :=
  (evt.extensions.find? fun p => p.1 = name).map Prod.snd

def extensionWorkMeta : String := "metadata"
def extensionClusterName : String := "clustername"
def extensionResourceID : String := "resourceid"
def extensionResourceVersion : String := "resourceversion"
def extensionDeletionTimestamp : String := "deletiontimestamp"
def extensionStatusUpdateSequenceID : String := "sequenceid"
def extensionStatusHash : String := "statushash"
def extensionOriginalSource : String := "originalsource"
def resourceDeleted : String := "Deleted"

inductive EventAction
  | createRequest
  | updateRequest
  | deleteRequest
  | resyncRequest
  | other (text : String)
deriving DecidableEq

def EventAction.text : EventAction → String
  | .createRequest => "create_request"
  | .updateRequest => "update_request"
  | .deleteRequest => "delete_request"
  | .resyncRequest => "resync_request"
  | .other text => text

/-- `types.CloudEventsType`. -/
structure CloudEventsType where
  dataType : String
  subResource : String
  action : EventAction
deriving DecidableEq

def CloudEventsType.text (t : CloudEventsType) : String :=
  t.dataType ++ "." ++ t.subResource ++ "." ++ t.action.text

/-- A `metav1.Condition`: the fields that are read, and the JSON members of the others. -/
structure Condition where
  type : String
  status : String
  other : Object := []
deriving DecidableEq

/-- `workpayload.ManifestBundleStatus`: the conditions, and the rest of it. -/
structure ManifestBundleStatus where
  conditions : List Condition
  resourceStatus : Json := .null
deriving DecidableEq

/-- `workpayload.ManifestBundle`. A manifest is kept as its raw JSON text, the
other parts as the JSON values of their structs. -/
structure ManifestBundle where
  manifests : List String
  manifestConfigs : List Json := []
  deleteOption : Option Json := none
deriving DecidableEq

inductive FieldErrorType
  | required
  | invalid
  | forbidden
deriving DecidableEq

/-- `field.Error`. -/
structure FieldError where
  type : FieldErrorType
  field : String
  badValue : String := ""
  detail : String
deriving DecidableEq

/-- `bwmarrin/snowflake`: parsing an ID, and the parts of one. -/
structure Snowflake where
  parseString : String → Except String Int64
  time : Int64 → Int64
  node : Int64 → Int64
  step : Int64 → Int64

/-- The accessors of `unstructured.Unstructured`. -/
structure Unstructured where
  getAPIVersion : Object → String
  getKind : Object → String
  getName : Object → String
  getNamespace : Object → String
  getGenerateName : Object → String
  getResourceVersion : Object → String
  getDeletionGracePeriodSeconds : Object → Option Int64
  getAnnotations : Object → List (String × String)
  getFinalizers : Object → List String
  getLabels : Object → List (String × String)

/-- The validators of `k8s.io/apimachinery`. -/
structure Validators where
  validateNamespaceName : String → List String
  isDNS1123Subdomain : String → List String
  isDNS1035Label : String → List String
  validateAnnotations : List (String × String) → String → List FieldError
  validateFinalizers : List String → String → List FieldError
  validateLabels : List (String × String) → String → List FieldError
  aggregate : List FieldError → String

structure External where
  /-- `json.Marshal` of a JSON value. -/
  marshal : Json → String
  /-- `json.Unmarshal` into a `map[string]any`; the text `null` gives a nil map. -/
  unmarshalMap : String → Except String JSONMap
  /-- `fmt.Sprintf("%s", v)` of a value that is no string. -/
  sprint : Json → String
  /-- `fmt.Sprintf("%T", v)`. -/
  sprintType : Json → String
  formatRFC3339 : Time → String
  sha256Hex : String → String
  /-- `json.Unmarshal` of an object into a `cloudevents.Event`. -/
  eventOfJSON : Object → Except String CloudEvent
  /-- `json.Marshal` of a `cloudevents.Event`, read as an object. -/
  jsonOfEvent : CloudEvent → Except String Object
  toString : Option ExtValue → Except String String
  toInteger : Option ExtValue → Except String Int32
  toTime : ExtValue → Except String Time
  /-- `fmt.Sprintf("%v", v)` of an extension value. -/
  sprintExtension : ExtValue → String
  setExtension : CloudEvent → String → ExtValue → CloudEvent
  dataAsManifestBundle : CloudEvent → Except String ManifestBundle
  dataAsManifestBundleStatus : CloudEvent → Except String ManifestBundleStatus
  parseCloudEventsType : String → Except String CloudEventsType
  /-- The resource IDs and status hashes of a status resync request. -/
  decodeStatusResyncRequest : CloudEvent → Except String (List (String × String))
  /-- `json.Marshal` of the `workv1.ManifestWorkStatus` with these parts. -/
  marshalWorkStatus : ManifestBundleStatus → Except String String
  /-- `json.Marshal` of the `ResourceBundleStatus` with this version, sequence ID and status. -/
  marshalBundleStatus : Int32 → String → ManifestBundleStatus → Except String String
  isStatusConditionTrue : List Condition → String → Bool
  snowflake : Snowflake
  unstructured : Unstructured
  validators : Validators

end Maestro
