import Maestro.Api.External

/-!
# A computable reading of the outside packages

`Reference.external` follows the documented behaviour of the packages on plain
inputs (unescaped strings, attribute values that are strings or integers), so
that the functions above it can be evaluated. JSON texts are read back only when
they are the encoding of an object in a given list.
-/

namespace Maestro

namespace Reference

mutual
/-- `json.Marshal`, for strings that need no escaping. -/
def marshal : Json → String
  | .null => "null"
  | .nilMap => "null"
  | .bool b => if b then "true" else "false"
  | .num q => toString q.num
  | .str s => "\"" ++ s ++ "\""
  | .arr xs => "[" ++ marshalList xs ++ "]"
  | .obj fields => "\x7b" ++ marshalFields fields ++ "\x7d"
def marshalList : List Json → String
  | [] => ""
  | [x] => marshal x
  | x :: xs => marshal x ++ "," ++ marshalList xs
def marshalFields : List (String × Json) → String
  | [] => ""
  | [(k,x)] => "\"" ++ k ++ "\":" ++ marshal x
  | (k,x) :: xs => "\"" ++ k ++ "\":" ++ marshal x ++ "," ++ marshalFields xs
end

def typeName : Json → String
  | .null => "<nil>"
  | .nilMap => "map[string]interface \x7b\x7d"
  | .bool _ => "bool"
  | .num _ => "json.Number"
  | .str _ => "string"
  | .arr _ => "[]interface \x7b\x7d"
  | .obj _ => "map[string]interface \x7b\x7d"

def text : Option Json → String
  | some (.str s) => s
  | _ => ""

def object : Option Json → Object
  | some (.obj o) => o
  | _ => []

/-- The context attributes that are no extensions. -/
def attributes : List String := ["data","datacontenttype","id","source","specversion","time","type"]

def extensionOf : String × Json → Option (String × ExtValue)
  | (k,.str s) => if k ∈ attributes then none else some (k,.str s)
  | (k,.num q) => if k ∈ attributes then none else some (k,.int (Int32.ofInt q.num))
  | _ => none

/-- The value that a reader of members gives to a key, by the first member of that key. -/
theorem find_filterMap {f : String × Json → Option (String × ExtValue)}
    (hf : ∀ p e, f p = some e → e.1 = p.1) {name : String} {j : Json} {v : ExtValue}
    (hv : f (name,j) = some (name,v)) {o : Object} (h : o.get name = some j) :
    ((o.filterMap f).find? fun p => p.1 = name).map Prod.snd = some v := by
  induction o with
  | nil => cases h
  | cons p o ih =>
    obtain ⟨k,x⟩ := p
    by_cases hk : k = name
    · subst hk
      have hx : x = j := by simpa [Object.get] using h
      subst hx
      simp [hv]
    · have hrest : Object.get o name = some j := by simpa [Object.get,hk] using h
      cases he : f (k,x) with
      | none => simpa [he] using ih hrest
      | some e =>
        have hkey : e.1 ≠ name := fun hn => hk ((hf _ _ he).symm.trans hn)
        simpa [he,hkey] using ih hrest

theorem extensionOf_key (p : String × Json) (e : String × ExtValue) (h : extensionOf p = some e) :
    e.1 = p.1 := by
  unfold extensionOf at h
  repeat' split at h
  all_goals first | (cases h; done) | (cases h; rfl)

theorem find_extensions {name s : String} (hname : name ∉ attributes) {o : Object}
    (h : o.get name = some (.str s)) :
    ((o.filterMap extensionOf).find? fun p => p.1 = name).map Prod.snd = some (.str s) :=
  find_filterMap extensionOf_key (by simp [extensionOf,hname]) h

def eventOfJSON (o : Object) : Except String CloudEvent :=
  if text (o.get "id") = "" then .error "id: MUST be a non-empty string"
  else .ok
    { id := text (o.get "id")
      source := text (o.get "source")
      type := text (o.get "type")
      extensions := o.filterMap extensionOf
      data := o.get "data" }

def jsonOfExtension : ExtValue → Json
  | .str s => .str s
  | .uri s => .str s
  | .int n => .num n.toInt
  | .bool b => .bool b
  | .time t => .num t
  | .bytes _ => .null

def jsonOfEvent (evt : CloudEvent) : Except String Object :=
  let base : Object := evt.extensions.foldl (fun o p => o.set p.1 (jsonOfExtension p.2)) []
  let withData := match evt.data with
    | some data => (base.set "data" data).set "datacontenttype" (.str "application/json")
    | none => base
  .ok ((((withData.set "id" (.str evt.id)).set "source" (.str evt.source)).set
    "specversion" (.str "1.0")).set "type" (.str evt.type))

def setExtension (evt : CloudEvent) (name : String) (value : ExtValue) : CloudEvent :=
  { evt with extensions := (evt.extensions.filter fun p => p.1 ≠ name) ++ [(name,value)] }

def manifestBundle (evt : CloudEvent) : Except String ManifestBundle :=
  match (object evt.data).get "manifests" with
  | some (.arr manifests) => .ok { manifests := manifests.map marshal }
  | _ => .ok { manifests := [] }

def conditionOf (c : Json) : Condition :=
  let members := object (some c)
  { type := text (members.get "type")
    status := text (members.get "status")
    other := members.filter fun p => p.1 ≠ "type" ∧ p.1 ≠ "status" }

def manifestBundleStatus (evt : CloudEvent) : Except String ManifestBundleStatus :=
  match (object evt.data).get "conditions" with
  | some (.arr conditions) => .ok { conditions := conditions.map conditionOf }
  | _ => .ok { conditions := [] }

def actionOf (action : String) : EventAction :=
  if action = "create_request" then .createRequest
  else if action = "update_request" then .updateRequest
  else if action = "delete_request" then .deleteRequest
  else if action = "resync_request" then .resyncRequest
  else .other action

/-- `ParseCloudEventsType`: data type, subresource and action, separated by dots. -/
def parseCloudEventsType (type : String) : Except String CloudEventsType :=
  match ((type.toList.splitOn '.').map String.ofList).reverse with
  | action :: sub :: resource :: version :: group =>
    .ok ⟨".".intercalate (group.reverse ++ [version,resource]),sub,actionOf action⟩
  | _ => .error "unsupported cloudevents type"

def digits (cs : List Char) : Option ℕ :=
  if cs ≠ [] ∧ cs.all Char.isDigit then
    some (cs.foldl (fun n c => 10 * n + (c.toNat - 48)) 0)
  else none

/-- `bwmarrin/snowflake` with its default layout: 41 bits of milliseconds, 10 bits
of node and 12 bits of step. -/
def snowflake : Snowflake where
  parseString s := match digits s.toList with
    | some n => .ok (Int64.ofNat n)
    | none => .error "strconv.ParseInt: invalid syntax"
  time id := (id >>> 22) + 1288834974657
  node id := (id &&& 4190208) >>> 12
  step id := id &&& 4095

def metadataOf (o : Object) : Object := object (o.get "metadata")

def unstructured : Unstructured where
  getAPIVersion o := text (o.get "apiVersion")
  getKind o := text (o.get "kind")
  getName o := text ((metadataOf o).get "name")
  getNamespace o := text ((metadataOf o).get "namespace")
  getGenerateName o := text ((metadataOf o).get "generateName")
  getResourceVersion o := text ((metadataOf o).get "resourceVersion")
  getDeletionGracePeriodSeconds o := match (metadataOf o).get "deletionGracePeriodSeconds" with
    | some (.num q) => some (Int64.ofInt q.num)
    | _ => none
  getAnnotations _ := []
  getFinalizers _ := []
  getLabels _ := []

/-- The DNS checks: lower case alphanumeric characters, dashes and, in a
subdomain, dots. -/
def dnsCheck (extra : List Char) (msg name : String) : List String :=
  if name ≠ "" ∧ name.toList.all fun c => c.isLower ∨ c.isDigit ∨ c ∈ extra then [] else [msg]

def validators : Validators where
  validateNamespaceName := dnsCheck ['-'] "a lowercase RFC 1123 label must consist of lower case"
  isDNS1123Subdomain := dnsCheck ['-','.'] "a lowercase RFC 1123 subdomain must consist of lower case"
  isDNS1035Label := dnsCheck ['-'] "a DNS-1035 label must consist of lower case"
  validateAnnotations _ _ := []
  validateFinalizers _ _ := []
  validateLabels _ _ := []
  aggregate errs := ", ".intercalate (errs.map fun e => e.field ++ ": " ++ e.detail)

/-- The outside packages, with the JSON texts of the objects in `known`. -/
def external (known : List Object) : External where
  marshal := marshal
  unmarshalMap raw := match known.find? fun o => marshal (.obj o) = raw with
    | some o => .ok (some o)
    | none => .error "invalid character"
  sprint := marshal
  sprintType := typeName
  formatRFC3339 t := toString t
  sha256Hex _ := "e3b0c44298fc1c149afbf4c8996fb92427ae41e4649b934ca495991b7852b855"
  eventOfJSON := eventOfJSON
  jsonOfEvent := jsonOfEvent
  toString
    | some (.str s) => .ok s
    | some (.uri s) => .ok s
    | _ => .error "invalid CloudEvents value"
  toInteger
    | some (.int n) => .ok n
    | _ => .error "invalid CloudEvents value"
  toTime
    | .time t => .ok t
    | _ => .error "invalid CloudEvents value"
  sprintExtension
    | .str s => s
    | _ => ""
  setExtension := setExtension
  dataAsManifestBundle := manifestBundle
  dataAsManifestBundleStatus := manifestBundleStatus
  parseCloudEventsType := parseCloudEventsType
  decodeStatusResyncRequest _ := .ok []
  marshalWorkStatus _ := .ok ""
  marshalBundleStatus version sequenceID _ := .ok (marshal
    (.obj [("ObservedVersion",.num version.toInt),("SequenceID",.str sequenceID)]))
  isStatusConditionTrue conditions type :=
    conditions.any fun c => c.type = type ∧ c.status = "True"
  snowflake := snowflake
  unstructured := unstructured
  validators := validators

def configMap (name : String) : Object :=
  [("apiVersion",.str "v1"),("kind",.str "ConfigMap"),("metadata",.obj [("name",.str name)])]

def packages : External := external [configMap "web"]

/-- The event of a client that asks for an action on a resource with one manifest. -/
def specEvent (action src id name : String) (version : Int32) : CloudEvent where
  id := "spec"
  source := src
  type := "io.open-cluster-management.works.v1alpha1.manifestbundles.spec." ++ action
  extensions := [("clustername",.str "cluster"),("resourceid",.str id),
    ("resourceversion",.int version)]
  data := some (.obj [("manifests",.arr [.obj (configMap name)])])

/-- The payload that such an event without extensions is stored as. -/
def bundle (src name : String) : JSONMap :=
  some [("data",.obj [("manifests",.arr [.obj (configMap name)])]),
    ("datacontenttype",.str "application/json"),("id",.str "spec"),("source",.str src),
    ("specversion",.str "1.0"),
    ("type",.str "io.open-cluster-management.works.v1alpha1.manifestbundles.spec.create_request")]

/-- The status of an agent with one condition that is true. -/
def statusWith (condition sequenceID : String) : JSONMap :=
  some [("data",.obj [("conditions",
      .arr [.obj [("status",.str "True"),("type",.str condition)]])]),
    ("datacontenttype",.str "application/json"),("id",.str "status"),
    ("sequenceid",.str sequenceID),("source",.str "agent"),("specversion",.str "1.0"),
    ("type",.str "io.open-cluster-management.works.v1alpha1.manifestbundles.status.update_request")]

/-- The row of such a bundle. -/
def webRow : ResourceRow where
  id := "web"
  createdAt := 0
  updatedAt := 0
  version := 1
  source := "src"
  consumerName := "cluster"
  payload := bundle "src" "web"
  name := "web"

end Reference

end Maestro
