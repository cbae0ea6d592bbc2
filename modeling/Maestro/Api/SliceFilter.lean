import Maestro.Api.Consumer
import Maestro.Api.Presenters
import Maestro.Data.Text

/-!
# Projection of lists to some fields

`SliceFilter` looks at its argument by reflection. The values below are what it can tell apart:
structs with the JSON tags and the static types of their fields, slices, pointers and times; a
value of any other kind, a map among them, is plain. What reflection does not support on a value
is a panic.
-/

namespace Maestro
open Data

/-- The static type of a field. -/
inductive GoType
  | plain
  | time
  | slice
  | struct
  | pointer (elem : GoType)
deriving DecidableEq

structure GoField where
  name : String
  tag : String
  type : GoType
deriving DecidableEq

inductive GoValue
  | plain (v : Json)
  /-- `time.Time`, a struct without tags; `none` is the zero time. -/
  | time (t : Option Time)
  | nilPointer
  | pointer (v : GoValue)
  | slice (elems : List GoValue)
  | struct (name : String) (fields : List (GoField × GoValue))

namespace GoField

/-- The name in the tag, or `none` for a field that is not encoded. -/
def jsonName (f : GoField) : Option String :=
  if f.tag = "" ∨ f.tag = "-" then none else (Text.split ',' f.tag).head?

end GoField

namespace GoValue

/-- `reflect.Indirect`. -/
def indirect : GoValue → GoValue
  | pointer v => v
  | v => v

/-- Whether the kind of a value, or of what it points to, is `reflect.Struct`. -/
def isStruct (v : GoValue) : Bool :=
  match v.indirect with
  | time _ => true
  | struct _ _ => true
  | _ => false

def isSlice (v : GoValue) : Bool :=
  match v.indirect with
  | slice _ => true
  | _ => false

/-- `Value.FieldByName`. -/
def fieldByName (v : GoValue) (name : String) : Except CallFailure (Option GoValue) :=
  match v with
  | struct _ fields => .ok ((fields.find? fun f => f.1.name = name).map Prod.snd)
  | time _ => .ok none
  | _ => .error .panic

/-- `Value.String` of a field that may not be there. -/
def string : Option GoValue → String
  | none => "<invalid Value>"
  | some (plain (.str s)) => s
  | some _ => "<T Value>"

/-- `Value.Int` of a field that may not be there. -/
def int : Option GoValue → Except CallFailure Int32
  | some (plain (.num q)) => .ok (Int32.ofInt q.num)
  | _ => .error .panic

end GoValue

/-- A value in a projection. -/
inductive Projected
  | value (v : GoValue)
  | text (s : String)
  | object (fields : List (String × Projected))
  | array (elems : List (List (String × Projected)))

structure ProjectionList where
  kind : String
  page : Int32
  size : Int32
  total : Int32
  items : List (List (String × Projected))

/-- The matches of the pattern `(name\..*)` in a key. -/
def starMatches (name key : String) : List String :=
  ((key.toList.tails.find? fun rest => (name ++ ".").toList.isPrefixOf rest).map
    String.ofList).toList

def removeStar (ins : List String) (name : String) : List String :=
  ins.filter fun key => key ∉ ins.flatMap (starMatches name)

/-- A name below a path. -/
def prefixedName (path name : String) : String := if path = "" then name else path ++ "." ++ name

mutual
/-- `validate`, without its message: the names that are left over. -/
def validate (ins : List String) (path : String) : GoValue → Except CallFailure (List String)
  | .struct _ fields => validateFields ins path fields
  | .pointer (.struct _ fields) => validateFields ins path fields
  | .time _ => .ok ins
  | .pointer (.time _) => .ok ins
  | _ => .error .panic
/-- The loop over the fields. -/
def validateFields (ins : List String) (path : String) :
    List (GoField × GoValue) → Except CallFailure (List String)
  | [] => .ok ins
  | (f,v) :: fields =>
    match f.jsonName with
    | none => validateFields ins path fields
    | some name =>
      if v.isStruct then
        if f.type = .pointer .time then
          validateFields (ins.filter fun key => key ≠ name) path fields
        else if name ++ ".*" ∈ ins then
          validateFields (removeStar ins name) path fields
        else
          match validate ins name v with
          | .error err => .error err
          | .ok ins => validateFields ins path fields
      else if f.type = .slice then
        validateFields (removeStar ins name) path fields
      else
        validateFields (ins.filter fun key => key ≠ prefixedName path name) path fields
end

section StructToMap

variable (format : Option Time → String) (ins : List String)

mutual
/-- `structToMap`. -/
def structToMap (path : String) : GoValue → Except CallFailure (List (String × Projected))
  | .struct _ fields => fieldsToMap path fields
  | .pointer (.struct _ fields) => fieldsToMap path fields
  | .time _ => .ok []
  | .pointer (.time _) => .ok []
  | _ => .error .panic
def fieldsToMap (path : String) :
    List (GoField × GoValue) → Except CallFailure (List (String × Projected))
  | [] => .ok []
  | (f,v) :: fields =>
    match f.jsonName with
    | none => fieldsToMap path fields
    | some name => do
      let entry ← fieldToMap path name f.type v
      let rest ← fieldsToMap path fields
      return entry.toList.map (fun p => (name,p)) ++ rest
/-- What one field becomes. -/
def fieldToMap (path name : String) (type : GoType) : GoValue → Except CallFailure (Option Projected)
  | .time _ => .ok none
  | .pointer (.time t) =>
    if type = .pointer .time ∧ name ∈ ins then .ok (some (.text (format t))) else .ok none
  | .struct _ fields => do
    let subStruct ← fieldsToMap (prefixedName path name) fields
    return if subStruct.isEmpty then none else some (.object subStruct)
  | .pointer (.struct _ fields) => do
    let subStruct ← fieldsToMap (prefixedName path name) fields
    return if subStruct.isEmpty then none else some (.object subStruct)
  | .slice elems => do
    let result ← elemsToMap name elems
    return if result.isEmpty then none else some (.array result)
  | .pointer (.slice _) => .error .panic
  | v =>
    if prefixedName path name ∈ ins ∨ path ++ ".*" ∈ ins then .ok (some (.value v)) else .ok none
/-- The elements of a slice, up to the first one of which nothing is left. -/
def elemsToMap (name : String) :
    List GoValue → Except CallFailure (List (List (String × Projected)))
  | [] => .ok []
  | e :: elems => do
    let slice ← structToMap name e
    if slice.isEmpty then return []
    let result ← elemsToMap name elems
    return slice :: result
end

/-- `reflect.Type.Name`. -/
def GoValue.typeName : GoValue → String
  | .struct name _ => name
  | .time _ => "Time"
  | _ => ""

/-- `SliceFilter`. -/
def sliceFilter (fields2Store : List String) (model : GoValue) :
    Except CallFailure ProjectionList := do
  let kind ← model.indirect.fieldByName "Kind"
  let page ← GoValue.int (← model.indirect.fieldByName "Page")
  let size ← GoValue.int (← model.indirect.fieldByName "Size")
  let total ← GoValue.int (← model.indirect.fieldByName "Total")
  match ← model.indirect.fieldByName "Items" with
  | some (.slice []) => return ⟨GoValue.string kind,page,size,total,[]⟩
  | some (.slice (first :: items)) =>
    match ← validate fields2Store.dedup "" first with
    | [] =>
      let items ← (first :: items).mapM (structToMap format fields2Store "")
      return ⟨GoValue.string kind,page,size,total,items⟩
    | fields =>
      throw (.serviceError (Errors.validation ("The following field(s) doesn't exist in `" ++
        first.typeName ++ "`: " ++ ", ".intercalate fields)))
  | _ => throw .panic

end StructToMap

/-- A slice has no fields: whatever is asked for, the filter panics on it. -/
theorem sliceFilter_slice (format : Option Time → String) (fields : List String)
    (elems : List GoValue) : sliceFilter format fields (.slice elems) = .error .panic := rfl

/-! ### The encoding of values -/

/-- What `omitempty` leaves out. -/
def GoValue.isEmptyValue : GoValue → Bool
  | .plain .null | .plain .nilMap | .plain (.bool false) | .plain (.arr []) | .plain (.obj []) => true
  | .plain (.str s) => s = ""
  | .plain (.num q) => q = 0
  | .nilPointer => true
  | .slice [] => true
  | _ => false

section Encoding

variable (format : Option Time → String)

mutual
/-- The JSON value that a value is encoded as. -/
def GoValue.json : GoValue → Json
  | .plain v => v.encoded
  | .time t => .str (format t)
  | .nilPointer => .null
  | .pointer v => GoValue.json v
  | .slice elems => .arr (GoValue.jsonList elems)
  | .struct _ fields => .obj (GoValue.jsonFields fields)
def GoValue.jsonList : List GoValue → List Json
  | [] => []
  | e :: elems => GoValue.json e :: GoValue.jsonList elems
def GoValue.jsonFields : List (GoField × GoValue) → List (String × Json)
  | [] => []
  | (f,v) :: fields =>
    match f.jsonName with
    | none => GoValue.jsonFields fields
    | some name =>
      if v.isEmptyValue ∧ "omitempty" ∈ Text.split ',' f.tag then GoValue.jsonFields fields
      else (name,GoValue.json v) :: GoValue.jsonFields fields
end

mutual
def Projected.json : Projected → Json
  | .value v => v.json format
  | .text s => .str s
  | .object fields => .obj (Projected.jsonFields fields)
  | .array elems => .arr (Projected.jsonObjects elems)
def Projected.jsonFields : List (String × Projected) → List (String × Json)
  | [] => []
  | (name,p) :: fields => (name,Projected.json p) :: Projected.jsonFields fields
def Projected.jsonObjects : List (List (String × Projected)) → List Json
  | [] => []
  | fields :: elems => .obj (Projected.jsonFields fields) :: Projected.jsonObjects elems
end

end Encoding

/-! ### The items -/

def GoValue.ofOption : Option GoValue → GoValue
  | none => .nilPointer
  | some v => .pointer v

def GoValue.text (s : String) : GoValue := .plain (.str s)

def ConsumerBody.goValue (c : ConsumerBody) : GoValue :=
  .struct "Consumer"
    [(⟨"Id","id,omitempty",.pointer .plain⟩,.ofOption (c.id.map .text)),
      (⟨"Kind","kind,omitempty",.pointer .plain⟩,.ofOption (c.kind.map .text)),
      (⟨"Href","href,omitempty",.pointer .plain⟩,.ofOption (c.href.map .text)),
      (⟨"Name","name,omitempty",.pointer .plain⟩,.pointer (.text c.name)),
      (⟨"Labels","labels,omitempty",.pointer .plain⟩,.ofOption (c.labels.map fun labels =>
        .plain (.obj (labels.map fun p => (p.1,.str p.2))))),
      (⟨"CreatedAt","created_at,omitempty",.pointer .time⟩,.pointer (.time (some c.createdAt))),
      (⟨"UpdatedAt","updated_at,omitempty",.pointer .time⟩,.pointer (.time (some c.updatedAt)))]

def JSONMap.goValue (m : JSONMap) : GoValue := .plain m.toJson

def ResourceBundle.goValue (rb : ResourceBundle) : GoValue :=
  .struct "ResourceBundle"
    [(⟨"Id","id,omitempty",.pointer .plain⟩,.ofOption (rb.id.map .text)),
      (⟨"Kind","kind,omitempty",.pointer .plain⟩,.ofOption (rb.kind.map .text)),
      (⟨"Href","href,omitempty",.pointer .plain⟩,.ofOption (rb.href.map .text)),
      (⟨"Name","name,omitempty",.pointer .plain⟩,.pointer (.text rb.name)),
      (⟨"ConsumerName","consumer_name,omitempty",.pointer .plain⟩,.pointer (.text rb.consumerName)),
      (⟨"Version","version,omitempty",.pointer .plain⟩,.pointer (.plain (.num rb.version.toInt))),
      (⟨"CreatedAt","created_at,omitempty",.pointer .time⟩,.pointer (.time rb.createdAt)),
      (⟨"UpdatedAt","updated_at,omitempty",.pointer .time⟩,.pointer (.time rb.updatedAt)),
      (⟨"DeletedAt","deleted_at,omitempty",.pointer .time⟩,
        .ofOption (rb.deletedAt.map fun t => .time (some t))),
      (⟨"Metadata","metadata,omitempty",.plain⟩,rb.metadata.goValue),
      (⟨"Manifests","manifests,omitempty",.slice⟩,.slice (rb.manifests.map JSONMap.goValue)),
      (⟨"DeleteOption","delete_option,omitempty",.plain⟩,rb.deleteOption.goValue),
      (⟨"ManifestConfigs","manifest_configs,omitempty",.slice⟩,
        .slice (rb.manifestConfigs.map JSONMap.goValue)),
      (⟨"Status","status,omitempty",.plain⟩,rb.status.goValue)]

/-- A field of the encoding of a struct. -/
def GoValue.field (format : Option Time → String) (v : GoValue) (name : String) : Option Json :=
  match v with
  | .struct _ fields => (GoValue.jsonFields format fields).lookup name
  | _ => none

/-- The JSON fields of a struct. -/
def GoValue.jsonNames : GoValue → List String
  | .struct _ fields => fields.filterMap fun f => f.1.jsonName
  | _ => []

end Maestro
