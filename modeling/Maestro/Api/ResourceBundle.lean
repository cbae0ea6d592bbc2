import Maestro.Api.External

namespace Maestro

variable (ext : External)

/-- `fmt.Sprintf("%s", v)`. -/
def sprintfS : Json → String
  | .str s => s
  | v => ext.sprint v

/-- The copy of the map in which the metadata object is replaced by its JSON text. -/
def metadataAsText (jsonmap : JSONMap) : Object :=
  match jsonmap.get extensionWorkMeta with
  | some metadata =>
    jsonmap.entries.set extensionWorkMeta (.str (ext.marshal metadata.encoded))
  | none => jsonmap.entries

/-- `JSONMAPToCloudEvent`. `encoded` is what `json.Marshal` makes of nil maps. -/
def jsonMapToCloudEvent (jsonmap : JSONMap) : Except String CloudEvent :=
  if jsonmap.len = 0 then
    .error "failed to convert empty jsonmap to cloudevent"
  else
    match ext.eventOfJSON (metadataAsText ext jsonmap).encoded with
    | .error err => .error ("failed to unmarshal JSONMAP to cloudevent: " ++ err)
    | .ok evt => .ok evt

/-- The event of a map does not change when the map is stored. -/
theorem jsonMapToCloudEvent_scan (m : JSONMap) :
    jsonMapToCloudEvent ext m.scan = jsonMapToCloudEvent ext m := by
  have hget : m.scan.get extensionWorkMeta = (m.get extensionWorkMeta).map Json.encoded :=
    m.entries.get_encoded _
  have hentries : m.scan.entries = m.entries.encoded := rfl
  have htext : (metadataAsText ext m.scan).encoded = (metadataAsText ext m).encoded := by
    unfold metadataAsText
    rw [hget,hentries]
    cases m.get extensionWorkMeta <;>
      simp [Object.encoded_set,Object.encoded_encoded,Json.encoded_encoded]
  rw [jsonMapToCloudEvent,jsonMapToCloudEvent,JSONMap.len_scan,htext]

/-- `CloudEventToJSONMap`. -/
def cloudEventToJSONMap (evt : CloudEvent) : Except String JSONMap :=
  match ext.jsonOfEvent evt with
  | .error err => .error ("failed to marshal cloudevent to JSONMAP: " ++ err)
  | .ok res =>
    match res.get extensionWorkMeta with
    | none => .ok (some res)
    | some metadata =>
      match ext.unmarshalMap (sprintfS ext metadata) with
      | .error err => .error ("failed to unmarshal metadata extension to object: " ++ err)
      | .ok objectMeta => .ok (some (res.set extensionWorkMeta objectMeta.toJson))

variable {ext} in
/-- The map of an event is never nil. -/
theorem cloudEventToJSONMap_ne_none {evt : CloudEvent} : cloudEventToJSONMap ext evt ≠ .ok none := by
  unfold cloudEventToJSONMap
  repeat' split
  all_goals simp

/-- `ManifestBundleWrapper`. -/
structure ManifestBundleWrapper where
  metadata : JSONMap
  manifests : List JSONMap
  manifestConfigs : List JSONMap
  deleteOption : JSONMap
deriving DecidableEq

def unmarshalAll (msg : String) : List String → Except String (List JSONMap)
  | [] => .ok []
  | raw :: raws =>
    match ext.unmarshalMap raw with
    | .error err => .error (msg ++ err)
    | .ok m =>
      match unmarshalAll msg raws with
      | .error err => .error err
      | .ok ms => .ok (m :: ms)

/-- `DecodeManifestBundle`; the outer `none` is its nil result. -/
def decodeManifestBundle (manifestBundle : JSONMap) :
    Except String (Option ManifestBundleWrapper) :=
  if manifestBundle.len = 0 then
    .ok none
  else
    match jsonMapToCloudEvent ext manifestBundle with
    | .error err =>
      .error ("failed to convert resource manifest bundle to cloudevent: " ++ err)
    | .ok evt =>
      match decodeMeta evt with
      | .error err => .error err
      | .ok metaData =>
        match ext.dataAsManifestBundle evt with
        | .error err => .error ("failed to decode cloudevent payload: " ++ err)
        | .ok eventPayload =>
          match unmarshalAll ext "failed to unmarshal manifest raw: " eventPayload.manifests with
          | .error err => .error err
          | .ok manifests =>
            match unmarshalAll ext "failed to unmarshal manifest config: "
                (eventPayload.manifestConfigs.map ext.marshal) with
            | .error err => .error err
            | .ok manifestConfigs =>
              match decodeDeleteOption eventPayload.deleteOption with
              | .error err => .error err
              | .ok deleteOption => .ok (some ⟨metaData,manifests,manifestConfigs,deleteOption⟩)
where
  decodeMeta (evt : CloudEvent) : Except String JSONMap :=
    match evt.extension extensionWorkMeta with
    | none => .ok (some [])
    | some value =>
      match ext.toString (some value) with
      | .error err => .error ("failed to get work meta extension: " ++ err)
      | .ok metaJson =>
        match ext.unmarshalMap metaJson with
        | .error err => .error ("failed to unmarshal work meta extension: " ++ err)
        | .ok metaData => .ok metaData
  decodeDeleteOption : Option Json → Except String JSONMap
    | none => .ok (some [])
    | some option =>
      match ext.unmarshalMap (ext.marshal option) with
      | .error err => .error ("failed to unmarshal delete option: " ++ err)
      | .ok deleteOption => .ok deleteOption

/-- `DecodeBundleStatus`; an empty status gives a nil map. -/
def decodeBundleStatus (status : JSONMap) : Except String JSONMap :=
  if status.len = 0 then
    .ok none
  else
    match jsonMapToCloudEvent ext status with
    | .error err => .error ("failed to convert resource bundle status to cloudevent: " ++ err)
    | .ok evt =>
      match ext.toInteger (evt.extension extensionResourceVersion) with
      | .error err => .error ("failed to get resourceversion extension: " ++ err)
      | .ok resourceVersion =>
        match ext.toString (evt.extension extensionStatusUpdateSequenceID) with
        | .error err => .error ("failed to get sequenceid extension: " ++ err)
        | .ok sequenceID =>
          match ext.dataAsManifestBundleStatus evt with
          | .error err => .error ("failed to decode cloudevent payload: " ++ err)
          | .ok manifestBundleStatus =>
            match ext.marshalBundleStatus resourceVersion sequenceID manifestBundleStatus with
            | .error err => .error ("failed to marshal resource status: " ++ err)
            | .ok resourceBundleStatusJSON =>
              match ext.unmarshalMap resourceBundleStatusJSON with
              | .error err => .error ("failed to unmarshal resource status: " ++ err)
              | .ok resourceBundleStatusMap => .ok resourceBundleStatusMap

/-- `syncTimestampsFromResourceMeta`: the metadata object of the payload gets the
row's creation time, and its deletion time if there is one. -/
def syncTimestampsFromResourceMeta (resource : Resource) : Resource :=
  match resource.payload with
  | none => resource
  | some payload =>
    match Object.get payload "metadata" with
    | some (.obj workMeta) =>
      let created := Object.set workMeta "creationTimestamp"
        (.str ((resource.createdAt.map ext.formatRFC3339).getD "0001-01-01T00:00:00Z"))
      let deleted := match resource.deletedAt.time with
        | none => created
        | some t => created.set "deletionTimestamp" (.str (ext.formatRFC3339 t))
      { resource with payload := some (Object.set payload "metadata" (.obj deleted)) }
    | _ => resource

@[simp] theorem syncTimestamps_id (r : Resource) :
    (syncTimestampsFromResourceMeta ext r).id = r.id := by
  unfold syncTimestampsFromResourceMeta
  repeat' split
  all_goals rfl

@[simp] theorem syncTimestamps_deletedAt (r : Resource) :
    (syncTimestampsFromResourceMeta ext r).deletedAt = r.deletedAt := by
  unfold syncTimestampsFromResourceMeta
  repeat' split
  all_goals rfl

@[simp] theorem syncTimestamps_version (r : Resource) :
    (syncTimestampsFromResourceMeta ext r).version = r.version := by
  unfold syncTimestampsFromResourceMeta
  repeat' split
  all_goals rfl

@[simp] theorem syncTimestamps_status (r : Resource) :
    (syncTimestampsFromResourceMeta ext r).status = r.status := by
  unfold syncTimestampsFromResourceMeta
  repeat' split
  all_goals rfl

@[simp] theorem syncTimestamps_source (r : Resource) :
    (syncTimestampsFromResourceMeta ext r).source = r.source := by
  unfold syncTimestampsFromResourceMeta
  repeat' split
  all_goals rfl

end Maestro
