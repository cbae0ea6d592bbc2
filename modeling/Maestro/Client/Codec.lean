import Maestro.Api.Presenters
import Maestro.Api.Reference
import Maestro.Data.Search
import Maestro.Server.Operations

/-!
# The payloads that are accepted

A payload is checked once, when it is accepted, and read again by the codec that sends it to
the agent and by the presenter of the REST API. What the checks accept can be sent and
presented, unless the metadata of the event is the JSON text of null.
-/

namespace Maestro
open Concurrent Data

variable (ext : External)

/-- `resetPayloadMetadataNameWithResID`. -/
def resetPayloadMetadataNameWithResID (res : Resource) : Except String Resource :=
  match res.payload.get extensionWorkMeta with
  | none => .ok res
  | some (.obj metaObj) =>
    let renamed := Object.set metaObj "name" (.str res.id)
    .ok { res with payload := some (res.payload.entries.set extensionWorkMeta (.obj renamed)) }
  -- a panic; no payload that was read from the database has a nil map
  | some .nilMap => .error "assignment to entry in nil map"
  | some metadata => .error ("unsupported object type " ++ ext.sprintType metadata)

/-- `Codec.Encode`. The ID and the time are those that a deletion gives to the event. -/
def encode (source : String) (eventType : CloudEventsType) (uuid : String) (now : Time)
    (res : Resource) : Except String CloudEvent :=
  match resetPayloadMetadataNameWithResID ext res with
  | .error err => .error err
  | .ok res =>
    match jsonMapToCloudEvent ext res.payload with
    | .error err => .error ("failed to convert resource payload to cloudevent: " ++ err)
    | .ok evt =>
      let evt := { evt with source := source, type := eventType.text }
      let evt := ext.setExtension evt extensionResourceID (.str res.id)
      let evt := ext.setExtension evt extensionResourceVersion (.int res.version)
      let evt := ext.setExtension evt extensionClusterName (.str res.consumerName)
      match res.deletedAt.time with
      | none => .ok evt
      | some t =>
        .ok (ext.setExtension { evt with id := uuid, time := some now }
          extensionDeletionTimestamp (.time t))

def manifestBundleEventDataType : String :=
  "io.open-cluster-management.works.v1alpha1.manifestbundles"

/-- `Codec.Decode` of the codec with this source ID. -/
def decode (sourceID : String) (evt : CloudEvent) : Except String Resource :=
  match ext.parseCloudEventsType evt.type with
  | .error err => .error ("failed to parse cloud event type " ++ evt.type ++ ", " ++ err)
  | .ok eventType =>
    if eventType.dataType ≠ manifestBundleEventDataType then
      .error ("unsupported cloudevents data type " ++ eventType.dataType)
    else
      match ext.toString (evt.extension extensionResourceID) with
      | .error err => .error ("failed to get resourceid extension: " ++ err)
      | .ok resourceID =>
        match ext.toInteger (evt.extension extensionResourceVersion) with
        | .error err => .error ("failed to get resourceversion extension: " ++ err)
        | .ok resourceVersion =>
          match ext.toString (evt.extension extensionClusterName) with
          | .error err => .error ("failed to get clustername extension: " ++ err)
          | .ok clusterName =>
            match ext.toString (evt.extension extensionOriginalSource) with
            | .error err => .error ("failed to get originalsource extension: " ++ err)
            | .ok originalSource =>
              match cloudEventToJSONMap ext evt with
              | .error err =>
                .error ("failed to convert cloudevent to resource status: " ++ err)
              | .ok status =>
                if originalSource ≠ sourceID then
                  .error ("unmatched original source id " ++ originalSource ++
                    " for resource " ++ resourceID)
                else .ok
                  { id := resourceID
                    version := resourceVersion
                    consumerName := clusterName
                    status := status }

/-- The resource can be sent to its agent and shown by the API. -/
structure Deliverable (r : Resource) : Prop where
  encode : ∀ source eventType uuid now, ∃ evt, encode ext source eventType uuid now r = .ok evt
  decode : ∃ wrapper, decodeManifestBundle ext r.payload = .ok (some wrapper)
  present : ∃ rb, presentResourceBundle ext r = .ok rb

/-- The row can be delivered, as it is listed and as `Get` returns it. -/
def ResourceRow.Deliverable (row : ResourceRow) : Prop :=
  Maestro.Deliverable ext row.scan ∧
    Maestro.Deliverable ext (syncTimestampsFromResourceMeta ext row.scan)

/-- What is used of the JSON of objects and events: the text of an object is read as a map, and a
string under `metadata` is an extension that nothing else of the event depends on. -/
structure ReadsMetadata : Prop where
  object : ∀ m : Object, ∃ r, ext.unmarshalMap (ext.marshal (.obj m)) = .ok r
  toString_str : ∀ s, ext.toString (some (.str s)) = .ok s
  extension : ∀ (o : Object) (s s' : String) (evt : CloudEvent),
    ext.eventOfJSON (o.set extensionWorkMeta (.str s)) = .ok evt →
      ∃ evt', ext.eventOfJSON (o.set extensionWorkMeta (.str s')) = .ok evt' ∧
        evt'.extension extensionWorkMeta = some (.str s') ∧
        ext.dataAsManifestBundle evt' = ext.dataAsManifestBundle evt

/-- A payload that decodes, with an object as its metadata if it has any. -/
structure SoundPayload (payload : JSONMap) : Prop where
  decode : ∃ wrapper, decodeManifestBundle ext payload = .ok (some wrapper)
  metadata : ∀ v, payload.get extensionWorkMeta = some v → ∃ m, v = .obj m

section Payload

variable {ext}

theorem jsonMapToCloudEvent_eq_ok {payload : JSONMap} {evt : CloudEvent} :
    jsonMapToCloudEvent ext payload = .ok evt ↔
      payload.len ≠ 0 ∧ ext.eventOfJSON (metadataAsText ext payload).encoded = .ok evt := by
  unfold jsonMapToCloudEvent
  by_cases hlen : payload.len = 0
  · simp [hlen]
  · simp only [hlen,if_false,ne_eq,not_false_eq_true,true_and]
    split
    · next h => simp [h]
    · next h => simp [h]

/-- What a decoded bundle was decoded from. -/
theorem decodeManifestBundle_eq_some {payload : JSONMap} {wrapper : ManifestBundleWrapper}
    (h : decodeManifestBundle ext payload = .ok (some wrapper)) :
    ∃ evt bundle metaData deleteOption manifests manifestConfigs,
      jsonMapToCloudEvent ext payload = .ok evt ∧
      decodeManifestBundle.decodeMeta ext evt = .ok metaData ∧
      ext.dataAsManifestBundle evt = .ok bundle ∧
      unmarshalAll ext "failed to unmarshal manifest raw: " bundle.manifests = .ok manifests ∧
      unmarshalAll ext "failed to unmarshal manifest config: "
        (bundle.manifestConfigs.map ext.marshal) = .ok manifestConfigs ∧
      decodeManifestBundle.decodeDeleteOption ext bundle.deleteOption = .ok deleteOption ∧
      wrapper = ⟨metaData,manifests,manifestConfigs,deleteOption⟩ := by
  unfold decodeManifestBundle at h
  split at h
  · cases h
  · repeat' split at h
    all_goals first | (cases h; done) | (cases h; exact ⟨_,_,_,_,_,_,by assumption,by assumption,
      by assumption,by assumption,by assumption,by assumption,rfl⟩)

theorem JSONMap.len_ne_zero_of_get {m : JSONMap} {key : String} {v : Json}
    (h : m.get key = some v) : m.len ≠ 0 := by
  intro hlen
  have hnil : m.entries = [] := List.length_eq_zero_iff.mp hlen
  simp [JSONMap.get,hnil,Object.get] at h

theorem JSONMap.get_set_metadata (m : JSONMap) (v : Json) :
    JSONMap.get (some (m.entries.set extensionWorkMeta v)) extensionWorkMeta = some v :=
  Object.get_set_self m.entries extensionWorkMeta v

/-- Another object in the place of the metadata makes an event with the same data. -/
theorem jsonMapToCloudEvent_setMetadata (hext : ReadsMetadata ext) {payload : JSONMap} {v : Json}
    {evt : CloudEvent} (h : jsonMapToCloudEvent ext payload = .ok evt)
    (hv : payload.get extensionWorkMeta = some v) (m : Object) :
    ∃ evt', jsonMapToCloudEvent ext
        (some (payload.entries.set extensionWorkMeta (.obj m))) = .ok evt' ∧
      evt'.extension extensionWorkMeta = some (.str (ext.marshal (.obj m.encoded))) ∧
      ext.dataAsManifestBundle evt' = ext.dataAsManifestBundle evt := by
  obtain ⟨-,hread⟩ := jsonMapToCloudEvent_eq_ok.mp h
  simp only [metadataAsText,hv,Object.encoded_set,Json.encoded] at hread
  obtain ⟨evt',hread',hmeta,hdata⟩ :=
    hext.extension _ _ (ext.marshal (.obj m.encoded)) _ hread
  refine ⟨evt',jsonMapToCloudEvent_eq_ok.mpr ⟨?_,?_⟩,hmeta,hdata⟩
  · exact JSONMap.len_ne_zero_of_get (JSONMap.get_set_metadata payload (.obj m))
  · have htext : (metadataAsText ext
        (some (payload.entries.set extensionWorkMeta (.obj m)))).encoded =
        payload.entries.encoded.set extensionWorkMeta (.str (ext.marshal (.obj m.encoded))) := by
      unfold metadataAsText
      rw [JSONMap.get_set_metadata]
      simp only [Json.encoded_obj]
      simp only [JSONMap.entries,Option.getD_some,Object.set_set,Object.encoded_set,Json.encoded]
    rw [htext]
    exact hread'

namespace SoundPayload

theorem event {payload : JSONMap} (h : SoundPayload ext payload) :
    ∃ evt, jsonMapToCloudEvent ext payload = .ok evt := by
  obtain ⟨wrapper,hdec⟩ := h.decode
  obtain ⟨evt,_,_,_,_,_,hevt,-⟩ := decodeManifestBundle_eq_some hdec
  exact ⟨evt,hevt⟩

theorem setMetadata (hext : ReadsMetadata ext) {payload : JSONMap} (h : SoundPayload ext payload)
    {v : Json} (hv : payload.get extensionWorkMeta = some v) (m : Object) :
    SoundPayload ext (some (payload.entries.set extensionWorkMeta (.obj m))) := by
  obtain ⟨wrapper,hdec⟩ := h.decode
  obtain ⟨evt,bundle,_,deleteOption,manifests,configs,hevt,-,hdata,hman,hconf,hopt,-⟩ :=
    decodeManifestBundle_eq_some hdec
  obtain ⟨evt',hevt',hmeta,hdata'⟩ := jsonMapToCloudEvent_setMetadata hext hevt hv m
  obtain ⟨metaData,hread⟩ := hext.object m.encoded
  refine ⟨⟨⟨metaData,manifests,configs,deleteOption⟩,?_⟩,fun w hw => ?_⟩
  · have hlen := JSONMap.len_ne_zero_of_get (JSONMap.get_set_metadata payload (.obj m))
    simp only [decodeManifestBundle,hlen,if_false,hevt',decodeManifestBundle.decodeMeta,hmeta,
      hext.toString_str,hread,hdata',hdata,hman,hconf,hopt]
  · rw [JSONMap.get_set_metadata] at hw
    exact ⟨m,(Option.some.inj hw).symm⟩

/-- Storing a payload keeps it sound. -/
theorem scan {payload : JSONMap} (h : SoundPayload ext payload) :
    SoundPayload ext payload.scan := by
  refine ⟨?_,fun v hv => ?_⟩
  · obtain ⟨wrapper,hdec⟩ := h.decode
    refine ⟨wrapper,?_⟩
    rw [← hdec,decodeManifestBundle,decodeManifestBundle,JSONMap.len_scan,
      jsonMapToCloudEvent_scan]
  · obtain ⟨w,hw,rfl⟩ := Option.map_eq_some_iff.mp
      ((payload.entries.get_encoded extensionWorkMeta).symm.trans hv)
    obtain ⟨m,rfl⟩ := h.metadata w hw
    exact ⟨Object.encoded m,rfl⟩

theorem syncTimestamps (hext : ReadsMetadata ext) {r : Resource} (h : SoundPayload ext r.payload) :
    SoundPayload ext (syncTimestampsFromResourceMeta ext r).payload := by
  unfold syncTimestampsFromResourceMeta
  split
  · exact h
  · next o ho =>
    split
    · next m hm =>
      rw [ho] at h
      exact h.setMetadata hext hm _
    · exact h

theorem encode (hext : ReadsMetadata ext) {r : Resource} (h : SoundPayload ext r.payload)
    (source : String) (eventType : CloudEventsType) (uuid : String) (now : Time) :
    ∃ evt, Maestro.encode ext source eventType uuid now r = .ok evt := by
  have hreset : ∃ r', resetPayloadMetadataNameWithResID ext r = .ok r' ∧
      SoundPayload ext r'.payload := by
    unfold resetPayloadMetadataNameWithResID
    cases hv : r.payload.get extensionWorkMeta with
    | none => exact ⟨r,rfl,h⟩
    | some v =>
      obtain ⟨m,rfl⟩ := h.metadata v hv
      exact ⟨_,rfl,h.setMetadata hext hv _⟩
  obtain ⟨r',hr',hsound⟩ := hreset
  obtain ⟨evt,hevt⟩ := hsound.event
  simp only [Maestro.encode,hr',hevt]
  split <;> exact ⟨_,rfl⟩

theorem deliverable (hext : ReadsMetadata ext) {r : Resource} (h : SoundPayload ext r.payload)
    {m : JSONMap} (hstatus : decodeBundleStatus ext r.status = .ok m) : Deliverable ext r := by
  obtain ⟨wrapper,hdec⟩ := h.decode
  refine ⟨h.encode hext,⟨wrapper,hdec⟩,?_⟩
  simp only [presentResourceBundle,hdec,hstatus]
  exact ⟨_,rfl⟩

theorem row (hext : ReadsMetadata ext) {row : ResourceRow} (h : SoundPayload ext row.payload)
    {m : JSONMap} (hstatus : decodeBundleStatus ext row.status.scan = .ok m) :
    row.Deliverable ext := by
  have hscan : SoundPayload ext row.scan.payload := h.scan
  have hsame : decodeBundleStatus ext (syncTimestampsFromResourceMeta ext row.scan).status = .ok m :=
    (congrArg (decodeBundleStatus ext) (syncTimestamps_status ext row.scan)).trans hstatus
  exact ⟨hscan.deliverable hext hstatus,(hscan.syncTimestamps hext).deliverable hext hsame⟩

end SoundPayload

/-- The metadata of a decoded payload is a map, or nil. -/
theorem decodeResourceSpec_metadata {evt : CloudEvent} {res : Resource}
    (h : decodeResourceSpec ext evt = .ok res) {v : Json}
    (hv : res.payload.get extensionWorkMeta = some v) : v = .nilMap ∨ ∃ m, v = .obj m := by
  have hpayload := decodeResourceSpec_payload h
  unfold cloudEventToJSONMap at hpayload
  split at hpayload
  · cases hpayload
  · next o _ =>
    cases hget : o.get extensionWorkMeta with
    | none =>
      simp only [hget] at hpayload
      rw [← Except.ok.inj hpayload] at hv
      cases hget.symm.trans hv
    | some metadata =>
      simp only [hget] at hpayload
      split at hpayload
      · cases hpayload
      · next objectMeta _ =>
        rw [← Except.ok.inj hpayload] at hv
        have hmap := (o.get_set_self extensionWorkMeta objectMeta.toJson).symm.trans hv
        cases objectMeta with
        | none => exact Or.inl (Option.some.inj hmap).symm
        | some m => exact Or.inr ⟨m,(Option.some.inj hmap).symm⟩

theorem validateManifestBundle_decode {payload : JSONMap}
    (h : validateManifestBundle ext payload = .ok ()) :
    ∃ wrapper, decodeManifestBundle ext payload = .ok (some wrapper) := by
  unfold validateManifestBundle at h
  split at h
  · cases h
  · cases h
  · next wrapper hdec => exact ⟨wrapper,hdec⟩

end Payload

namespace Reference

/-- A reader that knows the text of null, and that takes any other text of an object that is not
listed for an empty map. -/
def readMap (known : List Object) (raw : String) : Except String JSONMap :=
  if raw = "null" then .ok none
  else match known.find? fun o => marshal (.obj o) = raw with
    | some o => .ok (some o)
    | none =>
      if raw.toList.head? = some '\x7b' then .ok (some []) else .error "invalid character"

def metadataPackages : External :=
  { packages with unmarshalMap := readMap [configMap "web",[("name",.str "work")]] }

theorem readMap_marshal (known : List Object) (m : Object) :
    ∃ r, readMap known (marshal (.obj m)) = .ok r := by
  have hhead : (marshal (.obj m)).toList.head? = some '\x7b' := by
    simp [marshal,String.toList_append]
  have hnull : marshal (.obj m) ≠ "null" := by
    intro he
    rw [he] at hhead
    cases hhead
  unfold readMap
  rw [if_neg hnull]
  split
  · exact ⟨_,rfl⟩
  · exact ⟨_,if_pos hhead⟩

theorem metadataPackages_reads : ReadsMetadata metadataPackages := by
  refine ⟨readMap_marshal _,fun s => rfl,fun o s s' evt h => ?_⟩
  have hid : ∀ t : String, (o.set extensionWorkMeta (.str t)).get "id" = o.get "id" :=
    fun t => o.get_set_ne (by decide) _
  have hdata : ∀ t : String, (o.set extensionWorkMeta (.str t)).get "data" = o.get "data" :=
    fun t => o.get_set_ne (by decide) _
  change eventOfJSON _ = _ at h
  unfold eventOfJSON at h
  rw [hid,hdata] at h
  split at h
  · cases h
  · next hne =>
    refine ⟨_,(show eventOfJSON _ = _ by unfold eventOfJSON; rw [hid,if_neg hne]),?_,?_⟩
    · exact find_extensions (by decide) (o.get_set_self _ _)
    · rw [← Except.ok.inj h]
      change manifestBundle _ = manifestBundle _
      simp only [manifestBundle,hdata]

/-- A create request with a metadata extension. -/
def metadataEvent (metadata : String) : CloudEvent :=
  let evt := specEvent "create_request" "src" "web" "web" 0
  { evt with extensions := evt.extensions ++ [(extensionWorkMeta,.str metadata)] }

end Reference

end Maestro
