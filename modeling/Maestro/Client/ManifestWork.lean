import Maestro.Client.StoredForms
import Maestro.Data.Search

/-!
# Works of the REST API

The source client makes a work of a presented resource bundle. The parts of the work are
structs with JSON encodings of their own; here they are read from texts by functions of
outside packages, and a struct is kept as the JSON value that it was read from.
-/

namespace Maestro
open Concurrent Data

/-- `metav1.ObjectMeta`: the fields that are assigned, and the JSON members of the others. -/
structure ObjectMeta where
  resourceVersion : String := ""
  generation : Int64 := 0
  other : Object := []
deriving DecidableEq

/-- `workv1.ManifestWorkStatus`, with the manifests of its resource status. -/
structure ManifestWorkStatus where
  conditions : List Condition := []
  resourceStatus : Json := .null
deriving DecidableEq

/-- `workv1.ManifestWork`. A manifest is its raw JSON text. -/
structure ManifestWork where
  objectMeta : ObjectMeta
  manifests : List String
  deleteOption : Option Json
  manifestConfigs : List Json
  status : ManifestWorkStatus
deriving DecidableEq

/-- The JSON of works. -/
structure WorkPackages where
  /-- `MarshalJSON` of the `unstructured.Unstructured` of a map. -/
  marshal : JSONMap → Except String String
  unmarshalObjectMeta : String → Except String ObjectMeta
  unmarshalDeleteOption : String → Except String Json
  unmarshalManifestConfig : String → Except String Json
  unmarshalBundleStatus : String → Except String ManifestBundleStatus

section ToManifestWork

variable (ext : External) (works : WorkPackages)

def workDeleteOption (deleteOption : JSONMap) : Except String (Option Json) :=
  if deleteOption.len ≠ 0 then do
    let optionJson ← works.marshal deleteOption
    let option ← works.unmarshalDeleteOption optionJson
    return some option
  else
    return none

def workManifestConfig (manifestConfig : JSONMap) : Except String Json := do
  let configJson ← works.marshal manifestConfig
  works.unmarshalManifestConfig configJson

def workStatus (status : JSONMap) : Except String ManifestWorkStatus :=
  if status.len ≠ 0 then do
    let manifestStatus ← works.unmarshalBundleStatus (ext.marshal status.toJson.encoded)
    return ⟨manifestStatus.conditions,manifestStatus.resourceStatus⟩
  else
    return {}

/-- `ToManifestWork`. -/
def toManifestWork (rb : ResourceBundle) : Except String ManifestWork := do
  let metaJson ← works.marshal rb.metadata
  let objectMeta ← works.unmarshalObjectMeta metaJson
  let manifests ← rb.manifests.mapM works.marshal
  let deleteOption ← workDeleteOption works rb.deleteOption
  let manifestConfigs ← rb.manifestConfigs.mapM (workManifestConfig works)
  let status ← workStatus ext works rb.status
  return {
    objectMeta := { objectMeta with
      resourceVersion := toString rb.version.toInt
      generation := rb.version.toInt64 }
    manifests := manifests
    deleteOption := deleteOption
    manifestConfigs := manifestConfigs
    status := status }

end ToManifestWork

/-- The numbers in the data of an event are exact. -/
def ExactData (evt : CloudEvent) : Prop := ∀ d, evt.data = some d → d.Decoded

/-- The JSON value is an object, and every text of the object is read as the value. -/
def DecodesAs (ext : External) (read : String → Except String Json) (c : Json) : Prop :=
  ∃ o, c = .obj o ∧ (Json.obj o).Decoded ∧
    ∀ text, ext.unmarshalMap text = .ok (some o) → read text = .ok c

/-- Every text of the object is read as the metadata. -/
def EncodesMeta (ext : External) (works : WorkPackages) (o : Object) (m : ObjectMeta) : Prop :=
  ∀ text, ext.unmarshalMap text = .ok (some o) → works.unmarshalObjectMeta text = .ok m

/-- The JSON of the parts of a work: the texts of maps are read as the maps, decoding is the
inverse of encoding on the structs of a bundle with exact numbers, and a delete option and a
status have members. -/
structure WorkJSON (ext : External) (works : WorkPackages) : Prop where
  marshal : ∀ m : JSONMap, (∀ o, m = some o → (Json.obj o).Decoded) →
    ∃ text, works.marshal m = .ok text ∧ ext.unmarshalMap text = .ok m
  emptyMeta : ∀ text, ext.unmarshalMap text = .ok (some []) →
    works.unmarshalObjectMeta text = .ok {}
  nullMeta : ∀ text, ext.unmarshalMap text = .ok none → works.unmarshalObjectMeta text = .ok {}
  manifests : ∀ evt bundle, ExactData evt → ext.dataAsManifestBundle evt = .ok bundle →
    ∀ raw ∈ bundle.manifests, ∀ o, ext.unmarshalMap raw = .ok (some o) → (Json.obj o).Decoded
  manifestConfigs : ∀ evt bundle, ExactData evt → ext.dataAsManifestBundle evt = .ok bundle →
    ∀ c ∈ bundle.manifestConfigs, DecodesAs ext works.unmarshalManifestConfig c
  deleteOption : ∀ evt bundle c, ExactData evt → ext.dataAsManifestBundle evt = .ok bundle →
    bundle.deleteOption = some c → c ≠ .obj [] ∧ DecodesAs ext works.unmarshalDeleteOption c
  status : ∀ evt st version sequenceID, ExactData evt →
    ext.dataAsManifestBundleStatus evt = .ok st →
    ∃ o, ext.marshalBundleStatus version sequenceID st = .ok (ext.marshal (.obj o)) ∧
      o ≠ [] ∧ (Json.obj o).Decoded ∧
      ∀ text, ext.unmarshalMap text = .ok (some o) → works.unmarshalBundleStatus text = .ok st

section Parts

variable {ext : External} {works : WorkPackages}

theorem unmarshalAll_eq_ok {msg : String} {raws : List String} {ms : List JSONMap}
    (h : unmarshalAll ext msg raws = .ok ms) :
    List.Forall₂ (fun raw m => ext.unmarshalMap raw = .ok m) raws ms := by
  induction raws generalizing ms with
  | nil => cases h; exact .nil
  | cons raw raws ih =>
    unfold unmarshalAll at h
    repeat' split at h
    · cases h
    · cases h
    · next hm _ _ hms =>
      cases h
      exact .cons hm (ih hms)

/-- A map is read from the text that is made of it. -/
theorem WorkJSON.marshal_some (hjson : WorkJSON ext works) {o : Object}
    (h : (Json.obj o).Decoded) : ∃ text, works.marshal (some o) = .ok text ∧
      ext.unmarshalMap text = .ok (some o) :=
  hjson.marshal (some o) fun _ ho => Option.some.inj ho ▸ h

/-- The manifests, each with its JSON value. -/
theorem workManifests (hjson : WorkJSON ext works) {msg : String} {raws : List String}
    {ms : List JSONMap} (h : unmarshalAll ext msg raws = .ok ms)
    (hexact : ∀ raw ∈ raws, ∀ o, ext.unmarshalMap raw = .ok (some o) → (Json.obj o).Decoded) :
    ∃ texts, ms.mapM works.marshal = .ok texts ∧
      List.Forall₂ (fun raw text => ∃ m, ext.unmarshalMap raw = .ok m ∧
        ext.unmarshalMap text = .ok m) raws texts := by
  have hread := unmarshalAll_eq_ok h
  clear h
  induction hread with
  | nil => exact ⟨[],rfl,.nil⟩
  | cons hm _ ih =>
    obtain ⟨texts,htexts,hall⟩ := ih fun raw hraw => hexact raw (List.mem_cons_of_mem _ hraw)
    obtain ⟨text,htext,hback⟩ := hjson.marshal _ fun o ho =>
      hexact _ List.mem_cons_self o (ho ▸ hm)
    exact ⟨text :: texts,mapM_eq_ok.mpr (.cons htext (mapM_eq_ok.mp htexts)),.cons ⟨_,hm,hback⟩ hall⟩

theorem workManifestConfigs (hjson : WorkJSON ext works) (hobj : ObjectJSON ext) {msg : String}
    {configs : List Json} {ms : List JSONMap}
    (h : unmarshalAll ext msg (configs.map ext.marshal) = .ok ms)
    (hreads : ∀ c ∈ configs, DecodesAs ext works.unmarshalManifestConfig c) :
    ms.mapM (workManifestConfig works) = .ok configs := by
  have hread := unmarshalAll_eq_ok h
  rw [List.forall₂_map_left_iff] at hread
  refine mapM_eq_ok.mpr (forall₂_imp_of_mem hread fun c hc m hm => ?_).flip
  obtain ⟨o,rfl,hdec,htext⟩ := hreads c hc
  rw [hobj o hdec] at hm
  cases hm
  obtain ⟨text,hmarshal,hback⟩ := hjson.marshal_some hdec
  change workManifestConfig works (some o) = _
  rw [workManifestConfig,hmarshal]
  exact htext text hback

theorem workDeleteOption_eq (hjson : WorkJSON ext works) (hobj : ObjectJSON ext)
    {option : Option Json} {m : JSONMap}
    (h : decodeManifestBundle.decodeDeleteOption ext option = .ok m)
    (hreads : ∀ c, option = some c → c ≠ .obj [] ∧ DecodesAs ext works.unmarshalDeleteOption c) :
    workDeleteOption works m = .ok option := by
  cases option with
  | none => cases h; rfl
  | some c =>
    obtain ⟨hne,o,rfl,hdec,htext⟩ := hreads c rfl
    rw [decodeManifestBundle.decodeDeleteOption,hobj o hdec] at h
    cases h
    have hlen : JSONMap.len (some o) ≠ 0 := fun hz =>
      hne (congrArg Json.obj (List.length_eq_zero_iff.mp hz))
    obtain ⟨text,hmarshal,hback⟩ := hjson.marshal_some hdec
    rw [workDeleteOption,if_pos hlen,hmarshal]
    change (do let option ← works.unmarshalDeleteOption text; return some option) = _
    rw [htext text hback]
    rfl

/-- `metadata` is the extension of the event that a payload is read as. -/
structure ReadsWorkMeta (ext : External) : Prop where
  text : ∀ o evt s, ext.eventOfJSON o = .ok evt → o.get extensionWorkMeta = some (.str s) →
    evt.extension extensionWorkMeta = some (.str s)
  absent : ∀ o evt, ext.eventOfJSON o = .ok evt → o.get extensionWorkMeta = none →
    evt.extension extensionWorkMeta = none
  toString_str : ∀ s, ext.toString (some (.str s)) = .ok s
  null : ext.unmarshalMap (ext.marshal .null) = .ok none

/-- The payload has no metadata, or the JSON of this metadata. -/
def StoresMeta (ext : External) (works : WorkPackages) (payload : JSONMap) (m : ObjectMeta) : Prop :=
  match payload.get extensionWorkMeta with
  | some (.obj o) => (Json.obj o).Decoded ∧ EncodesMeta ext works o m
  | some .null | some .nilMap | none => m = {}
  | _ => False

/-- The metadata extension is the text of the metadata of the payload. -/
theorem ReadsWorkMeta.extension (hmeta : ReadsWorkMeta ext) {payload : JSONMap} {evt : CloudEvent}
    (h : jsonMapToCloudEvent ext payload = .ok evt) : evt.extension extensionWorkMeta =
      (payload.get extensionWorkMeta).map fun v => .str (ext.marshal v.encoded) := by
  obtain ⟨-,hread⟩ := jsonMapToCloudEvent_eq_ok.mp h
  unfold metadataAsText at hread
  cases hv : payload.get extensionWorkMeta with
  | none =>
    rw [hv] at hread
    refine hmeta.absent _ evt hread ?_
    rw [Object.get_encoded,show payload.entries.get extensionWorkMeta = none from hv]
    rfl
  | some v =>
    rw [hv] at hread
    refine hmeta.text _ evt _ hread ?_
    rw [Object.get_encoded,Object.get_set_self]
    rfl

theorem workObjectMeta (hjson : WorkJSON ext works) (hobj : ObjectJSON ext)
    (hmeta : ReadsWorkMeta ext) {payload metaData : JSONMap} {evt : CloudEvent} {m : ObjectMeta}
    (hevt : jsonMapToCloudEvent ext payload = .ok evt)
    (hdec : decodeManifestBundle.decodeMeta ext evt = .ok metaData)
    (hstored : StoresMeta ext works payload m) :
    ∃ text, works.marshal metaData = .ok text ∧ works.unmarshalObjectMeta text = .ok m := by
  have hread := hmeta.extension hevt
  -- null, as the text of a map that is nil
  have hnil : ∀ v : Json, v.encoded = .null → payload.get extensionWorkMeta = some v → m = {} →
      ∃ text, works.marshal metaData = .ok text ∧ works.unmarshalObjectMeta text = .ok m := by
    rintro v hv hget rfl
    rw [hget,Option.map_some,hv] at hread
    simp only [decodeManifestBundle.decodeMeta,hread,hmeta.toString_str,hmeta.null] at hdec
    cases hdec
    obtain ⟨text,hmarshal,hback⟩ := hjson.marshal none fun o ho => by cases ho
    exact ⟨text,hmarshal,hjson.nullMeta text hback⟩
  unfold StoresMeta at hstored
  split at hstored
  · next o hget =>
    rw [hget,Option.map_some,hstored.1.encoded_eq] at hread
    simp only [decodeManifestBundle.decodeMeta,hread,hmeta.toString_str,hobj o hstored.1] at hdec
    cases hdec
    obtain ⟨text,hmarshal,hback⟩ := hjson.marshal_some hstored.1
    exact ⟨text,hmarshal,hstored.2 text hback⟩
  · next hget => exact hnil _ rfl hget hstored
  · next hget => exact hnil _ rfl hget hstored
  · next hget =>
    subst hstored
    rw [hget,Option.map_none] at hread
    simp only [decodeManifestBundle.decodeMeta,hread] at hdec
    cases hdec
    obtain ⟨text,hmarshal,hback⟩ := hjson.marshal_some
      (show (Json.obj []).Decoded from ⟨trivial,List.Pairwise.nil⟩)
    exact ⟨text,hmarshal,hjson.emptyMeta text hback⟩
  · exact hstored.elim

end Parts

/-- What of an event its stored form keeps for the status: the version, and the data that the
status is read from. -/
structure KeepsStatus (ext : External) : Prop where
  version : ∀ evt o evt' n, ext.jsonOfEvent evt = .ok o → ext.eventOfJSON o.encoded = .ok evt' →
    ext.toInteger (evt.extension extensionResourceVersion) = .ok n →
    ext.toInteger (evt'.extension extensionResourceVersion) = .ok n
  data : ∀ evt evt', evt'.data = evt.data →
    ext.dataAsManifestBundleStatus evt' = ext.dataAsManifestBundleStatus evt

/-- The status was written by `HandleStatusUpdate`, for a message that `Codec.Decode` made of an
event with exact numbers. -/
def StatusOfMessage (ext : External) (sourceID : String) (status : JSONMap) : Prop :=
  ∃ evt message id written, ExactData evt ∧ decode ext sourceID evt = .ok message ∧
    (handleStatusUpdate ext message).Makes Answers (.updateResourceStatus id written) ∧
    status = written.scan

section Status

variable {ext : External} {works : WorkPackages}

theorem decode_eq_ok {sourceID : String} {evt : CloudEvent} {message : Resource}
    (h : decode ext sourceID evt = .ok message) :
    ext.toInteger (evt.extension extensionResourceVersion) = .ok message.version ∧
      cloudEventToJSONMap ext evt = .ok message.status := by
  unfold decode at h
  repeat' split at h
  all_goals first | (cases h; done) | (cases h; exact ⟨by assumption,by assumption⟩)

/-- The event that is read from the stored form of an event. -/
theorem KeepsStatus.stored (hkeeps : KeepsStatus ext) (hset : ExtensionSetters ext)
    (hjson : EventJSON ext) {evt evt' : CloudEvent} {status : JSONMap} {n : Int32}
    (hstore : cloudEventToJSONMap ext evt = .ok status)
    (hread : jsonMapToCloudEvent ext status = .ok evt') (hexact : ExactData evt)
    (hn : ext.toInteger (evt.extension extensionResourceVersion) = .ok n) :
    ext.toInteger (evt'.extension extensionResourceVersion) = .ok n ∧ evt'.data = evt.data := by
  have hstores := Stores.of_event hstore
  obtain ⟨-,o,hw,htext⟩ := hstores.text hjson
  obtain ⟨-,hevt⟩ := jsonMapToCloudEvent_eq_ok.mp hread
  rw [htext] at hevt
  have hdata : (storedEvent ext evt status).data = evt.data := by
    unfold storedEvent
    split
    · rfl
    · next v _ =>
      obtain ⟨extensions,he⟩ := hset.set_rest evt extensionWorkMeta (.str (ext.marshal v.encoded))
      rw [he]
  refine ⟨hkeeps.version _ o evt' n hw hevt ?_,?_⟩
  · rw [storedEvent_extension hset (by decide)]
    exact hn
  · rw [(hjson.read_back _ o evt' hw hevt).data (by rw [hdata]; exact hexact),hdata]

/-- The message, with the metadata of the spec, and what it was checked for. -/
theorem fillStatus_eq_ok {message found : Resource} {status : JSONMap} {deleted : Bool}
    (hset : ExtensionSetters ext) (h : fillStatus ext message found = .ok (status,deleted)) :
    ∃ evt evt' st, jsonMapToCloudEvent ext message.status = .ok evt ∧
      evt'.extension extensionResourceVersion = evt.extension extensionResourceVersion ∧
      evt'.data = evt.data ∧ cloudEventToJSONMap ext evt' = .ok status ∧
      ext.dataAsManifestBundleStatus evt' = .ok st := by
  obtain ⟨evt,evt',st,hevt,hfilled,hstatus,hst,-⟩ := fillStatus_ok h
  rcases hfilled with rfl | ⟨workMeta,rfl⟩
  · exact ⟨evt',evt',st,hevt,rfl,rfl,hstatus,hst⟩
  · obtain ⟨extensions,he⟩ := hset.set_rest evt extensionWorkMeta workMeta
    exact ⟨evt,_,st,hevt,hset.set_ne _ _ (by decide) _ _ (by decide),by rw [he],hstatus,hst⟩

/-- A status that is newer has a sequence ID. -/
theorem newerStatus_sequenceID {status current : JSONMap}
    (h : ResourceService.newerStatus ext status current = .ok true) :
    ∃ evt sequenceID, jsonMapToCloudEvent ext status = .ok evt ∧
      ext.toString (evt.extension extensionStatusUpdateSequenceID) = .ok sequenceID := by
  unfold ResourceService.newerStatus at h
  split at h
  · cases h
  · split at h
    · cases h
    · next sequenceID hseq =>
      unfold ResourceService.sequenceIDOf at hseq
      repeat' split at hseq
      · cases hseq
      · cases hseq
      · exact ⟨_,_,by assumption,by assumption⟩

/-- A status is only written when it was filled in for the message and is newer than a stored
one. -/
def WritesNewer (ext : External) (message : Resource) : Call → Prop
  | .updateResourceStatus _ status => ∃ found current,
      fillStatus ext message found = .ok (status,false) ∧
        ResourceService.newerStatus ext status current = .ok true
  | _ => True

/-- Which status `HandleStatusUpdate` writes. -/
theorem handleStatusUpdate_writes {message : Resource} {id : String} {written : JSONMap}
    (h : (handleStatusUpdate ext message).Makes Answers (.updateResourceStatus id written)) :
    ∃ found current, fillStatus ext message found = .ok (written,false) ∧
      ResourceService.newerStatus ext written current = .ok true := by
  have hcalls : (handleStatusUpdate ext message).Calls Answers (WritesNewer ext message)
      fun _ => True := by
    refine handleStatusUpdate_calls_filled (fun c hn => by cases c <;> trivial) ext message trivial
      trivial (fun found current status hfill haccepts => ?_) (fun _ _ => trivial) trivial
    refine ⟨found,current.status,hfill,?_⟩
    unfold ResourceService.acceptsStatus at haccepts
    split at haccepts
    · cases haccepts
    · exact haccepts
  exact h.of_calls hcalls

/-- A status that was written can be read, with its version, sequence ID and data. -/
theorem StatusOfMessage.read (hkeeps : KeepsStatus ext) (hset : ExtensionSetters ext)
    (hjson : EventJSON ext) {sourceID : String} {status : JSONMap}
    (h : StatusOfMessage ext sourceID status) : ∃ evt version sequenceID st,
      jsonMapToCloudEvent ext status = .ok evt ∧
      ext.toInteger (evt.extension extensionResourceVersion) = .ok version ∧
      ext.toString (evt.extension extensionStatusUpdateSequenceID) = .ok sequenceID ∧
      ExactData evt ∧ ext.dataAsManifestBundleStatus evt = .ok st := by
  obtain ⟨evt₀,message,id,written,hexact,hdecode,hmakes,rfl⟩ := h
  obtain ⟨found,current,hfill,hnewer⟩ := handleStatusUpdate_writes hmakes
  obtain ⟨hversion,hmessage⟩ := decode_eq_ok hdecode
  obtain ⟨evt₁,evt₂,st,hread,hv₂,hd₂,hwritten,hst⟩ := fillStatus_eq_ok hset hfill
  obtain ⟨evt,sequenceID,hevt,hseq⟩ := newerStatus_sequenceID hnewer
  obtain ⟨hv₁,hd₁⟩ := hkeeps.stored hset hjson hmessage hread hexact hversion
  have hexact₂ : ExactData evt₂ := by rw [ExactData,hd₂,hd₁]; exact hexact
  obtain ⟨hv,hd⟩ := hkeeps.stored hset hjson hwritten hevt hexact₂ (hv₂ ▸ hv₁)
  refine ⟨evt,_,sequenceID,st,?_,hv,hseq,by rw [ExactData,hd]; exact hexact₂,?_⟩
  · rw [jsonMapToCloudEvent_scan]
    exact hevt
  · rw [hkeeps.data evt₂ evt hd]
    exact hst

/-- The status of the work is that of the resource. -/
structure StatusShown (ext : External) (status : JSONMap) (shown : ManifestWorkStatus) : Prop where
  empty : status.len = 0 → shown = {}
  stored : status.len ≠ 0 → ∃ evt st, jsonMapToCloudEvent ext status = .ok evt ∧
    ext.dataAsManifestBundleStatus evt = .ok st ∧ shown = ⟨st.conditions,st.resourceStatus⟩

theorem workStatus_eq (hwork : WorkJSON ext works) (hobj : ObjectJSON ext)
    (hkeeps : KeepsStatus ext) (hset : ExtensionSetters ext) (hjson : EventJSON ext)
    {sourceID : String} {status : JSONMap}
    (h : status.len = 0 ∨ StatusOfMessage ext sourceID status) : ∃ presented shown,
      decodeBundleStatus ext status = .ok presented ∧
      workStatus ext works presented = .ok shown ∧ StatusShown ext status shown := by
  rcases h with hz | h
  · refine ⟨none,{},?_,rfl,fun _ => rfl,fun hne => absurd hz hne⟩
    rw [decodeBundleStatus,if_pos hz]
  · obtain ⟨evt,version,sequenceID,st,hevt,hversion,hseq,hexact,hst⟩ := h.read hkeeps hset hjson
    obtain ⟨hlen,-⟩ := jsonMapToCloudEvent_eq_ok.mp hevt
    obtain ⟨o,hmarshal,hne,hdec,htext⟩ := hwork.status evt st version sequenceID hexact hst
    have hback := hobj o hdec
    refine ⟨some o,⟨st.conditions,st.resourceStatus⟩,?_,?_,fun hz => absurd hz hlen,
      fun _ => ⟨evt,st,hevt,hst,rfl⟩⟩
    · simp only [decodeBundleStatus,if_neg hlen,hevt,hversion,hseq,hst,hmarshal,hback]
    · have hpos : JSONMap.len (some o) ≠ 0 := fun hz => hne (List.length_eq_zero_iff.mp hz)
      rw [workStatus,if_pos hpos,show (JSONMap.toJson (some o)).encoded = .obj o from hdec.encoded_eq,
        htext _ hback]
      rfl

end Status

section Assembly

variable {ext : External} {works : WorkPackages}

theorem presentResourceBundle_eq {r : Resource} {wrapper : ManifestBundleWrapper} {status : JSONMap}
    (hdec : decodeManifestBundle ext r.payload = .ok (some wrapper))
    (hstatus : decodeBundleStatus ext r.status = .ok status) :
    ∃ rb, presentResourceBundle ext r = .ok rb ∧ rb.version = r.version ∧
      rb.metadata = wrapper.metadata ∧ rb.manifests = wrapper.manifests ∧
      rb.manifestConfigs = wrapper.manifestConfigs ∧ rb.deleteOption = wrapper.deleteOption ∧
      rb.status = status := by
  unfold presentResourceBundle
  rw [hdec,hstatus]
  exact ⟨_,rfl,rfl,rfl,rfl,rfl,rfl,rfl⟩

theorem toManifestWork_eq {rb : ResourceBundle} {text : String} {m : ObjectMeta}
    {manifests : List String} {option : Option Json} {configs : List Json}
    {status : ManifestWorkStatus} (htext : works.marshal rb.metadata = .ok text)
    (hmeta : works.unmarshalObjectMeta text = .ok m)
    (hmanifests : rb.manifests.mapM works.marshal = .ok manifests)
    (hoption : workDeleteOption works rb.deleteOption = .ok option)
    (hconfigs : rb.manifestConfigs.mapM (workManifestConfig works) = .ok configs)
    (hstatus : workStatus ext works rb.status = .ok status) :
    toManifestWork ext works rb = .ok
      ⟨⟨toString rb.version.toInt,rb.version.toInt64,m.other⟩,manifests,option,configs,status⟩ := by
  unfold toManifestWork
  rw [htext]
  simp only [bind,Except.bind,hmeta,hmanifests,hoption,hconfigs,hstatus]
  rfl

end Assembly

/-- What is used of the packages outside: the JSON of events, objects and the parts of a work. -/
structure ReadsWorks (ext : External) (works : WorkPackages) : Prop where
  setters : ExtensionSetters ext
  events : EventJSON ext
  objects : ObjectJSON ext
  workMeta : ReadsWorkMeta ext
  status : KeepsStatus ext
  works : WorkJSON ext works

/-- The work of a resource that was read through REST; `m` is the metadata in its payload and
`bundle` the manifest bundle. -/
structure WorkShown (ext : External) (r : Resource) (m : ObjectMeta) (bundle : ManifestBundle)
    (work : ManifestWork) : Prop where
  generation : work.objectMeta.generation = r.version.toInt64
  objectMeta : work.objectMeta =
    { m with
      resourceVersion := work.objectMeta.resourceVersion
      generation := work.objectMeta.generation }
  manifests : List.Forall₂ (fun raw text => ∃ v, ext.unmarshalMap raw = .ok v ∧
    ext.unmarshalMap text = .ok v) bundle.manifests work.manifests
  manifestConfigs : work.manifestConfigs = bundle.manifestConfigs
  deleteOption : work.deleteOption = bundle.deleteOption
  status : StatusShown ext r.status work.status

/-- A work that is read through REST is the one that is stored. -/
theorem toManifestWork_of_stored (ext : External) (works : WorkPackages)
    (hreads : ReadsWorks ext works) (r : Resource) (m : ObjectMeta) (sourceID : String)
    (hvalid : validateManifestBundle ext r.payload = .ok ())
    (hexact : ∀ evt, jsonMapToCloudEvent ext r.payload = .ok evt → ExactData evt)
    (hmeta : StoresMeta ext works r.payload m)
    (hstatus : r.status.len = 0 ∨ StatusOfMessage ext sourceID r.status) :
    ∃ rb work evt bundle, presentResourceBundle ext r = .ok rb ∧
      toManifestWork ext works rb = .ok work ∧
      jsonMapToCloudEvent ext r.payload = .ok evt ∧
      ext.dataAsManifestBundle evt = .ok bundle ∧ WorkShown ext r m bundle work := by
  obtain ⟨hset,hjson,hobj,hwm,hkeeps,hwork⟩ := hreads
  obtain ⟨wrapper,hdec⟩ : ∃ wrapper, decodeManifestBundle ext r.payload = .ok (some wrapper) :=
    validateManifestBundle_decode hvalid
  obtain ⟨evt,bundle,metaData,option,manifests,configs,hevt,hm,hdata,hman,hconf,hopt,rfl⟩ :=
    decodeManifestBundle_eq_some hdec
  have hx := hexact evt hevt
  obtain ⟨text,htext,hmeta'⟩ := workObjectMeta hwork hobj hwm hevt hm hmeta
  obtain ⟨texts,htexts,hraws⟩ := workManifests hwork hman (hwork.manifests evt bundle hx hdata)
  have hconfigs := workManifestConfigs hwork hobj hconf (hwork.manifestConfigs evt bundle hx hdata)
  have hoption := workDeleteOption_eq hwork hobj hopt fun c =>
    hwork.deleteOption evt bundle c hx hdata
  obtain ⟨presented,shown,hpresented,hshown,hst⟩ :=
    workStatus_eq hwork hobj hkeeps hset hjson hstatus
  obtain ⟨rb,hrb,hversion,hmd,hms,hcs,hdo,hstat⟩ := presentResourceBundle_eq hdec hpresented
  dsimp only at hmd hms hcs hdo
  rw [← hmd] at htext
  rw [← hms] at htexts
  rw [← hcs] at hconfigs
  rw [← hdo] at hoption
  rw [← hstat] at hshown
  have hworkEq := toManifestWork_eq htext hmeta' htexts hoption hconfigs hshown
  refine ⟨rb,_,evt,bundle,hrb,hworkEq,hevt,hdata,?_⟩
  exact ⟨by rw [hversion],rfl,hraws,rfl,rfl,hst⟩

namespace Reference

def items : Option Json → List Json
  | some (.arr xs) => xs
  | _ => []

def isObject : Json → Bool
  | .obj _ => true
  | _ => false

def bundleOf (d : Object) : ManifestBundle where
  manifests := (items (d.get "manifests")).map JsonText.marshal
  manifestConfigs := (items (d.get "manifestConfigs")).filter isObject
  deleteOption := (d.get "deleteOption").filter fun c => isObject c ∧ c ≠ .obj []

/-- A condition, with all its members. -/
def conditionMembers : Json → Option Condition
  | .obj o => some ⟨text (Object.get o "type"),text (Object.get o "status"),o⟩
  | _ => none

def statusOf (d : Object) : ManifestBundleStatus where
  conditions := (items (d.get "conditions")).filterMap conditionMembers
  resourceStatus := (d.get "resourceStatus").getD .null

/-- The members of a `ResourceBundleStatus`. -/
def statusObject (version : Int32) (sequenceID : String) (st : ManifestBundleStatus) : Object :=
  [("ObservedVersion",.num version.toInt),("SequenceID",.str sequenceID),
    ("conditions",.arr (st.conditions.map fun c => .obj c.other)),
    ("resourceStatus",st.resourceStatus)]

/-- The packages with bundles and statuses as JSON has them. -/
def bundlePackages : External :=
  { wirePackages with
    dataAsManifestBundle := fun evt => .ok (bundleOf (object evt.data))
    dataAsManifestBundleStatus := fun evt => .ok (statusOf (object evt.data))
    marshalBundleStatus := fun version sequenceID st =>
      .ok (JsonText.marshal (.obj (statusObject version sequenceID st))) }

def metaOf (o : Object) : ObjectMeta where
  resourceVersion := text (o.get "resourceVersion")
  generation := match o.get "generation" with
    | some (.num q) => Int64.ofInt q.num
    | _ => 0
  other := o.filter fun p => p.1 ≠ "resourceVersion" ∧ p.1 ≠ "generation"

def workPackages : WorkPackages where
  marshal m := .ok (JsonText.marshal m.toJson.encoded)
  unmarshalObjectMeta raw := (JsonText.unmarshalMap raw).map fun m => metaOf m.entries
  unmarshalDeleteOption raw := (JsonText.unmarshalMap raw).map JSONMap.toJson
  unmarshalManifestConfig raw := (JsonText.unmarshalMap raw).map JSONMap.toJson
  unmarshalBundleStatus raw := (JsonText.unmarshalMap raw).map fun m => statusOf m.entries

theorem object_decoded {evt : CloudEvent} (h : ExactData evt) :
    (Json.obj (object evt.data)).Decoded := by
  cases hd : evt.data with
  | none => exact ⟨trivial,List.Pairwise.nil⟩
  | some d =>
    cases d with
    | obj o => exact h _ hd
    | _ => exact ⟨trivial,List.Pairwise.nil⟩

theorem items_decoded {d : Object} (h : (Json.obj d).Decoded) (key : String) :
    ∀ c ∈ items (d.get key), c.Decoded := by
  intro c hc
  cases hget : d.get key with
  | none => rw [hget] at hc; cases hc
  | some v =>
    rw [hget] at hc
    cases v with
    | arr xs => exact Json.DecodedList.mem (Json.DecodedFields.get h.1 hget) hc
    | _ => cases hc

theorem bundlePackages_sets : ExtensionSetters bundlePackages :=
  ⟨wirePackages_sets.set_self,wirePackages_sets.set_ne,wirePackages_sets.set_rest,
    wirePackages_sets.toString_str,wirePackages_sets.toInteger_int,wirePackages_sets.toTime_time⟩

theorem bundlePackages_json : EventJSON bundlePackages where
  write := wirePackages_json.write
  write_id := wirePackages_json.write_id
  write_data := wirePackages_json.write_data
  write_absent := wirePackages_json.write_absent
  write_text := wirePackages_json.write_text
  write_set := wirePackages_json.write_set
  read := wirePackages_json.read
  read_back evt o evt' hw hr := by
    have h := wirePackages_json.read_back evt o evt' hw hr
    exact ⟨h.data,h.absent,h.text,h.time⟩

theorem wireEvent_extensions {o : Object} {evt : CloudEvent} (h : wireEvent o = .ok evt) :
    evt.extensions = o.filterMap wireExtension := by
  unfold wireEvent at h
  split at h
  · cases h
  · cases h
    rfl

theorem bundlePackages_workMeta : ReadsWorkMeta bundlePackages where
  text o evt s h hs := by
    rw [CloudEvent.extension,wireEvent_extensions h]
    exact find_filterMap wireExtension_key (wireExtension_wireValue (v := .str s) (by decide) trivial) hs
  absent o evt h hs := by
    rw [CloudEvent.extension,wireEvent_extensions h]
    exact find_wireExtension_none hs
  toString_str _ := rfl
  null := rfl

theorem bundlePackages_status : KeepsStatus bundlePackages where
  version := by
    rintro evt o evt' n ⟨⟩ hr hn
    have hv : evt.extension extensionResourceVersion = some (.int n) := by
      change packages.toInteger _ = _ at hn
      cases hv : evt.extension extensionResourceVersion with
      | none => rw [hv] at hn; cases hn
      | some v =>
        rw [hv] at hn
        cases v <;> first | (cases hn; rfl) | cases hn
    have hget : evt'.extension extensionResourceVersion = some (.int n) := by
      rw [CloudEvent.extension,wireEvent_extensions hr]
      refine find_filterMap wireExtension_key
        (wireExtension_wireValue (v := .int n) (by decide) trivial) ?_
      rw [Object.get_encoded,wireObject_get evt (by decide),hv]
      rfl
    rw [hget]
    rfl
  data evt evt' h := by
    change Except.ok (statusOf (object evt'.data)) = Except.ok (statusOf (object evt.data))
    rw [h]

theorem conditions_read (xs : List Json) :
    ((xs.filterMap conditionMembers).map fun c => Json.obj c.other).filterMap conditionMembers =
      xs.filterMap conditionMembers := by
  induction xs with
  | nil => rfl
  | cons x xs ih =>
    cases x with
    | obj o => exact congrArg (List.cons _) ih
    | _ => exact ih

/-- A status is read from its members as it was. -/
theorem statusOf_statusObject (version : Int32) (sequenceID : String) (d : Object) :
    statusOf (statusObject version sequenceID (statusOf d)) = statusOf d := by
  have hread : ∀ st, statusOf (statusObject version sequenceID st) =
      ⟨(st.conditions.map fun c => Json.obj c.other).filterMap conditionMembers,
        st.resourceStatus⟩ := fun _ => rfl
  rw [hread,show (statusOf d).conditions = (items (d.get "conditions")).filterMap conditionMembers
    from rfl,conditions_read]
  rfl

theorem conditions_decoded {xs : List Json} (h : ∀ x ∈ xs, x.Decoded) :
    Json.DecodedList ((xs.filterMap conditionMembers).map fun c => Json.obj c.other) := by
  induction xs with
  | nil => trivial
  | cons x xs ih =>
    have hxs := ih fun x hx => h x (List.mem_cons_of_mem _ hx)
    cases x with
    | obj o => exact ⟨h _ List.mem_cons_self,hxs⟩
    | _ => exact hxs

theorem statusObject_decoded {d : Object} (h : (Json.obj d).Decoded) (version : Int32)
    (sequenceID : String) : (Json.obj (statusObject version sequenceID (statusOf d))).Decoded := by
  have hversion : (Json.num (version.toInt : ℚ)).Decoded := by
    refine ⟨by simp,?_⟩
    have hlt := version.toInt_lt
    have hge := version.le_toInt
    simp only [Rat.num_intCast]
    omega
  have hresource : (statusOf d).resourceStatus.Decoded := by
    change ((d.get "resourceStatus").getD .null).Decoded
    cases hget : d.get "resourceStatus" with
    | none => trivial
    | some v => exact Json.DecodedFields.get h.1 hget
  refine ⟨⟨hversion,trivial,?_,hresource,trivial⟩,?_⟩
  · exact conditions_decoded (items_decoded h "conditions")
  · exact (by decide :
      ["ObservedVersion","SequenceID","conditions","resourceStatus"].Pairwise (· < ·))

theorem unmarshalObject_eq {o : Object} {raw : String}
    (h : JsonText.unmarshalMap raw = .ok (some o)) :
    (JsonText.unmarshalMap raw).map JSONMap.toJson = .ok (.obj o) := by
  rw [h]
  rfl

theorem workPackages_json : WorkJSON bundlePackages workPackages where
  marshal m hm := by
    refine ⟨_,rfl,?_⟩
    cases m with
    | none => rfl
    | some o =>
      have hdec := hm o rfl
      rw [show (JSONMap.toJson (some o)).encoded = .obj o from hdec.encoded_eq]
      exact JsonText.unmarshalMap_marshal hdec
  emptyMeta raw h := by
    change (JsonText.unmarshalMap raw).map _ = _
    rw [show JsonText.unmarshalMap raw = _ from h]
    rfl
  nullMeta raw h := by
    change (JsonText.unmarshalMap raw).map _ = _
    rw [show JsonText.unmarshalMap raw = _ from h]
    rfl
  manifests := by
    rintro evt bundle hexact ⟨⟩ raw hraw o ho
    obtain ⟨v,hv,rfl⟩ := List.mem_map.mp hraw
    have hdec := items_decoded (object_decoded hexact) _ v hv
    exact JsonText.eq_obj_of_unmarshalMap hdec ho ▸ hdec
  manifestConfigs := by
    rintro evt bundle hexact ⟨⟩ c hc
    obtain ⟨hmem,hobj⟩ := List.mem_filter.mp hc
    have hdec := items_decoded (object_decoded hexact) _ c hmem
    cases c with
    | obj o => exact ⟨o,rfl,hdec,fun raw => unmarshalObject_eq⟩
    | _ => cases hobj
  deleteOption := by
    rintro evt bundle c hexact ⟨⟩ hc
    obtain ⟨hget,hobj⟩ := Option.filter_eq_some_iff.mp hc
    obtain ⟨hobj,hne⟩ := of_decide_eq_true hobj
    have hdec : c.Decoded := Json.DecodedFields.get (object_decoded hexact).1 hget
    cases c with
    | obj o => exact ⟨hne,o,rfl,hdec,fun raw => unmarshalObject_eq⟩
    | _ => cases hobj
  status := by
    rintro evt st version sequenceID hexact ⟨⟩
    refine ⟨_,rfl,List.cons_ne_nil _ _,
      statusObject_decoded (object_decoded hexact) version sequenceID,fun raw h => ?_⟩
    change (JsonText.unmarshalMap raw).map _ = _
    rw [show JsonText.unmarshalMap raw = _ from h]
    exact congrArg Except.ok (statusOf_statusObject version sequenceID _)

theorem bundlePackages_read : ReadsWorks bundlePackages workPackages :=
  ⟨bundlePackages_sets,bundlePackages_json,wirePackages_objects,bundlePackages_workMeta,
    bundlePackages_status,workPackages_json⟩

/-- A bundle with a configuration and a delete option. -/
def storedData : Json :=
  .obj [("deleteOption",.obj [("propagationPolicy",.str "Orphan")]),
    ("manifestConfigs",.arr [.obj [("resourceIdentifier",.obj [("name",.str "web"),
      ("resource",.str "configmaps")])]]),
    ("manifests",.arr [.obj (configMap "web")])]

def storedPayload : JSONMap :=
  some [("data",storedData),("datacontenttype",.str "application/json"),("id",.str "spec"),
    ("metadata",.obj orderedMetadata),("source",.str "src"),("specversion",.str "1.0"),
    ("type",.str "io.open-cluster-management.works.v1alpha1.manifestbundles.spec.create_request")]

/-- The message of an agent that has applied the bundle. -/
def statusMessage : CloudEvent where
  id := "status"
  source := "agent"
  type := "io.open-cluster-management.works.v1alpha1.manifestbundles.status.update_request"
  extensions := [("clustername",.str "cluster"),("originalsource",.str "maestro"),
    ("resourceid",.str "web"),("resourceversion",.int 1),("sequenceid",.str "1")]
  data := some (.obj [("conditions",.arr [.obj [("reason",.str "Applied"),("status",.str "True"),
    ("type",.str "Applied")]]),("resourceStatus",.arr [])])

def storedRow : ResourceRow := { webRow with payload := storedPayload }

def writesStatus : Call → Bool
  | .updateResourceStatus id status => decide (id = "web" ∧ status.len ≠ 0)
  | _ => false

theorem statusMessage_exact : ExactData statusMessage := by
  rintro d ⟨⟩
  refine ⟨⟨⟨⟨⟨trivial,trivial,trivial,trivial⟩,?_⟩,trivial⟩,trivial,trivial⟩,?_⟩ <;> decide

/-- The status that is written for the message. -/
theorem statusMessage_written : ∃ status, StatusOfMessage bundlePackages "maestro" status ∧
    status.len ≠ 0 := by
  have h : ((decode bundlePackages "maestro" statusMessage).toOption.any fun message =>
      (Prog.trace (exec 0) (Choice.counting fun _ => none)
        (handleStatusUpdate bundlePackages message) (State.single storedRow)).any
        writesStatus) = true := by
    decide +kernel
  obtain ⟨message,hdecode,hany⟩ := (Option.any_eq_true _ _).mp h
  obtain ⟨c,hc,hwrites⟩ := List.any_eq_true.mp hany
  cases c with
  | updateResourceStatus id status =>
    have hanswers : ∀ ch c s r s', exec 0 ch c s = some (r,s') → Answers c r :=
      fun _ _ _ _ _ h => exec_answers h
    have hmakes := Prog.makes_of_mem_trace hanswers hc
    refine ⟨status.scan,⟨statusMessage,message,id,status,statusMessage_exact,
      eq_ok_of_toOption hdecode,hmakes,rfl⟩,?_⟩
    rw [JSONMap.len_scan]
    exact (of_decide_eq_true hwrites).2
  | _ => cases hwrites

/-- The payload passes the checks, and its data are read as they are written. -/
theorem storedPayload_read :
    (validateManifestBundle bundlePackages storedPayload).toOption.isSome ∧
      (jsonMapToCloudEvent bundlePackages storedPayload).toOption.any
        fun evt => decide (evt.data = some storedData) := by
  decide +kernel

theorem storedPayload_valid : validateManifestBundle bundlePackages storedPayload = .ok () := by
  obtain ⟨u,hu⟩ := Option.isSome_iff_exists.mp storedPayload_read.1
  exact eq_ok_of_toOption hu

theorem storedData_decoded : storedData.Decoded := by
  refine ⟨⟨⟨⟨trivial,trivial⟩,?_⟩,⟨⟨⟨⟨⟨trivial,trivial,trivial⟩,?_⟩,trivial⟩,?_⟩,trivial⟩,
    ⟨⟨⟨trivial,trivial,⟨⟨trivial,trivial⟩,?_⟩,trivial⟩,?_⟩,trivial⟩,trivial⟩,?_⟩ <;> decide

theorem storedPayload_exact (evt : CloudEvent)
    (h : jsonMapToCloudEvent bundlePackages storedPayload = .ok evt) : ExactData evt := by
  have hdata := storedPayload_read.2
  rw [h] at hdata
  intro d hd
  rw [show evt.data = some storedData from of_decide_eq_true hdata] at hd
  cases hd
  exact storedData_decoded

end Reference

/-- The work of a bundle with metadata, a configuration, a delete option and a status. -/
theorem toManifestWork_of_stored_web : ∃ status rb work evt bundle, JSONMap.len status ≠ 0 ∧
    presentResourceBundle Reference.bundlePackages
      { id := "web", version := 1, consumerName := "cluster",
        payload := Reference.storedPayload, status := status } = .ok rb ∧
    toManifestWork Reference.bundlePackages Reference.workPackages rb = .ok work ∧
    jsonMapToCloudEvent Reference.bundlePackages Reference.storedPayload = .ok evt ∧
    Reference.bundlePackages.dataAsManifestBundle evt = .ok bundle ∧
    WorkShown Reference.bundlePackages
      { id := "web", version := 1, consumerName := "cluster",
        payload := Reference.storedPayload, status := status }
      (Reference.metaOf Reference.orderedMetadata) bundle work := by
  obtain ⟨status,hstatus,hlen⟩ := Reference.statusMessage_written
  have hmeta : StoresMeta Reference.bundlePackages Reference.workPackages Reference.storedPayload
      (Reference.metaOf Reference.orderedMetadata) := by
    refine ⟨Reference.orderedMetadata_decoded,fun raw h => ?_⟩
    change (JsonText.unmarshalMap raw).map _ = _
    rw [show JsonText.unmarshalMap raw = _ from h]
    rfl
  obtain ⟨rb,work,evt,bundle,h⟩ := toManifestWork_of_stored Reference.bundlePackages
    Reference.workPackages Reference.bundlePackages_read
    { id := "web", version := 1, consumerName := "cluster",
      payload := Reference.storedPayload, status := status }
    _ "maestro" Reference.storedPayload_valid Reference.storedPayload_exact hmeta (Or.inr hstatus)
  exact ⟨status,rb,work,evt,bundle,hlen,h⟩

end Maestro
