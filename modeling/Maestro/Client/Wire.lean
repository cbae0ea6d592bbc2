import Maestro.Api.JsonText
import Maestro.Client.Codec
import Maestro.Server.Versions

/-!
# Specs on the wire

The payload of a row is the event of a client with its metadata read as an object, and the
codec makes an event of it again. The event is read back from JSON on the way; what is
used of the outside packages is that JSON texts of events and of objects are read as what
was written, and that extensions are set as documented.
-/

namespace Maestro
open Concurrent Data

/-- The extensions that the codec and the publisher read or set. -/
def wireExtensions : List String :=
  [extensionWorkMeta,extensionResourceID,extensionResourceVersion,extensionClusterName,
    extensionDeletionTimestamp]

/-- The attributes that an event must have. -/
structure CloudEvent.Valid (evt : CloudEvent) : Prop where
  id : evt.id ≠ ""
  source : evt.source ≠ ""
  type : evt.type ≠ ""

/-- `SetExtension` and the conversions of extension values. -/
structure ExtensionSetters (ext : External) : Prop where
  set_self : ∀ evt, ∀ name ∈ wireExtensions, ∀ v,
    (ext.setExtension evt name v).extension name = some v
  set_ne : ∀ evt, ∀ name ∈ wireExtensions, ∀ v other, other ≠ name →
    (ext.setExtension evt name v).extension other = evt.extension other
  set_rest : ∀ evt name v, ∃ extensions,
    ext.setExtension evt name v = { evt with extensions := extensions }
  toString_str : ∀ s, ext.toString (some (.str s)) = .ok s
  toInteger_int : ∀ n, ext.toInteger (some (.int n)) = .ok n
  toTime_time : ∀ t, ext.toTime (.time t) = .ok t

/-- `evt'` is `evt` as it is read from its JSON. Values that JSON has no type for come
back as their texts. -/
structure ReadBack (ext : External) (evt evt' : CloudEvent) : Prop where
  data : (∀ d, evt.data = some d → d.Decoded) → evt'.data = evt.data
  absent : ∀ name ∈ wireExtensions, evt.extension name = none → evt'.extension name = none
  text : ∀ name ∈ wireExtensions, ∀ s, evt.extension name = some (.str s) →
    evt'.extension name = some (.str s)
  time : ∀ name ∈ wireExtensions, ∀ v t, evt.extension name = some v → ext.toTime v = .ok t →
    ∃ v', evt'.extension name = some v' ∧ ext.toTime v' = .ok t

/-- The JSON of events: the writer makes one member of each attribute and each extension,
and the reader is its inverse on valid events. -/
structure EventJSON (ext : External) : Prop where
  write : ∀ evt, ∃ o, ext.jsonOfEvent evt = .ok o
  write_id : ∀ evt o, ext.jsonOfEvent evt = .ok o → o.get "id" = some (.str evt.id)
  write_data : ∀ evt o, ext.jsonOfEvent evt = .ok o → o.get "data" = evt.data
  write_absent : ∀ evt o, ext.jsonOfEvent evt = .ok o →
    (o.get extensionWorkMeta = none ↔ evt.extension extensionWorkMeta = none)
  write_text : ∀ evt o s, ext.jsonOfEvent evt = .ok o →
    evt.extension extensionWorkMeta = some (.str s) → o.get extensionWorkMeta = some (.str s)
  write_set : ∀ evt o s, ext.jsonOfEvent evt = .ok o →
    ext.jsonOfEvent (ext.setExtension evt extensionWorkMeta (.str s)) =
      .ok (o.set extensionWorkMeta (.str s))
  read : ∀ evt o, evt.Valid → ext.jsonOfEvent evt = .ok o →
    ∃ evt', ext.eventOfJSON o.encoded = .ok evt'
  read_back : ∀ evt o evt', ext.jsonOfEvent evt = .ok o →
    ext.eventOfJSON o.encoded = .ok evt' → ReadBack ext evt evt'

/-- The JSON of objects with exact numbers. -/
def ObjectJSON (ext : External) : Prop :=
  ∀ m : Object, (Json.obj m).Decoded → ext.unmarshalMap (ext.marshal (.obj m)) = .ok (some m)

/-- The map of an event with a metadata of its own, if any. -/
def withMetadata (o : Object) : Option Json → Object
  | none => o
  | some v => o.set extensionWorkMeta v

/-- The payload is the map of the event with some value in the place of its metadata. -/
def Stores (ext : External) (evt : CloudEvent) (payload : JSONMap) : Prop :=
  ∃ o, ext.jsonOfEvent evt = .ok o ∧
    ((payload.get extensionWorkMeta).isSome = (o.get extensionWorkMeta).isSome) ∧
    payload.entries.encoded = (withMetadata o (payload.get extensionWorkMeta)).encoded

/-- The event that a payload is the JSON of. -/
def storedEvent (ext : External) (evt : CloudEvent) (payload : JSONMap) : CloudEvent :=
  match payload.get extensionWorkMeta with
  | none => evt
  | some v => ext.setExtension evt extensionWorkMeta (.str (ext.marshal v.encoded))

section Stores

variable {ext : External} {evt : CloudEvent} {payload : JSONMap}

theorem Stores.of_event (h : cloudEventToJSONMap ext evt = .ok payload) :
    Stores ext evt payload := by
  unfold cloudEventToJSONMap at h
  split at h
  · cases h
  · next o hw =>
    split at h
    · next hm =>
      cases h
      have hget : JSONMap.get (some o) extensionWorkMeta = none := hm
      exact ⟨o,hw,by rw [hget,hm],by rw [hget]; rfl⟩
    · next v hm =>
      split at h
      · cases h
      · next m _ =>
        cases h
        have hget : JSONMap.get (some (o.set extensionWorkMeta m.toJson)) extensionWorkMeta =
            some m.toJson := o.get_set_self _ _
        exact ⟨o,hw,by rw [hget,hm]; rfl,by rw [hget]; rfl⟩

theorem Stores.scan (h : Stores ext evt payload) : Stores ext evt payload.scan := by
  obtain ⟨o,hw,hm,hp⟩ := h
  have hget : payload.scan.get extensionWorkMeta =
      (payload.get extensionWorkMeta).map Json.encoded := payload.entries.get_encoded _
  refine ⟨o,hw,by rw [hget,Option.isSome_map,hm],?_⟩
  change payload.entries.encoded.encoded = _
  rw [Object.encoded_encoded,hp,hget]
  cases payload.get extensionWorkMeta with
  | none => rfl
  | some v =>
    simp only [withMetadata,Option.map_some,Object.encoded_set,Json.encoded_encoded]

/-- Another value in the place of the metadata. -/
theorem Stores.setMetadata (h : Stores ext evt payload) {v : Json}
    (hv : payload.get extensionWorkMeta = some v) (w : Json) :
    Stores ext evt (some (payload.entries.set extensionWorkMeta w)) := by
  obtain ⟨o,hw,hm,hp⟩ := h
  rw [hv] at hm hp
  refine ⟨o,hw,by rw [JSONMap.get_set_metadata,← hm]; rfl,?_⟩
  rw [JSONMap.get_set_metadata]
  change (payload.entries.set extensionWorkMeta w).encoded = _
  simp only [Object.encoded_set,hp,withMetadata,Object.set_set]

theorem Stores.syncTimestamps {r : Resource} (h : Stores ext evt r.payload) :
    Stores ext evt (syncTimestampsFromResourceMeta ext r).payload := by
  unfold syncTimestampsFromResourceMeta
  split
  · exact h
  · next o ho =>
    split
    · next m hm =>
      rw [ho] at h
      exact h.setMetadata hm _
    · exact h

theorem Stores.text (hjson : EventJSON ext) (h : Stores ext evt payload) :
    payload.len ≠ 0 ∧ ∃ o, ext.jsonOfEvent (storedEvent ext evt payload) = .ok o ∧
      (metadataAsText ext payload).encoded = o.encoded := by
  obtain ⟨o,hw,hm,hp⟩ := h
  unfold storedEvent metadataAsText
  cases hv : payload.get extensionWorkMeta with
  | none =>
    rw [hv] at hp
    refine ⟨?_,o,hw,hp⟩
    have hid : (payload.entries.encoded).get "id" = some (.str evt.id) := by
      rw [hp]
      change o.encoded.get "id" = _
      rw [Object.get_encoded,hjson.write_id evt o hw]
      rfl
    exact payload.len_scan ▸ JSONMap.len_ne_zero_of_get (m := payload.scan) hid
  | some v =>
    rw [hv] at hp
    refine ⟨JSONMap.len_ne_zero_of_get hv,_,hjson.write_set evt o _ hw,?_⟩
    simp only [Object.encoded_set,hp,withMetadata,Object.set_set]

theorem Stores.read_back (hjson : EventJSON ext) (h : Stores ext evt payload) {evt' : CloudEvent}
    (hr : jsonMapToCloudEvent ext payload = .ok evt') :
    ReadBack ext (storedEvent ext evt payload) evt' := by
  obtain ⟨-,o,hw,htext⟩ := h.text hjson
  obtain ⟨-,hread⟩ := jsonMapToCloudEvent_eq_ok.mp hr
  exact hjson.read_back _ o evt' hw (htext ▸ hread)

theorem Stores.read (hset : ExtensionSetters ext) (hjson : EventJSON ext)
    (h : Stores ext evt payload) (hvalid : evt.Valid) :
    ∃ evt', jsonMapToCloudEvent ext payload = .ok evt' := by
  obtain ⟨hlen,o,hw,htext⟩ := h.text hjson
  have hv : (storedEvent ext evt payload).Valid := by
    unfold storedEvent
    split
    · exact hvalid
    · next v _ =>
      obtain ⟨extensions,he⟩ := hset.set_rest evt extensionWorkMeta (.str (ext.marshal v.encoded))
      rw [he]
      exact ⟨hvalid.id,hvalid.source,hvalid.type⟩
  obtain ⟨evt',hread⟩ := hjson.read _ o hv hw
  exact ⟨evt',jsonMapToCloudEvent_eq_ok.mpr ⟨hlen,htext ▸ hread⟩⟩

theorem storedEvent_extension (hset : ExtensionSetters ext) {name : String}
    (hname : name ≠ extensionWorkMeta) :
    (storedEvent ext evt payload).extension name = evt.extension name := by
  unfold storedEvent
  split
  · rfl
  · exact hset.set_ne _ _ (by decide) _ _ hname

end Stores

/-- The event of the codec before a deletion is marked on it. -/
def addressed (ext : External) (source : String) (eventType : CloudEventsType) (r : Resource)
    (evt : CloudEvent) : CloudEvent :=
  ext.setExtension (ext.setExtension (ext.setExtension
    { evt with source := source, type := eventType.text } extensionResourceID (.str r.id))
    extensionResourceVersion (.int r.version)) extensionClusterName (.str r.consumerName)

/-- The mark of a deletion on the event. -/
def deletionMarked (ext : External) (uuid : String) (now : Time) (deletion : Option Time)
    (evt : CloudEvent) : CloudEvent :=
  match deletion with
  | none => evt
  | some t => ext.setExtension { evt with id := uuid, time := some now }
      extensionDeletionTimestamp (.time t)

section Encode

variable {ext : External} {evt out : CloudEvent} {r r' : Resource} {source : String}
  {eventType : CloudEventsType} {uuid : String} {now : Time}

theorem reset_eq_ok (h : resetPayloadMetadataNameWithResID ext r = .ok r') :
    r.payload.get extensionWorkMeta = none ∧ r' = r ∨
      ∃ m, r.payload.get extensionWorkMeta = some (.obj m) ∧
        r' = { r with
          payload := some (r.payload.entries.set extensionWorkMeta
            (.obj (Object.set m "name" (.str r.id)))) } := by
  unfold resetPayloadMetadataNameWithResID at h
  split at h
  · next hm => cases h; exact Or.inl ⟨hm,rfl⟩
  · next m hm => cases h; exact Or.inr ⟨m,hm,rfl⟩
  · cases h
  · cases h

theorem Stores.reset (h : Stores ext evt r.payload)
    (hr : resetPayloadMetadataNameWithResID ext r = .ok r') : Stores ext evt r'.payload := by
  rcases reset_eq_ok hr with ⟨-,rfl⟩ | ⟨m,hm,rfl⟩
  · exact h
  · exact h.setMetadata hm _

theorem encode_eq_ok : encode ext source eventType uuid now r = .ok out ↔
    ∃ r' evt', resetPayloadMetadataNameWithResID ext r = .ok r' ∧
      jsonMapToCloudEvent ext r'.payload = .ok evt' ∧
      out = deletionMarked ext uuid now r'.deletedAt.time
        (addressed ext source eventType r' evt') := by
  unfold encode
  cases hr : resetPayloadMetadataNameWithResID ext r with
  | error err => simp
  | ok r' =>
    cases hj : jsonMapToCloudEvent ext r'.payload with
    | error err => simp [hj]
    | ok evt' =>
      cases hd : r'.deletedAt.time <;>
        simp [hj,hd,deletionMarked,addressed,eq_comm (a := out)]

theorem addressed_extension (hset : ExtensionSetters ext) {name : String}
    (hid : name ≠ extensionResourceID) (hversion : name ≠ extensionResourceVersion)
    (hcluster : name ≠ extensionClusterName) :
    (addressed ext source eventType r evt).extension name = evt.extension name := by
  unfold addressed
  rw [hset.set_ne _ _ (by decide) _ _ hcluster,hset.set_ne _ _ (by decide) _ _ hversion,
    hset.set_ne _ _ (by decide) _ _ hid]
  rfl

/-- The event of a resource carries its deletion time, if its payload carries none. -/
theorem encode_deletion (hset : ExtensionSetters ext) (hjson : EventJSON ext)
    (h : Stores ext evt r.payload) (hd : evt.extension extensionDeletionTimestamp = none)
    (he : encode ext source eventType uuid now r = .ok out) :
    out.extension extensionDeletionTimestamp = r.deletedAt.time.map .time := by
  obtain ⟨r',evt',hr,hj,rfl⟩ := encode_eq_ok.mp he
  have htime : r'.deletedAt.time = r.deletedAt.time := by
    rcases reset_eq_ok hr with ⟨-,rfl⟩ | ⟨m,-,rfl⟩ <;> rfl
  rw [htime]
  cases r.deletedAt.time with
  | some t => exact hset.set_self _ _ (by decide) _
  | none =>
    change (addressed ext source eventType r' evt').extension _ = _
    rw [addressed_extension hset (by decide) (by decide) (by decide)]
    have hback := (h.reset hr).read_back hjson hj
    refine hback.absent _ (by decide) ?_
    rw [storedEvent_extension hset (by decide)]
    exact hd

end Encode

namespace Reference

/-- An extension value in JSON. Times are written as their texts. -/
def wireValue : ExtValue → Json
  | .str s | .uri s => .str s
  | .int n => .num n.toInt
  | .bool b => .bool b
  | .time t => .str (String.ofList (JsonText.printInt t))
  | .bytes b => .str (String.ofList (b.map fun x => Char.ofNat x.toNat))

/-- The members of an event that are its extensions. -/
def extensionMembers : List (String × ExtValue) → Object
  | [] => []
  | p :: extensions =>
    if p.1 ∈ attributes then extensionMembers extensions
    else (extensionMembers extensions).set p.1 (wireValue p.2)

def wireObject (evt : CloudEvent) : Object :=
  let base := extensionMembers evt.extensions
  let withData := match evt.data with
    | some data => (base.set "data" data).set "datacontenttype" (.str "application/json")
    | none => base
  (((withData.set "id" (.str evt.id)).set "source" (.str evt.source)).set
    "specversion" (.str "1.0")).set "type" (.str evt.type)

def wireExtension : String × Json → Option (String × ExtValue)
  | (k,.str s) => if k ∈ attributes then none else some (k,.str s)
  | (k,.num q) => if k ∈ attributes then none else some (k,.int (Int32.ofInt q.num))
  | (k,.bool b) => if k ∈ attributes then none else some (k,.bool b)
  | _ => none

def wireEvent (o : Object) : Except String CloudEvent :=
  if text (o.get "id") = "" then .error "id: MUST be a non-empty string"
  else .ok
    { id := text (o.get "id")
      source := text (o.get "source")
      type := text (o.get "type")
      extensions := o.filterMap wireExtension
      data := o.get "data" }

/-- The packages with events and objects as JSON has them. -/
def wirePackages : External :=
  { packages with
    marshal := JsonText.marshal
    unmarshalMap := JsonText.unmarshalMap
    eventOfJSON := wireEvent
    jsonOfEvent := fun evt => .ok (wireObject evt)
    toTime := fun
      | .time t => .ok t
      | .str s => match JsonText.readInt s.toList with
        | some (t,[]) => .ok t
        | _ => .error "cannot convert to time"
      | _ => .error "invalid CloudEvents value" }

theorem setExtension_find (extensions : List (String × ExtValue)) (name other : String)
    (v : ExtValue) :
    (((extensions.filter fun p => p.1 ≠ name) ++ [(name,v)]).find? fun p => p.1 = other).map
      Prod.snd = if other = name then some v
        else (extensions.find? fun p => p.1 = other).map Prod.snd := by
  induction extensions with
  | nil => by_cases h : name = other <;> simp [h,eq_comm]
  | cons p extensions ih =>
    by_cases hp : p.1 = name <;> by_cases ho : p.1 = other <;> grind

theorem wirePackages_sets : ExtensionSetters wirePackages := by
  refine ⟨fun evt name _ v => ?_,fun evt name _ v other h => ?_,fun evt name v => ⟨_,rfl⟩,
    fun s => rfl,fun n => rfl,fun t => rfl⟩
  · exact (setExtension_find _ _ _ _).trans (if_pos rfl)
  · exact (setExtension_find _ _ _ _).trans (if_neg h)

theorem extensionMembers_get (extensions : List (String × ExtValue)) {name : String}
    (h : name ∉ attributes) : (extensionMembers extensions).get name =
      ((extensions.find? fun p => p.1 = name).map Prod.snd).map wireValue := by
  induction extensions with
  | nil => rfl
  | cons p extensions ih =>
    rw [extensionMembers]
    by_cases hp : p.1 = name
    · subst hp
      simp [h,Object.get_set_self]
    · split
      · simpa [hp] using ih
      · simpa [hp,Object.get_set_ne _ (Ne.symm hp)] using ih

theorem wireObject_get (evt : CloudEvent) {name : String} (h : name ∉ attributes) :
    (wireObject evt).get name = (evt.extension name).map wireValue := by
  have hne : ∀ a ∈ attributes, name ≠ a := fun a ha he => h (he ▸ ha)
  unfold wireObject
  cases evt.data <;>
    simp (disch := exact hne _ (by decide)) only [Object.get_set_ne,extensionMembers_get _ h] <;> rfl

/-- Setting an extension sets its member. -/
theorem extensionMembers_set (extensions : List (String × ExtValue)) {name : String}
    (h : name ∉ attributes) (v : ExtValue) :
    extensionMembers ((extensions.filter fun p => p.1 ≠ name) ++ [(name,v)]) =
      (extensionMembers extensions).set name (wireValue v) := by
  induction extensions with
  | nil => simp [extensionMembers,h]
  | cons p extensions ih =>
    by_cases hp : p.1 = name
    · subst hp
      rw [List.filter_cons_of_neg (by simp),ih,extensionMembers,if_neg h,Object.set_set]
    · rw [List.filter_cons_of_pos (by simpa using hp),List.cons_append,extensionMembers,ih,
        extensionMembers]
      split
      · rfl
      · exact Object.set_comm _ (Ne.symm hp) _ _

theorem wireObject_set (evt : CloudEvent) (s : String) :
    wireObject (setExtension evt extensionWorkMeta (.str s)) =
      (wireObject evt).set extensionWorkMeta (.str s) := by
  have hset := @extensionMembers_set evt.extensions extensionWorkMeta (by decide) (.str s)
  unfold wireObject setExtension
  dsimp only
  rw [hset]
  cases evt.data <;>
    simp only [wireValue,Object.set_comm _ (show extensionWorkMeta ≠ "id" by decide),
      Object.set_comm _ (show extensionWorkMeta ≠ "source" by decide),
      Object.set_comm _ (show extensionWorkMeta ≠ "specversion" by decide),
      Object.set_comm _ (show extensionWorkMeta ≠ "type" by decide),
      Object.set_comm _ (show extensionWorkMeta ≠ "data" by decide),
      Object.set_comm _ (show extensionWorkMeta ≠ "datacontenttype" by decide)]

theorem wireObject_id (evt : CloudEvent) : (wireObject evt).get "id" = some (.str evt.id) := by
  unfold wireObject
  dsimp only
  rw [Object.get_set_ne _ (by decide),Object.get_set_ne _ (by decide),Object.get_set_ne _ (by decide),
    Object.get_set_self]

/-- The attributes are no extensions. -/
theorem extensionMembers_attribute {name : String} (h : name ∈ attributes)
    (extensions : List (String × ExtValue)) : (extensionMembers extensions).get name = none := by
  induction extensions with
  | nil => rfl
  | cons p extensions ih =>
    rw [extensionMembers]
    split
    · exact ih
    · next hp =>
      have hne : name ≠ p.1 := fun he => hp (he ▸ h)
      rw [Object.get_set_ne _ hne,ih]

theorem wireObject_data (evt : CloudEvent) : (wireObject evt).get "data" = evt.data := by
  unfold wireObject
  dsimp only
  rw [Object.get_set_ne _ (by decide),Object.get_set_ne _ (by decide),Object.get_set_ne _ (by decide),
    Object.get_set_ne _ (by decide)]
  cases evt.data with
  | none => exact extensionMembers_attribute (by decide) _
  | some d =>
    dsimp only
    rw [Object.get_set_ne _ (by decide),Object.get_set_self]

theorem wireExtension_key (p : String × Json) (e : String × ExtValue)
    (h : wireExtension p = some e) : e.1 = p.1 := by
  unfold wireExtension at h
  repeat' split at h
  all_goals first | (cases h; done) | (cases h; rfl)

theorem find_wireExtension_none {name : String} {o : Object} (h : o.get name = none) :
    ((o.filterMap wireExtension).find? fun p => p.1 = name).map Prod.snd = none := by
  simp only [Option.map_eq_none_iff,List.find?_eq_none,List.mem_filterMap,decide_eq_true_eq]
  rintro e ⟨p,hp,he⟩ hname
  have hkey := wireExtension_key p e he
  simp only [Object.get,Option.map_eq_none_iff,List.find?_eq_none,decide_eq_true_eq] at h
  exact h p hp (hkey.symm.trans hname)

/-- The text of a time is read as that time. -/
theorem toTime_wireValue {v : ExtValue} {t : Time} (h : wirePackages.toTime v = .ok t) :
    ∃ s, wireValue v = .str s ∧ wirePackages.toTime (.str s) = .ok t := by
  cases v with
  | str s => exact ⟨s,rfl,h⟩
  | time t' =>
    cases h
    have hr : JsonText.readInt (JsonText.printInt t ++ []) = some (t,[]) :=
      JsonText.readInt_printInt t (by simp [JsonText.Ends])
    rw [List.append_nil] at hr
    refine ⟨_,rfl,?_⟩
    simp only [wirePackages,String.toList_ofList,hr]
  | _ => cases h

theorem wirePackages_readBack {evt evt' : CloudEvent}
    (h : wireEvent (wireObject evt).encoded = .ok evt') : ReadBack wirePackages evt evt' := by
  have hattr : ∀ name ∈ wireExtensions, name ∉ attributes := by decide
  unfold wireEvent at h
  split at h
  · cases h
  · cases h
    have hget : ∀ name ∈ wireExtensions, (wireObject evt).encoded.get name =
        (evt.extension name).map wireValue := by
      intro name hname
      rw [Object.get_encoded,wireObject_get evt (hattr name hname),Option.map_map]
      congr 1
      funext v
      cases v <;> rfl
    refine ⟨fun hd => ?_,fun name hname hnone => ?_,fun name hname s hs => ?_,
      fun name hname v t hv ht => ?_⟩
    · change (wireObject evt).encoded.get "data" = _
      rw [Object.get_encoded,wireObject_data]
      cases he : evt.data with
      | none => rfl
      | some d => rw [Option.map_some,(hd d he).encoded_eq]
    · refine find_wireExtension_none ?_
      rw [hget name hname,hnone]
      rfl
    · refine find_filterMap wireExtension_key (j := .str s) (by simp [wireExtension,hattr name hname]) ?_
      rw [hget name hname,hs]
      rfl
    · obtain ⟨s,hs,ht'⟩ := toTime_wireValue ht
      refine ⟨.str s,find_filterMap wireExtension_key (j := .str s)
        (by simp [wireExtension,hattr name hname]) ?_,ht'⟩
      rw [hget name hname,hv,Option.map_some,hs]

theorem wirePackages_json : EventJSON wirePackages where
  write evt := ⟨_,rfl⟩
  write_id := by rintro evt o ⟨⟩; exact wireObject_id evt
  write_data := by rintro evt o ⟨⟩; exact wireObject_data evt
  write_absent := by
    rintro evt o ⟨⟩
    rw [wireObject_get evt (by decide),Option.map_eq_none_iff]
  write_text := by
    rintro evt o s ⟨⟩ hs
    rw [wireObject_get evt (by decide),hs]
    rfl
  write_set := by rintro evt o s ⟨⟩; exact congrArg Except.ok (wireObject_set evt s)
  read := by
    rintro evt o hvalid ⟨⟩
    have hid : text ((wireObject evt).encoded.get "id") = evt.id := by
      rw [Object.get_encoded,wireObject_id]
      rfl
    exact ⟨_,if_neg (by rw [hid]; exact hvalid.id)⟩
  read_back := by rintro evt o evt' ⟨⟩ h; exact wirePackages_readBack h

theorem wirePackages_objects : ObjectJSON wirePackages :=
  fun _ h => JsonText.unmarshalMap_marshal h

end Reference

/-- A request to create or to update carries no deletion time. -/
def carriesNoDeletion (ext : External) (svr : GRPCServer) (turn : Turn) : Bool :=
  match turn.request with
  | .deliver _ => true
  | .publish req =>
    match svr.decodeRequest ext req with
    | .ok (evt,some (.createRequest,_)) | .ok (evt,some (.updateRequest,_)) =>
      (evt.extension extensionDeletionTimestamp).isNone
    | _ => true

/-- Every payload is the map of an event without deletion time. -/
def State.Undated (ext : External) (s : State) : Prop :=
  ∀ id row, s.resources.find id = some row → ∃ evt,
    cloudEventToJSONMap ext evt = .ok row.payload ∧
      evt.extension extensionDeletionTimestamp = none

theorem SpecEffect.undated {ext : External} {svr : GRPCServer} {s s' : State} {turn : Turn}
    (h : SpecEffect ext svr s turn.request s') (hok : carriesNoDeletion ext svr turn)
    (hs : s.Undated ext) : s'.Undated ext := by
  obtain ⟨request,env⟩ := turn
  intro id row' hrow'
  cases h with
  | keep h =>
    obtain ⟨row,hrow,-,hp⟩ := h id row' hrow'
    exact hp ▸ hs id row hrow
  | create hd row hfree hv hp hr =>
    rw [hr,Table.find_insert] at hrow'
    split at hrow'
    · cases hrow'
      refine ⟨_,?_,by simpa [carriesNoDeletion,hd] using hok⟩
      rw [hp]
      exact decodeResourceSpec_payload (GRPCServer.decodeRequest_some hd).2
    · exact hs id row' hrow'
  | update hd hrow now hr =>
    rw [hr,Table.find_modify] at hrow'
    split at hrow'
    · next hid =>
      subst hid
      rw [hrow] at hrow'
      cases hrow'
      exact ⟨_,decodeResourceSpec_payload (GRPCServer.decodeRequest_some hd).2,
        by simpa [carriesNoDeletion,hd] using hok⟩
    · exact hs id row' hrow'

namespace Reference

/-- A create request that carries a deletion time. -/
def datedRequest : Request :=
  let evt := specEvent "create_request" "src" "web" "web" 0
  .publish { event := .ok { evt with
      extensions := evt.extensions ++ [(extensionDeletionTimestamp,.time 5)] }, user := "src" }

end Reference

section Survival

variable {ext : External} {evt out : CloudEvent} {r : Resource} {source : String}
  {eventType : CloudEventsType} {uuid : String} {now : Time}

theorem deletionMarked_extension (hset : ExtensionSetters ext) {name : String}
    (hname : name ≠ extensionDeletionTimestamp) (deletion : Option Time) :
    (deletionMarked ext uuid now deletion evt).extension name = evt.extension name := by
  unfold deletionMarked
  split
  · rfl
  · exact hset.set_ne _ _ (by decide) _ _ hname

theorem deletionMarked_rest (hset : ExtensionSetters ext) (deletion : Option Time) :
    (deletionMarked ext uuid now deletion evt).source = evt.source ∧
      (deletionMarked ext uuid now deletion evt).data = evt.data := by
  unfold deletionMarked
  split
  · exact ⟨rfl,rfl⟩
  · obtain ⟨extensions,he⟩ := hset.set_rest _ extensionDeletionTimestamp (.time _)
    rw [he]
    exact ⟨rfl,rfl⟩

theorem addressed_rest (hset : ExtensionSetters ext) :
    (addressed ext source eventType r evt).source = source ∧
      (addressed ext source eventType r evt).data = evt.data := by
  unfold addressed
  obtain ⟨x,hx⟩ := hset.set_rest { evt with source := source, type := eventType.text }
    extensionResourceID (.str r.id)
  rw [hx]
  obtain ⟨y,hy⟩ := hset.set_rest
    { evt with source := source, type := eventType.text, extensions := x }
    extensionResourceVersion (.int r.version)
  rw [hy]
  obtain ⟨z,hz⟩ := hset.set_rest
    { evt with source := source, type := eventType.text, extensions := y }
    extensionClusterName (.str r.consumerName)
  rw [hz]
  exact ⟨rfl,rfl⟩

/-- The three extensions that identify a resource on the wire. -/
theorem addressed_identity (hset : ExtensionSetters ext) (source : String)
    (eventType : CloudEventsType) (r : Resource) (evt : CloudEvent) :
    let evt' := addressed ext source eventType r evt
    evt'.extension extensionResourceID = some (.str r.id) ∧
      evt'.extension extensionResourceVersion = some (.int r.version) ∧
      evt'.extension extensionClusterName = some (.str r.consumerName) := by
  unfold addressed
  refine ⟨?_,?_,hset.set_self _ _ (by decide) _⟩
  · rw [hset.set_ne _ _ (by decide) _ _ (by decide),hset.set_ne _ _ (by decide) _ _ (by decide)]
    exact hset.set_self _ _ (by decide) _
  · rw [hset.set_ne _ _ (by decide) _ _ (by decide)]
    exact hset.set_self _ _ (by decide) _

theorem deletionTime_eq_ok {t : Option Time} :
    decodeResourceSpec.deletionTime ext evt = .ok t ↔
      (evt.extension extensionDeletionTimestamp = none ∧ t = none) ∨
        ∃ v time, evt.extension extensionDeletionTimestamp = some v ∧ ext.toTime v = .ok time ∧
          t = some time := by
  unfold decodeResourceSpec.deletionTime
  cases hv : evt.extension extensionDeletionTimestamp with
  | none => simp [eq_comm]
  | some v =>
    cases ht : ext.toTime v with
    | error err => simp [ht]
    | ok time => simp [ht,eq_comm]

theorem decodeResourceSpec_deletionTime {res : Resource} (h : decodeResourceSpec ext evt = .ok res) :
    ∃ t, decodeResourceSpec.deletionTime ext evt = .ok t := by
  unfold decodeResourceSpec at h
  repeat' split at h
  all_goals first | (cases h; done) | exact ⟨_,by assumption⟩

/-- The event that is sent for a resource, by what was read from its payload. -/
def sentEvent (ext : External) (source : String) (eventType : CloudEventsType) (uuid : String)
    (now : Time) (r : Resource) (evt : CloudEvent) : CloudEvent :=
  deletionMarked ext uuid now r.deletedAt.time (addressed ext source eventType r evt)

theorem sentEvent_metadata (hset : ExtensionSetters ext) :
    (sentEvent ext source eventType uuid now r evt).extension extensionWorkMeta =
      evt.extension extensionWorkMeta := by
  rw [sentEvent,deletionMarked_extension hset (by decide),
    addressed_extension hset (by decide) (by decide) (by decide)]

/-- A deletion time that was accepted can be read from what is sent. -/
theorem sentEvent_deletionTime (hset : ExtensionSetters ext) {evt' : CloudEvent}
    (hback : ReadBack ext evt evt') {t : Option Time}
    (h : decodeResourceSpec.deletionTime ext evt = .ok t) :
    ∃ t', decodeResourceSpec.deletionTime ext
      (sentEvent ext source eventType uuid now r evt') = .ok t' := by
  unfold sentEvent
  cases hd : r.deletedAt.time with
  | some time =>
    refine ⟨some time,deletionTime_eq_ok.mpr (Or.inr ⟨.time time,time,?_,hset.toTime_time time,rfl⟩)⟩
    exact hset.set_self _ _ (by decide) _
  | none =>
    have hsame : (deletionMarked ext uuid now none (addressed ext source eventType r evt')).extension
        extensionDeletionTimestamp = evt'.extension extensionDeletionTimestamp :=
      addressed_extension hset (by decide) (by decide) (by decide)
    rcases deletionTime_eq_ok.mp h with ⟨hnone,-⟩ | ⟨v,time,hv,htime,-⟩
    · exact ⟨none,deletionTime_eq_ok.mpr
        (Or.inl ⟨hsame.trans (hback.absent _ (by decide) hnone),rfl⟩)⟩
    · obtain ⟨v',hv',htime'⟩ := hback.time _ (by decide) v time hv htime
      exact ⟨some time,deletionTime_eq_ok.mpr (Or.inr ⟨v',time,hsame.trans hv',htime',rfl⟩)⟩

/-- What is decoded from an event that is sent. -/
theorem decode_sentEvent (hset : ExtensionSetters ext) {t : Option Time}
    (ht : decodeResourceSpec.deletionTime ext
      (sentEvent ext source eventType uuid now r evt) = .ok t) {payload : JSONMap}
    (hp : cloudEventToJSONMap ext (sentEvent ext source eventType uuid now r evt) = .ok payload) :
    decodeResourceSpec ext (sentEvent ext source eventType uuid now r evt) = .ok
      { id := r.id
        source := source
        consumerName := r.consumerName
        version := r.version
        deletedAt := { time := t }
        payload := payload } := by
  obtain ⟨hid,hversion,hcluster⟩ := addressed_identity hset source eventType r evt
  have hext : ∀ name ≠ extensionDeletionTimestamp,
      (sentEvent ext source eventType uuid now r evt).extension name =
        (addressed ext source eventType r evt).extension name :=
    fun name hname => deletionMarked_extension hset hname _
  have hsource : (sentEvent ext source eventType uuid now r evt).source = source :=
    (deletionMarked_rest hset _).1.trans (addressed_rest hset).1
  unfold decodeResourceSpec
  rw [hext _ (by decide),hext _ (by decide),hext _ (by decide),hid,hversion,hcluster]
  simp only [hset.toString_str,hset.toInteger_int,ht,hp,hsource]

end Survival

/-- What an agent decodes from the event of a resource: the identity that the row has, the
source of the event, and the stored spec under the name of the row. -/
structure SpecArrived (res r res' : Resource) (source : String) : Prop where
  id : res'.id = r.id
  version : res'.version = r.version
  consumerName : res'.consumerName = r.consumerName
  source : res'.source = source
  data : res'.payload.get "data" = res.payload.get "data"
  metadata : ∀ m, res.payload.get extensionWorkMeta = some (.obj m) →
    res'.payload.get extensionWorkMeta = some (.obj (Object.set m "name" (.str r.id)))
  noMetadata : res.payload.get extensionWorkMeta = none →
    res'.payload.get extensionWorkMeta = none

section Arrival

variable {ext : External} {evt evt' : CloudEvent} {res r : Resource} {source : String}
  {eventType : CloudEventsType} {uuid : String} {now : Time}

/-- The data of the event that is sent are those of the event that was stored. -/
theorem sentEvent_data (hset : ExtensionSetters ext) {payload : JSONMap}
    (hback : ReadBack ext (storedEvent ext evt payload) evt')
    (hdata : ∀ d, evt.data = some d → d.Decoded) :
    (sentEvent ext source eventType uuid now r evt').data = evt.data := by
  have hstored : (storedEvent ext evt payload).data = evt.data := by
    unfold storedEvent
    split
    · rfl
    · obtain ⟨extensions,he⟩ := hset.set_rest evt extensionWorkMeta (.str _)
      rw [he]
  rw [sentEvent,(deletionMarked_rest hset _).2,(addressed_rest hset).2,
    hback.data (by rw [hstored]; exact hdata),hstored]

theorem data_of_event (hjson : EventJSON ext) {payload : JSONMap}
    (h : cloudEventToJSONMap ext evt = .ok payload) : payload.get "data" = evt.data := by
  unfold cloudEventToJSONMap at h
  split at h
  · cases h
  · next o hw =>
    have hdata := hjson.write_data evt o hw
    split at h
    · cases h; exact hdata
    · split at h
      · cases h
      · cases h
        exact (o.get_set_ne (by decide) _).trans hdata

/-- Without metadata nothing takes its place. -/
theorem arrives_plain (hset : ExtensionSetters ext) (hjson : EventJSON ext)
    (hnone : evt.extension extensionWorkMeta = none) (hback : ReadBack ext evt evt') :
    ∃ payload, cloudEventToJSONMap ext (sentEvent ext source eventType uuid now r evt') =
        .ok payload ∧ payload.get extensionWorkMeta = none := by
  obtain ⟨o,ho⟩ := hjson.write (sentEvent ext source eventType uuid now r evt')
  have hget : o.get extensionWorkMeta = none := by
    rw [hjson.write_absent _ o ho,sentEvent_metadata hset]
    exact hback.absent _ (by decide) hnone
  exact ⟨some o,by simp only [cloudEventToJSONMap,ho,hget],hget⟩

/-- An object that was sent as the metadata is read as the metadata. -/
theorem arrives_named (hset : ExtensionSetters ext) (hjson : EventJSON ext) (hobj : ObjectJSON ext)
    {m : Object} (hm : (Json.obj m).Decoded)
    (htext : evt.extension extensionWorkMeta = some (.str (ext.marshal (.obj m))))
    (hback : ReadBack ext evt evt') :
    ∃ payload, cloudEventToJSONMap ext (sentEvent ext source eventType uuid now r evt') =
        .ok payload ∧ payload.get extensionWorkMeta = some (.obj m) := by
  obtain ⟨o,ho⟩ := hjson.write (sentEvent ext source eventType uuid now r evt')
  have hget : o.get extensionWorkMeta = some (.str (ext.marshal (.obj m))) := by
    refine hjson.write_text _ o _ ho ?_
    rw [sentEvent_metadata hset]
    exact hback.text _ (by decide) _ htext
  refine ⟨some (o.set extensionWorkMeta (.obj m)),?_,o.get_set_self _ _⟩
  simp only [cloudEventToJSONMap,ho,hget,sprintfS,hobj m hm,JSONMap.toJson]

/-- Whatever the name is reset to: the event is sent, and its map is what arrives. -/
theorem encode_decodes (hset : ExtensionSetters ext) (hjson : EventJSON ext)
    (hstores : Stores ext evt r.payload) (hvalid : evt.Valid) {t : Option Time}
    (ht : decodeResourceSpec.deletionTime ext evt = .ok t) {r' : Resource}
    (hreset : resetPayloadMetadataNameWithResID ext r = .ok r') (source : String)
    (eventType : CloudEventsType) (uuid : String) (now : Time) :
    ∃ evt' t', ReadBack ext (storedEvent ext evt r'.payload) evt' ∧
      encode ext source eventType uuid now r =
        .ok (sentEvent ext source eventType uuid now r evt') ∧
      ∀ payload,
        cloudEventToJSONMap ext (sentEvent ext source eventType uuid now r evt') = .ok payload →
        decodeResourceSpec ext (sentEvent ext source eventType uuid now r evt') = .ok
          { id := r.id
            source := source
            consumerName := r.consumerName
            version := r.version
            deletedAt := { time := t' }
            payload := payload } := by
  obtain ⟨evt',hj⟩ := (hstores.reset hreset).read hset hjson hvalid
  have hback := (hstores.reset hreset).read_back hjson hj
  have hstored : decodeResourceSpec.deletionTime ext (storedEvent ext evt r'.payload) = .ok t := by
    rw [decodeResourceSpec.deletionTime,storedEvent_extension hset (by decide)]
    exact ht
  obtain ⟨t',ht'⟩ := sentEvent_deletionTime (r := r) hset hback hstored
  refine ⟨evt',t',hback,encode_eq_ok.mpr ⟨r',evt',hreset,hj,?_⟩,fun payload hp =>
    decode_sentEvent hset ht' hp⟩
  rcases reset_eq_ok hreset with ⟨-,rfl⟩ | ⟨m,-,rfl⟩ <;> rfl

end Arrival

/-- The spec of a resource arrives at the agent as it was stored, under the name of the row. -/
theorem spec_arrives (ext : External) (hset : ExtensionSetters ext) (hjson : EventJSON ext)
    (hobj : ObjectJSON ext) {evt : CloudEvent} {res : Resource}
    (hdec : decodeResourceSpec ext evt = .ok res) (hvalid : evt.Valid)
    (hexact : ∀ key v, key = "data" ∨ key = extensionWorkMeta → res.payload.get key = some v →
      v.Decoded)
    (r : Resource) (hr : r.payload = res.payload.scan) (source : String)
    (eventType : CloudEventsType) (uuid : String) (now : Time) :
    ∃ out res', encode ext source eventType uuid now r = .ok out ∧
      decodeResourceSpec ext out = .ok res' ∧ SpecArrived res r res' source := by
  have hpayload := decodeResourceSpec_payload hdec
  have hdata : res.payload.get "data" = evt.data := data_of_event hjson hpayload
  have hdecoded : ∀ d, evt.data = some d → d.Decoded :=
    fun d hd => hexact "data" d (Or.inl rfl) (hdata.trans hd)
  obtain ⟨t,ht⟩ := decodeResourceSpec_deletionTime hdec
  have hstores : Stores ext evt r.payload := hr ▸ (Stores.of_event hpayload).scan
  have hmeta : r.payload.get extensionWorkMeta =
      (res.payload.get extensionWorkMeta).map Json.encoded := by
    rw [hr]
    exact res.payload.entries.get_encoded _
  cases hm : res.payload.get extensionWorkMeta with
  | none =>
    rw [hm,Option.map_none] at hmeta
    have hreset : resetPayloadMetadataNameWithResID ext r = .ok r := by
      simp only [resetPayloadMetadataNameWithResID,hmeta]
    have hevt : storedEvent ext evt r.payload = evt := by simp only [storedEvent,hmeta]
    have hnone : evt.extension extensionWorkMeta = none := by
      obtain ⟨o,hw,hsome,-⟩ := Stores.of_event hpayload
      rw [hm,Option.isSome_none,eq_comm,Option.isSome_eq_false_iff,Option.isNone_iff_eq_none] at hsome
      exact (hjson.write_absent evt o hw).mp hsome
    obtain ⟨evt',t',hback,he,hfinish⟩ :=
      encode_decodes hset hjson hstores hvalid ht hreset source eventType uuid now
    obtain ⟨payload,hp,hget⟩ := arrives_plain hset hjson hnone (hevt ▸ hback)
    refine ⟨_,_,he,hfinish payload hp,rfl,rfl,rfl,rfl,?_,by simp [hm],fun _ => hget⟩
    exact (data_of_event hjson hp).trans ((sentEvent_data hset hback hdecoded).trans hdata.symm)
  | some v =>
    have hv := hexact extensionWorkMeta v (Or.inr rfl) hm
    rcases decodeResourceSpec_metadata hdec hm with rfl | ⟨m,rfl⟩
    · simp [Json.Decoded] at hv
    · rw [hm,Option.map_some,hv.encoded_eq] at hmeta
      have hnamed : (Json.obj (Object.set m "name" (.str r.id))).Decoded := hv.set_str "name" r.id
      have hreset : resetPayloadMetadataNameWithResID ext r = .ok { r with
          payload := some (r.payload.entries.set extensionWorkMeta
            (.obj (Object.set m "name" (.str r.id)))) } := by
        simp only [resetPayloadMetadataNameWithResID,hmeta]
      obtain ⟨evt',t',hback,he,hfinish⟩ :=
        encode_decodes hset hjson hstores hvalid ht hreset source eventType uuid now
      have htext : (storedEvent ext evt (some (r.payload.entries.set extensionWorkMeta
          (.obj (Object.set m "name" (.str r.id)))))).extension extensionWorkMeta =
          some (.str (ext.marshal (.obj (Object.set m "name" (.str r.id))))) := by
        rw [storedEvent,JSONMap.get_set_metadata]
        dsimp only
        rw [hnamed.encoded_eq]
        exact hset.set_self _ _ (by decide) _
      obtain ⟨payload,hp,hget⟩ := arrives_named hset hjson hobj hnamed htext hback
      refine ⟨_,_,he,hfinish payload hp,rfl,rfl,rfl,rfl,?_,fun m' hm' => ?_,by simp [hm]⟩
      · exact (data_of_event hjson hp).trans ((sentEvent_data hset hback hdecoded).trans hdata.symm)
      · rw [hm] at hm'
        cases hm'
        exact hget

namespace Reference

theorem bundle_decoded : (Json.obj [("manifests",.arr [.obj (configMap "web")])]).Decoded := by
  refine ⟨⟨⟨⟨⟨trivial,trivial,⟨⟨trivial,trivial⟩,?_⟩,trivial⟩,?_⟩,trivial⟩,trivial⟩,?_⟩ <;> decide

theorem name_decoded : (Json.obj [("name",.str "work")]).Decoded := by
  refine ⟨⟨trivial,trivial⟩,?_⟩
  decide

end Reference

/-- The bundle of a client, stored under another ID than its metadata names. -/
theorem spec_arrives_renamed : ∃ evt res out res', evt = Reference.metadataEvent
      (JsonText.marshal (.obj [("name",.str "work")])) ∧
    decodeResourceSpec Reference.wirePackages evt = .ok res ∧
    encode Reference.wirePackages "maestro" ⟨"manifestbundles","spec",.createRequest⟩ "uuid" 7
      { res with id := "row", version := 3, payload := res.payload.scan } = .ok out ∧
    decodeResourceSpec Reference.wirePackages out = .ok res' ∧
    res'.id = "row" ∧ res'.version = 3 ∧ res'.source = "maestro" ∧
    res'.payload.get extensionWorkMeta = some (.obj [("name",.str "row")]) := by
  have h : (decodeResourceSpec Reference.wirePackages (Reference.metadataEvent
      (JsonText.marshal (.obj [("name",.str "work")])))).toOption.any fun res => decide
        (res.payload.get extensionWorkMeta = some (.obj [("name",.str "work")]) ∧
          res.payload.get "data" =
            some (.obj [("manifests",.arr [.obj (Reference.configMap "web")])])) := by
    decide +kernel
  obtain ⟨res,hres,h⟩ := (Option.any_eq_true _ _).mp h
  obtain ⟨hmeta,hdata⟩ := of_decide_eq_true h
  have hdec := eq_ok_of_toOption hres
  have hexact : ∀ key v, key = "data" ∨ key = extensionWorkMeta →
      res.payload.get key = some v → v.Decoded := by
    rintro key v (rfl | rfl) hv
    · rw [hdata] at hv
      exact Option.some.inj hv ▸ Reference.bundle_decoded
    · rw [hmeta] at hv
      exact Option.some.inj hv ▸ Reference.name_decoded
  obtain ⟨out,res',he,hd,harrived⟩ := spec_arrives Reference.wirePackages
    Reference.wirePackages_sets Reference.wirePackages_json Reference.wirePackages_objects hdec
    ⟨by decide,by decide,by decide⟩ hexact
    { res with id := "row", version := 3, payload := res.payload.scan } rfl "maestro"
    ⟨"manifestbundles","spec",.createRequest⟩ "uuid" 7
  exact ⟨_,res,out,res',rfl,hdec,he,hd,harrived.id,harrived.version,harrived.source,
    harrived.metadata _ hmeta⟩

end Maestro
