import Maestro.Api.SharedMaps
import Maestro.Client.Wire

/-!
# The stored form of an event

`CloudEventToJSONMap` makes the map that is stored of an event and `JSONMAPToCloudEvent`
makes the event again. Both ways lead back to where they began, the text of the metadata
up to its value, and the stored map is left as it was.
-/

namespace Maestro
open Data

/-- Events with the same attributes and data, and the same map of extensions. -/
structure CloudEvent.Same (evt evt' : CloudEvent) : Prop where
  id : evt'.id = evt.id
  source : evt'.source = evt.source
  type : evt'.type = evt.type
  time : evt'.time = evt.time
  data : evt'.data = evt.data
  extension : ∀ name, evt'.extension name = evt.extension name

/-- The reader of event JSON is the inverse of the writer on these events, and a text may
take the place of the metadata in each of them. -/
structure InverseOn (ext : External) (Valid : CloudEvent → Prop) : Prop where
  read_write : ∀ evt o, Valid evt → ext.jsonOfEvent evt = .ok o →
    ∃ evt', ext.eventOfJSON o.encoded = .ok evt' ∧ evt.Same evt'
  write_same : ∀ evt evt', evt.Same evt' → ext.jsonOfEvent evt' = ext.jsonOfEvent evt
  set_metadata : ∀ evt s, Valid evt → (evt.extension extensionWorkMeta).isSome →
    Valid (ext.setExtension evt extensionWorkMeta (.str s))

/-- The metadata extension is absent or the text of an object. -/
def ObjectMetadata (ext : External) (evt : CloudEvent) : Prop :=
  evt.extension extensionWorkMeta = none ∨
    ∃ s m, evt.extension extensionWorkMeta = some (.str s) ∧
      ext.unmarshalMap s = .ok (some m) ∧ (Json.obj m).Decoded

/-- The same event, up to the value of the metadata text. -/
structure SameUpToText (ext : External) (evt evt' : CloudEvent) : Prop where
  id : evt'.id = evt.id
  source : evt'.source = evt.source
  type : evt'.type = evt.type
  time : evt'.time = evt.time
  data : evt'.data = evt.data
  extension : ∀ name, name ≠ extensionWorkMeta → evt'.extension name = evt.extension name
  metadata : evt'.extension extensionWorkMeta = evt.extension extensionWorkMeta ∨
    ∃ s s' m, evt.extension extensionWorkMeta = some (.str s) ∧
      evt'.extension extensionWorkMeta = some (.str s') ∧
      ext.unmarshalMap s = .ok (some m) ∧ ext.unmarshalMap s' = .ok (some m)

/-- The numbers of a stored metadata object are exact. -/
def ExactMetadata (payload : JSONMap) : Prop :=
  ∀ m, payload.get extensionWorkMeta = some (.obj m) → (Json.obj m).Decoded

section Forms

variable {ext : External} {evt : CloudEvent} {payload : JSONMap}

theorem cloudEventToJSONMap_of_none {o : Object} (hw : ext.jsonOfEvent evt = .ok o)
    (hm : o.get extensionWorkMeta = none) : cloudEventToJSONMap ext evt = .ok (some o) := by
  simp only [cloudEventToJSONMap,hw,hm]

theorem cloudEventToJSONMap_of_text {o : Object} {s : String} {m : JSONMap}
    (hw : ext.jsonOfEvent evt = .ok o) (hs : o.get extensionWorkMeta = some (.str s))
    (hm : ext.unmarshalMap s = .ok m) :
    cloudEventToJSONMap ext evt = .ok (some (o.set extensionWorkMeta m.toJson)) := by
  simp only [cloudEventToJSONMap,hw,hs,sprintfS,hm]

/-- A map of an event has no metadata, or the one that a text was read as. -/
theorem cloudEventToJSONMap_eq_ok (h : cloudEventToJSONMap ext evt = .ok payload) :
    ∃ o, ext.jsonOfEvent evt = .ok o ∧
      ((o.get extensionWorkMeta = none ∧ payload = some o) ∨
        ∃ m : JSONMap, (o.get extensionWorkMeta).isSome ∧
          payload = some (o.set extensionWorkMeta m.toJson)) := by
  unfold cloudEventToJSONMap at h
  split at h
  · cases h
  · next o hw =>
    split at h
    · next hm =>
      cases h
      exact ⟨o,hw,Or.inl ⟨hm,rfl⟩⟩
    · next v hv =>
      split at h
      · cases h
      · next m _ =>
        cases h
        exact ⟨o,hw,Or.inr ⟨m,by rw [hv]; rfl,rfl⟩⟩

/-- The event of a stored map is the one whose JSON it is. -/
theorem Stores.read_same {Valid : CloudEvent → Prop} (hinv : InverseOn ext Valid)
    (hjson : EventJSON ext) (h : Stores ext evt payload)
    (hvalid : Valid (storedEvent ext evt payload)) :
    ∃ evt', jsonMapToCloudEvent ext payload = .ok evt' ∧
      (storedEvent ext evt payload).Same evt' := by
  obtain ⟨hlen,o,hw,htext⟩ := h.text hjson
  obtain ⟨evt',hread,hsame⟩ := hinv.read_write _ o hvalid hw
  exact ⟨evt',jsonMapToCloudEvent_eq_ok.mpr ⟨hlen,htext ▸ hread⟩,hsame⟩

theorem storedEvent_of_none (h : payload.get extensionWorkMeta = none) :
    storedEvent ext evt payload = evt := by
  rw [storedEvent,h]

theorem storedEvent_of_some {v : Json} (h : payload.get extensionWorkMeta = some v) :
    storedEvent ext evt payload =
      ext.setExtension evt extensionWorkMeta (.str (ext.marshal v.encoded)) := by
  rw [storedEvent,h]

/-- The text of a metadata map is read as the map. -/
theorem unmarshalMap_text (hobj : ObjectJSON ext)
    (hnull : ext.unmarshalMap (ext.marshal .null) = .ok none) {m : JSONMap}
    (hm : ∀ fields, m = some fields → (Json.obj fields).Decoded) :
    ext.unmarshalMap (ext.marshal m.toJson.encoded) = .ok m := by
  cases m with
  | none => exact hnull
  | some fields =>
    have hdec := hm fields rfl
    rw [show (JSONMap.toJson (some fields)).encoded = .obj fields from hdec.encoded_eq]
    exact hobj fields hdec

/-- A map made of an event is made again of the event that is read from it. -/
theorem cloudEventToJSONMap_jsonMapToCloudEvent {Valid : CloudEvent → Prop}
    (hjson : EventJSON ext) (hinv : InverseOn ext Valid) (hobj : ObjectJSON ext)
    (hnull : ext.unmarshalMap (ext.marshal .null) = .ok none) (hvalid : Valid evt)
    (hexact : ExactMetadata payload) (h : cloudEventToJSONMap ext evt = .ok payload) :
    ∃ evt', jsonMapToCloudEvent ext payload = .ok evt' ∧
      cloudEventToJSONMap ext evt' = .ok payload ∧ (storedEvent ext evt payload).Same evt' := by
  have hstores := Stores.of_event h
  obtain ⟨o,hw,⟨hnone,rfl⟩ | ⟨m,hsome,rfl⟩⟩ := cloudEventToJSONMap_eq_ok h
  · have hevt : storedEvent ext evt (some o) = evt := storedEvent_of_none hnone
    obtain ⟨evt',hread,hsame⟩ := hstores.read_same hinv hjson (hevt.symm ▸ hvalid)
    refine ⟨evt',hread,cloudEventToJSONMap_of_none ?_ hnone,hsame⟩
    rw [hinv.write_same _ _ hsame,hevt,hw]
  · have hget : JSONMap.get (some (o.set extensionWorkMeta m.toJson)) extensionWorkMeta =
        some m.toJson := o.get_set_self _ _
    have hevt : storedEvent ext evt _ = _ := storedEvent_of_some hget
    have hext : (evt.extension extensionWorkMeta).isSome := by
      rw [Option.isSome_iff_ne_none] at hsome ⊢
      exact fun hnone => hsome ((hjson.write_absent evt o hw).mpr hnone)
    obtain ⟨evt',hread,hsame⟩ := hstores.read_same hinv hjson
      (hevt.symm ▸ hinv.set_metadata evt _ hvalid hext)
    have hw' : ext.jsonOfEvent evt' =
        .ok (o.set extensionWorkMeta (.str (ext.marshal m.toJson.encoded))) := by
      rw [hinv.write_same _ _ hsame,hevt,hjson.write_set evt o _ hw]
    have htext : ext.unmarshalMap (ext.marshal m.toJson.encoded) = .ok m :=
      unmarshalMap_text hobj hnull fun fields hm => hexact fields (by rw [hget,hm]; rfl)
    refine ⟨evt',hread,?_,hsame⟩
    rw [cloudEventToJSONMap_of_text hw' (o.get_set_self _ _) htext,Object.set_set]

/-- The conversion succeeds on an event with object metadata, and keeps the value. -/
theorem ObjectMetadata.toJSONMap (hjson : EventJSON ext) (h : ObjectMetadata ext evt) :
    ∃ payload, cloudEventToJSONMap ext evt = .ok payload ∧ ExactMetadata payload ∧
      ((evt.extension extensionWorkMeta = none ∧ payload.get extensionWorkMeta = none) ∨
        ∃ s m, evt.extension extensionWorkMeta = some (.str s) ∧
          ext.unmarshalMap s = .ok (some m) ∧ (Json.obj m).Decoded ∧
          payload.get extensionWorkMeta = some (.obj m)) := by
  obtain ⟨o,hw⟩ := hjson.write evt
  rcases h with hnone | ⟨s,m,hs,hm,hdec⟩
  · have hget := (hjson.write_absent evt o hw).mpr hnone
    refine ⟨_,cloudEventToJSONMap_of_none hw hget,fun m hm => ?_,Or.inl ⟨hnone,hget⟩⟩
    have hm' : o.get extensionWorkMeta = some (.obj m) := hm
    rw [hget] at hm'
    cases hm'
  · have hget : JSONMap.get (some (o.set extensionWorkMeta (JSONMap.toJson (some m))))
        extensionWorkMeta = some (.obj m) := o.get_set_self _ _
    refine ⟨_,cloudEventToJSONMap_of_text hw (hjson.write_text evt o s hw hs) hm,fun m' hm' => ?_,
      Or.inr ⟨s,m,hs,hm,hdec,hget⟩⟩
    rw [hget] at hm'
    cases hm'
    exact hdec

/-- The event that is read from the map of an event. -/
theorem SameUpToText.of_stored (hset : ExtensionSetters ext) (hobj : ObjectJSON ext)
    {evt' : CloudEvent} (hsame : (storedEvent ext evt payload).Same evt')
    (h : (evt.extension extensionWorkMeta = none ∧ payload.get extensionWorkMeta = none) ∨
      ∃ s m, evt.extension extensionWorkMeta = some (.str s) ∧
        ext.unmarshalMap s = .ok (some m) ∧ (Json.obj m).Decoded ∧
        payload.get extensionWorkMeta = some (.obj m)) : SameUpToText ext evt evt' := by
  rcases h with ⟨-,hget⟩ | ⟨s,m,hs,hm,hdec,hget⟩
  · rw [storedEvent_of_none hget] at hsame
    exact ⟨hsame.id,hsame.source,hsame.type,hsame.time,hsame.data,
      fun name _ => hsame.extension name,Or.inl (hsame.extension _)⟩
  · rw [storedEvent_of_some hget,hdec.encoded_eq] at hsame
    have hself := hsame.extension extensionWorkMeta
    rw [hset.set_self _ _ (by decide)] at hself
    obtain ⟨extensions,hrest⟩ := hset.set_rest evt extensionWorkMeta (.str (ext.marshal (.obj m)))
    refine ⟨?_,?_,?_,?_,?_,fun name hname => ?_,
      Or.inr ⟨s,_,m,hs,hself,hm,hobj m hdec⟩⟩
    · rw [hsame.id,hrest]
    · rw [hsame.source,hrest]
    · rw [hsame.type,hrest]
    · rw [hsame.time,hrest]
    · rw [hsame.data,hrest]
    · rw [hsame.extension,hset.set_ne _ _ (by decide) _ _ hname]

end Forms

/-- The stored map and the event are inverse to each other, and the map that an event is
made of stays as it is in memory, with every map inside it. -/
theorem stored_forms_inverse (ext : External) (Valid : CloudEvent → Prop)
    (hset : ExtensionSetters ext) (hjson : EventJSON ext) (hinv : InverseOn ext Valid)
    (hobj : ObjectJSON ext) (hnull : ext.unmarshalMap (ext.marshal .null) = .ok none) :
    (∀ evt, ObjectMetadata ext evt → ∃ payload, cloudEventToJSONMap ext evt = .ok payload ∧
      (Valid evt → ∃ evt', jsonMapToCloudEvent ext payload = .ok evt' ∧
        SameUpToText ext evt evt')) ∧
    (∀ evt payload, Valid evt → ExactMetadata payload →
      cloudEventToJSONMap ext evt = .ok payload →
      ∃ evt', jsonMapToCloudEvent ext payload = .ok evt' ∧
        cloudEventToJSONMap ext evt' = .ok payload) ∧
    ∀ range : List (String × Cell) → List (String × Cell),
      (∀ entries, (range entries).Perm entries) →
      ∀ heap jsonmap m, Holds heap (.map jsonmap) (.obj m) → ∃ n, ∀ fuel ≥ n, ∃ heap',
        jsonMapToCloudEventIn ext range fuel heap jsonmap =
          (jsonMapToCloudEvent ext (some m),heap') ∧
        heap <+: heap' ∧ Holds heap' (.map jsonmap) (.obj m) := by
  refine ⟨fun evt hmeta => ?_,fun evt payload hvalid hexact h => ?_,
    fun range hrange heap jsonmap m hm => ?_⟩
  · obtain ⟨payload,hmap,hexact,hvalue⟩ := hmeta.toJSONMap hjson
    refine ⟨payload,hmap,fun hvalid => ?_⟩
    obtain ⟨evt',hread,-,hsame⟩ :=
      cloudEventToJSONMap_jsonMapToCloudEvent hjson hinv hobj hnull hvalid hexact hmap
    exact ⟨evt',hread,.of_stored hset hobj hsame hvalue⟩
  · obtain ⟨evt',hread,hback,-⟩ :=
      cloudEventToJSONMap_jsonMapToCloudEvent hjson hinv hobj hnull hvalid hexact h
    exact ⟨evt',hread,hback⟩
  · obtain ⟨n,hn⟩ := jsonMapToCloudEventIn_eq hrange hm
    refine ⟨n,fun fuel hf => ?_⟩
    obtain ⟨heap',hrun,hle⟩ := hn fuel hf
    exact ⟨heap',hrun,hle,hm.mono hle⟩

namespace Reference

/-- The extension values that JSON has types for. -/
def HasJSONType : ExtValue → Prop
  | .str _ | .int _ | .bool _ => True
  | _ => False

/-- The events that come back from their JSON as they were. -/
structure WireValid (evt : CloudEvent) : Prop where
  valid : evt.Valid
  time : evt.time = none
  data : ∀ d, evt.data = some d → d.Decoded
  names : ∀ p ∈ evt.extensions, p.1 ∉ attributes
  values : ∀ p ∈ evt.extensions, HasJSONType p.2

theorem wireExtension_wireValue {name : String} {v : ExtValue} (hname : name ∉ attributes)
    (hv : HasJSONType v) : wireExtension (name,wireValue v) = some (name,v) := by
  cases v <;> simp_all [wireExtension,wireValue,HasJSONType]

theorem wireExtension_not_attribute {p : String × Json} {e : String × ExtValue}
    (h : wireExtension p = some e) : e.1 ∉ attributes := by
  unfold wireExtension at h
  repeat' split at h
  all_goals first | (cases h; done) | (cases h; assumption)

theorem mem_of_extension {evt : CloudEvent} {name : String} {v : ExtValue}
    (h : evt.extension name = some v) : (name,v) ∈ evt.extensions := by
  obtain ⟨p,hp,rfl⟩ := Option.map_eq_some_iff.mp h
  have hname : p.1 = name := by simpa using List.find?_some hp
  exact hname ▸ List.mem_of_find?_eq_some hp

/-- Each extension is read as it was. -/
theorem wireObject_extensions {evt : CloudEvent} (h : WireValid evt) (name : String) :
    (((wireObject evt).encoded.filterMap wireExtension).find? fun p => p.1 = name).map Prod.snd =
      evt.extension name := by
  by_cases hname : name ∈ attributes
  · have hnone : evt.extension name = none :=
      Option.eq_none_iff_forall_ne_some.mpr fun v hv => h.names _ (mem_of_extension hv) hname
    simp only [hnone,Option.map_eq_none_iff,List.find?_eq_none,List.mem_filterMap,
      decide_eq_true_eq]
    rintro e ⟨p,-,he⟩ rfl
    exact wireExtension_not_attribute he hname
  · have hget := wireObject_get evt hname
    cases hv : evt.extension name with
    | none =>
      refine find_wireExtension_none ?_
      rw [Object.get_encoded,hget,hv]
      rfl
    | some v =>
      have hjson := h.values _ (mem_of_extension hv)
      refine find_filterMap wireExtension_key (wireExtension_wireValue hname hjson) ?_
      rw [Object.get_encoded,hget,hv]
      cases v <;> rfl

theorem wireObject_source (evt : CloudEvent) :
    (wireObject evt).get "source" = some (.str evt.source) := by
  unfold wireObject
  dsimp only
  rw [Object.get_set_ne _ (by decide),Object.get_set_ne _ (by decide),Object.get_set_self]

theorem wireObject_type (evt : CloudEvent) :
    (wireObject evt).get "type" = some (.str evt.type) := by
  unfold wireObject
  dsimp only
  rw [Object.get_set_self]

theorem extensionMembers_sorted (extensions : List (String × ExtValue)) :
    Entries.Sorted (extensionMembers extensions) := by
  induction extensions with
  | nil => exact List.Pairwise.nil
  | cons p extensions ih =>
    rw [extensionMembers]
    split
    · exact ih
    · exact Object.set_eq _ _ _ ▸ ih.set _ _

theorem extensionMembers_same {evt evt' : CloudEvent} (h : evt.Same evt') :
    extensionMembers evt'.extensions = extensionMembers evt.extensions := by
  refine (extensionMembers_sorted _).eq_of_get (extensionMembers_sorted _) fun name => ?_
  change Object.get _ name = Object.get _ name
  by_cases hname : name ∈ attributes
  · rw [extensionMembers_attribute hname,extensionMembers_attribute hname]
  · rw [extensionMembers_get _ hname,extensionMembers_get _ hname]
    exact congrArg (Option.map wireValue) (h.extension name)

theorem wirePackages_inverse : InverseOn wirePackages WireValid where
  read_write := by
    rintro evt o hvalid ⟨⟩
    have hget : ∀ name, (wireObject evt).encoded.get name =
        ((wireObject evt).get name).map Json.encoded := fun name => Object.get_encoded _ _
    have hid : text ((wireObject evt).encoded.get "id") = evt.id := by
      rw [hget,wireObject_id]
      rfl
    refine ⟨_,if_neg (by rw [hid]; exact hvalid.valid.id),hid,?_,?_,hvalid.time.symm,?_,?_⟩
    · change text ((wireObject evt).encoded.get "source") = _
      rw [hget,wireObject_source]
      rfl
    · change text ((wireObject evt).encoded.get "type") = _
      rw [hget,wireObject_type]
      rfl
    · change (wireObject evt).encoded.get "data" = _
      rw [hget,wireObject_data]
      cases hd : evt.data with
      | none => rfl
      | some d => rw [Option.map_some,(hvalid.data d hd).encoded_eq]
    · exact wireObject_extensions hvalid
  write_same := by
    intro evt evt' h
    change Except.ok (wireObject evt') = Except.ok (wireObject evt)
    simp only [wireObject,extensionMembers_same h,h.id,h.source,h.type,h.data]
  set_metadata := by
    rintro evt s ⟨hvalid,htime,hdata,hnames,hvalues⟩ -
    refine ⟨⟨hvalid.id,hvalid.source,hvalid.type⟩,htime,hdata,?_,?_⟩
    all_goals
      intro p hp
      rcases List.mem_append.mp hp with hp | hp
    · exact hnames p (List.mem_of_mem_filter hp)
    · cases List.mem_singleton.mp hp
      exact (by decide : extensionWorkMeta ∉ attributes)
    · exact hvalues p (List.mem_of_mem_filter hp)
    · cases List.mem_singleton.mp hp
      trivial

/-- The metadata of a work, with its members out of order. -/
def reorderedText : String :=
  JsonText.marshal (.obj [("namespace",.str "default"),("name",.str "work")])

def orderedMetadata : Object := [("name",.str "work"),("namespace",.str "default")]

theorem reorderedText_read :
    wirePackages.unmarshalMap reorderedText = .ok (some orderedMetadata) := by
  have h : ((wirePackages.unmarshalMap reorderedText).toOption.any
      (decide <| · = some orderedMetadata)) = true := by
    decide +kernel
  obtain ⟨m,hm,h⟩ := (Option.any_eq_true _ _).mp h
  rw [eq_ok_of_toOption hm,of_decide_eq_true h]

theorem orderedMetadata_decoded : (Json.obj orderedMetadata).Decoded := by
  refine ⟨⟨trivial,trivial,trivial⟩,?_⟩
  decide

theorem metadataEvent_wireValid : WireValid (metadataEvent reorderedText) where
  valid := ⟨by decide,by decide,by decide⟩
  time := rfl
  data d hd := by
    cases hd
    exact bundle_decoded
  names := by decide
  values := by
    intro p hp
    simp only [metadataEvent,specEvent,List.mem_append,List.mem_cons,List.not_mem_nil,or_false]
      at hp
    rcases hp with (rfl | rfl | rfl) | rfl <;> trivial

/-- A stored map in memory with its metadata in a map of its own. -/
def sharedHeap : MapHeap :=
  [⟨[("name",.leaf (.str "work")),("namespace",.leaf (.str "default"))],by decide +kernel⟩,
    ⟨[("id",.leaf (.str "spec")),("metadata",.map 0)],by decide +kernel⟩]

theorem sharedHeap_holds : Holds sharedHeap (.map 1)
    (.obj [("id",.str "spec"),("metadata",.obj orderedMetadata)]) := by
  have hleaf : ∀ s : String, Holds sharedHeap (.leaf (.str s)) (.str s) :=
    fun s => .leaf (by simp [Json.IsLeaf])
  have hmeta : Holds sharedHeap (.map 0) (.obj orderedMetadata) :=
    .map rfl (.cons (hleaf _) (.cons (hleaf _) .nil))
  exact .map rfl (.cons (hleaf _) (.cons hmeta .nil))

end Reference

/-- The members of the metadata come back in order, as the same object. -/
theorem stored_forms_inverse_reordered : ∃ payload evt',
    cloudEventToJSONMap Reference.wirePackages
      (Reference.metadataEvent Reference.reorderedText) = .ok payload ∧
    jsonMapToCloudEvent Reference.wirePackages payload = .ok evt' ∧
    SameUpToText Reference.wirePackages (Reference.metadataEvent Reference.reorderedText) evt' ∧
    cloudEventToJSONMap Reference.wirePackages evt' = .ok payload ∧
    ∃ n, ∀ fuel ≥ n, ∃ heap', (jsonMapToCloudEventIn Reference.wirePackages List.reverse fuel
        Reference.sharedHeap 1).2 = heap' ∧ Reference.sharedHeap <+: heap' := by
  obtain ⟨hwire,hstored,hmemory⟩ := stored_forms_inverse Reference.wirePackages
    Reference.WireValid Reference.wirePackages_sets Reference.wirePackages_json
    Reference.wirePackages_inverse Reference.wirePackages_objects rfl
  have hmeta : ObjectMetadata Reference.wirePackages
      (Reference.metadataEvent Reference.reorderedText) :=
    Or.inr ⟨_,_,rfl,Reference.reorderedText_read,Reference.orderedMetadata_decoded⟩
  obtain ⟨payload,hmap,hread⟩ := hwire _ hmeta
  obtain ⟨evt',hevt,hsame⟩ := hread Reference.metadataEvent_wireValid
  have hexact : ExactMetadata payload := by
    obtain ⟨payload',hmap',hexact,-⟩ := hmeta.toJSONMap Reference.wirePackages_json
    cases hmap.symm.trans hmap'
    exact hexact
  obtain ⟨evt'',hevt',hback⟩ := hstored _ payload Reference.metadataEvent_wireValid hexact hmap
  cases hevt.symm.trans hevt'
  obtain ⟨n,hn⟩ := hmemory List.reverse List.reverse_perm _ _ _ Reference.sharedHeap_holds
  refine ⟨payload,evt',hmap,hevt,hsame,hback,n,fun fuel hf => ?_⟩
  obtain ⟨heap',hrun,hle,-⟩ := hn fuel hf
  exact ⟨heap',congrArg Prod.snd hrun,hle⟩

end Maestro
