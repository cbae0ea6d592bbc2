import Maestro.Client.ManifestWork
import Maestro.Data.Significand

/-!
# The integers in manifests

A published event is read into a generic map before it is stored, and each manifest is read into
one again before it is shown. Reading a number into such a map rounds it to the 53 bits of a
`float64`, so an integer of a manifest arrives at the agent and at the REST API if and only if
it has no more significant bits than that.
-/

namespace Maestro
open Concurrent Data

/-- The value at a place in the manifests of an event. -/
def CloudEvent.manifestValue (evt : CloudEvent) (i : ℕ) (path : List Json.Step) : Option Json :=
  evt.data.bind fun d => d.valueAt (.key "manifests" :: .index i :: path)

/-- The value at a place in the manifests of a bundle. -/
def ResourceBundle.manifestValue (rb : ResourceBundle) (i : ℕ) (path : List Json.Step) :
    Option Json :=
  rb.manifests[i]?.bind fun m => m.toJson.valueAt path

/-- JSON is read into maps with the numbers replaced by `f`, which rounds integers to the bits of
a `float64`. An event keeps its data as they are written, and a manifest its text. -/
structure RoundsNumbers (ext : External) (f : ℚ → ℚ) : Prop where
  integers : ∀ n : ℤ, |n| ≤ 2 ^ 63 → ∃ r : ℤ, f n = r ∧ RoundsTo 53 n r
  writeEvent : ∀ evt o d, ext.jsonOfEvent evt = .ok o → evt.data = some d → d.Canonical →
    o.get "data" = some (d.mapNum f)
  readEvent : ∀ o evt d, ext.eventOfJSON o = .ok evt → o.get "data" = some (.obj d) →
    evt.data = some (.obj d)
  setExtension : ∀ evt name v, (ext.setExtension evt name v).data = evt.data
  readBundle : ∀ evt bundle (d : Object) xs (i : ℕ) v, ext.dataAsManifestBundle evt = .ok bundle →
    evt.data = some (.obj d) → d.get "manifests" = some (.arr xs) → xs[i]? = some v →
    v ≠ .null → bundle.manifests[i]? = some (ext.marshal v)
  readManifest : ∀ v m, v.Canonical → v ≠ .null → ext.unmarshalMap (ext.marshal v) = .ok m →
    ∃ fields, v = .obj fields ∧ m = some (Json.mapNumFields f fields)

section Path

variable {ext : External} {f : ℚ → ℚ} {evt evt' : CloudEvent} {payload : JSONMap} {d : Object}

theorem CloudEvent.manifestValue_eq_some {i : ℕ} {path : List Json.Step} {w : Json}
    (h : evt.manifestValue i path = some w) : ∃ (d : Object) (xs : List Json) (v : Json),
      evt.data = some (.obj d) ∧ d.get "manifests" = some (.arr xs) ∧ xs[i]? = some v ∧
      v.valueAt path = some w := by
  obtain ⟨v,hv,h⟩ := Option.bind_eq_some_iff.mp h
  cases v with
  | obj d =>
    obtain ⟨v,hget,h⟩ := Option.bind_eq_some_iff.mp h
    cases v with
    | arr xs =>
      obtain ⟨v,hi,h⟩ := Option.bind_eq_some_iff.mp h
      exact ⟨d,xs,v,hv,hget,hi,h⟩
    | _ => cases h
  | _ => cases h

theorem CloudEvent.manifestValue_mapNum {v : Json} (hd : evt.data = some v)
    (hd' : evt'.data = some (v.mapNum f)) (i : ℕ) (path : List Json.Step) :
    evt'.manifestValue i path = (evt.manifestValue i path).map (Json.mapNum f) := by
  rw [CloudEvent.manifestValue,CloudEvent.manifestValue,hd,hd',Option.bind_some,Option.bind_some,
    Json.valueAt_mapNum]

/-- The data of an event in the map that it is stored as. -/
theorem Stores.data (hext : RoundsNumbers ext f) (h : Stores ext evt payload)
    (hd : evt.data = some (.obj d)) (hc : (Json.obj d).Canonical) :
    payload.entries.encoded.get "data" = some (.obj (Json.mapNumFields f d)) := by
  obtain ⟨o,hw,-,hp⟩ := h
  have hdata : o.encoded.get "data" = some (.obj (Json.mapNumFields f d)) := by
    rw [Object.get_encoded,hext.writeEvent evt o _ hw hd hc,Option.map_some,
      (hc.mapNum f).encoded_eq,Json.mapNum]
  rw [hp]
  cases payload.get extensionWorkMeta with
  | none => exact hdata
  | some v =>
    rw [withMetadata,Object.encoded_set,Object.get_set_ne _ (by decide)]
    exact hdata

/-- The data of the event that is made of the stored map. -/
theorem Stores.data_read (hext : RoundsNumbers ext f) (h : Stores ext evt payload)
    (hd : evt.data = some (.obj d)) (hc : (Json.obj d).Canonical)
    (hj : jsonMapToCloudEvent ext payload = .ok evt') :
    evt'.data = some (.obj (Json.mapNumFields f d)) := by
  obtain ⟨-,hread⟩ := jsonMapToCloudEvent_eq_ok.mp hj
  refine hext.readEvent _ _ _ hread ?_
  have hdata := h.data hext hd hc
  unfold metadataAsText
  split
  · rw [Object.encoded_set,Object.get_set_ne _ (by decide)]
    exact hdata
  · exact hdata

theorem addressed_data (hext : RoundsNumbers ext f) (source : String)
    (eventType : CloudEventsType) (r : Resource) (uuid : String) (now : Time)
    (deletion : Option Time) :
    (deletionMarked ext uuid now deletion (addressed ext source eventType r evt)).data =
      evt.data := by
  cases deletion <;> simp only [deletionMarked,addressed,hext.setExtension]

/-- The data that the codec sends are those that were stored. -/
theorem encode_data (hext : RoundsNumbers ext f) {r : Resource} (h : Stores ext evt r.payload)
    (hd : evt.data = some (.obj d)) (hc : (Json.obj d).Canonical) {source : String}
    {eventType : CloudEventsType} {uuid : String} {now : Time} {out : CloudEvent}
    (he : encode ext source eventType uuid now r = .ok out) :
    out.data = some ((Json.obj d).mapNum f) := by
  obtain ⟨r',evt',hr,hj,rfl⟩ := encode_eq_ok.mp he
  rw [addressed_data hext,Json.mapNum]
  exact (h.reset hr).data_read hext hd hc hj

theorem presentResourceBundle_manifests {r : Resource} {rb : ResourceBundle}
    (h : presentResourceBundle ext r = .ok rb) (hlen : r.payload.len ≠ 0) :
    ∃ evt bundle, jsonMapToCloudEvent ext r.payload = .ok evt ∧
      ext.dataAsManifestBundle evt = .ok bundle ∧
      List.Forall₂ (fun raw m => ext.unmarshalMap raw = .ok m) bundle.manifests rb.manifests := by
  unfold presentResourceBundle at h
  split at h
  · cases h
  · next wrapper hdec =>
    split at h
    · cases h
    · cases wrapper with
      | none =>
        unfold decodeManifestBundle at hdec
        rw [if_neg hlen] at hdec
        repeat' split at hdec
        all_goals cases hdec
      | some wrapper =>
        cases h
        obtain ⟨evt,bundle,_,_,_,_,hevt,-,hdata,hman,-,-,rfl⟩ := decodeManifestBundle_eq_some hdec
        exact ⟨evt,bundle,hevt,hdata,unmarshalAll_eq_ok hman⟩

/-- A manifest that is shown was read twice. -/
theorem present_manifest (hext : RoundsNumbers ext f) {r : Resource} {rb : ResourceBundle}
    (h : Stores ext evt r.payload) (hd : evt.data = some (.obj d)) (hc : (Json.obj d).Canonical)
    {xs : List Json} (hxs : d.get "manifests" = some (.arr xs)) {i : ℕ} {v : Json}
    (hi : xs[i]? = some v) (hv : v ≠ .null) (hrb : presentResourceBundle ext r = .ok rb) :
    ∃ m, rb.manifests[i]? = some m ∧ m.toJson = v.mapNum (f ∘ f) := by
  have hdata := h.data hext hd hc
  have hlen : r.payload.len ≠ 0 :=
    JSONMap.len_scan r.payload ▸ JSONMap.len_ne_zero_of_get (m := r.payload.scan) hdata
  obtain ⟨evt',bundle,hevt,hbundle,hall⟩ := presentResourceBundle_manifests hrb hlen
  have hd' := h.data_read hext hd hc hevt
  have hxs' : Object.get (Json.mapNumFields f d) "manifests" =
      some (.arr (Json.mapNumList f xs)) := by
    rw [Json.get_mapNumFields,hxs,Option.map_some,Json.mapNum]
  have hi' : (Json.mapNumList f xs)[i]? = some (v.mapNum f) := by
    rw [Json.getElem?_mapNumList,hi,Option.map_some]
  have hne : v.mapNum f ≠ .null := by
    cases v <;> first | exact absurd rfl hv | simp [Json.mapNum]
  have hcv : v.Canonical := by
    rw [Json.Canonical] at hc
    have harr : (Json.arr xs).Canonical := Json.CanonicalFields.get hc.1 hxs
    rw [Json.Canonical] at harr
    exact harr.getElem? hi
  have hraw := hext.readBundle evt' bundle _ _ i _ hbundle hd' hxs' hi' hne
  obtain ⟨m,hm,hread⟩ := getElem?_of_forall₂ hall hraw
  obtain ⟨fields,hobj,rfl⟩ := hext.readManifest _ m (hcv.mapNum f) hne hread
  refine ⟨_,hm,?_⟩
  rw [← Json.mapNum_mapNum,hobj,Json.mapNum]
  rfl

end Path

/-- A number that was rounded once is not rounded further. -/
theorem RoundsNumbers.twice {ext : External} {f : ℚ → ℚ} (hext : RoundsNumbers ext f) {n : ℤ}
    (hn : |n| ≤ 2 ^ 63) : ∃ r : ℤ, f n = r ∧ f (f n) = r ∧ (r = n ↔ Fits 53 n) := by
  obtain ⟨r,hr,hround⟩ := hext.integers n hn
  have hfits : Fits 53 (2 ^ 63) := ⟨1,63,by norm_num,by norm_num⟩
  obtain ⟨r',hr',hround'⟩ := hext.integers r (hround.bounded hfits hn)
  refine ⟨r,hr,?_,hround.eq_iff⟩
  rw [hr,hr',hround'.eq_iff.mpr hround.fits]

/-- An integer of a published manifest is sent to the agent and shown as it was if and only if
it has at most 53 significant bits. The row is any that stores the payload of the event, as it
is listed and as `Get` returns it. -/
theorem manifest_integer_exact_iff (ext : External) (f : ℚ → ℚ) (hext : RoundsNumbers ext f)
    {evt : CloudEvent} {res : Resource} (hdec : decodeResourceSpec ext evt = .ok res)
    (hdata : ∀ d, evt.data = some d → d.Canonical) {row : ResourceRow}
    (hrow : row.payload = res.payload) {r : Resource}
    (hr : r = row.scan ∨ r = syncTimestampsFromResourceMeta ext row.scan) {i : ℕ}
    {path : List Json.Step} {n : ℤ} (hat : evt.manifestValue i path = some (.num n))
    (hlow : -2 ^ 63 ≤ n) (hhigh : n < 2 ^ 63) :
    (∀ source eventType uuid now out, encode ext source eventType uuid now r = .ok out →
        (out.manifestValue i path = some (.num n) ↔ Fits 53 n)) ∧
      ∀ rb, presentResourceBundle ext r = .ok rb →
        (rb.manifestValue i path = some (.num n) ↔ Fits 53 n) := by
  obtain ⟨d,xs,v,hd,hxs,hi,hv⟩ := CloudEvent.manifestValue_eq_some hat
  have hc := hdata _ hd
  have hscan : Stores ext evt row.scan.payload := by
    have hstored : Stores ext evt row.payload :=
      Stores.of_event (hrow ▸ decodeResourceSpec_payload hdec)
    exact hstored.scan
  have hstore : Stores ext evt r.payload := by
    rcases hr with rfl | rfl
    · exact hscan
    · exact hscan.syncTimestamps
  obtain ⟨k,hk,hkk,hexact⟩ := hext.twice (abs_le.mpr ⟨hlow,hhigh.le⟩)
  have hnum : ∀ q : ℤ, some (Json.num q) = some (.num n) ↔ q = n := by simp
  refine ⟨fun source eventType uuid now out he => ?_,fun rb hrb => ?_⟩
  · have hout : out.manifestValue i path = some (.num k) := by
      rw [CloudEvent.manifestValue_mapNum hd (encode_data hext hstore hd hc he),hat,
        Option.map_some,Json.mapNum,hk]
    rw [hout,hnum,hexact]
  · have hne : v ≠ .null := by
      rintro rfl
      cases path <;> simp [Json.valueAt] at hv
    obtain ⟨m,hm,hjson⟩ := present_manifest hext hstore hd hc hxs hi hne hrb
    have hshown : rb.manifestValue i path = some (.num k) := by
      rw [ResourceBundle.manifestValue,hm,Option.bind_some,hjson,Json.valueAt_mapNum,hv,
        Option.map_some,Json.mapNum,Function.comp_apply,hkk]
    rw [hshown,hnum,hexact]

namespace Reference

/-- An integer as it is read into a map. -/
def float64 (q : ℚ) : ℚ := roundBits 53 q.num

/-- The packages with numbers that are rounded when they are read into a map. -/
def roundingPackages : External :=
  { bundlePackages with
    unmarshalMap := fun raw => (JsonText.unmarshalMap raw).map fun m =>
      m.map (Json.mapNumFields float64)
    jsonOfEvent := fun evt =>
      .ok (wireObject { evt with data := evt.data.map (Json.mapNum float64) }) }

theorem roundingPackages_reads {v : Json} {m : JSONMap} (hc : v.Canonical) (hv : v ≠ .null)
    (h : roundingPackages.unmarshalMap (roundingPackages.marshal v) = .ok m) :
    ∃ fields, v = .obj fields ∧ m = some (Json.mapNumFields float64 fields) := by
  have hwhole : float64 ∘ Json.whole = float64 := by
    funext q
    simp [float64,Json.whole]
  change (JsonText.unmarshalMap (JsonText.marshal v)).map _ = _ at h
  cases v with
  | obj fields =>
    rw [JsonText.unmarshalMap_marshal_whole hc] at h
    cases h
    refine ⟨fields,rfl,?_⟩
    rw [← hwhole,← Json.mapNumFields_mapNumFields,hwhole]
    rfl
  | null => exact absurd rfl hv
  | nilMap => simp [Json.Canonical] at hc
  | _ =>
    rw [JsonText.unmarshalMap,JsonText.read_marshal hc,Json.mapNum] at h
    · cases h
    all_goals simp

theorem roundingPackages_rounds : RoundsNumbers roundingPackages float64 where
  integers n _ := ⟨roundBits 53 n,by rw [float64,Rat.num_intCast],
    roundBits_roundsTo (by decide) n⟩
  writeEvent := by
    rintro evt o d ⟨⟩ hd -
    rw [wireObject_data,hd]
    rfl
  readEvent o evt d h hd := by
    change wireEvent o = _ at h
    unfold wireEvent at h
    split at h
    · cases h
    · cases h
      exact hd
  setExtension _ _ _ := rfl
  readBundle := by
    rintro evt bundle d xs i v ⟨⟩ hd hxs hi -
    change (List.map JsonText.marshal (items ((object evt.data).get "manifests")))[i]? = _
    rw [hd,show object (some (.obj d)) = d from rfl,hxs,List.getElem?_map,
      show items (some (.arr xs)) = xs from rfl,hi]
    rfl
  readManifest _ _ hc hv h := roundingPackages_reads hc hv h

/-- A request to create a resource whose manifest holds an integer. -/
def countedEvent (n : ℤ) : CloudEvent :=
  { specEvent "create_request" "src" "web" "web" 0 with
    data := some (.obj [("manifests",.arr [.obj (configMap "web" ++ [("replicas",.num n)])])]) }

end Reference

theorem manifest_integer_exact_even : ∃ res out rb,
    decodeResourceSpec Reference.roundingPackages (Reference.countedEvent 9007199254740994) =
      .ok res ∧
    encode Reference.roundingPackages "maestro" ⟨"manifestbundles","spec",.createRequest⟩ "uuid" 7
      ((res.beforeCreate 0 "uuid").row 0).scan = .ok out ∧
    presentResourceBundle Reference.roundingPackages ((res.beforeCreate 0 "uuid").row 0).scan =
      .ok rb ∧
    out.manifestValue 0 [.key "replicas"] = some (.num (9007199254740994 : ℤ)) ∧
    rb.manifestValue 0 [.key "replicas"] = some (.num (9007199254740994 : ℤ)) := by
  have h : (decodeResourceSpec Reference.roundingPackages
      (Reference.countedEvent 9007199254740994)).toOption.any fun res =>
        (encode Reference.roundingPackages "maestro" ⟨"manifestbundles","spec",.createRequest⟩
          "uuid" 7 ((res.beforeCreate 0 "uuid").row 0).scan).toOption.isSome ∧
        (presentResourceBundle Reference.roundingPackages
          ((res.beforeCreate 0 "uuid").row 0).scan).toOption.isSome := by
    decide +kernel
  obtain ⟨res,hres,h⟩ := (Option.any_eq_true _ _).mp h
  obtain ⟨he,hp⟩ := of_decide_eq_true h
  obtain ⟨out,hout⟩ := Option.isSome_iff_exists.mp he
  obtain ⟨rb,hrb⟩ := Option.isSome_iff_exists.mp hp
  have hdec := eq_ok_of_toOption hres
  have hout := eq_ok_of_toOption hout
  have hrb := eq_ok_of_toOption hrb
  have hcanonical : ∀ d, (Reference.countedEvent 9007199254740994).data = some d →
      d.Canonical := by
    rintro d ⟨⟩
    simp only [Json.Canonical,Json.CanonicalFields,Json.CanonicalList,Reference.configMap,
      List.cons_append,List.nil_append]
    decide +kernel
  have hat : (Reference.countedEvent 9007199254740994).manifestValue 0 [.key "replicas"] =
      some (.num (9007199254740994 : ℤ)) := by decide +kernel
  have hrow : ((res.beforeCreate 0 "uuid").row 0).payload = res.payload := rfl
  have hfits : Fits 53 9007199254740994 := ⟨4503599627370497,1,by norm_num,by norm_num⟩
  obtain ⟨hsent,hshown⟩ := manifest_integer_exact_iff Reference.roundingPackages _
    Reference.roundingPackages_rounds hdec hcanonical hrow (Or.inl rfl) hat (by norm_num)
    (by norm_num)
  exact ⟨res,out,rb,hdec,hout,hrb,(hsent _ _ _ _ out hout).mpr hfits,(hshown rb hrb).mpr hfits⟩

/-- An integer with 54 significant bits is another one when it is sent and shown. -/
theorem manifest_integer_rounded : ∃ turns s row out rb,
    turns.map Turn.request =
      [.publish { event := .ok (Reference.countedEvent 9007199254740993), user := "src" }] ∧
    Serves Reference.roundingPackages openServer (fun _ _ => true) {} turns s ∧
    s.resources.find "web" = some row ∧
    encode Reference.roundingPackages "maestro" ⟨"manifestbundles","spec",.createRequest⟩ "uuid" 7
      row.scan = .ok out ∧
    presentResourceBundle Reference.roundingPackages row.scan = .ok rb ∧
    out.manifestValue 0 [.key "replicas"] = some (.num 9007199254740992) ∧
    rb.manifestValue 0 [.key "replicas"] = some (.num 9007199254740992) := by
  have h : (serialRun exec
      (fun turn : Turn => turn.request.run Reference.roundingPackages openServer) Turn.env
      (fun _ _ => true) 0 (untroubled [.publish
        { event := .ok (Reference.countedEvent 9007199254740993), user := "src" }]) {}).any fun s =>
      (s.resources.find "web").any fun row =>
        ((encode Reference.roundingPackages "maestro" ⟨"manifestbundles","spec",.createRequest⟩
          "uuid" 7 row.scan).toOption.any fun out =>
            out.manifestValue 0 [.key "replicas"] = some (.num 9007199254740992)) ∧
        (presentResourceBundle Reference.roundingPackages row.scan).toOption.any fun rb =>
          rb.manifestValue 0 [.key "replicas"] = some (.num 9007199254740992) := by
    decide +kernel
  obtain ⟨s,hrun,h⟩ := (Option.any_eq_true _ _).mp h
  obtain ⟨row,hrow,h⟩ := (Option.any_eq_true _ _).mp h
  obtain ⟨he,hp⟩ := of_decide_eq_true h
  obtain ⟨out,hout,hsent⟩ := (Option.any_eq_true _ _).mp he
  obtain ⟨rb,hrb,hshown⟩ := (Option.any_eq_true _ _).mp hp
  exact ⟨_,s,row,out,rb,rfl,Serial.of_run .nil hrun,hrow,eq_ok_of_toOption hout,
    eq_ok_of_toOption hrb,of_decide_eq_true hsent,of_decide_eq_true hshown⟩

end Maestro
