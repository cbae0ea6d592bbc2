import Maestro.Api.JsonText
import Maestro.Api.ResourceBundle

/-!
# Maps in memory

A Go map is a reference, and the objects inside a decoded map are maps of their own. Here
`JSONMAPToCloudEvent` runs on the maps in memory: it copies the entries of its argument one
by one, so that the copy shares every nested map, and assigns to the copy. What it returns
is what the function on values returns, and no map that existed before is changed.
-/

namespace Maestro
open Data

/-- A value in a map. Nested maps are references. -/
inductive Cell
  | leaf (v : Json)
  | slice (items : List Cell)
  | map (ref : ℕ)

/-- A map in memory. -/
structure GoMap where
  entries : List (String × Cell)
  sorted : Entries.Sorted entries

namespace GoMap

def empty : GoMap := ⟨[],List.Pairwise.nil⟩

/-- `m[key] = value`. -/
def set (m : GoMap) (key : String) (value : Cell) : GoMap :=
  ⟨Entries.set m.entries key value,m.sorted.set key value⟩

theorem ext {m m' : GoMap} (h : m.entries = m'.entries) : m = m' := by
  cases m
  cases m'
  cases h
  rfl

theorem entries_foldl_set (members : List (String × Cell)) (m : GoMap) :
    (members.foldl (fun m p => m.set p.1 p.2) m).entries =
      members.foldl (fun m p => Entries.set m p.1 p.2) m.entries := by
  induction members generalizing m with
  | nil => rfl
  | cons p members ih => exact ih (m.set p.1 p.2)

/-- The loop of a copy makes the same map in every order. -/
theorem foldl_set_perm {m : GoMap} {members : List (String × Cell)}
    (h : members.Perm m.entries) : members.foldl (fun m p => m.set p.1 p.2) empty = m := by
  refine ext ?_
  rw [entries_foldl_set]
  exact Entries.ofList_perm m.sorted h

end GoMap

/-- The maps that exist, by reference. -/
abbrev MapHeap := List GoMap

namespace MapHeap

/-- A new map; its reference is the number of maps before. -/
def alloc (heap : MapHeap) (m : GoMap) : MapHeap := heap ++ [m]

/-- An assignment to the map of a reference. -/
def assign (heap : MapHeap) (ref : ℕ) (key : String) (value : Cell) : MapHeap :=
  heap.modify ref (·.set key value)

/-- The value that the encoder sees, `none` where the nesting does not end within the fuel. -/
def value (heap : MapHeap) : ℕ → Cell → Option Json
  | 0, _ => none
  | _ + 1, .leaf v => some v
  | n + 1, .slice items => (items.mapM fun c => value heap n c).map .arr
  | n + 1, .map ref => match heap[ref]? with
    | none => some .nilMap
    | some m => (m.entries.mapM fun p => (value heap n p.2).map (Prod.mk p.1)).map .obj

theorem kept {heap heap' : MapHeap} (hle : heap <+: heap') {ref : ℕ} {m : GoMap}
    (h : heap[ref]? = some m) : heap'[ref]? = some m := by
  obtain ⟨added,rfl⟩ := hle
  exact List.getElem?_append_left (List.getElem?_eq_some_iff.mp h).1 ▸ h

theorem assign_alloc (heap : MapHeap) (m : GoMap) (key : String) (value : Cell) :
    (heap.alloc m).assign heap.length key value = heap.alloc (m.set key value) := by
  simp [alloc,assign,List.modify_eq_set_getElem?]

theorem foldl_assign_alloc (heap : MapHeap) (members : List (String × Cell)) (m : GoMap) :
    members.foldl (fun heap' p => heap'.assign heap.length p.1 p.2) (heap.alloc m) =
      heap.alloc (members.foldl (fun m p => m.set p.1 p.2) m) := by
  induction members generalizing m with
  | nil => rfl
  | cons p members ih => rw [List.foldl_cons,assign_alloc,ih,List.foldl_cons]

end MapHeap

/-- The error of the encoder where a map contains itself. -/
def cycleError : String :=
  "json: unsupported value: encountered a cycle via map[string]interface \x7b\x7d"

section JSONMAPToCloudEvent

variable (ext : External)

/-- `json.Marshal` of a value in memory. -/
def marshalCell (fuel : ℕ) (heap : MapHeap) (cell : Cell) : Except String String :=
  match heap.value fuel cell with
  | none => .error cycleError
  | some v => .ok (ext.marshal v.encoded)

/-- The event that is read from the text of a map. -/
def readEvent (res : Object) : Except String CloudEvent :=
  match ext.eventOfJSON res.encoded with
  | .error err => .error ("failed to unmarshal JSONMAP to cloudevent: " ++ err)
  | .ok evt => .ok evt

/-- `MarshalJSON` of a map in memory, and the event that is read from the text. -/
def eventOfMap (fuel : ℕ) (heap : MapHeap) (ref : ℕ) : Except String CloudEvent :=
  match heap.value fuel (.map ref) with
  | some (.obj res) => readEvent ext res
  | _ => .error ("failed to marshal JSONMAP to cloudevent JSON: " ++ cycleError)

/-- `JSONMAPToCloudEvent` on the map of a reference, with the maps that exist afterwards.
`range` is the order in which the loop meets the entries. -/
def jsonMapToCloudEventIn (range : List (String × Cell) → List (String × Cell)) (fuel : ℕ)
    (heap : MapHeap) (jsonmap : ℕ) : Except String CloudEvent × MapHeap :=
  match heap[jsonmap]? with
  | none => (.error "failed to convert empty jsonmap to cloudevent",heap)
  | some m =>
    if m.entries.length = 0 then
      (.error "failed to convert empty jsonmap to cloudevent",heap)
    else
      match Entries.get m.entries extensionWorkMeta with
      | some metadata =>
        let resCopy := heap.length
        let copied := (range m.entries).foldl (fun heap' p => heap'.assign resCopy p.1 p.2)
          (heap.alloc .empty)
        match marshalCell ext fuel copied metadata with
        | .error err => (.error ("failed to marshal metadata to JSON: " ++ err),copied)
        | .ok metaJson =>
          let written := copied.assign resCopy extensionWorkMeta (.leaf (.str metaJson))
          (eventOfMap ext fuel written resCopy,written)
      | none => (eventOfMap ext fuel heap jsonmap,heap)

end JSONMAPToCloudEvent

/-- The values that hold no other value. -/
def Json.IsLeaf : Json → Prop
  | .arr _ | .obj _ => False
  | _ => True

mutual
/-- The cell stands for the JSON value in this memory. -/
inductive Holds (heap : MapHeap) : Cell → Json → Prop
  | leaf {v : Json} : v.IsLeaf → Holds heap (.leaf v) v
  | slice {items : List Cell} {xs : List Json} : HoldsItems heap items xs →
    Holds heap (.slice items) (.arr xs)
  | map {ref : ℕ} {m : GoMap} {fields : Object} : heap[ref]? = some m →
    HoldsFields heap m.entries fields → Holds heap (.map ref) (.obj fields)
inductive HoldsItems (heap : MapHeap) : List Cell → List Json → Prop
  | nil : HoldsItems heap [] []
  | cons {c : Cell} {items : List Cell} {x : Json} {xs : List Json} : Holds heap c x →
    HoldsItems heap items xs → HoldsItems heap (c :: items) (x :: xs)
inductive HoldsFields (heap : MapHeap) : List (String × Cell) → Object → Prop
  | nil : HoldsFields heap [] []
  | cons {k : String} {c : Cell} {entries : List (String × Cell)} {x : Json} {fields : Object} :
    Holds heap c x → HoldsFields heap entries fields →
    HoldsFields heap ((k,c) :: entries) ((k,x) :: fields)
end

section Holds

variable {heap heap' : MapHeap}

mutual
/-- Maps that are added later change no value. -/
theorem Holds.mono (hle : heap <+: heap') : ∀ {c : Cell} {v : Json}, Holds heap c v →
    Holds heap' c v
  | _, _, .leaf hv => .leaf hv
  | _, _, .slice hitems => .slice (hitems.mono hle)
  | _, _, .map hm hfields => .map (MapHeap.kept hle hm) (hfields.mono hle)
theorem HoldsItems.mono (hle : heap <+: heap') : ∀ {items : List Cell} {xs : List Json},
    HoldsItems heap items xs → HoldsItems heap' items xs
  | _, _, .nil => .nil
  | _, _, .cons hc hitems => .cons (hc.mono hle) (hitems.mono hle)
theorem HoldsFields.mono (hle : heap <+: heap') : ∀ {entries : List (String × Cell)}
    {fields : Object}, HoldsFields heap entries fields → HoldsFields heap' entries fields
  | _, _, .nil => .nil
  | _, _, .cons hc hfields => .cons (hc.mono hle) (hfields.mono hle)
end

mutual
theorem Holds.value_eq : ∀ {c : Cell} {v : Json} {fuel : ℕ}, Holds heap c v →
    JsonText.weight v ≤ fuel → heap.value fuel c = some v
  | _, v, 0, _, hf => absurd (JsonText.weight_pos v) (by omega)
  | _, _, n + 1, .leaf _, _ => rfl
  | _, _, n + 1, .slice hitems, hf => by
    rw [JsonText.weight] at hf
    rw [MapHeap.value,hitems.mapM_value (by omega)]
    rfl
  | _, _, n + 1, .map hm hfields, hf => by
    rw [JsonText.weight] at hf
    rw [MapHeap.value,hm]
    change Option.map _ (List.mapM _ _) = _
    rw [hfields.mapM_value (by omega)]
    rfl
theorem HoldsItems.mapM_value : ∀ {items : List Cell} {xs : List Json} {fuel : ℕ},
    HoldsItems heap items xs → JsonText.weightItems xs ≤ fuel →
    (items.mapM fun c => heap.value fuel c) = some xs
  | _, _, _, .nil, _ => rfl
  | _, _, fuel, @HoldsItems.cons _ _ _ x xs hc hitems, hf => by
    rw [JsonText.weightItems] at hf
    have hx : JsonText.weight x ≤ fuel := by omega
    have hxs : JsonText.weightItems xs ≤ fuel := by omega
    simp [List.mapM_cons,hc.value_eq hx,hitems.mapM_value hxs]
theorem HoldsFields.mapM_value : ∀ {entries : List (String × Cell)} {fields : Object} {fuel : ℕ},
    HoldsFields heap entries fields → JsonText.weightMembers fields ≤ fuel →
    (entries.mapM fun p => (heap.value fuel p.2).map (Prod.mk p.1)) = some fields
  | _, _, _, .nil, _ => rfl
  | _, _, fuel, @HoldsFields.cons _ _ _ _ x fields hc hfields, hf => by
    rw [JsonText.weightMembers] at hf
    have hx : JsonText.weight x ≤ fuel := by omega
    have hfs : JsonText.weightMembers fields ≤ fuel := by omega
    simp [List.mapM_cons,hc.value_eq hx,hfields.mapM_value hfs]
end

theorem HoldsFields.length_eq : ∀ {entries : List (String × Cell)} {fields : Object},
    HoldsFields heap entries fields → entries.length = fields.length
  | _, _, .nil => rfl
  | _, _, .cons _ hfields => congrArg (· + 1) hfields.length_eq

/-- The entry of a key, in memory and as a value. -/
theorem HoldsFields.get {entries : List (String × Cell)} {fields : Object}
    (h : HoldsFields heap entries fields) (key : String) :
    (Entries.get entries key = none ∧ fields.get key = none) ∨
      ∃ c v, Entries.get entries key = some c ∧ fields.get key = some v ∧ Holds heap c v := by
  -- the relation is mutual with `Holds`, the list of entries is not
  induction entries generalizing fields with
  | nil =>
    cases h
    exact Or.inl ⟨rfl,rfl⟩
  | cons entry entries ih =>
    cases h with
    | @cons k c _ x _ hc hfields =>
      by_cases hk : k = key
      · exact Or.inr ⟨c,x,by simp [Entries.get,hk],by simp [Object.get,hk],hc⟩
      · simpa [Entries.get,Object.get,hk] using ih hfields

theorem HoldsFields.set {c : Cell} {v : Json} (hc : Holds heap c v) (key : String)
    {entries : List (String × Cell)} {fields : Object} (h : HoldsFields heap entries fields) :
    HoldsFields heap (Entries.set entries key c) (fields.set key v) := by
  induction entries generalizing fields with
  | nil =>
    cases h
    exact .cons hc .nil
  | cons entry entries ih =>
    cases h with
    | cons hx hfields =>
      rw [Entries.set,Object.set]
      split
      · exact .cons hc hfields
      · split
        · exact .cons hc (.cons hx hfields)
        · exact .cons hx (ih hfields)

variable {ext : External}

theorem Holds.marshalCell_eq {c : Cell} {v : Json} {fuel : ℕ} (h : Holds heap c v)
    (hf : JsonText.weight v ≤ fuel) : marshalCell ext fuel heap c = .ok (ext.marshal v.encoded) := by
  rw [marshalCell,h.value_eq hf]

theorem Holds.eventOfMap_eq {ref : ℕ} {m : Object} {fuel : ℕ} (h : Holds heap (.map ref) (.obj m))
    (hf : JsonText.weight (.obj m) ≤ fuel) :
    eventOfMap ext fuel heap ref = readEvent ext m := by
  rw [eventOfMap,h.value_eq hf]

theorem jsonMapToCloudEvent_of_len {jsonmap : JSONMap} (h : jsonmap.len ≠ 0) :
    jsonMapToCloudEvent ext jsonmap = readEvent ext (metadataAsText ext jsonmap) := by
  cases hread : ext.eventOfJSON (metadataAsText ext jsonmap).encoded <;>
    simp only [jsonMapToCloudEvent,if_neg h,readEvent,hread]

/-- On the maps in memory the function returns the event of the value, and the maps that
existed before it are the first of those that exist after it. -/
theorem jsonMapToCloudEventIn_eq {range : List (String × Cell) → List (String × Cell)}
    (hrange : ∀ entries, (range entries).Perm entries) {jsonmap : ℕ} {m : Object}
    (h : Holds heap (.map jsonmap) (.obj m)) : ∃ n, ∀ fuel ≥ n, ∃ heap',
      jsonMapToCloudEventIn ext range fuel heap jsonmap =
        (jsonMapToCloudEvent ext (some m),heap') ∧ heap <+: heap' := by
  have hmap := h
  obtain _ | _ | @⟨_,goMap,_,hm,hfields⟩ := h
  have hlen : goMap.entries.length = JSONMap.len (some m) := hfields.length_eq
  unfold jsonMapToCloudEventIn
  rw [hm]
  by_cases hz : JSONMap.len (some m) = 0
  · refine ⟨0,fun fuel _ => ⟨heap,?_,List.prefix_rfl⟩⟩
    rw [jsonMapToCloudEvent,if_pos hz]
    simp only [hlen,hz,if_true]
  rw [jsonMapToCloudEvent_of_len hz,metadataAsText]
  simp only [hlen,if_neg hz]
  rcases hfields.get extensionWorkMeta with ⟨hc,hv⟩ | ⟨c,v,hc,hv,hcell⟩
  · rw [show JSONMap.get (some m) extensionWorkMeta = none from hv]
    refine ⟨JsonText.weight (.obj m),fun fuel hf => ⟨heap,?_,List.prefix_rfl⟩⟩
    simp only [hc,hmap.eventOfMap_eq hf]
    rfl
  · rw [show JSONMap.get (some m) extensionWorkMeta = some v from hv]
    -- the copy is the only map that is written
    let written := goMap.set extensionWorkMeta (.leaf (.str (ext.marshal v.encoded)))
    let res := m.set extensionWorkMeta (.str (ext.marshal v.encoded))
    have hcopy := GoMap.foldl_set_perm (hrange goMap.entries)
    have hold : heap <+: heap.alloc goMap := List.prefix_append _ _
    have hnew : heap <+: heap.alloc written := List.prefix_append _ _
    have hres : Holds (heap.alloc written) (.map heap.length) (.obj res) := by
      refine .map (m := written) (by simp [MapHeap.alloc]) ?_
      exact (hfields.mono hnew).set (.leaf (by simp [Json.IsLeaf])) _
    refine ⟨JsonText.weight v + JsonText.weight (.obj res),fun fuel hf => ⟨_,?_,hnew⟩⟩
    have hmarshal : marshalCell ext fuel (heap.alloc goMap) c = .ok (ext.marshal v.encoded) :=
      (hcell.mono hold).marshalCell_eq (by omega)
    simp only [hc,MapHeap.foldl_assign_alloc,hcopy,hmarshal,MapHeap.assign_alloc]
    rw [hres.eventOfMap_eq (by omega)]
    rfl

end Holds

end Maestro
