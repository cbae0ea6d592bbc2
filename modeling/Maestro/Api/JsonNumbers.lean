import Maestro.Api.Json

/-!
# The numbers in JSON values

The numbers of a value can be replaced one by one, which leaves its objects and arrays, and so
the places in it, as they are.
-/

namespace Maestro

namespace Json

mutual
/-- The value with its numbers replaced. -/
def mapNum (f : ℚ → ℚ) : Json → Json
  | num q => num (f q)
  | arr xs => arr (mapNumList f xs)
  | obj fields => obj (mapNumFields f fields)
  | v => v
def mapNumList (f : ℚ → ℚ) : List Json → List Json
  | [] => []
  | x :: xs => mapNum f x :: mapNumList f xs
def mapNumFields (f : ℚ → ℚ) : List (String × Json) → List (String × Json)
  | [] => []
  | (k,x) :: xs => (k,mapNum f x) :: mapNumFields f xs
end

mutual
/-- A value that is read from a text: no nil map, and the keys of each object in order. -/
def Canonical : Json → Prop
  | nilMap => False
  | arr xs => CanonicalList xs
  | obj fields => CanonicalFields fields ∧ (fields.map Prod.fst).Pairwise (· < ·)
  | _ => True
def CanonicalList : List Json → Prop
  | [] => True
  | x :: xs => Canonical x ∧ CanonicalList xs
def CanonicalFields : List (String × Json) → Prop
  | [] => True
  | (_,x) :: xs => Canonical x ∧ CanonicalFields xs
end

mutual
theorem mapNum_mapNum (f g : ℚ → ℚ) : ∀ v : Json, (v.mapNum f).mapNum g = v.mapNum (g ∘ f)
  | null | nilMap | bool _ | num _ | str _ => by simp [mapNum]
  | arr xs => by simp [mapNum,mapNumList_mapNumList f g xs]
  | obj fields => by simp [mapNum,mapNumFields_mapNumFields f g fields]
theorem mapNumList_mapNumList (f g : ℚ → ℚ) : ∀ xs : List Json,
    mapNumList g (mapNumList f xs) = mapNumList (g ∘ f) xs
  | [] => by simp [mapNumList]
  | x :: xs => by simp [mapNumList,mapNum_mapNum f g x,mapNumList_mapNumList f g xs]
theorem mapNumFields_mapNumFields (f g : ℚ → ℚ) : ∀ fields : List (String × Json),
    mapNumFields g (mapNumFields f fields) = mapNumFields (g ∘ f) fields
  | [] => by simp [mapNumFields]
  | (k,x) :: xs => by simp [mapNumFields,mapNum_mapNum f g x,mapNumFields_mapNumFields f g xs]
end

theorem keys_mapNumFields (f : ℚ → ℚ) (fields : List (String × Json)) :
    (mapNumFields f fields).map Prod.fst = fields.map Prod.fst := by
  induction fields with
  | nil => rfl
  | cons p fields ih => simp [mapNumFields,ih]

mutual
theorem Canonical.mapNum (f : ℚ → ℚ) : ∀ {v : Json}, v.Canonical → (v.mapNum f).Canonical
  | null, _ | bool _, _ | num _, _ | str _, _ => by simp [Json.mapNum,Canonical]
  | nilMap, h => by simp [Canonical] at h
  | arr xs, h => by
    rw [Canonical] at h
    rw [Json.mapNum,Canonical]
    exact h.mapNum f
  | obj fields, h => by
    rw [Canonical] at h
    rw [Json.mapNum,Canonical,keys_mapNumFields]
    exact ⟨h.1.mapNum f,h.2⟩
theorem CanonicalList.mapNum (f : ℚ → ℚ) : ∀ {xs : List Json}, CanonicalList xs →
    CanonicalList (mapNumList f xs)
  | [], _ => by rw [mapNumList,CanonicalList]; trivial
  | x :: xs, h => by
    rw [CanonicalList] at h
    rw [mapNumList,CanonicalList]
    exact ⟨h.1.mapNum f,h.2.mapNum f⟩
theorem CanonicalFields.mapNum (f : ℚ → ℚ) : ∀ {fields : List (String × Json)},
    CanonicalFields fields → CanonicalFields (mapNumFields f fields)
  | [], _ => by rw [mapNumFields,CanonicalFields]; trivial
  | (k,x) :: fields, h => by
    rw [CanonicalFields] at h
    rw [mapNumFields,CanonicalFields]
    exact ⟨h.1.mapNum f,h.2.mapNum f⟩
end

mutual
theorem Canonical.encoded_eq : ∀ {v : Json}, v.Canonical → v.encoded = v
  | null, _ | bool _, _ | num _, _ | str _, _ => by simp [encoded]
  | nilMap, h => by simp [Canonical] at h
  | arr xs, h => by
    rw [Canonical] at h
    rw [encoded,h.encoded_eq]
  | obj fields, h => by
    rw [Canonical] at h
    rw [encoded,h.1.encoded_eq]
theorem CanonicalList.encoded_eq : ∀ {xs : List Json}, CanonicalList xs → encodedList xs = xs
  | [], _ => by rw [encodedList]
  | x :: xs, h => by
    rw [CanonicalList] at h
    rw [encodedList,h.1.encoded_eq,h.2.encoded_eq]
theorem CanonicalFields.encoded_eq : ∀ {fields : List (String × Json)}, CanonicalFields fields →
    encodedFields fields = fields
  | [], _ => by rw [encodedFields]
  | (k,x) :: fields, h => by
    rw [CanonicalFields] at h
    rw [encodedFields,h.1.encoded_eq,h.2.encoded_eq]
end

theorem CanonicalFields.get {m : Object} (h : CanonicalFields m) {key : String} {v : Json}
    (hv : m.get key = some v) : v.Canonical := by
  induction m with
  | nil => cases hv
  | cons p m ih =>
    obtain ⟨k,x⟩ := p
    rw [CanonicalFields] at h
    by_cases hk : k = key
    · have hx : x = v := by simpa [Object.get,hk] using hv
      exact hx ▸ h.1
    · exact ih h.2 (by simpa [Object.get,hk] using hv)

theorem CanonicalList.getElem? {xs : List Json} (h : CanonicalList xs) {i : ℕ} {v : Json}
    (hv : xs[i]? = some v) : v.Canonical := by
  induction xs generalizing i with
  | nil => cases hv
  | cons x xs ih =>
    rw [CanonicalList] at h
    cases i with
    | zero => exact Option.some.inj hv ▸ h.1
    | succ i => exact ih h.2 hv

theorem getElem?_mapNumList (f : ℚ → ℚ) (xs : List Json) (i : ℕ) :
    (mapNumList f xs)[i]? = xs[i]?.map (mapNum f) := by
  induction xs generalizing i with
  | nil => rfl
  | cons x xs ih =>
    cases i with
    | zero => rfl
    | succ i => simpa [mapNumList] using ih i

theorem get_mapNumFields (f : ℚ → ℚ) (m : Object) (key : String) :
    Object.get (mapNumFields f m) key = (m.get key).map (mapNum f) := by
  induction m with
  | nil => rfl
  | cons p m ih =>
    obtain ⟨k,v⟩ := p
    by_cases hk : k = key
    · simp [mapNumFields,Object.get,hk]
    · simpa [mapNumFields,Object.get,hk] using ih

/-- A step into a value. -/
inductive Step
  | key (k : String)
  | index (i : ℕ)

/-- The value at a place. -/
def valueAt : Json → List Step → Option Json
  | v, [] => some v
  | obj fields, .key k :: path => (Object.get fields k).bind fun v => valueAt v path
  | arr xs, .index i :: path => xs[i]?.bind fun v => valueAt v path
  | _, _ => none

/-- The places stay the same. -/
theorem valueAt_mapNum (f : ℚ → ℚ) (v : Json) (path : List Step) :
    (v.mapNum f).valueAt path = (v.valueAt path).map (mapNum f) := by
  induction path generalizing v with
  | nil => simp [valueAt]
  | cons step path ih =>
    cases v with
    | obj fields =>
      cases step with
      | index i => simp [mapNum,valueAt]
      | key k =>
        simp only [mapNum,valueAt,get_mapNumFields]
        cases Object.get fields k with
        | none => rfl
        | some x => simpa using ih x
    | arr xs =>
      cases step with
      | key k => simp [mapNum,valueAt]
      | index i =>
        simp only [mapNum,valueAt,getElem?_mapNumList]
        cases xs[i]? with
        | none => rfl
        | some x => simpa using ih x
    | _ => cases step <;> simp [mapNum,valueAt]

end Json

end Maestro
