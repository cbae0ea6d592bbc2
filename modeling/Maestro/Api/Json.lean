import Mathlib.Data.Rat.Defs

namespace Maestro

/-- A JSON value as `encoding/json` decodes it into an `interface{}`, or a nil map that the
code has put in its place. Objects are listed in the order of their keys, each key once. -/
inductive Json
  | null
  | nilMap
  | bool (b : Bool)
  | num (q : ℚ)
  | str (s : String)
  | arr (xs : List Json)
  | obj (fields : List (String × Json))

namespace Json

mutual
def eqb : Json → Json → Bool
  | null, null => true
  | nilMap, nilMap => true
  | bool a, bool b => a == b
  | num a, num b => decide (a = b)
  | str a, str b => decide (a = b)
  | arr xs, arr ys => eqbList xs ys
  | obj xs, obj ys => eqbFields xs ys
  | _, _ => false
def eqbList : List Json → List Json → Bool
  | [], [] => true
  | x :: xs, y :: ys => eqb x y && eqbList xs ys
  | _, _ => false
def eqbFields : List (String × Json) → List (String × Json) → Bool
  | [], [] => true
  | (k,x) :: xs, (l,y) :: ys => decide (k = l) && eqb x y && eqbFields xs ys
  | _, _ => false
end

mutual
theorem eqb_iff : ∀ a b : Json, eqb a b = true ↔ a = b
  | null, b => by cases b <;> simp [eqb]
  | nilMap, b => by cases b <;> simp [eqb]
  | bool _, b => by cases b <;> simp [eqb]
  | num _, b => by cases b <;> simp [eqb]
  | str _, b => by cases b <;> simp [eqb]
  | arr xs, b => by cases b <;> simp [eqb,eqbList_iff xs]
  | obj xs, b => by cases b <;> simp [eqb,eqbFields_iff xs]
theorem eqbList_iff : ∀ a b : List Json, eqbList a b = true ↔ a = b
  | [], b => by cases b <;> simp [eqbList]
  | x :: xs, b => by cases b <;> simp [eqbList,eqb_iff x,eqbList_iff xs]
theorem eqbFields_iff : ∀ a b : List (String × Json), eqbFields a b = true ↔ a = b
  | [], b => by cases b <;> simp [eqbFields]
  | (k,x) :: xs, b => by
    cases b with
    | nil => simp [eqbFields]
    | cons p ys =>
      obtain ⟨l,y⟩ := p
      simp [eqbFields,eqb_iff x,eqbFields_iff xs,and_assoc]
end

instance : DecidableEq Json := fun a b => decidable_of_iff _ (eqb_iff a b)

mutual
/-- The value that is read back from the encoding of a value: a nil map is encoded as null. -/
def encoded : Json → Json
  | nilMap => null
  | arr xs => arr (encodedList xs)
  | obj fields => obj (encodedFields fields)
  | v => v
def encodedList : List Json → List Json
  | [] => []
  | x :: xs => encoded x :: encodedList xs
def encodedFields : List (String × Json) → List (String × Json)
  | [] => []
  | (k,x) :: xs => (k,encoded x) :: encodedFields xs
end

mutual
theorem encoded_encoded : ∀ v : Json, v.encoded.encoded = v.encoded
  | null | nilMap | bool _ | num _ | str _ => by simp [encoded]
  | arr xs => by simp [encoded,encodedList_encodedList xs]
  | obj fields => by simp [encoded,encodedFields_encodedFields fields]
theorem encodedList_encodedList : ∀ xs : List Json,
    encodedList (encodedList xs) = encodedList xs
  | [] => by simp [encodedList]
  | x :: xs => by simp [encodedList,encoded_encoded x,encodedList_encodedList xs]
theorem encodedFields_encodedFields : ∀ fields : List (String × Json),
    encodedFields (encodedFields fields) = encodedFields fields
  | [] => by simp [encodedFields]
  | (k,x) :: xs => by simp [encodedFields,encoded_encoded x,encodedFields_encodedFields xs]
end

end Json

/-- The fields of a JSON object, as a Go map: ordered by key, each key once. -/
abbrev Object := List (String × Json)

namespace Object

def get (m : Object) (key : String) : Option Json := (m.find? fun p => p.1 = key).map Prod.snd

def encoded (m : Object) : Object := Json.encodedFields m

theorem encoded_encoded (m : Object) : m.encoded.encoded = m.encoded :=
  Json.encodedFields_encodedFields m

theorem length_encoded (m : Object) : m.encoded.length = m.length := by
  induction m with
  | nil => rfl
  | cons p m ih => simpa [encoded,Json.encodedFields] using ih

theorem get_encoded (m : Object) (key : String) :
    m.encoded.get key = (m.get key).map Json.encoded := by
  induction m with
  | nil => rfl
  | cons p m ih =>
    obtain ⟨k,v⟩ := p
    by_cases hk : k = key
    · simp [encoded,Json.encodedFields,get,hk]
    · simpa [encoded,Json.encodedFields,get,hk] using ih

/-- `m[key] = value`, at the place of the key in the order. -/
def set : Object → String → Json → Object
  | [], key, value => [(key,value)]
  | (k,v) :: m, key, value =>
    if key = k then (key,value) :: m
    else if key < k then (key,value) :: (k,v) :: m
    else (k,v) :: set m key value

theorem get_set_self (m : Object) (key : String) (value : Json) :
    (m.set key value).get key = some value := by
  induction m with
  | nil => simp [set,get]
  | cons p m ih =>
    obtain ⟨k,v⟩ := p
    rw [set]
    split
    · simp [get]
    · next hk =>
      split
      · simp [get]
      · simpa [get,Ne.symm hk] using ih

theorem get_set_ne (m : Object) {key other : String} (h : other ≠ key) (value : Json) :
    (m.set key value).get other = m.get other := by
  induction m with
  | nil => simp [set,get,h.symm]
  | cons p m ih =>
    obtain ⟨k,v⟩ := p
    rw [set]
    split
    · next hk => simp [get,← hk,h.symm]
    · split
      · simp [get,h.symm]
      · by_cases hk : k = other
        · simp [get,hk]
        · simpa [get,hk] using ih

theorem set_set (m : Object) (key : String) (v w : Json) :
    (m.set key v).set key w = m.set key w := by
  induction m with
  | nil => simp [set]
  | cons p m ih =>
    obtain ⟨k,x⟩ := p
    by_cases hk : key = k
    · simp [set,hk]
    · by_cases hlt : key < k
      · simp [set,hk,hlt]
      · simp [set,hk,hlt,ih]

theorem encoded_set (m : Object) (key : String) (value : Json) :
    (m.set key value).encoded = m.encoded.set key value.encoded := by
  induction m with
  | nil => simp [set,encoded,Json.encodedFields]
  | cons p m ih =>
    obtain ⟨k,v⟩ := p
    simp only [encoded,Json.encodedFields,set] at ih ⊢
    split
    · simp [Json.encodedFields]
    · split
      · simp [Json.encodedFields]
      · simpa [Json.encodedFields] using ih

end Object

theorem Json.encoded_obj (m : Object) : (Json.obj m).encoded = .obj m.encoded := by
  rw [Json.encoded,Object.encoded]

/-- `datatypes.JSONMap`. `none` is the nil map, which differs from the empty one. -/
abbrev JSONMap := Option Object

namespace JSONMap

/-- The entries that `range` and an index expression see; a nil map has none. -/
def entries (m : JSONMap) : Object := m.getD []

def len (m : JSONMap) : ℕ := m.entries.length

def get (m : JSONMap) (key : String) : Option Json := m.entries.get key

/-- `JSONMap.Scan` of the column that the map was written to. It reads a NULL column as an
empty map, never as nil. -/
def scan (column : JSONMap) : JSONMap := some column.entries.encoded

theorem scan_scan (m : JSONMap) : m.scan.scan = m.scan :=
  congrArg some m.entries.encoded_encoded

theorem len_scan (m : JSONMap) : m.scan.len = m.len := m.entries.length_encoded

/-- A map put into an `interface{}`. -/
def toJson : JSONMap → Json
  | none => .nilMap
  | some m => .obj m

end JSONMap

end Maestro
