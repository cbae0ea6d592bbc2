import Mathlib.Data.List.Nodup

/-!
# Tables with a primary key

Rows in insertion order, no two with the same key. The operations are those of
SQL statements on one table; each keeps the key constraint by construction, and
`find` through each of them is a simp lemma.
-/

namespace Data

/-- A list of rows in which `key` is a primary key. -/
structure Table {κ α : Type} (key : α → κ) where
  rows : List α
  nodup : (rows.map key).Nodup
deriving DecidableEq

namespace Table

variable {κ α : Type} [DecidableEq κ] {key : α → κ}

def empty : Table key := ⟨[],List.nodup_nil⟩

/-- The row with a given key. -/
def find (t : Table key) (k : κ) : Option α := t.rows.find? fun a => key a = k

/-- Rewrite every row by a function that keeps keys. -/
def map (t : Table key) (f : α → α) (hf : ∀ a, key (f a) = key a) : Table key where
  rows := t.rows.map f
  nodup := by
    have he : (t.rows.map f).map key = t.rows.map key := by simp [hf]
    rw [he]; exact t.nodup

/-- `UPDATE … WHERE key = k`. -/
def modify (t : Table key) (k : κ) (f : α → α) (hf : ∀ a, key (f a) = key a) : Table key :=
  t.map (fun a => if key a = k then f a else a) fun a => by split <;> simp [hf]

/-- `DELETE … WHERE NOT p`. -/
def filter (t : Table key) (p : α → Bool) : Table key where
  rows := t.rows.filter p
  nodup := t.nodup.sublist (List.filter_sublist.map key)

/-- `DELETE … WHERE key = k`. -/
def erase (t : Table key) (k : κ) : Table key := t.filter fun a => key a ≠ k

theorem find_eq_none_iff {t : Table key} {k : κ} : t.find k = none ↔ ∀ a ∈ t.rows, key a ≠ k := by
  simp [find]

/-- `INSERT` of a row whose key is free. -/
def insert (t : Table key) (a : α) (h : t.find (key a) = none) : Table key where
  rows := t.rows ++ [a]
  nodup := by
    have hn := find_eq_none_iff.mp h
    simp only [List.map_append,List.map_cons,List.map_nil,List.nodup_append]
    refine ⟨t.nodup,by simp,?_⟩
    intro x hx y hy
    obtain ⟨b,hb,rfl⟩ := List.mem_map.mp hx
    rw [List.mem_singleton.mp hy]
    exact hn b hb

/-- Replace the row with the same key, or insert one when there is none. -/
def save (t : Table key) (a : α) : Table key :=
  if h : t.find (key a) = none then t.insert a h
  else t.map (fun b => if key b = key a then a else b) fun b => by split <;> simp_all

theorem find_some_key {t : Table key} {k : κ} {a : α} (h : t.find k = some a) : key a = k := by
  simpa using List.find?_some h

theorem find_some_mem {t : Table key} {k : κ} {a : α} (h : t.find k = some a) : a ∈ t.rows :=
  List.mem_of_find?_eq_some h

omit [DecidableEq κ] in
theorem key_injOn (t : Table key) {a b : α} (ha : a ∈ t.rows) (hb : b ∈ t.rows)
    (h : key a = key b) : a = b :=
  List.inj_on_of_nodup_map t.nodup ha hb h

theorem find_of_mem {t : Table key} {a : α} (h : a ∈ t.rows) : t.find (key a) = some a := by
  cases hf : t.find (key a) with
  | none => exact absurd rfl (find_eq_none_iff.mp hf a h)
  | some b => rw [t.key_injOn (find_some_mem hf) h (find_some_key hf)]

theorem mem_iff_find {t : Table key} {a : α} : a ∈ t.rows ↔ t.find (key a) = some a :=
  ⟨find_of_mem,find_some_mem⟩

@[simp] theorem find_empty (k : κ) : (empty : Table key).find k = none := rfl

@[simp] theorem find_map (t : Table key) (f : α → α) (hf : ∀ a, key (f a) = key a) (k : κ) :
    (t.map f hf).find k = (t.find k).map f := by
  simp [find,map,List.find?_map,Function.comp_def,hf]

@[simp] theorem find_modify_self (t : Table key) (k : κ) (f : α → α)
    (hf : ∀ a, key (f a) = key a) : (t.modify k f hf).find k = (t.find k).map f := by
  rw [modify,find_map]
  cases h : t.find k with
  | none => rfl
  | some a => simp [find_some_key h]

theorem find_modify_ne (t : Table key) {k k' : κ} (f : α → α) (hf : ∀ a, key (f a) = key a)
    (hk : k' ≠ k) : (t.modify k f hf).find k' = t.find k' := by
  rw [modify,find_map]
  cases h : t.find k' with
  | none => rfl
  | some a => simp [find_some_key h,hk]

theorem find_modify (t : Table key) (k k' : κ) (f : α → α) (hf : ∀ a, key (f a) = key a) :
    (t.modify k f hf).find k' = if k' = k then (t.find k').map f else t.find k' := by
  split
  · next hk => subst hk; simp
  · next hk => exact find_modify_ne t f hf hk

@[simp] theorem find_filter (t : Table key) (p : α → Bool) (k : κ) :
    (t.filter p).find k = (t.find k).filter p := by
  cases h : t.find k with
  | none =>
    rw [find_eq_none_iff] at h
    exact find_eq_none_iff.mpr fun a ha => h a (List.mem_filter.mp ha).1
  | some a =>
    have hk := find_some_key h
    subst hk
    by_cases hp : p a
    · rw [Option.filter_some_pos hp]
      exact find_of_mem (List.mem_filter.mpr ⟨find_some_mem h,hp⟩)
    · rw [Option.filter_some_neg (by simpa using hp),find_eq_none_iff]
      intro b hb hkb
      obtain ⟨hm,hpb⟩ := List.mem_filter.mp hb
      exact hp (t.key_injOn hm (find_some_mem h) hkb ▸ hpb)

@[simp] theorem find_erase_self (t : Table key) (k : κ) : (t.erase k).find k = none := by
  rw [erase,find_filter]
  cases h : t.find k with
  | none => rfl
  | some a => simp [find_some_key h]

theorem find_erase_ne (t : Table key) {k k' : κ} (hk : k' ≠ k) :
    (t.erase k).find k' = t.find k' := by
  rw [erase,find_filter]
  cases h : t.find k' with
  | none => rfl
  | some a => simp [find_some_key h,hk]

@[simp] theorem find_insert_self (t : Table key) (a : α) (h : t.find (key a) = none) :
    (t.insert a h).find (key a) = some a :=
  find_of_mem (by simp [insert])

theorem find_insert_ne (t : Table key) (a : α) (h : t.find (key a) = none) {k : κ}
    (hk : k ≠ key a) : (t.insert a h).find k = t.find k := by
  simp [find,insert,List.find?_append,Ne.symm hk]

theorem find_erase (t : Table key) (k k' : κ) :
    (t.erase k).find k' = if k' = k then none else t.find k' := by
  split
  · next hk => subst hk; simp
  · next hk => exact find_erase_ne t hk

theorem find_insert (t : Table key) (a : α) (h : t.find (key a) = none) (k : κ) :
    (t.insert a h).find k = if k = key a then some a else t.find k := by
  split
  · next hk => subst hk; simp
  · next hk => exact find_insert_ne t a h hk

theorem mem_save {t : Table key} {a b : α} (h : b ∈ (t.save a).rows) : b = a ∨ b ∈ t.rows := by
  unfold save at h
  split at h
  · exact (List.mem_append.mp h).symm.imp_left List.mem_singleton.mp
  · obtain ⟨c,hc,rfl⟩ := List.mem_map.mp h
    split
    · exact Or.inl rfl
    · exact Or.inr hc

theorem find_save (t : Table key) (a : α) (k : κ) :
    (t.save a).find k = if key a = k then some a else t.find k := by
  unfold save
  split
  · next h =>
    by_cases hk : key a = k
    · subst k; simp
    · rw [if_neg hk,find_insert_ne t a h (Ne.symm hk)]
  · next h =>
    rw [find_map]
    cases hf : t.find k with
    | none =>
      have hk : key a ≠ k := by rintro rfl; exact h hf
      simp [hk]
    | some b =>
      have hb := find_some_key hf
      subst hb
      by_cases hk : key b = key a
      · simp [hk]
      · simp [hk,Ne.symm hk]

/-- A row that is erased and the others. -/
theorem perm_erase {t : Table key} {k : κ} {a : α} (h : t.find k = some a) :
    t.rows.Perm (a :: (t.erase k).rows) := by
  classical
  have hk := find_some_key h
  subst hk
  have hm := find_some_mem h
  have hsame : (t.erase (key a)).rows = t.rows.erase a := by
    rw [(List.Nodup.of_map _ t.nodup).erase_eq_filter]
    refine List.filter_congr fun b hb => ?_
    by_cases hba : b = a
    · simp [hba]
    · have hne : key b ≠ key a := fun he => hba (t.key_injOn hb hm he)
      simp [hba,hne]
  rw [hsame]
  exact List.perm_cons_erase hm

/-- The rows whose key is in `q`. -/
def restrict (t : Table key) (q : κ → Bool) : List α := t.rows.filter fun a => q (key a)

theorem restrict_insert (t : Table key) (q : κ → Bool) (a : α) (h : t.find (key a) = none) :
    (t.insert a h).restrict q = t.restrict q ++ if q (key a) then [a] else [] := by
  cases hq : q (key a) <;> simp [restrict,insert,hq]

theorem restrict_modify (t : Table key) (q : κ → Bool) (k : κ) (f : α → α)
    (hf : ∀ a, key (f a) = key a) : (t.modify k f hf).restrict q =
      (t.restrict q).map fun a => if key a = k then f a else a := by
  simp only [restrict,modify,map,List.filter_map]
  congr 2
  funext a
  simp only [Function.comp]
  split <;> simp [hf]

/-- A change of a row outside `q` is not seen there. -/
theorem restrict_modify_of_not (t : Table key) {q : κ → Bool} {k : κ} (f : α → α)
    (hf : ∀ a, key (f a) = key a) (hk : q k = false) :
    (t.modify k f hf).restrict q = t.restrict q := by
  rw [restrict_modify]
  refine (List.map_congr_left fun a ha => ?_).trans (List.map_id _)
  rw [if_neg]
  · rfl
  · rintro rfl
    simp [(List.mem_filter.mp ha).2] at hk

theorem find_restrict (t : Table key) {q : κ → Bool} {k : κ} (hk : q k = true) :
    t.find k = (t.restrict q).find? fun a => key a = k := by
  rw [find,restrict,List.find?_filter]
  congr 1
  funext a
  by_cases ha : key a = k
  · simp [ha,hk]
  · simp [ha]

end Table

end Data
