import Mathlib.Data.List.Induction
import Mathlib.Data.List.Nodup
import Mathlib.Order.Lattice

/-!
# Entries of a map

A finite map as the list of its entries, ordered by key, each key once.
-/

namespace Data.Entries

variable {κ α : Type*} [LinearOrder κ]

/-- The keys are in order. -/
def Sorted (m : List (κ × α)) : Prop := (m.map Prod.fst).Pairwise (· < ·)

instance (m : List (κ × α)) : Decidable (Sorted m) :=
  inferInstanceAs (Decidable (List.Pairwise _ _))

def get (m : List (κ × α)) (key : κ) : Option α := (m.find? fun p => p.1 = key).map Prod.snd

/-- The assignment of a value to a key, at the place of the key in the order. -/
def set : List (κ × α) → κ → α → List (κ × α)
  | [], key, value => [(key,value)]
  | (k,v) :: m, key, value =>
    if key = k then (key,value) :: m
    else if key < k then (key,value) :: (k,v) :: m
    else (k,v) :: set m key value

theorem mem_keys_set {m : List (κ × α)} {key k : κ} {v : α}
    (h : k ∈ (set m key v).map Prod.fst) : k = key ∨ k ∈ m.map Prod.fst := by
  induction m with
  | nil => simpa [set] using h
  | cons p m ih =>
    obtain ⟨l,x⟩ := p
    rw [set] at h
    split at h
    · next hl => simpa [hl] using h
    · split at h
      · simpa using h
      · rcases List.mem_cons.mp h with hk | hk
        · exact Or.inr (by simp [show k = l from hk])
        · rcases ih hk with hk | hk
          · exact Or.inl hk
          · exact Or.inr (List.mem_cons_of_mem _ hk)

theorem Sorted.set {m : List (κ × α)} (h : Sorted m) (key : κ) (v : α) :
    Sorted (Entries.set m key v) := by
  induction m with
  | nil => simp [Sorted,Entries.set]
  | cons p m ih =>
    obtain ⟨k,x⟩ := p
    obtain ⟨hk,hm⟩ := List.pairwise_cons.mp h
    rw [Entries.set]
    split
    · next he => rw [he]; exact h
    · next hne =>
      split
      · next hlt =>
        refine List.pairwise_cons.mpr ⟨fun l hl => ?_,h⟩
        rcases List.mem_cons.mp hl with rfl | hl
        · exact hlt
        · exact lt_trans hlt (hk l hl)
      · next hge =>
        refine List.pairwise_cons.mpr ⟨fun l hl => ?_,ih hm⟩
        rcases mem_keys_set hl with rfl | hl
        · exact lt_of_le_of_ne (not_lt.mp hge) (Ne.symm hne)
        · exact hk l hl

/-- A larger key goes to the end. -/
theorem set_of_lt {m : List (κ × α)} {key : κ} (h : ∀ k ∈ m.map Prod.fst, k < key) (v : α) :
    set m key v = m ++ [(key,v)] := by
  induction m with
  | nil => rfl
  | cons p m ih =>
    obtain ⟨k,x⟩ := p
    have hk : k < key := h k (by simp)
    rw [set,if_neg hk.ne',if_neg (lt_asymm hk),ih fun l hl => h l (by simp [hl])]
    rfl

theorem set_comm (m : List (κ × α)) {a b : κ} (h : a ≠ b) (x y : α) :
    set (set m a x) b y = set (set m b y) a x := by
  induction m with
  | nil =>
    rcases lt_or_gt_of_ne h with hlt | hlt
    · simp [set,h,h.symm,hlt,lt_asymm hlt]
    · simp [set,h,h.symm,hlt,lt_asymm hlt]
  | cons p m ih =>
    obtain ⟨k,v⟩ := p
    -- both keys have their places relative to the first one
    rcases lt_trichotomy a k with ha | ha | ha <;> rcases lt_trichotomy b k with hb | hb | hb
    all_goals grind [set]

theorem get_eq_none {m : List (κ × α)} {key : κ} (h : ∀ k ∈ m.map Prod.fst, key < k) :
    get m key = none := by
  simp only [get,Option.map_eq_none_iff,List.find?_eq_none,decide_eq_true_eq]
  intro p hp
  exact (h p.1 (List.mem_map_of_mem hp)).ne'

/-- No key is before the first one. -/
theorem Sorted.le_of_get {m : List (κ × α)} {k key : κ} {x v : α} (h : Sorted ((k,x) :: m))
    (hv : get ((k,x) :: m) key = some v) : k ≤ key := by
  by_contra hlt
  have hnone : get ((k,x) :: m) key = none := get_eq_none fun l hl => by
    rcases List.mem_cons.mp hl with rfl | hl
    · exact not_le.mp hlt
    · exact lt_trans (not_le.mp hlt) ((List.pairwise_cons.mp h).1 l hl)
  rw [hv] at hnone
  cases hnone

theorem get_cons_self (m : List (κ × α)) (k : κ) (x : α) : get ((k,x) :: m) k = some x := by
  simp [get]

/-- Maps with the same values are the same. -/
theorem Sorted.eq_of_get {m m' : List (κ × α)} (h : Sorted m) (h' : Sorted m')
    (hget : ∀ key, get m key = get m' key) : m = m' := by
  induction m generalizing m' with
  | nil =>
    cases m' with
    | nil => rfl
    | cons p m' => simpa [get] using hget p.1
  | cons p m ih =>
    obtain ⟨k,x⟩ := p
    cases m' with
    | nil => simpa [get] using hget k
    | cons q m' =>
      obtain ⟨l,y⟩ := q
      have hkl : k = l := le_antisymm
        (h.le_of_get ((hget l).trans (get_cons_self m' l y)))
        (h'.le_of_get ((hget k).symm.trans (get_cons_self m k x)))
      subst hkl
      have hxy : x = y := by simpa [get] using hget k
      subst hxy
      obtain ⟨hk,hm⟩ := List.pairwise_cons.mp h
      obtain ⟨hl,hm'⟩ := List.pairwise_cons.mp h'
      congr 1
      refine ih hm hm' fun key => ?_
      by_cases hkey : key = k
      · rw [hkey,get_eq_none hk,get_eq_none hl]
      · simpa [get,Ne.symm hkey] using hget key

/-- The map that assignments in the order of a list make. -/
def ofList (members : List (κ × α)) : List (κ × α) :=
  members.foldl (fun m p => set m p.1 p.2) []

theorem ofList_sorted {m : List (κ × α)} (h : Sorted m) : ofList m = m := by
  induction m using List.reverseRecOn with
  | nil => rfl
  | append_singleton m p ih =>
    rw [Sorted,List.map_append,List.pairwise_append] at h
    rw [ofList,List.foldl_append]
    change set (ofList m) p.1 p.2 = _
    rw [ih h.1]
    exact set_of_lt (fun k hk => h.2.2 k hk p.1 (by simp)) p.2

/-- A map is copied by assignments in any order of its entries. -/
theorem ofList_perm {m members : List (κ × α)} (h : Sorted m) (hperm : members.Perm m) :
    ofList members = m := by
  have hnodup : (members.map Prod.fst).Nodup :=
    (hperm.map Prod.fst).nodup_iff.mpr (List.Pairwise.imp ne_of_lt h)
  have hcomm : ∀ p ∈ members, ∀ q ∈ members, ∀ m' : List (κ × α),
      set (set m' p.1 p.2) q.1 q.2 = set (set m' q.1 q.2) p.1 p.2 := by
    intro p hp q hq m'
    by_cases hk : p.1 = q.1
    · rw [List.inj_on_of_nodup_map hnodup hp hq hk]
    · exact set_comm m' hk p.2 q.2
  exact (hperm.foldl_eq' hcomm []).trans (ofList_sorted h)

end Data.Entries
