import Mathlib.Data.List.Nodup

/-!
# Exclusive locks

A lock belongs to the session whose open transaction took it and is released by
naming its owner. No key is held twice and no owner names two locks.
-/

namespace Data

/-- A held lock. -/
structure Lock (κ ο ι : Type) where
  key : κ
  owner : ο
  session : ι
deriving DecidableEq

structure LockTable (κ ο ι : Type) where
  held : List (Lock κ ο ι)
  keys : (held.map Lock.key).Nodup
  owners : (held.map Lock.owner).Nodup
deriving DecidableEq

namespace LockTable

variable {κ ο ι : Type} [DecidableEq κ] [DecidableEq ο]

def empty : LockTable κ ο ι := ⟨[],List.nodup_nil,List.nodup_nil⟩

/-- Take the lock on `k` under a fresh owner; not possible while the key is held. -/
def acquire (t : LockTable κ ο ι) (k : κ) (o : ο) (i : ι) : Option (LockTable κ ο ι) :=
  if h : k ∈ t.held.map Lock.key ∨ o ∈ t.held.map Lock.owner then none
  else some ⟨⟨k,o,i⟩ :: t.held,
    List.nodup_cons.mpr ⟨fun hk => h (Or.inl hk),t.keys⟩,
    List.nodup_cons.mpr ⟨fun ho => h (Or.inr ho),t.owners⟩⟩

/-- Release the lock of an owner. An unknown owner releases nothing. -/
def release (t : LockTable κ ο ι) (o : ο) : LockTable κ ο ι where
  held := t.held.filter fun l => l.owner ≠ o
  keys := t.keys.sublist (List.filter_sublist.map _)
  owners := t.owners.sublist (List.filter_sublist.map _)

omit [DecidableEq κ] in
@[simp] theorem mem_release {t : LockTable κ ο ι} {o : ο} {l : Lock κ ο ι} :
    l ∈ (t.release o).held ↔ l ∈ t.held ∧ l.owner ≠ o := by
  simp [release]

theorem mem_acquire {t t' : LockTable κ ο ι} {k : κ} {o : ο} {i : ι}
    (h : t.acquire k o i = some t') {l : Lock κ ο ι} :
    l ∈ t'.held ↔ l = ⟨k,o,i⟩ ∨ l ∈ t.held := by
  unfold acquire at h
  split at h
  · cases h
  · cases h; simp

omit [DecidableEq κ] [DecidableEq ο] in
/-- Exclusion: two holders of one key are the same lock. -/
theorem eq_of_key {t : LockTable κ ο ι} {l l' : Lock κ ο ι} (h : l ∈ t.held) (h' : l' ∈ t.held)
    (hk : l.key = l'.key) : l = l' :=
  List.inj_on_of_nodup_map t.keys h h' hk

omit [DecidableEq κ] [DecidableEq ο] in
theorem eq_of_owner {t : LockTable κ ο ι} {l l' : Lock κ ο ι} (h : l ∈ t.held) (h' : l' ∈ t.held)
    (ho : l.owner = l'.owner) : l = l' :=
  List.inj_on_of_nodup_map t.owners h h' ho

/-- A key that nobody holds can be taken under any unused owner. -/
theorem exists_acquire {t : LockTable κ ο ι} {k : κ} {o : ο} (i : ι)
    (hk : ∀ l ∈ t.held, l.key ≠ k) (ho : ∀ l ∈ t.held, l.owner ≠ o) :
    ∃ t', t.acquire k o i = some t' := by
  unfold acquire
  rw [dif_neg]
  · exact ⟨_,rfl⟩
  · rintro (h | h) <;> obtain ⟨l,hl,he⟩ := List.mem_map.mp h
    · exact hk l hl he
    · exact ho l hl he

end LockTable

end Data
