import Mathlib.Algebra.BigOperators.Intervals
import Mathlib.Algebra.Order.Floor.Div
import Mathlib.Data.List.Dedup
import Mathlib.Data.List.Forall2
import Mathlib.Data.List.TakeDrop

/-!
# Cutting a list into chunks

The consecutive parts of a list, all of one size but perhaps the last. The `k`-th part is
given by its index, as a loop over slices computes it. A list can also be cut into runs of equal
keys: when the keys of the runs differ, the list determines them.
-/

namespace Data

variable {α : Type}

/-- The `k`-th part of the given size. -/
def chunk (size : ℕ) (xs : List α) (k : ℕ) : List α := (xs.drop (k * size)).take size

def chunks (size : ℕ) (xs : List α) : List (List α) :=
  (List.range (xs.length ⌈/⌉ size)).map (chunk size xs)

@[simp] theorem chunks_length (size : ℕ) (xs : List α) :
    (chunks size xs).length = xs.length ⌈/⌉ size := by
  simp [chunks]

theorem chunk_length (size : ℕ) (xs : List α) (k : ℕ) :
    (chunk size xs k).length = min size (xs.length - k * size) := by
  simp [chunk]

/-- The parts that are not full. -/
theorem chunk_length_lt_iff {size : ℕ} (h : 0 < size) (xs : List α) (k : ℕ) :
    (chunk size xs k).length < size ↔ xs.length / size ≤ k := by
  have hdiv : xs.length / size < k+1 ↔ xs.length < (k+1) * size := Nat.div_lt_iff_lt_mul h
  rw [← Nat.lt_succ_iff,hdiv,chunk_length,Nat.succ_mul]
  omega

theorem chunk_drop (size : ℕ) (xs : List α) (a k : ℕ) :
    chunk size (xs.drop (a * size)) k = chunk size xs (a + k) := by
  rw [chunk,chunk,List.drop_drop,← Nat.add_mul]

theorem chunk_length_le (size : ℕ) (xs : List α) (k : ℕ) : (chunk size xs k).length ≤ size := by
  rw [chunk,List.length_take]
  exact Nat.min_le_left _ _

theorem length_le_of_mem_chunks {size : ℕ} {xs part : List α} (h : part ∈ chunks size xs) :
    part.length ≤ size := by
  obtain ⟨k,-,rfl⟩ := List.mem_map.mp h
  exact chunk_length_le size xs k

/-- The parts that begin before the end of the list. -/
theorem lt_ceilDiv_iff {size : ℕ} (h : 0 < size) (n k : ℕ) : k < n ⌈/⌉ size ↔ k * size < n := by
  rw [← not_le,ceilDiv_le_iff_le_mul h,Nat.mul_comm,not_le]

theorem flatten_chunk (size : ℕ) (xs : List α) (n : ℕ) :
    ((List.range n).map (chunk size xs)).flatten = xs.take (n * size) := by
  induction n with
  | zero => simp
  | succ n ih =>
    rw [List.range_succ,List.map_append,List.flatten_append,ih,Nat.succ_mul,List.take_add]
    simp [chunk]

theorem sum_chunk_length (size : ℕ) (xs : List α) (n : ℕ) :
    ∑ k ∈ Finset.range n, (chunk size xs k).length = min (n * size) xs.length := by
  induction n with
  | zero => simp
  | succ n ih =>
    rw [Finset.sum_range_succ,ih,chunk_length,Nat.succ_mul]
    omega

theorem flatten_chunks {size : ℕ} (h : 0 < size) (xs : List α) : (chunks size xs).flatten = xs := by
  rw [chunks,flatten_chunk]
  apply List.take_of_length_le
  have hle := (ceilDiv_le_iff_le_mul h).mp (le_refl (xs.length ⌈/⌉ size))
  rwa [Nat.mul_comm]

theorem drop_chunks {size : ℕ} (h : 0 < size) {xs : List α} {k : ℕ} (hk : k * size < xs.length) :
    (chunks size xs).drop k = chunk size xs k :: (chunks size xs).drop (k+1) := by
  have hlt : k < (chunks size xs).length := by
    rw [chunks_length]
    exact (lt_ceilDiv_iff h _ _).mpr hk
  rw [List.drop_eq_getElem_cons hlt]
  simp [chunks]

/-- The slice from `k * size` to the next multiple or the end of the list. -/
theorem slice_eq_chunk (size : ℕ) (xs : List α) (k : ℕ) :
    (xs.take (if k * size + size > xs.length then xs.length else k * size + size)).drop (k * size) =
      chunk size xs k := by
  rw [chunk,List.drop_take]
  split
  · next hlast =>
    rw [List.take_of_length_le (by rw [List.length_drop]),
      List.take_of_length_le (by rw [List.length_drop]; omega)]
  · rw [Nat.add_sub_cancel_left]

/-- The elements at the positions from `lo` on and before `hi`. -/
def between (lo hi : ℤ) (xs : List α) : List α :=
  (xs.zipIdx.filter fun x => lo ≤ x.2 ∧ x.2 < hi).map Prod.fst

theorem between_zipIdx (lo hi : ℤ) (xs : List α) (k : ℕ) :
    ((xs.zipIdx k).filter fun x => lo ≤ x.2 ∧ x.2 < hi).map Prod.fst =
      (xs.take (hi - k).toNat).drop (lo - k).toNat := by
  induction xs generalizing k with
  | nil => simp
  | cons x xs ih =>
    rw [List.zipIdx_cons,List.filter_cons]
    by_cases hhi : (k : ℤ) < hi
    · have htake : (hi - k).toNat = (hi - (k+1 : ℕ)).toNat + 1 := by omega
      rw [htake,List.take_succ_cons]
      by_cases hlo : lo ≤ (k : ℤ)
      · rw [if_pos (decide_eq_true ⟨hlo,hhi⟩),List.map_cons,ih,
          Int.toNat_of_nonpos (by omega : lo - (k+1 : ℕ) ≤ 0),
          Int.toNat_of_nonpos (by omega : lo - k ≤ 0),List.drop_zero,List.drop_zero]
      · have hdrop : (lo - k).toNat = (lo - (k+1 : ℕ)).toNat + 1 := by omega
        rw [if_neg (by simp [hlo]),ih,hdrop,List.drop_succ_cons]
    · rw [if_neg (by simp [hhi]),ih,Int.toNat_of_nonpos (by omega : hi - (k+1 : ℕ) ≤ 0),
        Int.toNat_of_nonpos (by omega : hi - k ≤ 0),List.take_zero,List.take_zero,List.drop_nil,
        List.drop_nil]

theorem between_eq (lo hi : ℤ) (xs : List α) :
    between lo hi xs = (xs.take hi.toNat).drop lo.toNat := by
  rw [between,between_zipIdx,Nat.cast_zero,sub_zero,sub_zero]

/-- A part that begins inside a list without repetition determines where it begins. -/
theorem start_eq_of_take_drop_eq {xs : List α} {a b size : ℕ} (hnodup : xs.Nodup)
    (hsize : 0 < size) (hb : b < xs.length)
    (h : (xs.drop a).take size = (xs.drop b).take size) : a = b := by
  have hhead : xs[a]? = xs[b]? := by
    have h₀ := congrArg (·[0]?) h
    simpa [hsize] using h₀
  rw [List.getElem?_eq_getElem hb] at hhead
  obtain ⟨ha,he⟩ := List.getElem?_eq_some_iff.mp hhead
  exact hnodup.getElem_inj_iff.mp he

section Runs

variable {κ : Type} [DecidableEq κ] {f : α → κ}

theorem dedup_run {key : κ} {group : List α} {rest : List κ} (hne : group ≠ [])
    (hkey : ∀ a ∈ group, f a = key) (hrest : key ∉ rest) :
    (group.map f ++ rest).dedup = key :: rest.dedup := by
  induction group with
  | nil => exact absurd rfl hne
  | cons a group ih =>
    have ha : f a = key := hkey a List.mem_cons_self
    rw [List.map_cons,List.cons_append,ha]
    by_cases hg : group = []
    · subst hg
      exact List.dedup_cons_of_notMem hrest
    · obtain ⟨b,hb⟩ := List.exists_mem_of_ne_nil group hg
      have hmem : key ∈ group.map f ++ rest := by
        refine List.mem_append_left _ (List.mem_map.mpr ⟨b,hb,?_⟩)
        exact hkey b (List.mem_cons_of_mem _ hb)
      rw [List.dedup_cons_of_mem hmem]
      exact ih hg fun c hc => hkey c (List.mem_cons_of_mem _ hc)

/-- The keys of the runs are the keys of the list, each once. -/
theorem dedup_runs {keys : List κ} {groups : List (List α)} (hnodup : keys.Nodup)
    (h : List.Forall₂ (fun key group => group ≠ [] ∧ ∀ a ∈ group, f a = key) keys groups) :
    (groups.flatten.map f).dedup = keys := by
  induction h with
  | nil => rfl
  | @cons key group keys groups hgroup _ ih =>
    obtain ⟨hkey,hkeys⟩ := List.nodup_cons.mp hnodup
    have hrest : key ∉ groups.flatten.map f := by
      rw [← List.mem_dedup,ih hkeys]
      exact hkey
    rw [List.flatten_cons,List.map_append,dedup_run hgroup.1 hgroup.2 hrest,ih hkeys]

end Runs

end Data
