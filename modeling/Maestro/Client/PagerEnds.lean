import Maestro.Client.PagerTokens

/-!
# When a paged list ends

A call of `PageList` ends at a short page or when its count of items equals the limit. Page
numbers and counts have 32 bits: after the last page number come those before the first page,
which repeat it, so a call that does not end goes round and its count grows in cycles.
-/

namespace Maestro
open Data

variable {α : Type}

namespace PageRun

theorem out_isSome {q : PageRun α} {k : ℕ} : (q.out k).isSome ↔
    ((q.items k).length : ℤ) < q.size ∨
      q.limit ≠ 0 ∧ int32 (q.served (k+1)).length = int32 q.limit := by
  rw [out]
  split
  next h => simp [h]
  split
  next h hz => simp [h,hz]
  split
  next h hz he => simp [hz,he]
  next h hz he => simp [h,he]

theorem length_served (q : PageRun α) (k : ℕ) :
    (q.served k).length = ∑ i ∈ Finset.range k, (q.items i).length := by
  induction k with
  | zero => simp [served]
  | succ k ih => rw [served_succ,List.length_append,ih,Finset.sum_range_succ]

section

variable {L : List α} {search : String} {limit p : ℤ}

/-! ### Pages of at most 400 items -/

/-- Some page is short if and only if the last page number is past the end of the list. -/
theorem Sized.exists_short_iff (hs : (ofList L search limit p).Sized 400)
    (h₀ : -2147483648 ≤ p) (h₁ : p < 2147483648) :
    (∃ k, ((ofList L search limit p).items k).length < 400) ↔
      (L.length : ℤ) < 400 * 2147483647 := by
  have hshort : ∀ k, ((ofList L search limit p).items k).length < 400 ↔
      L.length / 400 ≤ (int32 (p + k) - 1).toNat := by
    intro k
    rw [hs.items]
    exact chunk_length_lt_iff (by decide) L _
  simp only [hshort]
  constructor
  · rintro ⟨k,hk⟩
    have := int32_range (p + k)
    omega
  · intro hL
    refine ⟨(2147483647 - p).toNat,?_⟩
    rw [int32_of_range (by omega) (by omega)]
    omega

theorem Sized.returns_iff (hs : (ofList L search limit p).Sized 400)
    (h₀ : -2147483648 ≤ p) (h₁ : p < 2147483648) :
    (∃ k, ((ofList L search limit p).out k).isSome) ↔
      (L.length : ℤ) < 400 * 2147483647 ∨ limit ≠ 0 ∧ 16 ∣ int32 limit := by
  simp only [out_isSome,exists_or,hs.size,Nat.cast_lt]
  rw [← hs.exists_short_iff h₀ h₁]
  refine or_congr_right' fun hfull => ?_
  have hlen : ∀ k, ((ofList L search limit p).served k).length = k * 400 :=
    fun k => hs.length_served fun j _ hshort => hfull ⟨j,hshort⟩
  simp only [hlen]
  constructor
  · rintro ⟨k,hne,hk⟩
    refine ⟨hne,?_⟩
    have hdvd := int32_eq_iff.mp hk
    rw [int32]
    omega
  · rintro ⟨hne,hdvd⟩
    have hgcd : (Nat.gcd 400 4294967296 : ℤ) ∣ limit := by
      rw [int32] at hdvd
      rw [show Nat.gcd 400 4294967296 = 16 by decide]
      omega
    obtain ⟨j,hj,hres⟩ := exists_mul_residue (by decide) hgcd 1
    refine ⟨j-1,hne,int32_eq_iff.mpr ?_⟩
    push_cast at hres ⊢
    omega

end

/-! ### Pages of the server's maximum -/

/-- The number of items in the first page, and in all pages that have a number. -/
def firstPage (n : ℕ) : ℕ := min 65500 n

def reachable (n : ℕ) : ℕ := min (2147483647 * 65500) n

theorem gcd_dvd_page {n a : ℕ} (ha : a < 2147483647) :
    Nat.gcd (firstPage n) (reachable n) ∣ min 65500 (n - a * 65500) := by
  have h₁ := Nat.gcd_dvd_left (firstPage n) (reachable n)
  have h₂ := Nat.gcd_dvd_right (firstPage n) (reachable n)
  rcases Nat.lt_or_ge n ((a+1) * 65500) with hlast | hfull
  · rcases Nat.eq_zero_or_pos a with rfl | hpos
    · simpa [firstPage] using h₁
    rcases Nat.lt_or_ge (a * 65500) n with hlt | hge
    · -- the last page, with what the full ones leave of the list
      rw [show firstPage n = 65500 by rw [firstPage]; omega] at h₁ h₂ ⊢
      rw [show reachable n = n by rw [reachable]; omega] at h₁ h₂ ⊢
      rw [show min 65500 (n - a * 65500) = n - a * 65500 by omega]
      exact Nat.dvd_sub h₂ (h₁.mul_left a)
    · simp [Nat.sub_eq_zero_of_le hge]
  · rwa [show min 65500 (n - a * 65500) = firstPage n by rw [firstPage]; omega]

/-- The number of items in the `i`-th page, counted from the smallest page number. -/
def cycle (L : List α) (i : ℕ) : ℕ :=
  (chunk 65500 L (int32 (-2147483648 + i) - 1).toNat).length

theorem cycle_periodic (L : List α) (i : ℕ) : cycle L (i + 4294967296) = cycle L i := by
  have h : int32 (-2147483648 + (i + 4294967296 : ℕ)) = int32 (-2147483648 + i) :=
    int32_eq_iff.mpr (by push_cast; omega)
  rw [cycle,cycle,h]

theorem cycle_first (L : List α) {i : ℕ} (hi : i < 2147483650) :
    cycle L i = firstPage L.length := by
  have h : (int32 (-2147483648 + i) - 1).toNat = 0 := by
    rw [int32_of_range (by omega) (by omega)]
    omega
  rw [cycle,h,chunk_length,firstPage]
  omega

theorem cycle_rest (L : List α) {i : ℕ} (hi : i < 2147483646) :
    cycle L (2147483650 + i) = (chunk 65500 L (i+1)).length := by
  have h : (int32 (-2147483648 + (2147483650 + i : ℕ)) - 1).toNat = i+1 := by
    rw [int32_of_range (by omega) (by omega)]
    omega
  rw [cycle,h]

theorem sum_cycle (L : List α) : ∑ i ∈ Finset.range 4294967296, cycle L i + firstPage L.length =
    2147483650 * firstPage L.length + reachable L.length := by
  have hfirst : ∑ i ∈ Finset.range 2147483650, cycle L i = 2147483650 * firstPage L.length := by
    rw [Finset.sum_congr rfl fun i hi => cycle_first L (Finset.mem_range.mp hi),
      Finset.sum_const,Finset.card_range,smul_eq_mul]
  have hrest : ∑ i ∈ Finset.range 2147483646, cycle L (2147483650 + i) + firstPage L.length =
      reachable L.length := by
    rw [Finset.sum_congr rfl fun i hi => cycle_rest L (Finset.mem_range.mp hi)]
    have hall := sum_chunk_length 65500 L (2147483646+1)
    rw [Finset.sum_range_succ',chunk_length 65500 L 0,Nat.zero_mul] at hall
    exact hall
  rw [show 4294967296 = 2147483650 + 2147483646 from rfl,Finset.sum_range_add,hfirst,
    Nat.add_assoc,hrest]

/-- The counts of a call that goes round reach every number with the divisors of the pages. -/
theorem exists_cycle {n T S : ℕ} {m : ℤ}
    (hS : S + firstPage n = 2147483650 * firstPage n + reachable n)
    (hT : Nat.gcd (firstPage n) (reachable n) ∣ T)
    (hm : (Nat.gcd (firstPage n) (Nat.gcd (reachable n) 4294967296) : ℤ) ∣ m) :
    ∃ c j, 0 < j ∧ j ≤ 2147483650 ∧ (4294967296 : ℤ) ∣ (T + (c * S + j * firstPage n) : ℕ) - m := by
  rcases Nat.lt_or_ge 65500 n with hlong | hshort
  · -- the run of first pages has every residue modulo 4, the cycles change the residue
    have hfirst : firstPage n = 65500 := by
      rw [firstPage]
      omega
    rw [hfirst] at hS hT hm ⊢
    generalize reachable n = r at hS hT hm
    have hdvd : (Nat.gcd r 4 : ℤ) ∣ m - T := by
      have h₁ : Nat.gcd r 4 ∣ Nat.gcd 65500 r :=
        Nat.dvd_gcd ((Nat.gcd_dvd_right r 4).trans (by decide)) (Nat.gcd_dvd_left r 4)
      have h₂ : Nat.gcd r 4 ∣ Nat.gcd 65500 (Nat.gcd r 4294967296) :=
        Nat.dvd_gcd ((Nat.gcd_dvd_right r 4).trans (by decide)) (Nat.dvd_gcd (Nat.gcd_dvd_left r 4)
          ((Nat.gcd_dvd_right r 4).trans (by decide)))
      exact Int.dvd_sub ((Int.natCast_dvd_natCast.mpr h₂).trans hm)
        (Int.natCast_dvd_natCast.mpr (h₁.trans hT))
    obtain ⟨c,-,hc⟩ := exists_mul_residue (by decide) hdvd 0
    have hrest : (Nat.gcd 65500 4294967296 : ℤ) ∣ m - T - c * S := by
      rw [show Nat.gcd 65500 4294967296 = 4 by decide]
      obtain ⟨y,hy⟩ := hc
      have hS : (S : ℤ) = 4 * 35165044752375 + r := by omega
      have hy : m - T = r * c - (4 : ℕ) * y := by omega
      refine ⟨-y - 35165044752375 * c,?_⟩
      rw [hy,hS]
      push_cast
      ring
    obtain ⟨j,hj,hres⟩ := exists_mul_residue (by decide) hrest 1
    refine ⟨c,(j-1) % 1073741824 + 1,by omega,by omega,?_⟩
    push_cast
    push_cast at hres
    generalize (c : ℤ) * S = x at hres ⊢
    omega
  · -- all pages are empty or hold the list
    have hfirst : firstPage n = n := by
      rw [firstPage]
      omega
    have hall : reachable n = n := by
      rw [reachable]
      omega
    rw [hfirst,hall] at hS hT hm
    rw [hfirst]
    rw [Nat.gcd_self] at hT
    rw [← Nat.gcd_assoc,Nat.gcd_self] at hm
    obtain ⟨a,rfl⟩ := hT
    obtain ⟨J,hJ,hres⟩ := exists_mul_residue (by decide) hm (a+1)
    refine ⟨(J-a-1) / 2147483650,(J-a-1) % 2147483650 + 1,by omega,by omega,?_⟩
    have hsum : n * a + ((J-a-1) / 2147483650 * S + ((J-a-1) % 2147483650 + 1) * n) = n * J := by
      have hdiv := Nat.div_add_mod (J-a-1) 2147483650
      obtain rfl : S = 2147483650 * n := by omega
      calc _ = n * (a + (2147483650 * ((J-a-1) / 2147483650) + (J-a-1) % 2147483650) + 1) := by ring
        _ = n * J := by
          rw [hdiv]
          congr 1
          omega
    rw [hsum]
    exact_mod_cast hres

section Negative

variable {L : List α} {search : String} {limit p : ℤ} (hneg : int32 limit < 0)

include hneg

theorem negative_size : (ofList L search limit p).size = int32 limit := by
  change pageSize (int32 limit) = int32 limit
  rw [pageSize,maxListPageSize,if_neg (by omega),if_neg (by omega)]

theorem negative_items (k : ℕ) :
    (ofList L search limit p).items k = chunk 65500 L (int32 (p + k) - 1).toNat := by
  have hsize : ((ofList L search limit p).request k).boundedSize = 65500 := by
    have hreq : ((ofList L search limit p).request k).size = int32 limit := negative_size hneg
    rw [ListRequest.boundedSize,if_pos (.inr (by omega))]
    rfl
  rw [items_eq,hsize]
  rfl

/-- A call without a page size ends only at its limit. -/
theorem negative_out {k : ℕ} : ((ofList L search limit p).out k).isSome ↔
    int32 ((ofList L search limit p).served (k+1)).length = int32 limit := by
  have hne : limit ≠ 0 := by
    rintro rfl
    simp at hneg
  rw [out_isSome,negative_size hneg]
  constructor
  · rintro (h | h)
    · omega
    · exact h.2
  · exact fun h => .inr ⟨hne,h⟩

theorem negative_dvd (k : ℕ) : Nat.gcd (firstPage L.length) (reachable L.length) ∣
    ((ofList L search limit p).served k).length := by
  induction k with
  | zero => simp [served]
  | succ k ih =>
    have hr := int32_range (p + k)
    rw [served_succ,List.length_append]
    refine Nat.dvd_add ih ?_
    rw [negative_items hneg,chunk_length]
    exact gcd_dvd_page (by omega)

/-- The count after some cycles from the smallest page number on. -/
theorem negative_count {t : ℕ} (ht : (4294967296 : ℤ) ∣ p + t + 2147483648) (c : ℕ) {j : ℕ}
    (hj : j ≤ 2147483650) : ((ofList L search limit p).served (t + (c * 4294967296 + j))).length =
      ((ofList L search limit p).served t).length +
        (c * ∑ i ∈ Finset.range 4294967296, cycle L i + j * firstPage L.length) := by
  have hitems : ∀ i, ((ofList L search limit p).items (t + i)).length = cycle L i := by
    intro i
    have hpage : int32 (p + (t + i : ℕ)) = int32 (-2147483648 + i) :=
      int32_eq_iff.mpr (by push_cast; omega)
    rw [negative_items hneg,hpage,cycle]
  rw [length_served,length_served,Finset.sum_range_add]
  simp only [hitems]
  rw [sum_cycles (cycle_periodic L) (fun i hi => cycle_first L hi) c hj]

theorem negative_returns_iff : (∃ k, ((ofList L search limit p).out k).isSome) ↔
    (Nat.gcd (firstPage L.length) (Nat.gcd (reachable L.length) 4294967296) : ℤ) ∣
      int32 limit := by
  simp only [negative_out hneg]
  constructor
  · rintro ⟨k,hk⟩
    have hcount : Nat.gcd (firstPage L.length) (reachable L.length) ∣
        ((ofList L search limit p).served (k+1)).length := negative_dvd hneg (k+1)
    rw [← int32_int32 limit,int32_eq_iff] at hk
    have hleft : Nat.gcd (firstPage L.length) (Nat.gcd (reachable L.length) 4294967296) ∣
        Nat.gcd (firstPage L.length) (reachable L.length) :=
      Nat.gcd_dvd_gcd_of_dvd_right _ (Nat.gcd_dvd_left _ _)
    have hright : Nat.gcd (firstPage L.length) (Nat.gcd (reachable L.length) 4294967296) ∣
        4294967296 :=
      (Nat.gcd_dvd_right _ _).trans (Nat.gcd_dvd_right _ _)
    have hdiff := (Int.natCast_dvd_natCast.mpr hright).trans hk
    exact (Int.dvd_iff_dvd_of_dvd_sub hdiff).mp (Int.natCast_dvd_natCast.mpr (hleft.trans hcount))
  · intro hdvd
    obtain ⟨t,ht⟩ : ∃ t : ℕ, (4294967296 : ℤ) ∣ p + t + 2147483648 :=
      ⟨((-2147483648 - p) % 4294967296).toNat,by omega⟩
    obtain ⟨c,j,hpos,hj,hres⟩ := exists_cycle (sum_cycle L) (negative_dvd hneg t) hdvd
    refine ⟨t + (c * 4294967296 + (j-1)),?_⟩
    rw [show t + (c * 4294967296 + (j-1)) + 1 = t + (c * 4294967296 + j) by omega,
      negative_count hneg ht c hj,← int32_int32 limit]
    exact int32_eq_iff.mpr hres

end Negative

end PageRun

open PageRun in
/-- When a call returns, by its limit and the length of the list. The divisors only matter for
lists whose pages use up the page numbers, and for limits that are negative as an `int32`. -/
def PageListReturns (limit : ℤ) (n : ℕ) : Prop :=
  if int32 limit < 0 then
    (Nat.gcd (firstPage n) (Nat.gcd (reachable n) 4294967296) : ℤ) ∣ int32 limit
  else 0 < int32 limit ∧ int32 limit ≤ 400 ∨ (n : ℤ) < 400 * 2147483647 ∨
    limit ≠ 0 ∧ 16 ∣ int32 limit

open PageRun in
theorem pageList_returns_iff {L : List α} (search : String) (quote : String → String)
    {token : String} (htoken : ValidToken quote token) {limit : ℤ} (h₀ : 0 ≤ limit) :
    (∃ fuel, (pageList (listOf L) search quote ⟨limit,token⟩ fuel).isSome) ↔
      PageListReturns limit L.length := by
  obtain ⟨p,hp⟩ := htoken.page limit
  have hrange := page_range hp
  rw [pageList_ends hp h₀,PageListReturns]
  split
  next hneg => exact negative_returns_iff hneg
  next hpos =>
    by_cases hsmall : 0 < int32 limit ∧ int32 limit ≤ 400
    · -- one page of the size of the limit
      have hs : (ofList L search limit p).Sized (int32 limit).toNat := by
        refine ⟨?_,by omega,by omega⟩
        change pageSize (int32 limit) = _
        rw [pageSize,maxListPageSize,if_neg (by omega),if_neg (by omega)]
        omega
      refine iff_of_true ⟨0,out_isSome.mpr ?_⟩ (.inl hsmall)
      by_cases hshort : ((ofList L search limit p).items 0).length < (int32 limit).toNat
      · exact .inl (by rw [hs.size]; exact_mod_cast hshort)
      · refine .inr ⟨?_,?_⟩
        · rintro (rfl : limit = 0)
          simp at hsmall
        · rw [hs.length_served (k := 1) fun j hj => by rwa [Nat.lt_one_iff.mp hj],Nat.one_mul,
            Int.toNat_of_nonneg hsmall.1.le,int32_int32]
    · have hs : (ofList L search limit p).Sized 400 := by
        refine ⟨?_,by decide,le_rfl⟩
        change pageSize (int32 limit) = _
        rw [pageSize,maxListPageSize]
        split
        · rfl
        · rw [if_pos (by omega)]
          rfl
      rw [hs.returns_iff hrange.1 hrange.2]
      simp [hsmall]

/-- Three items without a limit. -/
theorem pageList_returns_three :
    ∃ fuel, (pageList (listOf [1,2,3]) "" id ⟨0,""⟩ fuel).isSome :=
  (pageList_returns_iff "" id (.inl rfl) le_rfl).mpr (by
    rw [PageListReturns,int32_zero,if_neg (by decide)]
    exact .inr (.inl (by decide)))

/-- A limit of 2³¹ on an empty list: the page size is negative, so that an empty page is not
short, and the number of items never is the limit. -/
theorem pageList_never_returns :
    ¬ ∃ fuel, (pageList (listOf ([] : List ℕ)) "" id ⟨2147483648,""⟩ fuel).isSome := by
  have hlimit : int32 2147483648 = -2147483648 := by
    rw [int32]
    rfl
  rw [PageRun.pageList_ends (show page id ⟨2147483648,""⟩ = .ok 1 from rfl) (by decide),
    PageRun.negative_returns_iff (by rw [hlimit]; decide),hlimit]
  decide

end Maestro
