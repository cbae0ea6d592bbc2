import Maestro.Client.Pager

/-!
# Continue tokens and limits

The pages of a list in one fixed order: a call of `PageList` returns the pages up to the first
short one, unless the limit is reached before it. The tokens chain such calls, and the limit
bounds the items of a call where the pages can meet it.
-/

namespace Maestro
open Data

variable {α : Type}

/-- A call that lists `L`, in the same order in every query. -/
abbrev PageRun.ofList (L : List α) (search : String) (limit page : ℤ) : PageRun α :=
  ⟨fun _ _ => L,search,limit,page⟩

/-- The endpoint that pages `L` in one order. -/
abbrev listOf (L : List α) : Endpoint α := listServer fun _ _ => L

theorem pageSize_range {limit : ℤ} (h : 0 ≤ limit) : 0 < pageSize limit ∧ pageSize limit ≤ 400 := by
  rw [pageSize,maxListPageSize]
  split
  · omega
  split
  · omega
  · omega

theorem atoi_decimal (quote : String → String) {n : ℤ} (h₀ : 0 ≤ n)
    (h₁ : n < 9223372036854775808) : atoi quote (decimal n) = .ok n := by
  have hread : JsonText.readInt (JsonText.printInt n) = some (n,[]) := by
    have h := JsonText.readInt_printInt n (show JsonText.Ends [] by simp [JsonText.Ends])
    rwa [List.append_nil] at h
  have hplus : ∀ cs, JsonText.printInt n ≠ '+' :: cs := by
    obtain ⟨m,rfl⟩ := Int.eq_ofNat_of_zero_le h₀
    intro cs hcs
    have hdigit := Nat.isDigit_of_mem_toDigits (b := 10) (n := m) (c := '+') (by decide)
      (by decide) (by rw [show Nat.toDigits 10 m = '+' :: cs from hcs]; exact List.mem_cons_self)
    cases hdigit
  rw [atoi,decimal,String.toList_ofList]
  split
  next n' heq =>
    split at heq
    next cs hcs => exact absurd hcs (hplus cs)
    · rw [hread] at heq
      cases heq
      rw [if_pos (by omega)]
  next hno =>
    split at hno
    next cs hcs => exact absurd hcs (hplus cs)
    · exact absurd hread (hno n)

theorem decimal_ne_empty (n : ℤ) : decimal n ≠ "" := by
  intro h
  have hnil : JsonText.printInt n = [] := by simpa [decimal] using congrArg String.toList h
  cases n with
  | ofNat n => exact Nat.toDigits_ne_nil hnil
  | negSucc n => cases hnil

theorem page_decimal (quote : String → String) (limit : ℤ) {n : ℤ} (h₀ : 0 ≤ n)
    (h₁ : n < 2147483648) : page quote ⟨limit,decimal n⟩ = .ok n := by
  simp only [page,if_neg (decimal_ne_empty n),atoi_decimal quote h₀ (by omega),
    if_neg (not_lt.mpr h₀),int32_of_range (show -2147483648 ≤ n by omega) h₁]

namespace PageRun

/-- A call with a page size that the server accepts. -/
structure Sized (q : PageRun α) (s : ℕ) : Prop where
  size : q.size = s
  pos : 0 < s
  le : s ≤ 400

/-- The first `K` pages are full, and the next one is not. -/
structure FirstShort (q : PageRun α) (s K : ℕ) : Prop where
  full : ∀ j < K, ¬ (q.items j).length < s
  short : (q.items K).length < s

theorem sized {q : PageRun α} (h₀ : 0 ≤ q.limit) (h₁ : q.limit < 2147483648) :
    q.Sized (pageSize q.limit).toNat := by
  have hr := pageSize_range h₀
  refine ⟨?_,by omega,by omega⟩
  rw [PageRun.size,int32_of_range (by omega) h₁]
  omega

section Pages

variable {q : PageRun α} {s : ℕ} (hs : q.Sized s)

include hs

theorem Sized.boundedSize (k : ℕ) : (q.request k).boundedSize = s := by
  have hle := hs.le
  have hsize : (q.request k).size = s := hs.size
  rw [ListRequest.boundedSize,hsize,if_neg (by rw [maxListSize]; omega)]

theorem Sized.items (k : ℕ) :
    q.items k = chunk s (q.matching k) (int32 (q.page + k) - 1).toNat := by
  rw [items_eq,hs.boundedSize,Int.toNat_natCast]

theorem Sized.length_items_le (k : ℕ) : (q.items k).length ≤ s := by
  rw [hs.items]
  exact chunk_length_le _ _ _

theorem Sized.length_served {k : ℕ} (h : ∀ j < k, ¬ (q.items j).length < s) :
    (q.served k).length = k * s := by
  induction k with
  | zero => simp [served]
  | succ k ih =>
    have hfull := h k (Nat.lt_succ_self k)
    have hle := hs.length_items_le k
    rw [served_succ,List.length_append,ih fun j hj => h j (Nat.lt_succ_of_lt hj),Nat.succ_mul]
    omega

/-- Before the first short page a call goes on unless it has reached its limit. -/
theorem Sized.out_none {K j : ℕ} (hK : ∀ j < K, ¬ (q.items j).length < s) (hj : j < K)
    (hlimit : q.limit = 0 ∨ int32 ((j+1) * s : ℕ) ≠ int32 q.limit) : q.out j = none := by
  have hserved := hs.length_served (k := j+1) fun i hi => hK i (by omega)
  rw [out,hs.size,if_neg (by exact_mod_cast hK j hj),hserved]
  split
  · rfl
  next h => rw [if_neg (hlimit.resolve_left h)]

theorem Sized.short_exit {K : ℕ} (hK : q.FirstShort s K)
    (hlimit : ∀ j < K, q.limit = 0 ∨ int32 ((j+1) * s : ℕ) ≠ int32 q.limit) :
    q.out K = some (.ok (q.served (K+1),"")) ∧ ∀ j < K, q.out j = none := by
  refine ⟨?_,fun j hj => hs.out_none hK.full hj (hlimit j hj)⟩
  rw [out,hs.size,if_pos (by exact_mod_cast hK.short)]

theorem Sized.limit_exit {K m : ℕ} (hK : ∀ j < K, ¬ (q.items j).length < s) (hm : m < K)
    (hlimit : q.limit = ((m+1) * s : ℕ)) (hmax : q.limit < 2147483648) :
    q.out m = some (.ok (q.served (m+1),
        if int32 (int32 q.limit + q.offset) < int32 (q.matching m).length
          then decimal (int32 (q.page + (m+1))) else "")) ∧ ∀ j < m, q.out j = none := by
  have hpos := hs.pos
  have hserved := hs.length_served (k := m+1) fun i hi => hK i (by omega)
  have hne : q.limit ≠ 0 := by
    have : 0 < (m+1) * s := Nat.mul_pos (Nat.succ_pos m) hpos
    omega
  constructor
  · rw [out,hs.size,if_neg (by exact_mod_cast hK m hm),if_neg hne,hserved,← hlimit,if_pos rfl]
  · intro j hj
    refine hs.out_none hK (by omega) (.inr ?_)
    have hlt : (j+1) * s < (m+1) * s := Nat.mul_lt_mul_of_pos_right (by omega) hpos
    rw [int32_of_range (by omega) (by omega),int32_of_range (by omega) hmax]
    omega

end Pages

section FixedOrder

variable {L : List α} {search : String} {limit p : ℤ} {s : ℕ}

/-- From the first page on, the pages are the chunks of the list. -/
theorem Sized.chunk_of_pos (hs : (ofList L search limit p).Sized s) (hp : 1 ≤ p) {k : ℕ}
    (hk : p + k < 2147483648) :
    (ofList L search limit p).items k = chunk s L ((p-1).toNat + k) := by
  have hindex : (int32 (p + k) - 1).toNat = (p-1).toNat + k := by
    rw [int32_of_range (by omega) hk]
    omega
  rw [hs.items]
  exact congrArg (chunk s L) hindex

theorem Sized.firstShort_of_pos (hs : (ofList L search limit p).Sized s)
    (hL : L.length + 800 < 2147483648) (hp : 1 ≤ p) (hmax : p < 2147483648) :
    (ofList L search limit p).FirstShort s (L.length / s - (p-1).toNat) := by
  have hdiv := Nat.div_le_self L.length s
  have hchunk : ∀ j ≤ L.length / s - (p-1).toNat,
      (ofList L search limit p).items j = chunk s L ((p-1).toNat + j) :=
    fun j hj => hs.chunk_of_pos hp (by omega)
  constructor
  · intro j hj
    rw [hchunk j hj.le,chunk_length_lt_iff hs.pos]
    omega
  · rw [hchunk _ le_rfl,chunk_length_lt_iff hs.pos]
    omega

/-- What the first pages bring. -/
theorem Sized.served_of_pos (hs : (ofList L search limit p).Sized s) (hp : 1 ≤ p) {k : ℕ}
    (hk : p + k ≤ 2147483648) :
    (ofList L search limit p).served k = (L.drop ((p-1).toNat * s)).take (k * s) := by
  rw [← flatten_chunk,served,List.flatMap_def]
  congr 1
  refine List.map_congr_left fun i hi => ?_
  have hi := List.mem_range.mp hi
  rw [hs.chunk_of_pos hp (by omega),chunk_drop]

/-- Where a call that reaches its limit stands in the list. -/
theorem Sized.next_page {a m : ℕ} (hs : (ofList L search limit (a+1)).Sized s)
    (hlimit : limit = ((m+1) * s : ℕ)) (hmax : a * s + (m+1) * s < 2147483648)
    (ha : a < 2147483648) :
    int32 (int32 limit + (ofList L search limit (a+1)).offset) = (a * s + (m+1) * s : ℕ) := by
  have hoffset : (ofList L search limit (a+1)).offset = (a * s : ℕ) := by
    rw [offset,hs.size]
    simp only [add_sub_cancel_right]
    rw [int32_natCast ha,← Int.natCast_mul,int32_natCast (Nat.lt_of_add_right_lt hmax)]
  rw [hoffset,hlimit,int32_natCast (Nat.lt_of_add_left_lt hmax),← Int.natCast_add,
    Nat.add_comm,int32_natCast hmax]

end FixedOrder

end PageRun

/-! ### Chains of calls -/

section Chain

variable {L : List α} (search : String) (quote : String → String) {limit : ℤ}

/-- One call from page `p` on: it returns the rest of the list and no token, or some pages and the
token of the page after them. -/
theorem pageList_call (hL : L.length + 800 < 2147483648) (h₀ : 0 ≤ limit)
    (h₁ : limit < 2147483648) {token : String} {a : ℕ}
    (hp : page quote ⟨limit,token⟩ = .ok (a+1)) (ha : a * (pageSize limit).toNat ≤ L.length) :
    ∃ items next, pageList (listOf L) search quote ⟨limit,token⟩ (L.length + 1) =
        some (.ok (items,next)) ∧
      (next = "" ∧ items = L.drop (a * (pageSize limit).toNat) ∨
        ∃ m : ℕ, 0 < m ∧ next = decimal (a + m + 1) ∧
          items = (L.drop (a * (pageSize limit).toNat)).take (m * (pageSize limit).toNat) ∧
          (a + m) * (pageSize limit).toNat < L.length) := by
  have hs : (PageRun.ofList L search limit (a+1)).Sized (pageSize limit).toNat :=
    PageRun.sized h₀ h₁
  generalize (pageSize limit).toNat = s at hs ha ⊢
  have hrange := page_range hp
  have hdiv := Nat.div_le_self L.length s
  have hmul := Nat.div_mul_le_self L.length s
  have ha' : a ≤ L.length / s := (Nat.le_div_iff_mul_le hs.pos).mpr ha
  have hindex : ((a : ℤ) + 1 - 1).toNat = a := by omega
  have hK := hs.firstShort_of_pos hL (by omega) hrange.2
  have hserved := fun k hk => hs.served_of_pos (by omega) (k := k) hk
  simp only [hindex] at hK hserved
  by_cases hhit : ∃ m < L.length / s - a, limit = ((m+1) * s : ℕ)
  · obtain ⟨m,hm,hlimit⟩ := hhit
    obtain ⟨hout,hbefore⟩ := hs.limit_exit hK.full hm hlimit h₁
    have hpages : a + (m+1) ≤ L.length / s := by omega
    have hle : a * s + (m+1) * s ≤ L.length := by
      rw [← Nat.add_mul]
      exact (Nat.mul_le_mul_right s hpages).trans hmul
    have hmax : L.length < 2147483648 := by omega
    have hfuel : m < L.length + 1 := by omega
    have hfar : (a : ℤ) + 1 + (m+1 : ℕ) < 2147483648 := by omega
    have hpage : int32 ((a : ℤ) + 1 + (m+1)) = a + (m+1 : ℕ) + 1 := by
      rw [int32_of_range (by omega) (by omega)]
      push_cast
      ring
    have ha'' : a < 2147483648 := (ha'.trans hdiv).trans_lt hmax
    have hnext := hs.next_page hlimit (hle.trans_lt hmax) ha''
    have htotal : int32 ((PageRun.ofList L search limit (a+1)).matching m).length = L.length :=
      int32_natCast hmax
    rw [hnext,htotal,hserved (m+1) hfar.le] at hout
    refine ⟨_,_,(PageRun.pageList_eq_some hp h₀).mpr ⟨m,hfuel,hout,hbefore⟩,?_⟩
    by_cases hlt : a * s + (m+1) * s < L.length
    · refine .inr ⟨m+1,Nat.succ_pos m,?_,rfl,by rwa [Nat.add_mul]⟩
      rw [if_pos (by exact_mod_cast hlt)]
      exact congrArg decimal hpage
    · refine .inl ⟨if_neg (by exact_mod_cast hlt),?_⟩
      apply List.take_of_length_le
      rw [List.length_drop]
      exact Nat.sub_le_iff_le_add'.mpr (not_lt.mp hlt)
  · have hgo : ∀ j < L.length / s - a, limit = 0 ∨ int32 ((j+1) * s : ℕ) ≠ int32 limit := by
      intro j hj
      right
      have hle : (j+1) * s ≤ L.length / s * s := Nat.mul_le_mul_right s (by omega)
      rw [int32_of_range (by omega) (by omega),int32_of_range (by omega) h₁]
      exact fun h => hhit ⟨j,hj,h.symm⟩
    obtain ⟨hout,hbefore⟩ := hs.short_exit hK hgo
    refine ⟨_,_,(PageRun.pageList_eq_some hp h₀).mpr ⟨_,by omega,hout,hbefore⟩,.inl ⟨rfl,?_⟩⟩
    rw [hserved _ (by push_cast; omega)]
    apply List.take_of_length_le
    have hlast : L.length < (L.length / s + 1) * s :=
      (Nat.div_lt_iff_lt_mul hs.pos).mp (Nat.lt_succ_self _)
    have hend : (L.length / s - a + 1) * s + a * s = (L.length / s + 1) * s := by
      rw [← Nat.add_mul]
      congr 1
      omega
    rw [List.length_drop]
    omega

/-- The calls from a token on, until an empty token comes back; each call makes at most `fuel`
requests. -/
def listAll (server : Endpoint α) (limit : ℤ) (fuel : ℕ) : ℕ → String → Option (Except String (List α))
  | 0,_ => none
  | calls+1,token =>
    match pageList server search quote ⟨limit,token⟩ fuel with
    | none => none
    | some (.error err) => some (.error err)
    | some (.ok (items,next)) =>
      if next = "" then some (.ok items)
      else
        match listAll server limit fuel calls next with
        | some (.ok rest) => some (.ok (items ++ rest))
        | r => r

theorem listAll_from (hL : L.length + 800 < 2147483648) (h₀ : 0 ≤ limit)
    (h₁ : limit < 2147483648) {token : String} {a : ℕ}
    (hp : page quote ⟨limit,token⟩ = .ok (a+1)) (ha : a * (pageSize limit).toNat ≤ L.length) :
    ∃ calls, listAll search quote (listOf L) limit (L.length + 1) calls token =
      some (.ok (L.drop (a * (pageSize limit).toNat))) := by
  -- the part of the list after the token gets shorter with every call
  generalize hd : L.length - a * (pageSize limit).toNat = d
  induction d using Nat.strong_induction_on generalizing token a with
  | h d ih =>
    have hs := pageSize_range h₀
    obtain ⟨items,next,hcall,hnext⟩ := pageList_call search quote hL h₀ h₁ hp ha
    rcases hnext with ⟨rfl,rfl⟩ | ⟨m,hm,rfl,rfl,hlt⟩
    · exact ⟨1,by simp [listAll,hcall]⟩
    · have hmul := Nat.add_mul a m (pageSize limit).toNat
      have hpos : 0 < m * (pageSize limit).toNat := Nat.mul_pos hm (by omega)
      have hle : a + m ≤ (a + m) * (pageSize limit).toNat := Nat.le_mul_of_pos_right _ (by omega)
      have hpage : page quote ⟨limit,decimal (a + m + 1)⟩ = .ok ((a + m : ℕ) + 1) := by
        rw [page_decimal quote limit (by omega) (by omega)]
        push_cast
        rfl
      obtain ⟨calls,hrest⟩ := ih _ (by omega) hpage hlt.le rfl
      refine ⟨calls+1,?_⟩
      simp only [listAll,hcall,if_neg (decimal_ne_empty _),hrest]
      rw [hmul,← List.drop_drop,List.take_append_drop]

/-- The calls from the empty token on bring the list, each item once and in order. -/
theorem pageList_chain (hL : L.length + 800 < 2147483648) (h₀ : 0 ≤ limit)
    (h₁ : limit < 2147483648) :
    ∃ fuel calls, listAll search quote (listOf L) limit fuel calls "" = some (.ok L) := by
  obtain ⟨calls,h⟩ := listAll_from search quote hL h₀ h₁
    (show page quote ⟨limit,""⟩ = .ok ((0 : ℕ) + 1) from rfl) (by simp)
  exact ⟨_,calls,by simpa using h⟩

/-- Five items, two at a time. -/
theorem pageList_chain_five : ∃ fuel calls,
    listAll "" id (listOf [1,2,3,4,5]) 2 fuel calls "" = some (.ok [1,2,3,4,5]) :=
  pageList_chain "" id (by decide) (by decide) (by decide)

end Chain

/-! ### Limits -/

/-- The number of items from page `p` to the first short page, for pages of 400. The pages before
the first one repeat it. -/
def remaining (p : ℤ) (n : ℕ) : ℤ :=
  if 1 ≤ p then max 0 (n - (p-1) * 400)
  else if n < 400 then n
  else (1-p) * 400 + n

namespace PageRun

section Limit

variable {L : List α} {search : String} {limit p : ℤ}

theorem Sized.length_chunk {s : ℕ} (hs : (ofList L search limit p).Sized s) {k : ℕ}
    (h₀ : -2147483648 ≤ p) (hk : p + k < 2147483648) :
    ((ofList L search limit p).items k).length = min s (L.length - (p + k - 1).toNat * s) := by
  rw [hs.items,chunk_length,int32_of_range (show -2147483648 ≤ p + k by omega) hk]
  rfl

/-- The first short page, and the number of items up to it. -/
theorem Sized.exists_short (hs : (ofList L search limit p).Sized 400)
    (hL : (L.length : ℤ) < 2147482848) (h₀ : -2147483648 ≤ p) (h₁ : p < 2147483648) :
    ∃ K, (ofList L search limit p).FirstShort 400 K ∧
      ((ofList L search limit p).served (K+1)).length = remaining p L.length := by
  obtain ⟨K,hmax,hfull,hshort,hrem⟩ : ∃ K : ℕ, p + K < 2147483648 ∧
      (∀ j < K, ¬ min 400 (L.length - (p + j - 1).toNat * 400) < 400) ∧
      min 400 (L.length - (p + K - 1).toNat * 400) < 400 ∧
      ((K * 400 + min 400 (L.length - (p + K - 1).toNat * 400) : ℕ) : ℤ) =
        remaining p L.length := by
    rw [remaining]
    split
    · refine ⟨L.length / 400 - (p-1).toNat,by omega,fun j hj => by omega,by omega,by omega⟩
    split
    · exact ⟨0,by omega,fun j hj => by omega,by omega,by omega⟩
    · refine ⟨(1-p).toNat + L.length / 400,by omega,fun j hj => by omega,by omega,by omega⟩
  have hlen := fun k hk => hs.length_chunk h₀ (k := k) hk
  have hK : (ofList L search limit p).FirstShort 400 K := by
    constructor
    · intro j hj
      rw [hlen j (by omega)]
      exact hfull j hj
    · rw [hlen K hmax]
      exact hshort
  refine ⟨K,hK,?_⟩
  rw [served_succ,List.length_append,hs.length_served hK.full,hlen K hmax,hrem]

/-- What a call returned is within its limit, and the token is empty if there is room left. -/
def WithinLimit (limit : ℤ) (items : List α) (next : String) : Prop :=
  (items.length : ℤ) ≤ limit ∧ ((items.length : ℤ) < limit → next = "")

theorem exists_firstShort {q : PageRun α} {s k : ℕ} (h : (q.items k).length < s) :
    ∃ K ≤ k, q.FirstShort s K := by
  classical
  have hex : ∃ k, (q.items k).length < s := ⟨k,h⟩
  exact ⟨Nat.find hex,Nat.find_min' hex h,fun j hj => Nat.find_min hex hj,Nat.find_spec hex⟩

/-- A limit that full pages meet is kept: the call returns when it is reached, or before at a
short page. -/
theorem Sized.exits_within {q : PageRun α} {s m : ℕ} (hs : q.Sized s)
    (hlimit : q.limit = ((m+1) * s : ℕ)) (hmax : q.limit < 2147483648) :
    ∃ k items next, q.out k = some (.ok (items,next)) ∧ (∀ j < k, q.out j = none) ∧
      WithinLimit q.limit items next := by
  by_cases hfull : ∀ j < m+1, ¬ (q.items j).length < s
  · obtain ⟨hout,hbefore⟩ := hs.limit_exit hfull (Nat.lt_succ_self m) hlimit hmax
    have hlen := hs.length_served hfull
    refine ⟨m,_,_,hout,hbefore,by omega,fun hlt => by omega⟩
  · simp only [not_forall,not_not] at hfull
    obtain ⟨j,hj,hshort⟩ := hfull
    obtain ⟨K,hle,hK⟩ := exists_firstShort hshort
    have hle : K * s ≤ m * s := Nat.mul_le_mul_right s (by omega)
    have hmul : (m+1) * s = m * s + s := Nat.succ_mul m s
    have hshort := hK.short
    have hlen := hs.length_served hK.full
    have hgo : ∀ j < K, q.limit = 0 ∨ int32 ((j+1) * s : ℕ) ≠ int32 q.limit := by
      intro j hj
      have hj : (j+1) * s ≤ K * s := Nat.mul_le_mul_right s hj
      have hpos := hs.pos
      right
      rw [int32_of_range (by omega) (by omega),int32_of_range (by omega) hmax]
      omega
    obtain ⟨hout,hbefore⟩ := hs.short_exit hK hgo
    refine ⟨K,_,_,hout,hbefore,?_,fun _ => rfl⟩
    rw [served_succ,List.length_append]
    omega

/-- A limit between full pages: a call is within it only if the items up to the first short page
are. -/
theorem Sized.within_iff {q : PageRun α} {K : ℕ} (hs : q.Sized 400) (hK : q.FirstShort 400 K)
    (h₀ : 0 < q.limit) (hmax : q.limit < 2147483648) (hdvd : ¬ 400 ∣ q.limit) :
    (∃ k items next, q.out k = some (.ok (items,next)) ∧ (∀ j < k, q.out j = none) ∧
      WithinLimit q.limit items next) ↔ ((q.served (K+1)).length : ℤ) ≤ q.limit := by
  have hlen : ∀ j ≤ K, (q.served j).length = j * 400 :=
    fun j hj => hs.length_served fun i hi => hK.full i (by omega)
  constructor
  · rintro ⟨k,items,next,hout,hbefore,hw⟩
    have hle : k ≤ K := by
      by_contra hlt
      have hnone := hbefore K (by omega)
      rw [out,hs.size,if_pos (by exact_mod_cast hK.short)] at hnone
      cases hnone
    rw [out] at hout
    split at hout
    next hshort =>
      have hk : ¬ k < K := fun hlt => hK.full k hlt (by rw [hs.size] at hshort; omega)
      obtain rfl : k = K := by omega
      cases hout
      exact hw.1
    split at hout
    · cases hout
    split at hout
    next hfull hne hreached =>
      -- the pages before this one are full, so the limit is a multiple of the page size
      have hk : k ≠ K := by
        rintro rfl
        have := hK.short
        rw [hs.size] at hfull
        omega
      have hserved := hlen (k+1) (by omega)
      cases hout
      have hw := hw.1
      rw [hserved,int32_of_range (by omega) (by omega),int32_of_range (by omega) hmax] at hreached
      exact absurd ⟨(k : ℤ) + 1,by push_cast at hreached; omega⟩ hdvd
    · cases hout
  · intro hle
    have hgo : ∀ j < K, q.limit = 0 ∨ int32 ((j+1) * 400 : ℕ) ≠ int32 q.limit := by
      intro j hj
      have hserved := hlen K le_rfl
      rw [served_succ,List.length_append] at hle
      right
      rw [int32_of_range (by omega) (by omega),int32_of_range (by omega) hmax]
      intro h
      exact hdvd ⟨(j : ℤ) + 1,by push_cast at h; omega⟩
    obtain ⟨hout,hbefore⟩ := hs.short_exit hK hgo
    exact ⟨K,_,_,hout,hbefore,hle,fun _ => rfl⟩

end Limit

end PageRun

section Limit

variable {L : List α} (search : String) (quote : String → String) {limit : ℤ}

open PageRun in
/-- A call keeps to its limit if and only if the limit is at most one page, or a multiple of full
pages, or no fewer items than that remain. -/
theorem pageList_limit_iff (hL : (L.length : ℤ) < 2147483648 - 800) {token : String}
    (htoken : ValidToken quote token) (h₀ : 0 < limit) (h₁ : limit < 2147483648) :
    ∃ p, page quote ⟨limit,token⟩ = .ok p ∧
      ((∃ fuel items next, pageList (listOf L) search quote ⟨limit,token⟩ fuel =
          some (.ok (items,next)) ∧ WithinLimit limit items next) ↔
        limit ≤ 400 ∨ 400 ∣ limit ∨ remaining p L.length ≤ limit) := by
  obtain ⟨p,hp⟩ := htoken.page limit
  refine ⟨p,hp,?_⟩
  have hrange := page_range hp
  have hreturns : (∃ fuel items next, pageList (listOf L) search quote ⟨limit,token⟩ fuel =
      some (.ok (items,next)) ∧ WithinLimit limit items next) ↔
      ∃ k items next, (ofList L search limit p).out k = some (.ok (items,next)) ∧
        (∀ j < k, (ofList L search limit p).out j = none) ∧ WithinLimit limit items next := by
    simp only [pageList_eq_some hp h₀.le]
    constructor
    · rintro ⟨fuel,items,next,⟨k,-,hout,hbefore⟩,hw⟩
      exact ⟨k,items,next,hout,hbefore,hw⟩
    · rintro ⟨k,items,next,hout,hbefore,hw⟩
      exact ⟨k+1,items,next,⟨k,Nat.lt_succ_self k,hout,hbefore⟩,hw⟩
  rw [hreturns]
  have hs : (ofList L search limit p).Sized (pageSize limit).toNat := sized h₀.le h₁
  have hwithin : ∀ s m : ℕ, pageSize limit = s → limit = ((m+1) * s : ℕ) →
      ∃ k items next, (ofList L search limit p).out k = some (.ok (items,next)) ∧
        (∀ j < k, (ofList L search limit p).out j = none) ∧ WithinLimit limit items next := by
    intro s m hsize hlimit
    rw [hsize,Int.toNat_natCast] at hs
    exact hs.exits_within hlimit h₁
  by_cases hsmall : limit ≤ 400
  · -- one page of the size of the limit
    have hsize : pageSize limit = limit.toNat := by
      rw [pageSize,maxListPageSize,if_neg (by omega),if_neg (by omega)]
      omega
    exact iff_of_true (hwithin _ 0 hsize (by omega)) (.inl hsmall)
  · have hsize : pageSize limit = (400 : ℕ) := by
      rw [pageSize,maxListPageSize,if_pos (by omega)]
      rfl
    by_cases hdvd : 400 ∣ limit
    · obtain ⟨m,hm⟩ := hdvd
      exact iff_of_true (hwithin 400 (m.toNat - 1) hsize (by omega)) (.inr (.inl ⟨m,hm⟩))
    · rw [hsize,Int.toNat_natCast] at hs
      obtain ⟨K,hK,hlen⟩ := hs.exists_short (by omega) hrange.1 hrange.2
      rw [hs.within_iff hK h₀ h₁ hdvd,hlen]
      simp [hsmall,hdvd]

/-- Three items with a limit of two. -/
theorem pageList_limit_two : ∃ fuel items next,
    pageList (listOf [1,2,3]) "" id ⟨2,""⟩ fuel = some (.ok (items,next)) ∧
      PageRun.WithinLimit 2 items next := by
  obtain ⟨p,-,h⟩ := pageList_limit_iff "" id (L := [1,2,3]) (by decide) (.inl rfl)
    (show (0 : ℤ) < 2 by decide) (by decide)
  exact h.mpr (.inl (by decide))

/-- A limit of 500 on 600 items: the second page passes it. -/
theorem pageList_exceeds_limit :
    ∃ items, pageList (listOf (List.range 600)) "" id ⟨500,""⟩ 2 = some (.ok (items,"")) ∧
      items.length = 600 :=
  ⟨List.range 600,by decide +kernel,by decide +kernel⟩

end Limit

end Maestro
