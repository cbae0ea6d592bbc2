import Maestro.Services.Generic

/-!
# The rows of a page

A page is named by its number and its size. The offset is computed with 64 bits and the database
ignores one that is not positive, so the rows returned are those of the page named only where the
offset is the true one, or where no row is at stake.
-/

namespace Maestro
open Data

section Pages

variable {α : Type}

/-- The rows of page `p`, over the integers. -/
def namedPage (p s : ℤ) (rows : List α) : List α := between ((p - 1) * s) (p * s) rows

/-- The page exists and its offset fits 64 bits, or no row is at stake: there is none, or the
offset that comes out lies behind them. -/
def PageFits (p s : ℤ) (n : ℕ) : Prop :=
  n = 0 ∨ 1 ≤ p ∧ (p - 1) * s < 2^63 ∨ (n : ℤ) ≤ ((p - 1) * s).bmod (2^64)

theorem toInt_offset (page size : Int64) :
    ((page - 1) * size).toInt = ((page.toInt - 1) * size.toInt).bmod (2^64) := by
  rw [Int64.toInt_mul,Int64.toInt_sub,Int.bmod_mul_bmod]
  rfl

theorem namedPage_of_pos {p s : ℤ} (hp : 1 ≤ p) (hs : 0 ≤ s) (rows : List α) :
    namedPage p s rows = (rows.drop ((p - 1) * s).toNat).take s.toNat := by
  have ha : 0 ≤ (p - 1) * s := Int.mul_nonneg (by omega) hs
  have hsum : p * s = (p - 1) * s + s := by rw [Int.sub_mul]; omega
  rw [namedPage,between_eq,hsum,Int.toNat_add ha hs,List.drop_take,Nat.add_sub_cancel_left]

theorem namedPage_of_nonpos {p s : ℤ} (hp : p ≤ 0) (hs : 0 ≤ s) (rows : List α) :
    namedPage p s rows = [] := by
  rw [namedPage,between_eq,Int.toNat_of_nonpos (Int.mul_nonpos_of_nonpos_of_nonneg hp hs),
    List.take_zero,List.drop_nil]

/-- An offset of 64 bits. -/
theorem bmod_lt_bound (a : ℤ) : a.bmod (2^64) < 2^63 := by
  have h := Int.bmod_lt (x := a) (m := 2^64) (by decide)
  omega

theorem bmod_of_fits {a : ℤ} (h₀ : 0 ≤ a) (h : a < 2^63) : a.bmod (2^64) = a :=
  Int.bmod_eq_of_le (by omega) (by omega)

theorem fetch_behind {o s : ℤ} {rows : List α} (h : (rows.length : ℤ) ≤ o) :
    fetch o s rows = [] := by
  rw [fetch,List.drop_eq_nil_of_le (by omega),List.take_nil]

theorem fetch_ne_nil {o s : ℤ} (hs : 0 < s) {rows : List α} (hne : rows ≠ [])
    (h : o < rows.length) : fetch o s rows ≠ [] := by
  have hpos := List.length_pos_iff.mpr hne
  intro hnil
  have hlen := congrArg List.length hnil
  rw [fetch,List.length_take,List.length_drop,List.length_nil] at hlen
  omega

/-- When the rows at the offset are those of the page. -/
theorem fetch_eq_namedPage_iff {p s : ℤ} (hs : 0 < s) {rows : List α} (hnodup : rows.Nodup) :
    fetch (((p - 1) * s).bmod (2^64)) s rows = namedPage p s rows ↔ PageFits p s rows.length := by
  rw [PageFits]
  have hlt := bmod_lt_bound ((p - 1) * s)
  by_cases hp : 1 ≤ p
  · have ha : 0 ≤ (p - 1) * s := Int.mul_nonneg (by omega) hs.le
    rw [namedPage_of_pos hp hs.le]
    generalize (p - 1) * s = a at *
    by_cases hfit : a < 2^63
    · rw [bmod_of_fits ha hfit]
      exact iff_of_true rfl (.inr (.inl ⟨hp,hfit⟩))
    rcases le_or_gt (rows.length : ℤ) (a.bmod (2^64)) with hle | hgt
    · -- behind the rows, and so is the true offset
      refine iff_of_true ?_ (.inr (.inr hle))
      have htrue := fetch_behind (s := s) (show (rows.length : ℤ) ≤ a by omega)
      rw [fetch_behind hle]
      exact htrue.symm
    · refine ⟨fun h => .inl ?_,?_⟩
      · by_contra hne
        have hstart := start_eq_of_take_drop_eq hnodup (by omega : 0 < s.toNat) (by omega) h.symm
        omega
      · rintro (hnil | ⟨-,hlt'⟩ | hle)
        · rw [List.eq_nil_of_length_eq_zero hnil]
          simp [fetch]
        · exact absurd hlt' hfit
        · omega
  · rw [namedPage_of_nonpos (by omega) hs.le]
    generalize (p - 1) * s = a at *
    constructor
    · intro h
      by_contra hno
      rw [not_or,not_or] at hno
      exact fetch_ne_nil hs (fun hnil => hno.1 (by rw [hnil]; rfl)) (by omega) h
    · rintro (hnil | ⟨hp',-⟩ | hle)
      · rw [List.eq_nil_of_length_eq_zero hnil]
        simp [fetch]
      · exact absurd hp' hp
      · exact fetch_behind hle

theorem mem_namedPage {p s : ℤ} {rows : List α} {row : α} :
    row ∈ namedPage p s rows ↔ ∃ i : ℕ, rows[i]? = some row ∧ (p - 1) * s ≤ i ∧ i < p * s := by
  simp only [namedPage,between,List.mem_map,List.mem_filter,Prod.exists,decide_eq_true_eq,
    List.mem_zipIdx_iff_getElem?]
  constructor
  · rintro ⟨_,i,⟨hi,hlo,hhi⟩,rfl⟩
    exact ⟨i,hi,hlo,hhi⟩
  · rintro ⟨i,hi,hlo,hhi⟩
    exact ⟨row,i,⟨hi,hlo,hhi⟩,rfl⟩

/-- A position lies in one page only. -/
theorem page_unique {p q s i : ℤ} (hs : 0 < s) (hp : (p - 1) * s ≤ i ∧ i < p * s)
    (hq : (q - 1) * s ≤ i ∧ i < q * s) : p = q := by
  have h₁ : p - 1 < q := Int.lt_of_mul_lt_mul_right (hp.1.trans_lt hq.2) hs.le
  have h₂ : q - 1 < p := Int.lt_of_mul_lt_mul_right (hq.1.trans_lt hp.2) hs.le
  omega

theorem disjoint_namedPage {p q s : ℤ} (hs : 0 < s) (hne : p ≠ q) {rows : List α}
    (hnodup : rows.Nodup) : (namedPage p s rows).Disjoint (namedPage q s rows) := by
  intro row hp hq
  obtain ⟨i,hi,hpi⟩ := mem_namedPage.mp hp
  obtain ⟨j,hj,hqj⟩ := mem_namedPage.mp hq
  obtain ⟨hi',hri⟩ := List.getElem?_eq_some_iff.mp hi
  obtain ⟨hj',hrj⟩ := List.getElem?_eq_some_iff.mp hj
  obtain rfl : i = j := hnodup.getElem_inj_iff.mp (hri.trans hrj.symm)
  exact hne (page_unique hs hpi hqj)

end Pages

section List

variable {α : Type} {args : ListArguments} {rows : List α} {paging : PagingMeta} {items : List α}

theorem loadList_eq_ok (hsize : args.size ≠ 0) :
    loadList args (.ok rows) = .ok (paging,items) ↔
      items = fetch ((args.page - 1) * args.size).toInt args.size.toInt rows ∧
        paging = ⟨args.page,Int64.ofNat items.length,Int64.ofNat rows.length⟩ := by
  rw [loadList,if_neg hsize]
  constructor
  · intro h
    cases h
    exact ⟨rfl,rfl⟩
  · rintro ⟨rfl,rfl⟩
    rfl

variable {pkg : SearchPackages} {disallowed : DisallowedFields} {resourceType resourceTable : String}
  {database : ListQuery → Except String (List α)}

theorem loadList_of_genericList
    (h : genericList pkg disallowed resourceType resourceTable database args =
      .ok (paging,items)) : ∃ query, loadList args (database query) = .ok (paging,items) := by
  unfold genericList at h
  split at h
  · cases h
  next orderBy _ =>
    split at h
    · cases h
    next condition _ =>
      split at h
      · cases h
      next result hload =>
        cases h
        exact ⟨_,hload⟩

theorem genericList_page (hnodup : rows.Nodup) (hrows : ∀ query, database query = .ok rows)
    (h : genericList pkg disallowed resourceType resourceTable database args =
      .ok (paging,items)) (hsize : 0 < args.size.toInt) :
    items = namedPage paging.page.toInt args.size.toInt rows ↔
      PageFits paging.page.toInt args.size.toInt rows.length := by
  obtain ⟨query,hload⟩ := loadList_of_genericList h
  have hne : args.size ≠ 0 := by
    intro hz
    rw [hz] at hsize
    exact absurd hsize (by decide)
  rw [hrows] at hload
  obtain ⟨hitems,hpaging⟩ := (loadList_eq_ok hne).mp hload
  rw [hpaging,hitems,toInt_offset]
  exact fetch_eq_namedPage_iff hsize hnodup

/-- The pages of a table with fewer than 2^63 rows, one after the other, are the table. -/
theorem loadList_covers (args : ListArguments) (hsize : 0 < args.size.toInt)
    (hlen : (rows.length : ℤ) < 2^63) : ∃ pages : ℕ → List α,
      (∀ k < rows.length ⌈/⌉ args.size.toInt.toNat, ∃ paging : PagingMeta,
        paging.page.toInt = k+1 ∧
          loadList { args with page := Int64.ofNat (k+1) } (.ok rows) = .ok (paging,pages k)) ∧
      (List.range (rows.length ⌈/⌉ args.size.toInt.toNat)).flatMap pages = rows := by
  have hpos : 0 < args.size.toInt.toNat := by omega
  refine ⟨chunk args.size.toInt.toNat rows,?_,?_⟩
  · intro k hk
    have hk := (lt_ceilDiv_iff hpos _ _).mp hk
    have hpage : (Int64.ofNat (k+1)).toInt = k+1 := by
      have hle : k * 1 ≤ k * args.size.toInt.toNat := Nat.mul_le_mul_left k hpos
      exact Int64.toInt_ofNat_of_lt (by omega)
    have hoffset : ((k+1-1 : ℤ) * args.size.toInt).bmod (2^64) =
        (k * args.size.toInt.toNat : ℕ) := by
      have he : (k+1-1 : ℤ) * args.size.toInt = (k * args.size.toInt.toNat : ℕ) := by
        rw [Nat.cast_mul,Int.toNat_of_nonneg hsize.le,Int.add_sub_cancel]
      rw [he]
      exact bmod_of_fits (Int.natCast_nonneg _) (by omega)
    refine ⟨_,hpage,(loadList_eq_ok ?_).mpr ⟨?_,rfl⟩⟩
    · intro hz
      rw [show args.size = 0 from hz] at hsize
      exact absurd hsize (by decide)
    · rw [toInt_offset,hpage,hoffset,fetch,Int.toNat_natCast]
      rfl
  · rw [List.flatMap_def]
    exact flatten_chunks hpos rows

/-- The rows of a successful list call are those of the page it reports exactly when the page
fits. Different pages are then disjoint, and the pages of a table cover it. -/
theorem genericList_page_iff {params : String → String} (hnodup : rows.Nodup)
    (hrows : ∀ query, database query = .ok rows)
    (hlist : genericList pkg disallowed resourceType resourceTable database
      (newListArguments params) = .ok (paging,items))
    (hsize : (newListArguments params).size ≠ 0) :
    (items = namedPage paging.page.toInt (newListArguments params).size.toInt rows ↔
      PageFits paging.page.toInt (newListArguments params).size.toInt rows.length) ∧
    (∀ params' paging' items', genericList pkg disallowed resourceType resourceTable database
        (newListArguments params') = .ok (paging',items') →
      (newListArguments params').size = (newListArguments params).size →
      PageFits paging.page.toInt (newListArguments params).size.toInt rows.length →
      PageFits paging'.page.toInt (newListArguments params).size.toInt rows.length →
      paging'.page ≠ paging.page → items.Disjoint items') ∧
    ((rows.length : ℤ) < 2^63 → ∃ pages : ℕ → List α,
      (∀ k < rows.length ⌈/⌉ (newListArguments params).size.toInt.toNat, ∃ paging : PagingMeta,
        paging.page.toInt = k+1 ∧
          loadList { newListArguments params with page := Int64.ofNat (k+1) } (.ok rows) =
            .ok (paging,pages k)) ∧
      (List.range (rows.length ⌈/⌉ (newListArguments params).size.toInt.toNat)).flatMap pages =
        rows) := by
  have hpos : 0 < (newListArguments params).size.toInt := by
    refine lt_of_le_of_ne (newListArguments_size params).1 fun hz => hsize ?_
    exact Int64.toInt_inj.mp hz.symm
  have hiff := genericList_page hnodup hrows hlist hpos
  refine ⟨hiff,?_,loadList_covers (newListArguments params) hpos⟩
  intro params' paging' items' hlist' hsame hfit hfit' hne
  have hiff' := genericList_page hnodup hrows hlist' (by rw [hsame]; exact hpos)
  rw [hsame] at hiff'
  rw [hiff.mpr hfit,hiff'.mpr hfit']
  exact disjoint_namedPage hpos (fun he => hne (Int64.toInt_inj.mp he.symm)) hnodup

/-- No search is parsed. -/
def noSearch : SearchPackages where
  parseSQL _ := .error "no parser"
  parseTSL _ := .error "no parser"
  walkIdents _ n := .ok n
  walkSQL _ := .error "no walker"

/-- The parameters of a list request without a search. -/
def pageParams (page size : String) (name : String) : String :=
  if name = "page" then page else if name = "size" then size else ""

theorem genericList_page_two :
    ([3,4] : List ℕ) = namedPage 2 2 [1,2,3,4,5] ∧
      genericList noSearch (fun _ => none) "Resource" "resources" (fun _ => .ok [1,2,3,4,5])
        (newListArguments (pageParams "2" "2")) = .ok (⟨2,2,5⟩,[3,4]) := by
  have hlist : genericList noSearch (fun _ => none) "Resource" "resources"
      (fun _ => .ok [1,2,3,4,5]) (newListArguments (pageParams "2" "2")) =
        .ok (⟨2,2,5⟩,[3,4]) := by rfl
  obtain ⟨hpage,-,-⟩ := genericList_page_iff (by decide) (fun _ => rfl) hlist (by decide)
  exact ⟨hpage.mpr (.inr (.inl ⟨by decide,by decide⟩)),hlist⟩

/-- Page 0 has no rows and the first ones are returned; so they are for a page whose offset is a
multiple of 2^64. -/
theorem genericList_wrong_page :
    genericList noSearch (fun _ => none) "Resource" "resources" (fun _ => .ok [1,2,3])
        (newListArguments (pageParams "0" "2")) = .ok (⟨0,2,3⟩,[1,2]) ∧
      namedPage 0 2 [1,2,3] = [] ∧
    genericList noSearch (fun _ => none) "Resource" "resources" (fun _ => .ok [1,2,3])
        (newListArguments (pageParams "4611686018427387905" "4")) =
          .ok (⟨4611686018427387905,3,3⟩,[1,2,3]) ∧
      namedPage 4611686018427387905 4 [1,2,3] = [] := by
  refine ⟨rfl,by decide,rfl,by decide⟩

end List

end Maestro
