import Maestro.Client.PagerTokens

/-!
# Full lists

`PageList` without a limit asks for the pages of the matching rows until one is short. Its
requests have no order, so that the database may cut each page out of the rows in another order.
-/

namespace Maestro
open Data

variable {α : Type}

/-- What the database may return for the requests of a client: the rows that the search selects,
in any order, or in the same order for all requests that ask for one. -/
structure QueryRows (table : List α) (selects : String → α → Bool)
    (rows : ℕ → ListRequest → List α) : Prop where
  perm : ∀ k request, (rows k request).Perm (table.filter (selects request.search))
  ordered : ∀ k k' request request', request.orderBy ≠ [] → request.orderBy = request'.orderBy →
    request.search = request'.search → rows k request = rows k' request'

namespace PageRun

theorem out_items {q : PageRun α} {k : ℕ} {items : List α} {next : String}
    (h : q.out k = some (.ok (items,next))) : items = q.served (k+1) := by
  rw [out] at h
  split at h
  · cases h
    rfl
  split at h
  · cases h
  split at h
  · cases h
    rfl
  · cases h

theorem served_prefix (q : PageRun α) {j k : ℕ} (h : j ≤ k) : q.served j <+: q.served k := by
  induction k, h using Nat.le_induction with
  | base => exact List.prefix_rfl
  | succ k _ ih => exact ih.trans ⟨q.items k,(q.served_succ k).symm⟩

end PageRun

section FullList

variable (table : List α) (selects : String → α → Bool) (search : String)
  (quote : String → String)

/-- The call returns every matching row exactly once. -/
def ListsAll (rows : ℕ → ListRequest → List α) : Prop :=
  ∃ fuel items next, pageList (listServer rows) search quote {} fuel = some (.ok (items,next)) ∧
    items.Perm (table.filter (selects search))

variable {table selects search quote}

theorem listsAll_iff {rows : ℕ → ListRequest → List α} :
    ListsAll table selects search quote rows ↔
      ∃ k items next, (PageRun.mk rows search 0 1).out k = some (.ok (items,next)) ∧
        (∀ j < k, (PageRun.mk rows search 0 1).out j = none) ∧
        items.Perm (table.filter (selects search)) := by
  have hp : page quote {} = .ok 1 := rfl
  simp only [ListsAll,PageRun.pageList_eq_some hp (le_refl (0 : ℤ))]
  constructor
  · rintro ⟨fuel,items,next,⟨k,-,hout,hbefore⟩,hperm⟩
    exact ⟨k,items,next,hout,hbefore,hperm⟩
  · rintro ⟨k,items,next,hout,hbefore,hperm⟩
    exact ⟨k+1,items,next,⟨k,Nat.lt_succ_self k,hout,hbefore⟩,hperm⟩

theorem fullList_sized (search : String) (rows : ℕ → ListRequest → List α) :
    (PageRun.mk rows search 0 1).Sized 400 :=
  PageRun.sized (q := PageRun.mk rows search 0 1) le_rfl (show (0 : ℤ) < 2147483648 by decide)

theorem fullList_items (rows : ℕ → ListRequest → List α) {k : ℕ} (hk : k < 2) :
    (PageRun.mk rows search 0 1).items k =
      chunk 400 ((PageRun.mk rows search 0 1).matching k) k := by
  have hindex : (int32 ((1 : ℤ) + k) - 1).toNat = k := by
    rw [int32_of_range (by omega) (by omega)]
    omega
  rw [(fullList_sized search rows).items]
  exact congrArg (chunk 400 _) hindex

/-- One page holds all rows; after a full page comes an empty one. -/
theorem listsAll_of_page {rows : ℕ → ListRequest → List α} (hrows : QueryRows table selects rows)
    (hlen : (table.filter (selects search)).length ≤ 400) :
    ListsAll table selects search quote rows := by
  have hs := fullList_sized search rows
  have hperm : ∀ k, ((PageRun.mk rows search 0 1).matching k).Perm
      (table.filter (selects search)) := fun k => hrows.perm k _
  have hmatch : ∀ k, ((PageRun.mk rows search 0 1).matching k).length ≤ 400 :=
    fun k => (hperm k).length_eq.trans_le hlen
  have hfirst : (PageRun.mk rows search 0 1).items 0 = (PageRun.mk rows search 0 1).matching 0 := by
    rw [fullList_items rows (by decide)]
    simp [chunk,hmatch 0]
  have hsecond : (PageRun.mk rows search 0 1).items 1 = [] := by
    rw [fullList_items rows (by decide)]
    simp [chunk,hmatch 1]
  rw [listsAll_iff]
  by_cases hshort : ((PageRun.mk rows search 0 1).items 0).length < 400
  · have hK : (PageRun.mk rows search 0 1).FirstShort 400 0 := ⟨by simp,hshort⟩
    obtain ⟨hout,hbefore⟩ := hs.short_exit hK fun j _ => .inl rfl
    refine ⟨0,_,_,hout,hbefore,?_⟩
    simpa [PageRun.served,hfirst] using hperm 0
  · have hK : (PageRun.mk rows search 0 1).FirstShort 400 1 := by
      refine ⟨fun j hj => ?_,by simp [hsecond]⟩
      rwa [Nat.lt_one_iff.mp hj]
    obtain ⟨hout,hbefore⟩ := hs.short_exit hK fun j _ => .inl rfl
    refine ⟨1,_,_,hout,hbefore,?_⟩
    simpa [PageRun.served,List.range_succ,hfirst,hsecond] using hperm 0

/-- The rows in another order after the first query: the first row comes where the second page
begins. -/
def reordered (table : List α) (selects : String → α → Bool) (search : String) :
    ℕ → ListRequest → List α := fun k request =>
  if k ≠ 0 ∧ request.orderBy = [] ∧ request.search = search then
    match table.filter (selects search) with
    | [] => []
    | a :: t => t.take 400 ++ a :: t.drop 400
  else table.filter (selects request.search)

theorem reordered_queryRows : QueryRows table selects (reordered table selects search) := by
  constructor
  · intro k request
    rw [reordered]
    split
    next h =>
      rw [h.2.2]
      cases table.filter (selects search) with
      | nil => exact .refl _
      | cons a t =>
        have hmiddle : (t.take 400 ++ a :: t.drop 400).Perm (a :: (t.take 400 ++ t.drop 400)) :=
          List.perm_middle
        rwa [List.take_append_drop] at hmiddle
    · exact .refl _
  · intro k k' request request' hne horder hsearch
    rw [reordered,reordered,if_neg (by simp [hne]),if_neg (by simp [← horder,hne]),hsearch]

/-- More rows than a page holds can be listed twice. -/
theorem reordered_not_listsAll (hnodup : table.Nodup)
    (hlen : 400 < (table.filter (selects search)).length) :
    ¬ ListsAll table selects search quote (reordered table selects search) := by
  rw [listsAll_iff]
  rintro ⟨k,items,next,hout,hbefore,hperm⟩
  have hs := fullList_sized search (reordered table selects search)
  have hfilter : (table.filter (selects search)).Nodup := hnodup.filter _
  cases hrows : table.filter (selects search) with
  | nil => simp [hrows] at hlen
  | cons a t =>
    have hlong : 400 ≤ t.length := by
      rw [hrows,List.length_cons] at hlen
      omega
    have hm₀ : (PageRun.mk (reordered table selects search) search 0 1).matching 0 = a :: t := by
      change reordered table selects search 0 _ = _
      rw [reordered,if_neg (by simp)]
      exact hrows
    have hm₁ : (PageRun.mk (reordered table selects search) search 0 1).matching 1 =
        t.take 400 ++ a :: t.drop 400 := by
      change reordered table selects search 1 _ = _
      rw [reordered,if_pos ⟨by decide,rfl,rfl⟩,hrows]
    have hfirst : (PageRun.mk (reordered table selects search) search 0 1).items 0 =
        a :: t.take 399 := by
      rw [fullList_items _ (by decide),hm₀]
      simp [chunk]
    have hsecond : a ∈ (PageRun.mk (reordered table selects search) search 0 1).items 1 := by
      rw [fullList_items _ (by decide),hm₁]
      simp [chunk,hlong]
    have hk : 1 ≤ k := by
      rcases Nat.eq_zero_or_pos k with rfl | hpos
      · rw [PageRun.out,hs.size,if_neg (by rw [hfirst]; simp; omega),if_pos rfl] at hout
        cases hout
      · exact hpos
    -- the first two pages already list the first row twice
    have hall := (hperm.nodup_iff.mpr hfilter)
    rw [PageRun.out_items hout] at hall
    have htwo := hall.sublist (PageRun.served_prefix _ (show 2 ≤ k+1 by omega)).sublist
    rw [PageRun.served_succ,PageRun.served_succ,hfirst] at htwo
    exact (List.nodup_append.mp htwo).2.2 a (by simp [PageRun.served]) a hsecond rfl

/-- Full lists are complete, whatever the order of the rows in each query, if and only if the
matching rows fit into one page. -/
theorem fullList_complete_iff (hnodup : table.Nodup) :
    (∀ rows, QueryRows table selects rows → ListsAll table selects search quote rows) ↔
      (table.filter (selects search)).length ≤ 400 := by
  constructor
  · intro h
    by_contra hlen
    exact reordered_not_listsAll hnodup (by omega) (h _ reordered_queryRows)
  · exact fun hlen rows hrows => listsAll_of_page hrows hlen

/-- The rows of a small table, in one order. -/
theorem fullList_complete_three :
    QueryRows [1,2,3] (fun _ _ => true) (fun _ _ => [1,2,3]) ∧
      ListsAll [1,2,3] (fun _ _ => true) "" id fun _ _ => [1,2,3] := by
  have hrows : QueryRows [1,2,3] (fun _ _ => true) fun _ _ => [1,2,3] :=
    ⟨fun _ _ => .refl _,fun _ _ _ _ _ _ _ => rfl⟩
  exact ⟨hrows,(fullList_complete_iff (by decide)).mpr (by decide) _ hrows⟩

/-- A table of 401 rows: the second query may return the first row again and leave out another. -/
theorem fullList_incomplete :
    QueryRows (List.range 401) (fun _ _ => true)
        (reordered (List.range 401) (fun _ _ => true) "") ∧
      pageList (listServer (reordered (List.range 401) (fun _ _ => true) "")) "" id {} 2 =
        some (.ok (List.range 400 ++ [0],"")) :=
  ⟨reordered_queryRows,by decide +kernel⟩

end FullList

end Maestro
