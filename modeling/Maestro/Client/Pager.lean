import Maestro.Data.Loop
import Maestro.Services.Paging

/-!
# Paged lists

`PageList` asks the list endpoint of the server for one page after the other. The endpoint cuts
each page out of the rows that the search selects, in the order in which the database returns
them for that query. The requests of a call and what they bring are known from the rows alone
(`PageRun`), and the call returns at the first request that ends its loop.
-/

namespace Maestro
open Data

/-! ### The server -/

/-- The arguments of a list request. -/
structure ListRequest where
  search : String
  page : ℤ
  size : ℤ
  orderBy : List String := []
deriving DecidableEq

/-- `openapi.ResourceBundleList`. -/
structure ResourceBundleList (α : Type) where
  items : List α
  page : ℤ
  size : ℤ
  total : ℤ
deriving DecidableEq

/-- The size of a page as `NewListArguments` bounds it. -/
def ListRequest.boundedSize (request : ListRequest) : ℤ :=
  if request.size > maxListSize ∨ request.size < 0 then maxListSize else request.size

/-- `loadList` and the handler of the list endpoint, for the rows of the query. -/
def listPage {α : Type} (rows : List α) (request : ListRequest) : ResourceBundleList α :=
  let size := request.boundedSize
  let items := if size = 0 then [] else fetch ((request.page - 1) * size) size rows
  ⟨items,int32 request.page,int32 items.length,int32 rows.length⟩

theorem ListRequest.boundedSize_mem (request : ListRequest) :
    0 ≤ request.boundedSize ∧ request.boundedSize ≤ maxListSize := by
  rw [boundedSize]
  split <;> simp_all [maxListSize]

/-- The offsets of the pages that a request can name fit 64 bits. -/
theorem offset_bmod {p s : ℤ} (h₁ : -2147483648 ≤ p) (h₂ : p < 2147483648) (hs₁ : 0 ≤ s)
    (hs₂ : s ≤ 65500) : ((p - 1) * s).bmod (2^64) = (p - 1) * s := by
  have hlo : (-2147483649 : ℤ) * 65500 ≤ (p - 1) * s := by
    have h := Int.mul_le_mul_of_nonneg_right (show (-2147483649 : ℤ) ≤ p - 1 by omega) hs₁
    omega
  have hhi : (p - 1) * s ≤ 2147483647 * 65500 := by
    have h := Int.mul_le_mul_of_nonneg_right (show p - 1 ≤ 2147483647 by omega) hs₁
    omega
  exact Int.bmod_eq_of_le (by omega) (by omega)

/-- The items are those of `loadList`: within 32 bits its arithmetic is exact. -/
theorem loadList_eq_listPage {α : Type} (rows : List α) (request : ListRequest)
    (h₁ : -2147483648 ≤ request.page) (h₂ : request.page < 2147483648) : ∃ paging,
      loadList { page := Int64.ofInt request.page, size := Int64.ofInt request.boundedSize }
        (.ok rows) = .ok (paging,(listPage rows request).items) := by
  obtain ⟨hs₁,hs₂⟩ := request.boundedSize_mem
  have hpage : (Int64.ofInt request.page).toInt = request.page :=
    Int64.toInt_ofInt_of_le (by omega) (by omega)
  have hsize : (Int64.ofInt request.boundedSize).toInt = request.boundedSize :=
    Int64.toInt_ofInt_of_le (by omega) (by rw [maxListSize] at hs₂; omega)
  rw [listPage]
  dsimp only
  by_cases hz : request.boundedSize = 0
  · rw [if_pos hz,hz]
    exact ⟨_,rfl⟩
  · have hne : Int64.ofInt request.boundedSize ≠ 0 := by
      intro h
      rw [h] at hsize
      exact hz hsize.symm
    rw [if_neg hz]
    refine ⟨_,(loadList_eq_ok hne).mpr ⟨?_,rfl⟩⟩
    rw [toInt_offset,hpage,hsize,offset_bmod h₁ h₂ hs₁ hs₂]

/-- The answers to the requests of a client, which are numbered. -/
abbrev Endpoint (α : Type) := ℕ → ListRequest → Except String (ResourceBundleList α)

/-- The endpoint over the rows that each query returns. -/
def listServer {α : Type} (rows : ℕ → ListRequest → List α) : Endpoint α :=
  fun k request => .ok (listPage (rows k request) request)

/-! ### The client -/

def maxListPageSize : ℤ := 400

/-- The fields of `metav1.ListOptions` for paging. -/
structure ListOptions where
  limit : ℤ := 0
  continue_ : String := ""
deriving DecidableEq

/-- `strconv.Atoi`. -/
def atoi (quote : String → String) (s : String) : Except String ℤ :=
  let value : Option (ℤ × List Char) :=
    match s.toList with
    | '+' :: cs => (JsonText.readNat cs).map fun p => ((p.1 : ℤ),p.2)
    | cs => JsonText.readInt cs
  match value with
  | some (n,[]) =>
    if -9223372036854775808 ≤ n ∧ n < 9223372036854775808 then .ok n
    else .error ("strconv.Atoi: parsing " ++ quote s ++ ": value out of range")
  | _ => .error ("strconv.Atoi: parsing " ++ quote s ++ ": invalid syntax")

/-- The format `%d`. -/
def decimal (n : ℤ) : String := String.ofList (JsonText.printInt n)

/-- `page`. -/
def page (quote : String → String) (opts : ListOptions) : Except String ℤ :=
  if opts.continue_ = "" then .ok 1
  else
    match atoi quote opts.continue_ with
    | .error err => .error ("a page number is required, " ++ err)
    | .ok page =>
      if page < 0 then .error ("an invalid page number " ++ decimal page) else .ok (int32 page)

theorem page_range {quote : String → String} {opts : ListOptions} {p : ℤ}
    (h : page quote opts = .ok p) : -2147483648 ≤ p ∧ p < 2147483648 := by
  rw [page] at h
  split at h
  · cases h
    decide
  split at h
  · cases h
  next n _ =>
    split at h
    · cases h
    · cases h
      exact int32_range n

/-- The empty text, or a number from 1 on. -/
def ValidToken (quote : String → String) (token : String) : Prop :=
  token = "" ∨ ∃ n, 1 ≤ n ∧ atoi quote token = .ok n

theorem ValidToken.page {quote : String → String} {token : String} (h : ValidToken quote token)
    (limit : ℤ) : ∃ p, page quote ⟨limit,token⟩ = .ok p := by
  rw [Maestro.page]
  rcases h with rfl | ⟨n,hn,hatoi⟩
  · exact ⟨1,rfl⟩
  · split
    · exact ⟨1,rfl⟩
    · simp only [hatoi,if_neg (show ¬ n < 0 by omega)]
      exact ⟨_,rfl⟩

/-- `pageSize`. -/
def pageSize (limit : ℤ) : ℤ :=
  if limit > maxListPageSize then maxListPageSize
  else if limit = 0 then maxListPageSize
  else limit

/-- The variables of the loop, and the number of requests made. -/
structure Paging (α : Type) where
  page : ℤ
  total : ℤ
  items : List α
  requests : ℕ

section PageList

variable {α : Type} (server : Endpoint α) (search : String)

/-- One round of the loop. -/
def pageListStep (limit pageSize offset : ℤ) (s : Paging α) :
    Paging α ⊕ Except String (List α × String) :=
  match server s.requests ⟨search,s.page,pageSize,[]⟩ with
  | .error err => .inr (.error err)
  | .ok rbs =>
    let items := s.items ++ rbs.items
    let total := int32 (rbs.size + s.total)
    let page := int32 (s.page + 1)
    if rbs.size < pageSize then .inr (.ok (items,""))
    else if limit = 0 then .inl ⟨page,total,items,s.requests+1⟩
    else if total = int32 limit then
      .inr (.ok (items,if int32 (total + offset) < rbs.total then decimal page else ""))
    else .inl ⟨page,total,items,s.requests+1⟩

/-- `PageList`, for at most so many requests. -/
def pageList (quote : String → String) (opts : ListOptions) (fuel : ℕ) :
    Option (Except String (List α × String)) :=
  match page quote opts with
  | .error err => some (.error err)
  | .ok page =>
    if opts.limit < 0 then some (.error "limit cannot be less than 0")
    else
      let pageSize := pageSize (int32 opts.limit)
      let offset := int32 (int32 (page - 1) * pageSize)
      loop (pageListStep server search opts.limit pageSize offset) fuel ⟨page,0,[],0⟩

end PageList

/-! ### The requests of a call -/

/-- A call of `PageList` with a valid limit: the rows of its queries, and the page at which it
begins. -/
structure PageRun (α : Type) where
  rows : ℕ → ListRequest → List α
  search : String
  limit : ℤ
  page : ℤ

namespace PageRun

variable {α : Type} (q : PageRun α)

def size : ℤ := pageSize (int32 q.limit)

def offset : ℤ := int32 (int32 (q.page - 1) * q.size)

def request (k : ℕ) : ListRequest := ⟨q.search,int32 (q.page + k),q.size,[]⟩

/-- The rows of the `k`-th query, and the part of them in its page. -/
def matching (k : ℕ) : List α := q.rows k (q.request k)

def items (k : ℕ) : List α := (listPage (q.matching k) (q.request k)).items

/-- What the first `k` requests bring. -/
def served (k : ℕ) : List α := (List.range k).flatMap q.items

def state (k : ℕ) : Paging α :=
  ⟨int32 (q.page + k),int32 (q.served k).length,q.served k,k⟩

/-- What the call returns if the `k`-th request ends it. -/
def out (k : ℕ) : Option (Except String (List α × String)) :=
  if (q.items k).length < q.size then some (.ok (q.served (k+1),""))
  else if q.limit = 0 then none
  else if int32 (q.served (k+1)).length = int32 q.limit then
    some (.ok (q.served (k+1),
      if int32 (int32 (q.served (k+1)).length + q.offset) < int32 (q.matching k).length
        then decimal (int32 (q.page + (k+1))) else ""))
  else none

theorem served_succ (k : ℕ) : q.served (k+1) = q.served k ++ q.items k := by
  simp [served,List.range_succ]

theorem boundedSize_range (k : ℕ) :
    0 ≤ (q.request k).boundedSize ∧ (q.request k).boundedSize ≤ maxListSize :=
  (q.request k).boundedSize_mem

/-- A page is a chunk of the rows; the pages before the first one repeat it. -/
theorem items_eq (k : ℕ) : q.items k =
    chunk (q.request k).boundedSize.toNat (q.matching k) (int32 (q.page + k) - 1).toNat := by
  have hpos := (q.boundedSize_range k).1
  have hoffset : ((int32 (q.page + k) - 1) * (q.request k).boundedSize).toNat =
      (int32 (q.page + k) - 1).toNat * (q.request k).boundedSize.toNat := by
    rcases le_or_gt 0 (int32 (q.page + k) - 1) with h | h
    · exact Int.toNat_mul h hpos
    · rw [Int.toNat_of_nonpos h.le,Nat.zero_mul]
      exact Int.toNat_of_nonpos (Int.mul_nonpos_of_nonpos_of_nonneg h.le hpos)
  rw [items,listPage,chunk,← hoffset]
  dsimp only
  split
  next hz => simp [hz]
  · rfl

theorem length_items_le (k : ℕ) : ((q.items k).length : ℤ) ≤ maxListSize := by
  have hle := chunk_length_le (q.request k).boundedSize.toNat (q.matching k)
    (int32 (q.page + k) - 1).toNat
  have hr := q.boundedSize_range k
  rw [items_eq]
  omega

/-- The sequence of the rounds. -/
theorem trajectory :
    Trajectory (pageListStep (listServer q.rows) q.search q.limit q.size q.offset) q.state
      q.out := by
  have hround : ∀ k, pageListStep (listServer q.rows) q.search q.limit q.size q.offset
      (q.state k) =
        match q.out k with
        | none => .inl (q.state (k+1))
        | some r => .inr r := by
    intro k
    have hle := q.length_items_le k
    have hsize : int32 (q.items k).length = (q.items k).length :=
      int32_of_range (by omega) (by rw [maxListSize] at hle; omega)
    have hitems : (listPage (q.matching k) (q.request k)).items = q.items k := rfl
    have hlen : (listPage (q.matching k) (q.request k)).size = (q.items k).length := hsize
    have htotal : (listPage (q.matching k) (q.request k)).total = int32 (q.matching k).length :=
      rfl
    have hserved : int32 ((q.items k).length + int32 (q.served k).length) =
        int32 (q.served (k+1)).length := by
      simp [served_succ,add_comm]
    have hpage : int32 (int32 (q.page + k) + 1) = int32 (q.page + (k+1)) := by
      simp [add_assoc]
    have hserver : listServer q.rows (q.state k).requests ⟨q.search,(q.state k).page,q.size,[]⟩ =
        .ok (listPage (q.matching k) (q.request k)) := rfl
    simp only [pageListStep,hserver,out,hitems,hlen,htotal]
    simp only [state,hserved,hpage,← served_succ]
    split
    · rfl
    split
    · simp
    split
    · rfl
    · simp
  constructor
  · intro k hk
    rw [hround,hk]
  · intro k r hk
    rw [hround,hk]

/-- The call returns at the first request that ends it. -/
theorem pageList_eq_some {rows : ℕ → ListRequest → List α} {search : String}
    {quote : String → String} {opts : ListOptions} {p : ℤ} (hp : Maestro.page quote opts = .ok p)
    (hlimit : 0 ≤ opts.limit) {fuel : ℕ} {r : Except String (List α × String)} :
    pageList (listServer rows) search quote opts fuel = some r ↔
      ∃ k < fuel, (PageRun.mk rows search opts.limit p).out k = some r ∧
        ∀ j < k, (PageRun.mk rows search opts.limit p).out j = none := by
  have hrange := page_range hp
  have hstart : (PageRun.mk rows search opts.limit p).state 0 = ⟨p,0,[],0⟩ := by
    simp [state,served,int32_of_range hrange.1 hrange.2]
  rw [← (PageRun.mk rows search opts.limit p).trajectory.loop_eq_some,hstart]
  simp only [pageList,hp,if_neg (not_lt.mpr hlimit)]
  rfl

theorem pageList_ends {rows : ℕ → ListRequest → List α} {search : String}
    {quote : String → String} {opts : ListOptions} {p : ℤ} (hp : Maestro.page quote opts = .ok p)
    (hlimit : 0 ≤ opts.limit) :
    (∃ fuel, (pageList (listServer rows) search quote opts fuel).isSome) ↔
      ∃ k, ((PageRun.mk rows search opts.limit p).out k).isSome := by
  rw [← (PageRun.mk rows search opts.limit p).trajectory.loop_ends]
  simp only [Option.isSome_iff_exists,pageList_eq_some hp hlimit,
    (PageRun.mk rows search opts.limit p).trajectory.loop_eq_some]

end PageRun

end Maestro
