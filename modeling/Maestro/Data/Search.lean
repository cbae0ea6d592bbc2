import Mathlib.Data.List.Forall2
import Mathlib.Data.List.Induction
import Mathlib.Data.List.TakeDrop

/-!
# Searching a list

Lemmas about `filterMap` as the search for the entries of one kind in a journal.
-/

namespace Data

theorem filterMap_snoc {α β : Type} (f : α → Option β) (J : List α) (e : α) :
    (J ++ [e]).filterMap f = J.filterMap f ++ (f e).toList := by
  cases h : f e <;> simp [h]

/-- The `k`-th hit of a search, and the part of the list before it. -/
theorem filterMap_split {α β : Type} {f : α → Option β} {J : List α} {k : ℕ} {b : β}
    (h : (J.filterMap f)[k]? = some b) : ∃ pre e post, J = pre ++ e :: post ∧ f e = some b ∧
      pre.filterMap f = (J.filterMap f).take k := by
  obtain ⟨hk,hb⟩ := List.getElem?_eq_some_iff.mp h
  have hcut : J.filterMap f = (J.filterMap f).take k ++ b :: (J.filterMap f).drop (k+1) := by
    rw [← hb,List.cons_getElem_drop_succ,List.take_append_drop]
  obtain ⟨pre,rest,rfl,hpre,hrest⟩ := List.filterMap_eq_append_iff.mp hcut
  obtain ⟨mid,e,post,rfl,hmid,he,-⟩ := List.filterMap_eq_cons_iff.mp hrest
  refine ⟨pre ++ mid,e,post,by simp,he,?_⟩
  rw [List.filterMap_append,hpre,List.filterMap_eq_nil_iff.mpr hmid,List.append_nil]

theorem exists_map_eq {α β γ : Type} {f : α → γ} {g : β → γ} {l : List α}
    (h : ∀ a ∈ l, ∃ b, f a = g b) : ∃ l' : List β, l.map f = l'.map g := by
  induction l with
  | nil => exact ⟨[],rfl⟩
  | cons a l ih =>
    obtain ⟨b,hb⟩ := h a List.mem_cons_self
    obtain ⟨l',hl'⟩ := ih fun a ha => h a (List.mem_cons_of_mem _ ha)
    exact ⟨b :: l',by simp [hb,hl']⟩

theorem exists_forall₂ {α β : Type} {R : α → β → Prop} {l : List α}
    (h : ∀ a ∈ l, ∃ b, R a b) : ∃ l', List.Forall₂ R l l' := by
  induction l with
  | nil => exact ⟨[],.nil⟩
  | cons a l ih =>
    obtain ⟨b,hb⟩ := h a List.mem_cons_self
    obtain ⟨l',hl'⟩ := ih fun a ha => h a (List.mem_cons_of_mem _ ha)
    exact ⟨b :: l',.cons hb hl'⟩

theorem forall₂_imp_of_mem {α β : Type} {R S : α → β → Prop} {l : List α} {l' : List β}
    (h : List.Forall₂ R l l') (hRS : ∀ a ∈ l, ∀ b, R a b → S a b) : List.Forall₂ S l l' := by
  induction h with
  | nil => exact .nil
  | cons hab _ ih =>
    exact .cons (hRS _ List.mem_cons_self _ hab) (ih fun a ha => hRS a (List.mem_cons_of_mem _ ha))

/-- A fallible loop returns the results of its steps. -/
theorem mapM_eq_ok {α β ε : Type} {f : α → Except ε β} {l : List α} {l' : List β} :
    l.mapM f = .ok l' ↔ List.Forall₂ (fun a b => f a = .ok b) l l' := by
  induction l generalizing l' with
  | nil => cases l' <;> simp [pure,Except.pure]
  | cons a l ih =>
    rw [List.mapM_cons]
    cases ha : f a with
    | error err => cases l' <;> simp [bind,Except.bind,ha]
    | ok b =>
      cases hl : l.mapM f with
      | error err => cases l' <;> simp [bind,Except.bind,← ih,hl,ha]
      | ok bs => cases l' <;> simp [bind,Except.bind,pure,Except.pure,← ih,hl,ha]

theorem eq_ok_of_toOption {ε α : Type} {x : Except ε α} {a : α} (h : x.toOption = some a) :
    x = .ok a := by
  cases x with
  | error err => cases h
  | ok b => exact congrArg _ (Option.some.inj h)

theorem exists_of_forall₂ {α β : Type} {R : α → β → Prop} {as : List α} {bs : List β}
    (h : List.Forall₂ R as bs) : ∀ a ∈ as, ∃ b ∈ bs, R a b := by
  induction h with
  | nil => exact fun a ha => absurd ha List.not_mem_nil
  | cons hab _ ih =>
    refine List.forall_mem_cons.mpr ⟨⟨_,List.mem_cons_self,hab⟩,fun a ha => ?_⟩
    obtain ⟨b,hb,hr⟩ := ih a ha
    exact ⟨b,List.mem_cons_of_mem _ hb,hr⟩

theorem getElem?_of_forall₂ {α β : Type} {R : α → β → Prop} {as : List α} {bs : List β}
    (h : List.Forall₂ R as bs) {i : ℕ} {a : α} (ha : as[i]? = some a) :
    ∃ b, bs[i]? = some b ∧ R a b := by
  induction h generalizing i with
  | nil => cases ha
  | cons hr _ ih =>
    cases i with
    | zero => exact ⟨_,rfl,Option.some.inj ha ▸ hr⟩
    | succ i => exact ih ha

theorem countP_modify {α : Type} (p : α → Bool) (f : α → α) {l : List α} {i : ℕ} {a : α}
    (h : l[i]? = some a) :
    (l.modify i f).countP p + (if p a then 1 else 0) = l.countP p + if p (f a) then 1 else 0 := by
  induction l generalizing i with
  | nil => cases h
  | cons b l ih =>
    cases i with
    | zero =>
      cases h
      rw [List.modify_zero_cons,List.countP_cons,List.countP_cons]
      omega
    | succ i =>
      have hrest := ih (i := i) h
      rw [List.modify_succ_cons,List.countP_cons,List.countP_cons]
      omega

/-- Where every element is kept at most once, the result is a part of the list. -/
theorem flatMap_sublist {α : Type} {f : α → List α} {l : List α}
    (h : ∀ a, (f a).Sublist [a]) : (l.flatMap f).Sublist l := by
  induction l with
  | nil => exact List.Sublist.refl _
  | cons a l ih =>
    rw [List.flatMap_cons]
    exact (h a).append ih

/-- Where an element of an appended list stands. -/
theorem append_split {α : Type} {J K pre post : List α} {e : α} (h : J ++ K = pre ++ e :: post) :
    (∃ rest, J = pre ++ e :: rest ∧ post = rest ++ K) ∨
      ∃ mid, K = mid ++ e :: post ∧ pre = J ++ mid := by
  rcases List.append_eq_append_iff.mp h with ⟨mid,hpre,hK⟩ | ⟨mid,hJ,he⟩
  · exact Or.inr ⟨mid,hK,hpre⟩
  · cases mid with
    | nil => exact Or.inr ⟨[],he.symm,by simpa using hJ.symm⟩
    | cons a mid =>
      cases he
      exact Or.inl ⟨mid,hJ,rfl⟩

theorem snoc_split {α : Type} {J pre post : List α} {x e : α} (h : J ++ [x] = pre ++ e :: post) :
    (∃ rest, J = pre ++ e :: rest) ∨ x = e ∧ pre = J := by
  rcases append_split h with ⟨rest,hold,-⟩ | ⟨mid,hnew,rfl⟩
  · exact Or.inl ⟨rest,hold⟩
  · cases mid with
    | nil => exact Or.inr ⟨(List.cons.inj hnew).1,by simp⟩
    | cons a mid => simp at hnew

/-- The ways to split a list at one of its elements. -/
def splits {α : Type} : List α → List (List α × α × List α)
  | [] => []
  | e :: J => ([],e,J) :: (splits J).map fun p => (e :: p.1,p.2)

theorem mem_splits {α : Type} {J pre post : List α} {e : α} :
    (pre,e,post) ∈ splits J ↔ J = pre ++ e :: post := by
  induction J generalizing pre with
  | nil => simp [splits]
  | cons a J ih =>
    cases pre with
    | nil => simp [splits,eq_comm]
    | cons b pre => simp [splits,ih,eq_comm,and_comm]

/-- Some entry has `p`, and none after it has `q`. -/
def since {α : Type} (p q : α → Bool) (J : List α) : Bool :=
  J.foldl (fun b e => p e || b && !q e) false

@[simp] theorem since_nil {α : Type} (p q : α → Bool) : since p q [] = false := rfl

@[simp] theorem since_snoc {α : Type} (p q : α → Bool) (J : List α) (e : α) :
    since p q (J ++ [e]) = (p e || since p q J && !q e) := by
  simp [since]

/-- What was found since the last entry with `q`. -/
theorem since_of_last {α : Type} {p q : α → Bool} {J K : List α} {e : α} (hp : p e = false)
    (hq : q e = true) (hK : ∀ x ∈ K, q x = false) : since p q (J ++ e :: K) = K.any p := by
  induction K using List.reverseRecOn with
  | nil => simp [hp,hq]
  | append_singleton K x ih =>
    have hx : q x = false := hK x (by simp)
    rw [← List.cons_append,← List.append_assoc,since_snoc,
      ih fun y hy => hK y (List.mem_append_left _ hy),hx]
    simp [Bool.or_comm]

/-- `e` is the last entry with `q`, and `φ` holds if no entry after it has `p`. -/
def SinceLast {α : Type} (p q : α → Bool) (e : α) (J : List α) (φ : Prop) : Prop :=
  ∃ before after, J = before ++ e :: after ∧ (∀ x ∈ after, q x = false) ∧
    ((∀ x ∈ after, p x = false) → φ)

section SinceLast

variable {α : Type} {p q : α → Bool} {e : α} {J K : List α} {φ ψ : Prop}

theorem SinceLast.snoc (h : φ) : SinceLast p q e (J ++ [e]) φ :=
  ⟨J,[],rfl,by simp,fun _ => h⟩

theorem SinceLast.append (h : SinceLast p q e J φ) (hq : ∀ x ∈ K, q x = false)
    (hφ : φ → (∀ x ∈ K, p x = false) → ψ) : SinceLast p q e (J ++ K) ψ := by
  obtain ⟨before,after,rfl,hlast,hp⟩ := h
  refine ⟨before,after ++ K,by simp,List.forall_mem_append.mpr ⟨hlast,hq⟩,fun hx => ?_⟩
  obtain ⟨hafter,hK⟩ := List.forall_mem_append.mp hx
  exact hφ (hp hafter) hK

theorem SinceLast.elim (h : SinceLast p q e J φ) (hp : p e = false) (hq : q e = true)
    (hs : since p q J = false) : φ := by
  obtain ⟨before,after,rfl,hlast,hφ⟩ := h
  rw [since_of_last hp hq hlast,List.any_eq_false] at hs
  exact hφ fun x hx => by simpa using hs x hx

end SinceLast

/-- In a map, what a key has is what `lookup` finds. -/
theorem lookup_eq_some_iff_mem {α β : Type} [BEq α] [LawfulBEq α] {l : List (α × β)}
    (h : (l.map Prod.fst).Nodup) {a : α} {b : β} : l.lookup a = some b ↔ (a,b) ∈ l := by
  rw [List.lookup_eq_some_iff]
  constructor
  · rintro ⟨l₁,l₂,rfl,-⟩
    simp
  · intro hmem
    obtain ⟨l₁,l₂,rfl⟩ := List.append_of_mem hmem
    rw [List.map_append,List.map_cons] at h
    refine ⟨l₁,l₂,rfl,fun p hp => ?_⟩
    have hne := (List.nodup_append.mp h).2.2 p.1 (List.mem_map_of_mem hp) a List.mem_cons_self
    simpa using Ne.symm hne

theorem lookup_map {α β γ : Type} [BEq α] (f : β → γ) (l : List (α × β)) (a : α) :
    (l.map fun p => (p.1,f p.2)).lookup a = (l.lookup a).map f := by
  induction l with
  | nil => rfl
  | cons p l ih =>
    obtain ⟨b,x⟩ := p
    rw [List.map_cons,List.lookup_cons,List.lookup_cons]
    cases a == b
    · exact ih
    · rfl

section LastBy

variable {α β σ τ : Type} [DecidableEq σ] [DecidableEq τ] {slot : α → Option σ}

/-- The list without the entries whose slot a later entry takes. -/
def lastBy (slot : α → Option σ) : List α → List α
  | [] => []
  | a :: l => if slot a ≠ none ∧ slot a ∈ l.map slot then lastBy slot l else a :: lastBy slot l

theorem mem_of_mem_lastBy {l : List α} {a : α} (h : a ∈ lastBy slot l) : a ∈ l := by
  induction l with
  | nil => exact h
  | cons b l ih =>
    rw [lastBy] at h
    split at h
    · exact List.mem_cons_of_mem _ (ih h)
    · rcases List.mem_cons.mp h with rfl | h
      · exact List.mem_cons_self
      · exact List.mem_cons_of_mem _ (ih h)

theorem mem_lastBy_of_none {l : List α} {a : α} (ha : slot a = none) (h : a ∈ l) :
    a ∈ lastBy slot l := by
  induction l with
  | nil => exact h
  | cons b l ih =>
    rw [lastBy]
    rcases List.mem_cons.mp h with rfl | h
    · rw [if_neg (by simp [ha])]
      exact List.mem_cons_self
    · split
      · exact ih h
      · exact List.mem_cons_of_mem _ (ih h)

theorem lastBy_ne_nil (slot : α → Option σ) {l : List α} (h : l ≠ []) : lastBy slot l ≠ [] := by
  induction l with
  | nil => exact absurd rfl h
  | cons b l ih =>
    rw [lastBy]
    split
    next ht => exact ih fun hl => by simp [hl] at ht
    · exact List.cons_ne_nil _ _

/-- Entries of one kind that keep their slots can be taken out before or after. -/
theorem lastBy_filterMap {key : β → Option τ} {f : α → Option β} {l : List α}
    (hkey : ∀ b, key b ≠ none) (h : ∀ a ∈ l, ∀ b, f a = some b → slot a ≠ none ∧
      ∀ a' ∈ l, slot a' = slot a ↔ ∃ b', f a' = some b' ∧ key b' = key b) :
    lastBy key (l.filterMap f) = (lastBy slot l).filterMap f := by
  induction l with
  | nil => rfl
  | cons a l ih =>
    have ih := ih fun x hx b hb =>
      ⟨(h x (List.mem_cons_of_mem _ hx) b hb).1,fun y hy =>
        (h x (List.mem_cons_of_mem _ hx) b hb).2 y (List.mem_cons_of_mem _ hy)⟩
    cases hf : f a with
    | none =>
      rw [List.filterMap_cons_none hf,lastBy,ih]
      split
      · rfl
      · rw [List.filterMap_cons_none hf]
    | some b =>
      obtain ⟨hslot,hsame⟩ := h a List.mem_cons_self b hf
      have htaken : key b ∈ (l.filterMap f).map key ↔ slot a ∈ l.map slot := by
        simp only [List.mem_map,List.mem_filterMap]
        constructor
        · rintro ⟨b',⟨a',ha',hb'⟩,hk⟩
          exact ⟨a',ha',(hsame a' (List.mem_cons_of_mem _ ha')).mpr ⟨b',hb',hk⟩⟩
        · rintro ⟨a',ha',hs⟩
          obtain ⟨b',hb',hk⟩ := (hsame a' (List.mem_cons_of_mem _ ha')).mp hs
          exact ⟨b',⟨a',ha',hb'⟩,hk⟩
      rw [List.filterMap_cons_some hf,lastBy,lastBy,ih]
      simp only [ne_eq,hkey b,hslot,not_false_eq_true,true_and,htaken]
      split
      · rfl
      · rw [List.filterMap_cons_some hf]

end LastBy

end Data
