import Mathlib.Data.List.DropRight

/-!
# Splitting and trimming texts

The parts of a text between the occurrences of a separator, and the text without a character at
its ends. A split into one or two parts is described by what the text looks like.
-/

namespace Data.Text

/-- The parts between the separators, all of them. -/
def split (sep : Char) (s : String) : List String := (s.toList.splitOn sep).map String.ofList

/-- The text without a character at its ends. -/
def trim (c : Char) (s : String) : String :=
  String.ofList ((s.toList.dropWhile fun d => d = c).rdropWhile fun d => d = c)

def startsWith (start s : String) : Bool := start.toList.isPrefixOf s.toList

theorem not_mem_of_mem_splitOn {α : Type} [DecidableEq α] {sep : α} {xs part : List α}
    (h : part ∈ xs.splitOn sep) : sep ∉ part := by
  induction xs generalizing part with
  | nil =>
    rw [List.splitOn_nil,List.mem_singleton] at h
    simp [h]
  | cons x xs ih =>
    rw [List.splitOn_eq_splitOnP,List.splitOnP_cons_eq_if_modifyHead,
      ← List.splitOn_eq_splitOnP] at h
    split at h
    · rcases List.mem_cons.mp h with rfl | h
      · exact List.not_mem_nil
      · exact ih h
    · next hx =>
      cases hs : xs.splitOn sep with
      | nil => exact absurd hs (List.splitOn_ne_nil _ _)
      | cons first rest =>
        rw [hs] at h ih
        rcases List.mem_cons.mp h with rfl | h
        · have hne : sep ≠ x := by
            rintro rfl
            simp at hx
          exact List.not_mem_cons_of_ne_of_not_mem hne (ih List.mem_cons_self)
        · exact ih (List.mem_cons_of_mem _ h)

/-- The split of a text is the one way to put it together from parts without the separator. -/
theorem splitOn_eq_iff {α : Type} [DecidableEq α] {sep : α} {xs : List α} {parts : List (List α)} :
    xs.splitOn sep = parts ↔
      parts ≠ [] ∧ (∀ part ∈ parts, sep ∉ part) ∧ [sep].intercalate parts = xs := by
  constructor
  · rintro rfl
    exact ⟨List.splitOn_ne_nil _ _,fun _ => not_mem_of_mem_splitOn,List.intercalate_splitOn sep⟩
  · rintro ⟨hne,hsep,rfl⟩
    exact List.splitOn_intercalate sep hsep hne

theorem split_eq_iff {sep : Char} {s : String} {parts : List String} :
    split sep s = parts ↔ s.toList.splitOn sep = parts.map String.toList := by
  rw [split]
  constructor
  · rintro rfl
    simp
  · intro h
    simp [h]

theorem split_ne_nil (sep : Char) (s : String) : split sep s ≠ [] := by
  simp [split,List.splitOn_ne_nil]

theorem split_eq_singleton {sep : Char} {s a : String} :
    split sep s = [a] ↔ s = a ∧ sep ∉ a.toList := by
  rw [split_eq_iff,splitOn_eq_iff,← String.toList_inj]
  constructor
  · rintro ⟨-,hsep,hs⟩
    exact ⟨by simpa using hs.symm,hsep _ List.mem_cons_self⟩
  · rintro ⟨hs,hsep⟩
    exact ⟨List.cons_ne_nil _ _,by simpa using hsep,by simpa using hs.symm⟩

theorem split_eq_pair {sep : Char} {s a b : String} :
    split sep s = [a,b] ↔
      s.toList = a.toList ++ sep :: b.toList ∧ sep ∉ a.toList ∧ sep ∉ b.toList := by
  rw [split_eq_iff,splitOn_eq_iff]
  constructor
  · rintro ⟨-,hsep,hs⟩
    exact ⟨by simpa using hs.symm,hsep _ (by simp),hsep _ (by simp)⟩
  · rintro ⟨hs,ha,hb⟩
    exact ⟨List.cons_ne_nil _ _,by simpa using ⟨ha,hb⟩,by simpa using hs.symm⟩

theorem split_append {sep : Char} {s a b : String} (h : s.toList = a.toList ++ sep :: b.toList) :
    split sep s = split sep a ++ split sep b := by
  rw [split,split,split,h,List.splitOn_eq_splitOnP,List.splitOnP_append_cons _ _ (by simp),
    List.map_append,← List.splitOn_eq_splitOnP,← List.splitOn_eq_splitOnP]

theorem split_of_not_mem {sep : Char} {s : String} (h : sep ∉ s.toList) : split sep s = [s] :=
  split_eq_singleton.mpr ⟨rfl,h⟩

theorem split_injective (sep : Char) : Function.Injective (split sep) := by
  intro s t h
  have hs := (splitOn_eq_iff.mp (split_eq_iff.mp (Eq.refl (split sep s)))).2.2
  have ht := (splitOn_eq_iff.mp (split_eq_iff.mp (Eq.refl (split sep t)))).2.2
  rw [h,ht] at hs
  exact String.toList_inj.mp hs.symm

theorem trim_of_ends {c : Char} {s : String} (hfirst : ∀ d ∈ s.toList.head?, d ≠ c)
    (hlast : ∀ d ∈ s.toList.getLast?, d ≠ c) : trim c s = s := by
  have hleft : s.toList.dropWhile (fun d => decide (d = c)) = s.toList := by
    cases hs : s.toList with
    | nil => rfl
    | cons d ds =>
      have hd : d ≠ c := hfirst d (by rw [hs]; rfl)
      exact List.dropWhile_cons_of_neg (by simpa using hd)
  have hright : s.toList.rdropWhile (fun d => decide (d = c)) = s.toList := by
    refine List.rdropWhile_eq_self_iff.mpr fun hne => ?_
    simpa using hlast _ (List.getLast?_eq_some_getLast hne)
  rw [trim,hleft,hright,String.ofList_toList]

theorem trim_of_not_mem {c : Char} {s : String} (h : c ∉ s.toList) : trim c s = s := by
  apply trim_of_ends
  · rintro d hd rfl
    exact h (List.mem_of_mem_head? hd)
  · rintro d hd rfl
    exact h (List.mem_of_getLast? hd)

end Data.Text
