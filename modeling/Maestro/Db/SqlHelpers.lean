import Maestro.Api.Types
import Maestro.Data.Chunks
import Maestro.Data.Search
import Maestro.Data.Text

/-!
# Field names and order-by clauses

The names of fields in a search or in an `ORDER BY` come from the user and are spliced into the
query. `getField` only counts dots and looks at the disallowed set; which texts that lets through
is described here for the order-by arguments.
-/

namespace Maestro
open Data

/-- `map[string]string`, of which only the keys matter. -/
abbrev DisallowedFields := String → Option String

/-- `getField`. -/
def getField (name : String) (disallowedFields : DisallowedFields) : Except ServiceError String :=
  let trimmedName := Text.trim ' ' name
  if Text.startsWith "properties ->>" trimmedName then
    .ok trimmedName
  else
    let fieldParts := Text.split '.' trimmedName
    if fieldParts.length > 2 then
      .error (Errors.badRequest (name ++ " is not a valid field name"))
    else if (disallowedFields (fieldParts.getD 1 trimmedName)).isSome then
      .error (Errors.badRequest (name ++ " is not a valid field name"))
    else
      .ok trimmedName

/-- `cleanOrderBy`. -/
def cleanOrderBy (userArg : String) (disallowedFields : DisallowedFields) :
    Except ServiceError String :=
  match Text.split ' ' (Text.trim ' ' userArg) with
  | [field] => clause (getField field disallowedFields) "asc"
  | [field,direction] => clause (getField field disallowedFields) direction
  | _ => .error (Errors.badRequest ("bad order value '" ++ userArg ++ "'"))
where
  clause (orderField : Except ServiceError String) (direction : String) :
      Except ServiceError String :=
    match orderField with
    | .error _ => .error (Errors.badRequest ("bad order value '" ++ userArg ++ "'"))
    | .ok orderField =>
      if direction ≠ "asc" ∧ direction ≠ "desc" then
        .error (Errors.badRequest ("bad order value '" ++ userArg ++ "'"))
      else
        .ok (orderField ++ " " ++ direction)

/-- `ArgsToOrderBy`. -/
def argsToOrderBy (disallowedFields : DisallowedFields) :
    List String → Except ServiceError (List String)
  | [] => .ok []
  | o :: orderByArgs =>
    match cleanOrderBy o disallowedFields with
    | .error err => .error err
    | .ok order =>
      match argsToOrderBy disallowedFields orderByArgs with
      | .error err => .error err
      | .ok orderBy => .ok (order :: orderBy)

section Fields

variable {disallowed : DisallowedFields} {arg name field clause : String}

/-- A name with at most one dot whose checked part is allowed. -/
def Allowed (disallowed : DisallowedFields) (field : String) : Prop :=
  '.' ∉ field.toList ∧ disallowed field = none ∨
    ∃ table column, field = table ++ "." ++ column ∧ '.' ∉ table.toList ∧ '.' ∉ column.toList ∧
      disallowed column = none

theorem toList_dot {table column : String} :
    field = table ++ "." ++ column ↔ field.toList = table.toList ++ '.' :: column.toList := by
  rw [← String.toList_inj]
  simp

/-- What `getField` checks. -/
theorem allowed_iff_split : Allowed disallowed field ↔ (Text.split '.' field).length ≤ 2 ∧
    disallowed ((Text.split '.' field).getD 1 field) = none := by
  have hparts : Allowed disallowed field ↔
      Text.split '.' field = [field] ∧ disallowed field = none ∨
        ∃ table column, Text.split '.' field = [table,column] ∧ disallowed column = none := by
    simp only [Allowed,Text.split_eq_singleton,Text.split_eq_pair,toList_dot,true_and,and_assoc]
  rw [hparts]
  rcases hsplit : Text.split '.' field with _ | ⟨a,_ | ⟨b,_ | ⟨c,rest⟩⟩⟩
  · exact absurd hsplit (Text.split_ne_nil _ _)
  · obtain ⟨rfl,-⟩ := Text.split_eq_singleton.mp hsplit
    simp
  · simp
  · simp

/-- The names that are let through, and what becomes of them. -/
theorem getField_eq_ok : getField name disallowed = .ok field ↔ field = Text.trim ' ' name ∧
    (Text.startsWith "properties ->>" field = true ∨ Allowed disallowed field) := by
  unfold getField
  generalize Text.trim ' ' name = trimmed
  dsimp only
  by_cases hprop : Text.startsWith "properties ->>" trimmed = true
  · rw [if_pos hprop,Except.ok.injEq,eq_comm]
    refine (and_iff_left_of_imp ?_).symm
    rintro rfl
    exact .inl hprop
  · rw [if_neg hprop]
    have hallowed : field = trimmed ∧ (Text.startsWith "properties ->>" field = true ∨
        Allowed disallowed field) ↔ field = trimmed ∧ Allowed disallowed trimmed := by
      refine and_congr_right ?_
      rintro rfl
      exact or_iff_right hprop
    rw [hallowed,allowed_iff_split]
    split
    · next hlong => exact iff_of_false (by simp) fun h => absurd h.2.1 (by omega)
    split
    · next hd =>
      refine iff_of_false (by simp) ?_
      rintro ⟨-,-,hnone⟩
      rw [hnone] at hd
      cases hd
    · next hlong hd =>
      rw [Except.ok.injEq,eq_comm]
      exact (and_iff_left ⟨by omega,by simpa using hd⟩).symm

/-- A word is let through as it is. -/
theorem getField_word (h : ' ' ∉ field.toList) :
    getField field disallowed = .ok name ↔ name = field ∧ Allowed disallowed field := by
  rw [getField_eq_ok,Text.trim_of_not_mem h]
  refine and_congr_right ?_
  rintro rfl
  refine or_iff_right ?_
  intro hprop
  have hmem : ' ' ∈ "properties ->>".toList := by decide
  exact h ((List.isPrefixOf_iff_prefix.mp hprop).subset hmem)

end Fields

section OrderBy

variable {disallowed : DisallowedFields} {arg field direction clause : String}

/-- An order-by argument that is a word, or a word and a direction, with blanks around it. -/
def ReadsAs (arg field direction : String) : Prop :=
  ' ' ∉ field.toList ∧ (direction = "asc" ∨ direction = "desc") ∧
    (Text.trim ' ' arg = field ∧ direction = "asc" ∨
      Text.trim ' ' arg = field ++ " " ++ direction)

theorem readsAs_iff_split : ReadsAs arg field direction ↔
    Text.split ' ' (Text.trim ' ' arg) = [field] ∧ direction = "asc" ∨
      Text.split ' ' (Text.trim ' ' arg) = [field,direction] ∧
        (direction = "asc" ∨ direction = "desc") := by
  rw [ReadsAs]
  generalize Text.trim ' ' arg = trimmed
  have hpair : trimmed = field ++ " " ++ direction ↔
      trimmed.toList = field.toList ++ ' ' :: direction.toList := by
    rw [← String.toList_inj]
    simp
  rw [Text.split_eq_singleton,Text.split_eq_pair,hpair]
  constructor
  · rintro ⟨hfield,hdir,⟨rfl,rfl⟩ | hpair⟩
    · exact .inl ⟨⟨rfl,hfield⟩,rfl⟩
    · refine .inr ⟨⟨hpair,hfield,?_⟩,hdir⟩
      rcases hdir with rfl | rfl <;> decide
  · rintro (⟨⟨rfl,hfield⟩,rfl⟩ | ⟨⟨hpair,hfield,-⟩,hdir⟩)
    · exact ⟨hfield,.inl rfl,.inl ⟨rfl,rfl⟩⟩
    · exact ⟨hfield,hdir,.inr hpair⟩

theorem ReadsAs.unique {field' direction' : String} (h : ReadsAs arg field direction)
    (h' : ReadsAs arg field' direction') : field = field' ∧ direction = direction' := by
  rcases readsAs_iff_split.mp h with ⟨hs,rfl⟩ | ⟨hs,-⟩ <;>
    rcases readsAs_iff_split.mp h' with ⟨hs',rfl⟩ | ⟨hs',-⟩ <;>
    simp_all

theorem cleanOrderBy_clause_eq_ok (h : ' ' ∉ field.toList) :
    cleanOrderBy.clause arg (getField field disallowed) direction = .ok clause ↔
      Allowed disallowed field ∧ (direction = "asc" ∨ direction = "desc") ∧
        clause = field ++ " " ++ direction := by
  rw [cleanOrderBy.clause.eq_def]
  cases hget : getField field disallowed with
  | error err =>
    refine iff_of_false (by simp) ?_
    rintro ⟨hallowed,-⟩
    cases hget.symm.trans ((getField_word h).mpr ⟨rfl,hallowed⟩)
  | ok name =>
    obtain ⟨rfl,hallowed⟩ := (getField_word h).mp hget
    dsimp only
    split
    · next hdir => simp [hdir]
    · next hdir => simp [hallowed,not_and_or.mp hdir |>.imp not_not.mp not_not.mp,eq_comm]

/-- The arguments that are let through, and the clauses that they become. -/
theorem cleanOrderBy_eq_ok : cleanOrderBy arg disallowed = .ok clause ↔
    ∃ field direction, ReadsAs arg field direction ∧ Allowed disallowed field ∧
      clause = field ++ " " ++ direction := by
  simp only [readsAs_iff_split]
  unfold cleanOrderBy
  match hsplit : Text.split ' ' (Text.trim ' ' arg) with
  | [] => exact absurd hsplit (Text.split_ne_nil _ _)
  | [field] =>
    obtain ⟨-,hfield⟩ := Text.split_eq_singleton.mp hsplit
    simp [cleanOrderBy_clause_eq_ok hfield]
  | [field,direction] =>
    obtain ⟨-,hfield,-⟩ := Text.split_eq_pair.mp hsplit
    simp only [cleanOrderBy_clause_eq_ok hfield]
    constructor
    · rintro ⟨hallowed,hdir,rfl⟩
      exact ⟨field,direction,.inr ⟨rfl,hdir⟩,hallowed,rfl⟩
    · rintro ⟨f,d,⟨hf,-⟩ | ⟨hf,hdir⟩,hallowed,rfl⟩
      · simp at hf
      · cases hf
        exact ⟨hallowed,hdir,rfl⟩
  | a :: b :: c :: rest => simp

theorem argsToOrderBy_eq_ok {args clauses : List String} :
    argsToOrderBy disallowed args = .ok clauses ↔
      List.Forall₂ (fun arg clause => cleanOrderBy arg disallowed = .ok clause) args clauses := by
  induction args generalizing clauses with
  | nil => rw [List.forall₂_nil_left_iff,argsToOrderBy,Except.ok.injEq,eq_comm]
  | cons o args ih =>
    rw [argsToOrderBy]
    constructor
    · intro h
      split at h
      · cases h
      next order ho =>
        split at h
        · cases h
        next orderBy hrest =>
          cases h
          exact .cons ho (ih.mp hrest)
    · intro h
      cases h with
      | cons ho hall =>
        rw [ho]
        dsimp only
        rw [ih.mpr hall]

end OrderBy

section Harmless

variable {disallowed : DisallowedFields} {arg field direction ref clause : String}

/-- Letters, digits and underscores, and no digit first. -/
def IsIdentifier (s : String) : Prop :=
  ∃ c cs, s.toList = c :: cs ∧ (c.isAlpha = true ∨ c = '_') ∧
    ∀ d ∈ cs, d.isAlphanum = true ∨ d = '_'

/-- One identifier, or two joined by a dot. -/
def IsColumnName (field : String) : Prop :=
  IsIdentifier field ∨
    ∃ table column, IsIdentifier table ∧ IsIdentifier column ∧ field = table ++ "." ++ column

/-- A column name whose last identifier is allowed. -/
def IsPlainColumn (disallowed : DisallowedFields) (ref : String) : Prop :=
  IsIdentifier ref ∧ disallowed ref = none ∨
    ∃ table column, IsIdentifier table ∧ IsIdentifier column ∧ ref = table ++ "." ++ column ∧
      disallowed column = none

theorem IsIdentifier.mem {s : String} (h : IsIdentifier s) {c : Char} (hc : c ∈ s.toList) :
    c.isAlphanum = true ∨ c = '_' := by
  obtain ⟨first,cs,hs,hfirst,hcs⟩ := h
  rw [hs] at hc
  rcases List.mem_cons.mp hc with rfl | hmem
  · exact hfirst.imp_left fun halpha => by simp [Char.isAlphanum,halpha]
  · exact hcs c hmem

theorem IsIdentifier.dot_not_mem {s : String} (h : IsIdentifier s) : '.' ∉ s.toList :=
  fun hdot => absurd (h.mem hdot) (by decide)

theorem IsColumnName.mem (h : IsColumnName field) {c : Char} (hc : c ∈ field.toList) :
    c.isAlphanum = true ∨ c = '_' ∨ c = '.' := by
  rcases h with hid | ⟨table,column,ht,hcol,rfl⟩
  · exact (hid.mem hc).imp_right .inl
  · rw [toList_dot.mp rfl] at hc
    rcases List.mem_append.mp hc with hc | hc
    · exact (ht.mem hc).imp_right .inl
    · rcases List.mem_cons.mp hc with rfl | hc
      · exact .inr (.inr rfl)
      · exact (hcol.mem hc).imp_right .inl

theorem isPlainColumn_iff :
    IsPlainColumn disallowed ref ↔ IsColumnName ref ∧ Allowed disallowed ref := by
  constructor
  · rintro (⟨hid,hallowed⟩ | ⟨table,column,ht,hc,rfl,hallowed⟩)
    · exact ⟨.inl hid,.inl ⟨hid.dot_not_mem,hallowed⟩⟩
    · exact ⟨.inr ⟨table,column,ht,hc,rfl⟩,
        .inr ⟨table,column,rfl,ht.dot_not_mem,hc.dot_not_mem,hallowed⟩⟩
  · rintro ⟨hid | ⟨table,column,ht,hc,rfl⟩,hallowed⟩
    · rcases hallowed with ⟨-,hallowed⟩ | ⟨table,column,rfl,-⟩
      · exact .inl ⟨hid,hallowed⟩
      · exact absurd hid.dot_not_mem (by simp)
    · refine .inr ⟨table,column,ht,hc,rfl,?_⟩
      have hsplit : Text.split '.' (table ++ "." ++ column) = [table,column] :=
        Text.split_eq_pair.mpr ⟨toList_dot.mp rfl,ht.dot_not_mem,hc.dot_not_mem⟩
      simpa [hsplit] using (allowed_iff_split.mp hallowed).2

/-- The arguments that ought to be let through. -/
def IsOrderArgument (disallowed : DisallowedFields) (arg : String) : Prop :=
  ∃ ref direction, ReadsAs arg ref direction ∧ IsPlainColumn disallowed ref

/-- The clauses that are harmless. -/
def IsOrderClause (disallowed : DisallowedFields) (clause : String) : Prop :=
  ∃ ref direction, IsPlainColumn disallowed ref ∧ (direction = "asc" ∨ direction = "desc") ∧
    clause = ref ++ " " ++ direction

/-- What a list of arguments becomes is harmless: a clause of the expected form for each of them,
which says what the argument says, and an error when an argument has another form. -/
def HarmlessOrderBy (disallowed : DisallowedFields) (args : List String) : Prop :=
  (∀ clauses, argsToOrderBy disallowed args = .ok clauses →
    List.Forall₂ (fun arg clause => IsOrderClause disallowed clause ∧
      (clause = Text.trim ' ' arg ∨ clause = Text.trim ' ' arg ++ " asc")) args clauses) ∧
  ((∃ arg ∈ args, ¬ IsOrderArgument disallowed arg) →
    ∃ err, argsToOrderBy disallowed args = .error err)

/-- Order-by arguments are harmless exactly when their fields are column names, or when one of
them does not read as an allowed field. -/
theorem harmlessOrderBy_iff (disallowed : DisallowedFields) (args : List String) :
    HarmlessOrderBy disallowed args ↔
      (∀ arg ∈ args, ∀ field direction, ReadsAs arg field direction → IsColumnName field) ∨
        ∃ arg ∈ args, ∀ field direction, ReadsAs arg field direction →
          ¬ Allowed disallowed field := by
  by_cases hread : ∀ arg ∈ args, ∃ field direction, ReadsAs arg field direction ∧
      Allowed disallowed field
  · -- every argument is let through, so the call succeeds
    obtain ⟨clauses,hclauses⟩ : ∃ clauses, argsToOrderBy disallowed args = .ok clauses := by
      refine (exists_forall₂ fun arg harg => ?_).imp fun _ => argsToOrderBy_eq_ok.mpr
      obtain ⟨field,direction,hr,hallowed⟩ := hread arg harg
      exact ⟨_,cleanOrderBy_eq_ok.mpr ⟨field,direction,hr,hallowed,rfl⟩⟩
    have hnot : ¬ ∃ arg ∈ args, ∀ field direction, ReadsAs arg field direction →
        ¬ Allowed disallowed field := by
      rintro ⟨arg,harg,h⟩
      obtain ⟨field,direction,hr,hallowed⟩ := hread arg harg
      exact h field direction hr hallowed
    rw [or_iff_left hnot]
    constructor
    · rintro ⟨-,hreject⟩ arg harg field direction hr
      by_contra hcolumn
      obtain ⟨err,herr⟩ := hreject ⟨arg,harg,fun ⟨ref,direction',hr',hplain⟩ =>
        hcolumn ((hr'.unique hr).1 ▸ (isPlainColumn_iff.mp hplain).1)⟩
      cases hclauses.symm.trans herr
    · intro hcolumn
      have hplain : ∀ arg ∈ args, IsOrderArgument disallowed arg := by
        intro arg harg
        obtain ⟨field,direction,hr,hallowed⟩ := hread arg harg
        exact ⟨field,direction,hr,
          isPlainColumn_iff.mpr ⟨hcolumn arg harg field direction hr,hallowed⟩⟩
      refine ⟨?_,fun ⟨arg,harg,h⟩ => absurd (hplain arg harg) h⟩
      intro clauses' h
      refine forall₂_imp_of_mem (argsToOrderBy_eq_ok.mp h) fun arg harg clause hclause => ?_
      obtain ⟨field,direction,hr,hallowed,rfl⟩ := cleanOrderBy_eq_ok.mp hclause
      have hplain := isPlainColumn_iff.mpr ⟨hcolumn arg harg field direction hr,hallowed⟩
      refine ⟨⟨field,direction,hplain,hr.2.1,rfl⟩,?_⟩
      rcases hr.2.2 with ⟨rfl,rfl⟩ | htrim
      · exact .inr (by simp [String.append_assoc])
      · exact .inl htrim.symm
  · -- one of them is not, and the call fails
    push Not at hread
    obtain ⟨arg,harg,hrefused⟩ := hread
    refine iff_of_true ?_ (.inr ⟨arg,harg,hrefused⟩)
    have hfail : ∀ clauses, argsToOrderBy disallowed args ≠ .ok clauses := by
      intro clauses h
      obtain ⟨clause,-,hclause⟩ := exists_of_forall₂ (argsToOrderBy_eq_ok.mp h) arg harg
      obtain ⟨field,direction,hr,hallowed,-⟩ := cleanOrderBy_eq_ok.mp hclause
      exact hrefused field direction hr hallowed
    refine ⟨fun clauses h => absurd h (hfail clauses),fun _ => ?_⟩
    cases hargs : argsToOrderBy disallowed args with
    | error err => exact ⟨err,rfl⟩
    | ok clauses => exact absurd hargs (hfail clauses)

/-- A function call is let through: its text has no blank and no dot. -/
theorem pg_sleep_reaches_orderBy :
    argsToOrderBy (fun _ => none) ["pg_sleep(9)"] = .ok ["pg_sleep(9) asc"] ∧
      ¬ HarmlessOrderBy (fun _ => none) ["pg_sleep(9)"] := by
  have hcall : argsToOrderBy (fun _ => none) ["pg_sleep(9)"] = .ok ["pg_sleep(9) asc"] := by decide
  refine ⟨hcall,?_⟩
  rintro ⟨-,hreject⟩
  have hform : ¬ IsOrderArgument (fun _ => none) "pg_sleep(9)" := by
    rintro ⟨ref,direction,hr,hplain⟩
    have hword : ReadsAs "pg_sleep(9)" "pg_sleep(9)" "asc" :=
      ⟨by decide,.inl rfl,.inl ⟨by decide,rfl⟩⟩
    obtain ⟨rfl,-⟩ := hr.unique hword
    have hparen : '(' ∈ "pg_sleep(9)".toList := by decide
    exact absurd ((isPlainColumn_iff.mp hplain).1.mem hparen) (by decide)
  obtain ⟨err,herr⟩ := hreject ⟨_,List.mem_cons_self,hform⟩
  cases hcall.symm.trans herr

end Harmless

end Maestro
