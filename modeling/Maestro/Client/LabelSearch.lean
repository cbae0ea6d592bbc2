import Maestro.Api.Consumer
import Maestro.Data.Search

/-!
# Label selectors as a search

`ToLabelSearch` turns a label selector into a condition on the labels in the payload column. The
selector and the condition each have their meaning here: a requirement on a map, and a condition
in the logic of SQL, where `none` is the unknown value.
-/

namespace Maestro
open Data

/-- `selection.Operator`. -/
inductive Operator
  | doesNotExist | equals | doubleEquals | in_ | notEquals | notIn | exists_ | greaterThan
  | lessThan
deriving DecidableEq

def Operator.text : Operator → String
  | .doesNotExist => "!"
  | .equals => "="
  | .doubleEquals => "=="
  | .in_ => "in"
  | .notEquals => "!="
  | .notIn => "notin"
  | .exists_ => "exists"
  | .greaterThan => "gt"
  | .lessThan => "lt"

/-- `labels.Requirement`; the values are a set, in the order in which it is visited. -/
structure Requirement where
  key : String
  operator : Operator
  values : List String
  nodup : values.Nodup := by decide
deriving DecidableEq

/-- `labels.Selector`, with both results of its method `Requirements`. -/
structure LabelSelector where
  requirements : List Requirement
  selectable : Bool := true
deriving DecidableEq

/-- `labels.Everything`. -/
def LabelSelector.everything : LabelSelector := ⟨[],true⟩

/-- The package of the selectors: its parser, and how `gt` and `lt` compare a value. -/
structure LabelsPackage where
  parse : String → Except String LabelSelector
  compares : Operator → String → List String → Bool

/-- `Requirement.Matches`. -/
def Requirement.matches (pkg : LabelsPackage) (labels : StringMap) (r : Requirement) : Bool :=
  match r.operator with
  | .in_ | .equals | .doubleEquals => (labels.lookup r.key).any fun value => value ∈ r.values
  | .notIn | .notEquals => (labels.lookup r.key).all fun value => value ∉ r.values
  | .exists_ => (labels.lookup r.key).isSome
  | .doesNotExist => (labels.lookup r.key).isNone
  | .greaterThan | .lessThan =>
    (labels.lookup r.key).any fun value => pkg.compares r.operator value r.values

/-- `Selector.Matches`. -/
def LabelSelector.matches (pkg : LabelsPackage) (selector : LabelSelector) (labels : StringMap) :
    Bool :=
  selector.selectable && selector.requirements.all (Requirement.matches pkg labels)

/-! ### The conditions -/

def jsonbPrefix : String := "payload->'metadata'->'labels'"

inductive LabelCondition
  | contains (equalsLabels : List (String × String))
  | isIn (key : String) (values : List String)
  | notEquals (key value : String)
  | notNull (key : String)
deriving DecidableEq

namespace LabelCondition

def text : LabelCondition → String
  | contains equalsLabels => jsonbPrefix ++ "@>'\x7b" ++
      ",".intercalate (equalsLabels.map fun p => "\"" ++ p.1 ++ "\":\"" ++ p.2 ++ "\"") ++ "\x7d'"
  | isIn key values => jsonbPrefix ++ "->>'" ++ key ++ "'in(" ++
      ",".intercalate (values.map fun value => "'" ++ value ++ "'") ++ ")"
  | notEquals key value => jsonbPrefix ++ "->>'" ++ key ++ "'<>'" ++ value ++ "'"
  | notNull key => jsonbPrefix ++ "->>'" ++ key ++ "'<>null"

/-- The value of a condition for the labels of a resource, which are NULL where the payload has
none. In a JSON literal the last value of a key counts. -/
def eval (labels : Option StringMap) : LabelCondition → Option Bool
  | contains equalsLabels => labels.map fun m =>
      (lastBy (fun p => some p.1) equalsLabels).all fun p => m.lookup p.1 = some p.2
  | isIn key values => (labels.bind (·.lookup key)).map fun value => value ∈ values
  | notEquals key value => (labels.bind (·.lookup key)).map fun v => v ≠ value
  | notNull key => some (labels.bind (·.lookup key)).isSome

end LabelCondition

/-- The conjunction of SQL. -/
def sqlAnd : Option Bool → Option Bool → Option Bool
  | some false,_ => some false
  | _,some false => some false
  | some true,some true => some true
  | _,_ => none

theorem sqlAnd_eq_true {a b : Option Bool} :
    sqlAnd a b = some true ↔ a = some true ∧ b = some true := by
  cases a with
  | none => cases b with
    | none => simp [sqlAnd]
    | some b => cases b <;> simp [sqlAnd]
  | some a => cases a <;> cases b with
    | none => simp [sqlAnd]
    | some b => cases b <;> simp [sqlAnd]

/-- The results of `ToLabelSearch`; the conditions are joined with "and". -/
structure LabelSearch where
  selector : LabelSelector
  conditions : List LabelCondition
  selectable : Bool
deriving DecidableEq

namespace LabelSearch

def text (search : LabelSearch) : String :=
  " and ".intercalate (search.conditions.map LabelCondition.text)

def eval (search : LabelSearch) (labels : Option StringMap) : Option Bool :=
  (search.conditions.map (LabelCondition.eval labels)).foldr sqlAnd (some true)

theorem eval_eq_true {search : LabelSearch} {labels : Option StringMap} :
    search.eval labels = some true ↔ ∀ c ∈ search.conditions, c.eval labels = some true := by
  rw [eval]
  induction search.conditions with
  | nil => simp
  | cons c cs ih => rw [List.map_cons,List.foldr_cons,sqlAnd_eq_true,ih,List.forall_mem_cons]

end LabelSearch

/-! ### The translation -/

/-- The accumulators of the loop over the requirements. `inLabels` has the assignments to the
map in order. -/
structure Collected where
  equalsLabels : List (String × String) := []
  notEqualsLabels : List (String × String) := []
  existsKeys : List String := []
  inLabels : List (String × List String) := []
deriving DecidableEq

namespace Collected

def add (c : Collected) (requirement : Requirement) : Except String Collected :=
  match requirement.operator with
  | .equals | .doubleEquals =>
    match requirement.values with
    | [value] => .ok { c with equalsLabels := c.equalsLabels ++ [(requirement.key,value)] }
    | _ => .error "too many values in equals operation"
  | .notEquals =>
    match requirement.values with
    | [value] => .ok { c with notEqualsLabels := c.notEqualsLabels ++ [(requirement.key,value)] }
    | _ => .error "too many values in not equals operation"
  | .exists_ => .ok { c with existsKeys := c.existsKeys ++ [requirement.key] }
  | .in_ => .ok { c with inLabels := c.inLabels ++ [(requirement.key,requirement.values)] }
  | .notIn => .ok { c with
      notEqualsLabels := c.notEqualsLabels ++ requirement.values.map (requirement.key,·) }
  | .doesNotExist | .greaterThan | .lessThan =>
    .error ("unsupported operator " ++ requirement.operator.text)

def addAll (c : Collected) : List Requirement → Except String Collected
  | [] => .ok c
  | requirement :: requirements =>
    match c.add requirement with
    | .error err => .error err
    | .ok c => c.addAll requirements

/-- The entries of `inLabels` come in any order; a later assignment to a key replaces the one
before it. -/
def labelSearch (c : Collected) : List LabelCondition :=
  (if c.equalsLabels = [] then [] else [.contains c.equalsLabels]) ++
    (lastBy (fun p => some p.1) c.inLabels).map (fun p => .isIn p.1 p.2) ++
    c.notEqualsLabels.map (fun p => .notEquals p.1 p.2) ++ c.existsKeys.map .notNull

end Collected

/-- `ToLabelSearch`; `quote` is the format `%q`. -/
def toLabelSearch (pkg : LabelsPackage) (quote : String → String) (labelSelector : String) :
    Except String LabelSearch :=
  if labelSelector = "" then .ok ⟨.everything,[],false⟩
  else
    match pkg.parse labelSelector with
    | .error err => .error ("invalid labels selector " ++ quote labelSelector ++ ": " ++ err)
    | .ok selector =>
      if selector.selectable then
        match ({} : Collected).addAll selector.requirements with
        | .error err => .error err
        | .ok c => .ok ⟨selector,c.labelSearch,true⟩
      else .ok ⟨.everything,[],false⟩

/-! ### What a requirement adds -/

namespace Requirement

def equalLabel (r : Requirement) : Option (String × String) :=
  match r.operator with
  | .equals | .doubleEquals => r.values.head?.map (r.key,·)
  | _ => none

def inLabel (r : Requirement) : Option (String × List String) :=
  match r.operator with
  | .in_ => some (r.key,r.values)
  | _ => none

def notEqualLabels (r : Requirement) : List (String × String) :=
  match r.operator with
  | .notEquals | .notIn => r.values.map (r.key,·)
  | _ => []

def existsKey (r : Requirement) : Option String :=
  match r.operator with
  | .exists_ => some r.key
  | _ => none

/-- The place that later requirements of the search take from earlier ones: the key in the JSON
literal, and the key in the map of the value sets. -/
def slot (r : Requirement) : Option (Operator × String) :=
  match r.operator with
  | .equals | .doubleEquals => some (.equals,r.key)
  | .in_ => some (.in_,r.key)
  | _ => none

/-- The requirement rules values out. -/
def excludes (r : Requirement) : Bool :=
  (r.operator = .notEquals || r.operator = .notIn) && r.values != []

/-- What the loop accepts. -/
def Accepted (r : Requirement) : Prop :=
  match r.operator with
  | .equals | .doubleEquals | .notEquals => ∃ value, r.values = [value]
  | .exists_ | .in_ | .notIn => True
  | _ => False

end Requirement

namespace Collected

/-- Both sides of the translation after the loop. -/
structure Adds (c d : Collected) (rs : List Requirement) : Prop where
  equals : d.equalsLabels = c.equalsLabels ++ rs.filterMap Requirement.equalLabel
  notEquals : d.notEqualsLabels = c.notEqualsLabels ++ rs.flatMap Requirement.notEqualLabels
  exists_ : d.existsKeys = c.existsKeys ++ rs.filterMap Requirement.existsKey
  in_ : d.inLabels = c.inLabels ++ rs.filterMap Requirement.inLabel
  accepted : ∀ r ∈ rs, r.Accepted

theorem add_adds {c d : Collected} {r : Requirement} (h : c.add r = .ok d) : Adds c d [r] := by
  obtain ⟨key,op,values,hn⟩ := r
  cases op
  case equals | doubleEquals | notEquals =>
    match values with
    | [] => cases h
    | [value] =>
      cases h
      constructor <;> simp [Requirement.equalLabel,Requirement.notEqualLabels,
        Requirement.existsKey,Requirement.inLabel,Requirement.Accepted]
    | _ :: _ :: _ => cases h
  case exists_ | in_ | notIn =>
    cases h
    constructor <;> simp [Requirement.equalLabel,Requirement.notEqualLabels,
      Requirement.existsKey,Requirement.inLabel,Requirement.Accepted]
  all_goals cases h

theorem addAll_adds {c d : Collected} {rs : List Requirement} (h : c.addAll rs = .ok d) :
    Adds c d rs := by
  induction rs generalizing c with
  | nil =>
    cases h
    constructor <;> simp
  | cons r rs ih =>
    rw [addAll] at h
    split at h
    · cases h
    next e he =>
      have h₁ := add_adds he
      have h₂ := ih h
      constructor
      · rw [h₂.equals,h₁.equals,List.append_assoc,← List.filterMap_append,List.singleton_append]
      · rw [h₂.notEquals,h₁.notEquals,List.append_assoc,← List.flatMap_append,
          List.singleton_append]
      · rw [h₂.exists_,h₁.exists_,List.append_assoc,← List.filterMap_append,
          List.singleton_append]
      · rw [h₂.in_,h₁.in_,List.append_assoc,← List.filterMap_append,List.singleton_append]
      · exact List.forall_mem_cons.mpr ⟨h₁.accepted r List.mem_cons_self,h₂.accepted⟩

end Collected

/-! ### The two meanings -/

namespace Requirement

theorem matches_iff {pkg : LabelsPackage} {m : StringMap} {r : Requirement} (ha : r.Accepted) :
    r.matches pkg m = true ↔ (∀ p ∈ r.equalLabel, m.lookup p.1 = some p.2) ∧
      (∀ p ∈ r.inLabel, ∃ value ∈ p.2, m.lookup p.1 = some value) ∧
      (∀ p ∈ r.notEqualLabels, m.lookup p.1 ≠ some p.2) ∧
      ∀ key ∈ r.existsKey, (m.lookup key).isSome := by
  obtain ⟨key,op,values,hn⟩ := r
  cases op
  case equals | doubleEquals | notEquals =>
    obtain ⟨value,rfl⟩ : ∃ value, values = [value] := ha
    cases h : m.lookup key <;>
      simp [Requirement.matches,equalLabel,inLabel,notEqualLabels,existsKey,h]
  case in_ =>
    cases h : m.lookup key <;>
      simp [Requirement.matches,equalLabel,inLabel,notEqualLabels,existsKey,h]
  case notIn =>
    cases h : m.lookup key with
    | none => simp [Requirement.matches,equalLabel,inLabel,notEqualLabels,existsKey,h]
    | some value =>
      simp only [Requirement.matches,equalLabel,inLabel,notEqualLabels,existsKey,h]
      simp only [Option.all_some,decide_not,Bool.not_eq_true',decide_eq_false_iff_not,
        Option.mem_def,reduceCtorEq,false_implies,implies_true,true_and,and_true,List.mem_map,
        forall_exists_index,and_imp,forall_apply_eq_imp_iff₂,h,ne_eq,Option.some.injEq]
      constructor
      · rintro hv a ha rfl
        exact hv ha
      · exact fun hv hm => hv value hm rfl
  case exists_ =>
    simp only [Requirement.matches,equalLabel,inLabel,notEqualLabels,existsKey]
    simp only [Option.mem_def,reduceCtorEq,false_implies,implies_true,List.not_mem_nil,
      Option.some.injEq,forall_eq',true_and]
  all_goals exact ha.elim

/-- The labels meet the requirements that no later one replaces. -/
def metByKept (pkg : LabelsPackage) (m : StringMap) (rs : List Requirement) : Prop :=
  ∀ r ∈ lastBy slot rs, r.matches pkg m

/-- The labels meet the requirements that a later one replaces. -/
def metByReplaced (pkg : LabelsPackage) (m : StringMap) (rs : List Requirement) : Prop :=
  ∀ r ∈ rs, r ∉ lastBy slot rs → r.matches pkg m

/-- The labels have every key with excluded values. -/
def excludedPresent (m : StringMap) (rs : List Requirement) : Prop :=
  ∀ r ∈ rs, r.excludes → (m.lookup r.key).isSome

instance {pkg : LabelsPackage} {m : StringMap} {rs : List Requirement} :
    Decidable (metByKept pkg m rs) :=
  inferInstanceAs (Decidable (∀ r ∈ _, _))

instance {pkg : LabelsPackage} {m : StringMap} {rs : List Requirement} :
    Decidable (metByReplaced pkg m rs) :=
  inferInstanceAs (Decidable (∀ r ∈ _, _))

instance {m : StringMap} {rs : List Requirement} : Decidable (excludedPresent m rs) :=
  inferInstanceAs (Decidable (∀ r ∈ _, _))

theorem slot_equals {r : Requirement} (ha : r.Accepted) (key : String) :
    r.slot = some (.equals,key) ↔ ∃ value, r.equalLabel = some (key,value) := by
  obtain ⟨k,op,values,hn⟩ := r
  cases op
  case equals | doubleEquals =>
    obtain ⟨value,rfl⟩ : ∃ value, values = [value] := ha
    simp [slot,equalLabel]
  all_goals simp [slot,equalLabel]

theorem slot_in {r : Requirement} (key : String) :
    r.slot = some (.in_,key) ↔ ∃ values, r.inLabel = some (key,values) := by
  obtain ⟨k,op,values,hn⟩ := r
  cases op <;> simp [slot,inLabel]

theorem lastBy_equalLabel {rs : List Requirement} (ha : ∀ r ∈ rs, r.Accepted) :
    lastBy (fun p => some p.1) (rs.filterMap equalLabel) =
      (lastBy slot rs).filterMap equalLabel := by
  refine lastBy_filterMap (by simp) fun r hr p hp => ?_
  have hs := (slot_equals (ha r hr) p.1).mpr ⟨p.2,hp⟩
  refine ⟨by simp [hs],fun r' hr' => ?_⟩
  rw [hs,slot_equals (ha r' hr')]
  simp

theorem lastBy_inLabel {rs : List Requirement} :
    lastBy (fun p => some p.1) (rs.filterMap inLabel) = (lastBy slot rs).filterMap inLabel := by
  refine lastBy_filterMap (by simp) fun r hr p hp => ?_
  have hs := (slot_in p.1).mpr ⟨p.2,hp⟩
  refine ⟨by simp [hs],fun r' hr' => ?_⟩
  rw [hs,slot_in]
  simp

/-- A requirement that rules values out or asks for a key is never replaced. -/
theorem slot_none {r : Requirement} (h : r.notEqualLabels ≠ [] ∨ r.existsKey ≠ none) :
    r.slot = none := by
  obtain ⟨k,op,values,hn⟩ := r
  cases op <;> simp_all [slot,notEqualLabels,existsKey]

theorem excludes_iff {r : Requirement} {q : String → Prop} :
    (r.excludes → q r.key) ↔ ∀ p ∈ r.notEqualLabels, q p.1 := by
  obtain ⟨k,op,values,hn⟩ := r
  cases op <;> cases values <;> simp +contextual [excludes,notEqualLabels]

/-- What the requirements ask for, kind by kind. -/
theorem metByKept_iff {pkg : LabelsPackage} {m : StringMap} {rs : List Requirement}
    (ha : ∀ r ∈ rs, r.Accepted) : metByKept pkg m rs ↔
      (∀ p ∈ lastBy (fun p => some p.1) (rs.filterMap equalLabel), m.lookup p.1 = some p.2) ∧
      (∀ p ∈ lastBy (fun p => some p.1) (rs.filterMap inLabel),
        ∃ value ∈ p.2, m.lookup p.1 = some value) ∧
      (∀ p ∈ rs.flatMap notEqualLabels, m.lookup p.1 ≠ some p.2) ∧
      ∀ key ∈ rs.filterMap existsKey, (m.lookup key).isSome := by
  rw [lastBy_equalLabel ha,lastBy_inLabel]
  constructor
  · intro h
    have hm := fun r hr => (matches_iff (ha r (mem_of_mem_lastBy hr))).mp (h r hr)
    refine ⟨fun p hp => ?_,fun p hp => ?_,fun p hp => ?_,fun key hk => ?_⟩
    · obtain ⟨r,hr,he⟩ := List.mem_filterMap.mp hp
      exact (hm r hr).1 p he
    · obtain ⟨r,hr,he⟩ := List.mem_filterMap.mp hp
      exact (hm r hr).2.1 p he
    · obtain ⟨r,hr,he⟩ := List.mem_flatMap.mp hp
      have hs := slot_none (.inl (List.ne_nil_of_mem he))
      exact (hm r (mem_lastBy_of_none hs hr)).2.2.1 p he
    · obtain ⟨r,hr,he⟩ := List.mem_filterMap.mp hk
      have hs := slot_none (r := r) (.inr (by simp [he]))
      exact (hm r (mem_lastBy_of_none hs hr)).2.2.2 key he
  · rintro ⟨hequals,hin,hnot,hexists⟩ r hr
    have hmem := mem_of_mem_lastBy hr
    refine (matches_iff (ha r hmem)).mpr ⟨?_,?_,?_,?_⟩
    · exact fun p hp => hequals p (List.mem_filterMap.mpr ⟨r,hr,hp⟩)
    · exact fun p hp => hin p (List.mem_filterMap.mpr ⟨r,hr,hp⟩)
    · exact fun p hp => hnot p (List.mem_flatMap.mpr ⟨r,hmem,hp⟩)
    · exact fun key hk => hexists key (List.mem_filterMap.mpr ⟨r,hmem,hk⟩)

theorem all_matches_iff {pkg : LabelsPackage} {m : StringMap} {rs : List Requirement} :
    rs.all (Requirement.matches pkg m) ↔ metByKept pkg m rs ∧ metByReplaced pkg m rs := by
  rw [List.all_eq_true]
  constructor
  · exact fun h => ⟨fun r hr => h r (mem_of_mem_lastBy hr),fun r hr _ => h r hr⟩
  · intro h r hr
    by_cases hk : r ∈ lastBy slot rs
    · exact h.1 r hk
    · exact h.2 r hr hk

end Requirement

namespace LabelCondition

theorem bind_lookup (labels : Option StringMap) (key : String) :
    labels.bind (·.lookup key) = (labels.getD []).lookup key := by
  cases labels <;> rfl

theorem eval_contains {labels : Option StringMap} {equalsLabels : List (String × String)}
    (h : equalsLabels ≠ []) : (contains equalsLabels).eval labels = some true ↔
      ∀ p ∈ lastBy (fun p => some p.1) equalsLabels, (labels.getD []).lookup p.1 = some p.2 := by
  cases labels with
  | some m => simp [eval]
  | none =>
    obtain ⟨p,hp⟩ := List.exists_mem_of_ne_nil _ (lastBy_ne_nil (fun p => some p.1) h)
    refine ⟨fun hc => by simp [eval] at hc,fun hc => absurd (hc p hp) (by simp)⟩

theorem eval_isIn {labels : Option StringMap} {key : String} {values : List String} :
    (isIn key values).eval labels = some true ↔
      ∃ value ∈ values, (labels.getD []).lookup key = some value := by
  rw [eval,bind_lookup,Option.map_eq_some_iff]
  simp [and_comm]

theorem eval_notEquals {labels : Option StringMap} {key value : String} :
    (notEquals key value).eval labels = some true ↔
      (labels.getD []).lookup key ≠ some value ∧ ((labels.getD []).lookup key).isSome := by
  rw [eval,bind_lookup]
  cases (labels.getD []).lookup key <;> simp

theorem eval_notNull {labels : Option StringMap} {key : String} :
    (notNull key).eval labels = some true ↔ ((labels.getD []).lookup key).isSome := by
  rw [eval,bind_lookup,Option.some.injEq]

end LabelCondition

open Requirement in
/-- The search asks for the requirements that no later one replaces, and for the keys of the
excluded values. -/
theorem Collected.labelSearch_holds (pkg : LabelsPackage) {c : Collected}
    {rs : List Requirement} (h : ({} : Collected).addAll rs = .ok c) (labels : Option StringMap) :
    (∀ cond ∈ c.labelSearch, cond.eval labels = some true) ↔
      metByKept pkg (labels.getD []) rs ∧ excludedPresent (labels.getD []) rs := by
  have hc := addAll_adds h
  have hpresent : excludedPresent (labels.getD []) rs ↔
      ∀ p ∈ rs.flatMap notEqualLabels, ((labels.getD []).lookup p.1).isSome := by
    simp only [excludedPresent,excludes_iff (q := fun k => ((labels.getD []).lookup k).isSome),
      List.forall_mem_flatMap]
  have hequals : (∀ cond ∈ (if c.equalsLabels = [] then [] else
      [LabelCondition.contains c.equalsLabels]), cond.eval labels = some true) ↔
      ∀ p ∈ lastBy (fun p => some p.1) c.equalsLabels,
        (labels.getD []).lookup p.1 = some p.2 := by
    by_cases he : c.equalsLabels = []
    · simp [he,lastBy]
    · rw [if_neg he,List.forall_mem_singleton,LabelCondition.eval_contains he]
  rw [metByKept_iff hc.accepted,hpresent,labelSearch]
  simp only [List.forall_mem_append,List.forall_mem_map,hequals,LabelCondition.eval_isIn,
    LabelCondition.eval_notEquals,LabelCondition.eval_notNull]
  simp only [hc.equals,hc.notEquals,hc.exists_,hc.in_,List.nil_append]
  constructor
  · rintro ⟨⟨⟨he,hi⟩,hn⟩,hx⟩
    exact ⟨⟨he,hi,fun p hp => (hn p hp).1,hx⟩,fun p hp => (hn p hp).2⟩
  · rintro ⟨⟨he,hi,hn,hx⟩,hp⟩
    exact ⟨⟨⟨he,hi⟩,fun p h => ⟨hn p h,hp p h⟩⟩,hx⟩

open Requirement in
/-- The search is true for a resource exactly when the selector matches its labels, if and only
if labels that meet the requirements which no later one replaces meet the replaced ones just
when they have the keys of the excluded values. -/
theorem labelSearch_means_selector_iff {pkg : LabelsPackage} {quote : String → String}
    {labelSelector : String} {search : LabelSearch}
    (h : toLabelSearch pkg quote labelSelector = .ok search) (labels : Option StringMap) :
    (search.eval labels = some true ↔ search.selector.matches pkg (labels.getD [])) ↔
      (metByKept pkg (labels.getD []) search.selector.requirements →
        (metByReplaced pkg (labels.getD []) search.selector.requirements ↔
          excludedPresent (labels.getD []) search.selector.requirements)) := by
  have heverything : search = ⟨.everything,[],false⟩ ∨ search.selector.selectable = true ∧
      ∃ c, ({} : Collected).addAll search.selector.requirements = .ok c ∧
        search.conditions = c.labelSearch := by
    rw [toLabelSearch] at h
    split at h
    · exact .inl (Except.ok.inj h).symm
    split at h
    · cases h
    next selector _ =>
      split at h
      next hs =>
        split at h
        · cases h
        next c hc =>
          cases h
          exact .inr ⟨hs,c,hc,rfl⟩
      · exact .inl (Except.ok.inj h).symm
  rcases heverything with rfl | ⟨hs,c,hc,hconds⟩
  · simp [LabelSearch.eval,LabelSelector.matches,LabelSelector.everything,metByReplaced,
      excludedPresent]
  · rw [LabelSearch.eval_eq_true,hconds,Collected.labelSearch_holds pkg hc,
      LabelSelector.matches,hs,Bool.true_and,all_matches_iff]
    tauto

/-- A parser that knows two selectors. -/
def Reference.labelsPackage : LabelsPackage where
  parse
    | "env!=prod" => .ok ⟨[⟨"env",.notEquals,["prod"],by decide⟩],true⟩
    | "env=dev,env=prod" => .ok
      ⟨[⟨"env",.equals,["dev"],by decide⟩,⟨"env",.equals,["prod"],by decide⟩],true⟩
    | _ => .error "unable to parse requirement"
  compares _ _ _ := false

/-- The search of a selector that the reference parser knows. -/
def Reference.labelSearch (labelSelector : String) : LabelSearch :=
  match toLabelSearch Reference.labelsPackage id labelSelector with
  | .ok search => search
  | .error _ => ⟨.everything,[],false⟩

theorem labelSearch_means_selector_env :
    (Reference.labelSearch "env!=prod").eval (some [("env","dev")]) = some true ↔
      (Reference.labelSearch "env!=prod").selector.matches Reference.labelsPackage
        [("env","dev")] :=
  (@labelSearch_means_selector_iff Reference.labelsPackage id "env!=prod"
    (Reference.labelSearch "env!=prod") (by decide +kernel) (some [("env","dev")])).mpr
    (by decide +kernel)

/-- A resource without the key of an excluded value matches the selector and is not found; of two
values for one key the search asks for the second only. -/
theorem labelSearch_misses_selector :
    (toLabelSearch Reference.labelsPackage id "env!=prod" =
        .ok (Reference.labelSearch "env!=prod") ∧
      (Reference.labelSearch "env!=prod").text =
        "payload->'metadata'->'labels'->>'env'<>'prod'" ∧
      (Reference.labelSearch "env!=prod").selector.matches Reference.labelsPackage
        [("app","web")] ∧
      (Reference.labelSearch "env!=prod").eval (some [("app","web")]) = none) ∧
    (toLabelSearch Reference.labelsPackage id "env=dev,env=prod" =
        .ok (Reference.labelSearch "env=dev,env=prod") ∧
      (Reference.labelSearch "env=dev,env=prod").selector.matches Reference.labelsPackage
        [("env","prod")] = false ∧
      (Reference.labelSearch "env=dev,env=prod").eval (some [("env","prod")]) = some true) := by
  decide +kernel

end Maestro
