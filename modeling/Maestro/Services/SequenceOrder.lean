import Maestro.Api.JsonText
import Maestro.Api.Reference
import Maestro.Data.IdLayout
import Maestro.Services.Sequence

/-!
# The order of sequence IDs

`compareSequenceIDs` compares the time of two IDs and then their step, both as signed words. On
the IDs of one node this is the order of the integers.
-/

namespace Maestro
open Data

/-- The parts of an ID are where `bwmarrin/snowflake` puts them by default. -/
structure DefaultLayout (flakes : Snowflake) : Prop where
  time : flakes.time = Reference.snowflake.time
  node : flakes.node = Reference.snowflake.node
  step : flakes.step = Reference.snowflake.step

section Layout

variable {ext : External} {flake old : Int64}

/-- IDs of one node compare as integers. -/
theorem DefaultLayout.lt_iff {flakes : Snowflake} (h : DefaultLayout flakes) {a b : Int64}
    (hnode : flakes.node a = flakes.node b) :
    b < a ↔ if flakes.time a ≠ flakes.time b then flakes.time a > flakes.time b
      else flakes.step a > flakes.step b := by
  rw [h.node] at hnode
  rw [h.time,h.step]
  have hlt := lt_iff_fields hnode.symm
  have htime : ∀ x y : Int64, Reference.snowflake.time x < Reference.snowflake.time y ↔
      x >>> 22 < y >>> 22 := fun x y => timeField_add_lt (by decide) (by decide)
  have heq : Reference.snowflake.time a = Reference.snowflake.time b ↔ a >>> 22 = b >>> 22 :=
    Int64.add_left_inj _
  rw [hlt]
  by_cases he : a >>> 22 = b >>> 22
  · rw [if_neg (not_not.mpr (heq.mpr he)),he]
    simp [Int64.lt_irrefl,Reference.snowflake]
  · rw [if_pos (fun h => he (heq.mp h))]
    have hne : b >>> 22 ≠ a >>> 22 := fun h => he h.symm
    simp only [hne,false_and,or_false]
    exact (htime b a).symm

theorem compareSequenceIDs_eq (hlay : DefaultLayout ext.snowflake) {id₁ id₂ : String}
    (hne : id₂ ≠ "") (h₁ : ext.snowflake.parseString id₁ = .ok flake)
    (h₂ : ext.snowflake.parseString id₂ = .ok old)
    (hnode : ext.snowflake.node flake = ext.snowflake.node old) :
    compareSequenceIDs ext id₁ id₂ = .ok (decide (old < flake)) := by
  have hlt := hlay.lt_iff hnode
  rw [compareSequenceIDs,if_neg (fun h => hne h.2)]
  simp only [h₁,h₂]
  rw [if_neg (not_not.mpr hnode)]
  by_cases ht : ext.snowflake.time flake = ext.snowflake.time old
  · rw [if_neg (not_not.mpr ht)] at hlt ⊢
    rw [decide_eq_decide.mpr hlt]
  · rw [if_pos ht] at hlt ⊢
    rw [decide_eq_decide.mpr hlt]

/-- IDs of different nodes are not compared. -/
theorem compareSequenceIDs_other (hne : id₂ ≠ "") (h₁ : ext.snowflake.parseString id₁ = .ok flake)
    (h₂ : ext.snowflake.parseString id₂ = .ok old)
    (hnode : ext.snowflake.node flake ≠ ext.snowflake.node old) :
    compareSequenceIDs ext id₁ id₂ =
      .error (Errors.generalError "Sequence IDs are not from the same node") := by
  rw [compareSequenceIDs,if_neg (fun h => hne h.2)]
  simp only [h₁,h₂]
  rw [if_pos hnode]

end Layout

/-! ### Decimal texts -/

/-- The integer of a decimal text: digits, perhaps after a sign. -/
def decimalValue (s : String) : Option ℤ :=
  let value : Option (ℤ × List Char) :=
    match s.toList with
    | '+' :: cs => (JsonText.readNat cs).map fun p => ((p.1 : ℤ),p.2)
    | cs => JsonText.readInt cs
  match value with
  | some (n,[]) => some n
  | _ => none

/-- The text is a decimal text of the word. -/
def IsDecimal (s : String) (x : Int64) : Prop := decimalValue s = some x.toInt

instance (s : String) (x : Int64) : Decidable (IsDecimal s x) :=
  inferInstanceAs (Decidable (_ = _))

/-- `ParseString` is `strconv.ParseInt` for base 10 and 64 bits. -/
def ParsesDecimals (flakes : Snowflake) : Prop :=
  ∀ s x, IsDecimal s x → flakes.parseString s = .ok x

theorem IsDecimal.ne_empty {s : String} {x : Int64} (h : IsDecimal s x) : s ≠ "" := by
  rintro rfl
  cases h

/-- Bits 12 to 21. -/
def nodeField (x : Int64) : BitVec 10 := x.toBitVec.extractLsb' 12 10

theorem DefaultLayout.node_eq_iff {flakes : Snowflake} (h : DefaultLayout flakes) {a b : Int64} :
    flakes.node a = flakes.node b ↔ nodeField a = nodeField b := by
  have hfield : ∀ x : Int64, ((nodeField x).toNat : ℤ) = (flakes.node x).toInt := by
    intro x
    rw [h.node]
    refine Eq.trans ?_ (toInt_nodeField x).symm
    change _ = x.toBitVec.toInt / _ % _
    have hlt := x.toBitVec.isLt
    rw [nodeField,BitVec.extractLsb'_toNat,Nat.shiftRight_eq_div_pow,BitVec.toInt_eq_toNat_cond]
    split <;> omega
  rw [← Int64.toInt_inj,← BitVec.toNat_inj,← hfield,← hfield]
  exact Int.ofNat_inj

/-- The first text is found newer. -/
def Newer (ext : External) (a b : String) : Prop := compareSequenceIDs ext a b = .ok true

/-- The comparison is a strict order of the IDs of a node, total on their integers. -/
structure OrdersNode (ext : External) (node : BitVec 10) : Prop where
  irrefl : ∀ a x, IsDecimal a x → nodeField x = node → ¬ Newer ext a a
  asymm : ∀ a x b y, IsDecimal a x → nodeField x = node → IsDecimal b y → nodeField y = node →
    Newer ext a b → ¬ Newer ext b a
  trans : ∀ a x b y c z, IsDecimal a x → nodeField x = node → IsDecimal b y → nodeField y = node →
    IsDecimal c z → nodeField z = node → Newer ext a b → Newer ext b c → Newer ext a c
  total : ∀ a x b y, IsDecimal a x → nodeField x = node → IsDecimal b y → nodeField y = node →
    x ≠ y → Newer ext a b ∨ Newer ext b a

/-- The comparison is the order of the integers on the IDs of one node, and an error for IDs of
different nodes. -/
theorem compareSequenceIDs_numeric (ext : External) (hlay : DefaultLayout ext.snowflake)
    (hparse : ParsesDecimals ext.snowflake) :
    (∀ a x b y, IsDecimal a x → IsDecimal b y →
      (nodeField x = nodeField y →
        compareSequenceIDs ext a b = .ok (decide (y.toInt < x.toInt))) ∧
      (nodeField x ≠ nodeField y → ∃ err, compareSequenceIDs ext a b = .error err ∧
        compareSequenceIDs ext b a = .error err)) ∧
    ∀ node, OrdersNode ext node := by
  have hsame : ∀ a x b y, IsDecimal a x → IsDecimal b y → nodeField x = nodeField y →
      compareSequenceIDs ext a b = .ok (decide (y.toInt < x.toInt)) := by
    intro a x b y ha hb hnode
    rw [compareSequenceIDs_eq hlay hb.ne_empty (hparse a x ha) (hparse b y hb)
      (hlay.node_eq_iff.mpr hnode),decide_eq_decide.mpr Int64.lt_iff_toInt_lt]
  have hnewer : ∀ a x b y, IsDecimal a x → IsDecimal b y → nodeField x = nodeField y →
      (Newer ext a b ↔ y.toInt < x.toInt) := by
    intro a x b y ha hb hnode
    rw [Newer,hsame a x b y ha hb hnode,Except.ok.injEq,decide_eq_true_eq]
  have hother : ∀ a x b y, IsDecimal a x → IsDecimal b y → nodeField x ≠ nodeField y →
      compareSequenceIDs ext a b =
        .error (Errors.generalError "Sequence IDs are not from the same node") :=
    fun a x b y ha hb hnode => compareSequenceIDs_other hb.ne_empty (hparse a x ha) (hparse b y hb)
      fun h => hnode (hlay.node_eq_iff.mp h)
  refine ⟨fun a x b y ha hb => ⟨hsame a x b y ha hb,fun hnode => ?_⟩,fun node => ⟨?_,?_,?_,?_⟩⟩
  · exact ⟨_,hother a x b y ha hb hnode,hother b y a x hb ha hnode.symm⟩
  · intro a x ha _
    rw [hnewer a x a x ha ha rfl]
    exact lt_irrefl _
  · intro a x b y ha hx hb hy
    rw [hnewer a x b y ha hb (hx.trans hy.symm),hnewer b y a x hb ha (hy.trans hx.symm)]
    exact lt_asymm
  · intro a x b y c z ha hx hb hy hc hz
    rw [hnewer a x b y ha hb (hx.trans hy.symm),hnewer b y c z hb hc (hy.trans hz.symm),
      hnewer a x c z ha hc (hx.trans hz.symm)]
    exact fun hab hbc => lt_trans hbc hab
  · intro a x b y ha hx hb hy hne
    rw [hnewer a x b y ha hb (hx.trans hy.symm),hnewer b y a x hb ha (hy.trans hx.symm)]
    exact (lt_or_gt_of_ne fun h => hne (Int64.toInt_inj.mp h)).symm

/-- The default layout, with a parser that reads all decimal texts. -/
def Reference.signedFlakes : Snowflake :=
  { Reference.snowflake with
    parseString := fun s => match decimalValue s with
      | some n => if -9223372036854775808 ≤ n ∧ n < 9223372036854775808 then .ok (Int64.ofInt n)
          else .error "strconv.ParseInt: value out of range"
      | none => .error "strconv.ParseInt: invalid syntax" }

theorem Reference.signedFlakes_parses : ParsesDecimals Reference.signedFlakes := by
  intro s x h
  have hlow := x.le_toInt
  have hhigh := x.toInt_lt
  have hdec : decimalValue s = some x.toInt := h
  change (match decimalValue s with | some n => _ | none => _) = _
  rw [hdec]
  dsimp only
  rw [if_pos ⟨hlow,hhigh⟩,Int64.ofInt_toInt]

/-- A positive ID is newer than a negative one of its node. -/
theorem compareSequenceIDs_numeric_signed :
    compareSequenceIDs { Reference.packages with snowflake := Reference.signedFlakes }
      "+1" "-4194304" = .ok true :=
  ((compareSequenceIDs_numeric { Reference.packages with snowflake := Reference.signedFlakes }
    ⟨rfl,rfl,rfl⟩ Reference.signedFlakes_parses).1 "+1" 1 "-4194304" (-4194304)
    (by decide +kernel) (by decide +kernel)).1 (by decide +kernel)

end Maestro
