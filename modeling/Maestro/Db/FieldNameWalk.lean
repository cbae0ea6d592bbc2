import Maestro.Db.SqlHelpers

/-!
# Field names in a search tree

`FieldNameWalk` checks the identifiers of a TSL tree and rewrites them. A node holds values of
any type, so the code asserts what it expects. On the trees of the parser (`SearchTree`) no
assertion fails, and what the walk does is a renaming of the identifiers.
-/

namespace Maestro
open Data

/-- The operators that the walk tells apart. -/
inductive TslOp
  | ident
  | string
  | number
  | other (name : String)
deriving DecidableEq

mutual
/-- `tsl.Node`. -/
inductive TslNode
  | mk (func : TslOp) (left right : TslValue)
/-- What an operand can hold. -/
inductive TslValue
  | nil
  | text (s : String)
  | number (q : ℚ)
  | node (n : TslNode)
  | nodes (ns : List TslNode)
end

namespace TslNode

def func : TslNode → TslOp
  | mk func _ _ => func

def left : TslNode → TslValue
  | mk _ left _ => left

def right : TslNode → TslValue
  | mk _ _ right => right

mutual
/-- The number of nodes, and of list cells. -/
def size : TslNode → ℕ
  | mk _ left right => 1 + sizeValue left + sizeValue right
def sizeValue : TslValue → ℕ
  | .node n => size n
  | .nodes ns => sizeList ns
  | _ => 0
def sizeList : List TslNode → ℕ
  | [] => 0
  | n :: ns => 1 + size n + sizeList ns
end

end TslNode

def startsWithProperties (s : String) : Bool := Text.startsWith "properties." s

/-- `hasProperty`. -/
def hasProperty (n : TslNode) : Except CallFailure Bool :=
  match n.left with
  | .node l =>
    match l.func,l.left with
    | .ident,.text s => .ok (startsWithProperties s)
    | .ident,_ => .error .panic
    | _,_ => .ok false
  | _ => .ok false

/-- `propertiesNodeConverter`, of a node that `hasProperty` accepts. -/
def propertiesNodeConverter (n : TslNode) : TslNode :=
  match n.left with
  | .node (.mk _ (.text s) _) =>
    let propertyName := String.ofList (s.toList.drop 11)
    .mk n.func (.node (.mk .ident (.text ("properties ->> '" ++ propertyName ++ "'")) .nil)) n.right
  | _ => n

theorem size_propertiesNodeConverter (n : TslNode) :
    (propertiesNodeConverter n).size ≤ n.size := by
  obtain ⟨func,left,right⟩ := n
  unfold propertiesNodeConverter
  dsimp only [TslNode.left,TslNode.func,TslNode.right]
  split
  · simp only [TslNode.size,TslNode.sizeValue]
    omega
  · exact le_rfl

/-- The node that the walk looks at. -/
def convertProperty (n : TslNode) : Except CallFailure TslNode :=
  match hasProperty n with
  | .error err => .error err
  | .ok true => .ok (propertiesNodeConverter n)
  | .ok false => .ok n

theorem size_convertProperty {n m : TslNode} (h : convertProperty n = .ok m) : m.size ≤ n.size := by
  unfold convertProperty at h
  split at h
  · cases h
  · cases h
    exact size_propertiesNodeConverter n
  · cases h
    exact le_rfl

mutual
/-- `FieldNameWalk`. -/
def fieldNameWalk (disallowedFields : DisallowedFields) (n : TslNode) :
    Except CallFailure TslNode :=
  match _hn : convertProperty n with
  | .error err => .error err
  | .ok (.mk .ident (.text userFieldName) _) =>
    match getField userFieldName disallowedFields with
    | .error err => .error (.serviceError err)
    | .ok field => .ok (.mk .ident (.text field) .nil)
  | .ok (.mk .ident _ _) =>
    .error (.serviceError (Errors.badRequest "Identifier name must be a string"))
  | .ok (.mk .string left _) => .ok (.mk .string left .nil)
  | .ok (.mk .number left _) => .ok (.mk .number left .nil)
  | .ok (.mk (.other func) left right) => do
    let l ← walkLeft disallowedFields left
    let r ← walkRight disallowedFields right
    return .mk (.other func) (.node l) r
termination_by 2 * n.size + 1
decreasing_by
  all_goals
    have hsize := size_convertProperty _hn
    simp only [TslNode.size] at *
    omega
/-- The left operand; the zero node where there is none. -/
def walkLeft (disallowedFields : DisallowedFields) (left : TslValue) :
    Except CallFailure TslNode :=
  match left with
  | .nil => .ok (.mk (.other "") .nil .nil)
  | .node v => fieldNameWalk disallowedFields v
  | _ => .error .panic
termination_by 2 * TslNode.sizeValue left + 2
decreasing_by
  simp only [TslNode.sizeValue]
  omega
/-- The right operand: nothing, a node or a list of nodes. -/
def walkRight (disallowedFields : DisallowedFields) (right : TslValue) :
    Except CallFailure TslValue :=
  match right with
  | .nil => .ok .nil
  | .node v => do
    let r ← fieldNameWalk disallowedFields v
    return .node r
  | .nodes v => do
    let rr ← fieldNameWalks disallowedFields v
    return .nodes rr
  | _ => .error (.serviceError
      (Errors.badRequest "unsupported right hand side type in search query"))
termination_by 2 * TslNode.sizeValue right + 2
decreasing_by
  all_goals
    simp only [TslNode.sizeValue]
    omega
/-- The loop over a list of operands. -/
def fieldNameWalks (disallowedFields : DisallowedFields) (v : List TslNode) :
    Except CallFailure (List TslNode) :=
  match v with
  | [] => .ok []
  | e :: es => do
    let r ← fieldNameWalk disallowedFields e
    let rr ← fieldNameWalks disallowedFields es
    return r :: rr
termination_by 2 * TslNode.sizeList v
decreasing_by
  all_goals
    simp only [TslNode.sizeList]
    omega
end

mutual
/-- The trees that a search is parsed to. -/
inductive SearchTree
  | ident (name : String)
  | string (s : String)
  | number (q : ℚ)
  | op (func : String) (left : SearchTree) (right : SearchRight)
/-- The right operand of an operator. -/
inductive SearchRight
  | none
  | tree (t : SearchTree)
  | list (ts : List SearchTree)
end

namespace SearchTree

mutual
/-- The tree as nodes. -/
def node : SearchTree → TslNode
  | ident name => .mk .ident (.text name) .nil
  | string s => .mk .string (.text s) .nil
  | number q => .mk .number (.number q) .nil
  | op func left right => .mk (.other func) (.node (node left)) (value right)
def value : SearchRight → TslValue
  | .none => .nil
  | .tree t => .node (node t)
  | .list ts => .nodes (nodes ts)
def nodes : List SearchTree → List TslNode
  | [] => []
  | t :: ts => node t :: nodes ts
end

/-- The identifiers `properties.x`. -/
def isProperty : SearchTree → Bool
  | ident name => startsWithProperties name
  | _ => false

/-- What becomes of the left operand `properties.x`. -/
def property : SearchTree → SearchTree
  | ident name => ident ("properties ->> '" ++ String.ofList (name.toList.drop 11) ++ "'")
  | t => t

mutual
/-- The identifiers that are checked: all but the properties that are converted, or have been. -/
def checked : SearchTree → List String
  | ident name => if Text.startsWith "properties ->>" (Text.trim ' ' name) then [] else [name]
  | string _ => []
  | number _ => []
  | op _ left right => (if left.isProperty then [] else checked left) ++ checkedRight right
def checkedRight : SearchRight → List String
  | .none => []
  | .tree t => checked t
  | .list ts => checkedList ts
def checkedList : List SearchTree → List String
  | [] => []
  | t :: ts => checked t ++ checkedList ts
end

mutual
/-- The tree with its identifiers trimmed, and the left operands `properties.x` converted. -/
def rewritten : SearchTree → SearchTree
  | ident name => ident (Text.trim ' ' name)
  | string s => string s
  | number q => number q
  | op func left right =>
    op func (if left.isProperty then left.property else rewritten left) (rewrittenRight right)
def rewrittenRight : SearchRight → SearchRight
  | .none => .none
  | .tree t => .tree (rewritten t)
  | .list ts => .list (rewrittenList ts)
def rewrittenList : List SearchTree → List SearchTree
  | [] => []
  | t :: ts => rewritten t :: rewrittenList ts
end

mutual
/-- The tree without the names of its identifiers. -/
def shape : SearchTree → SearchTree
  | ident _ => ident ""
  | string s => string s
  | number q => number q
  | op func left right => op func (shape left) (shapeRight right)
def shapeRight : SearchRight → SearchRight
  | .none => .none
  | .tree t => .tree (shape t)
  | .list ts => .list (shapeList ts)
def shapeList : List SearchTree → List SearchTree
  | [] => []
  | t :: ts => shape t :: shapeList ts
end

theorem shape_property (t : SearchTree) : t.property.shape = t.shape := by
  cases t <;> rfl

mutual
theorem shape_rewritten (t : SearchTree) : t.rewritten.shape = t.shape := by
  cases t with
  | ident name => rfl
  | string s => rfl
  | number q => rfl
  | op func left right =>
    rw [rewritten,shape,shape,shape_rewrittenRight right]
    split
    · rw [shape_property]
    · rw [shape_rewritten left]
theorem shape_rewrittenRight (right : SearchRight) :
    shapeRight (rewrittenRight right) = shapeRight right := by
  cases right with
  | none => rfl
  | tree t => rw [rewrittenRight,shapeRight,shapeRight,shape_rewritten t]
  | list ts => rw [rewrittenRight,shapeRight,shapeRight,shape_rewrittenList ts]
theorem shape_rewrittenList (ts : List SearchTree) :
    shapeList (rewrittenList ts) = shapeList ts := by
  cases ts with
  | nil => rfl
  | cons t ts => rw [rewrittenList,shapeList,shapeList,shape_rewritten t,shape_rewrittenList ts]
end

end SearchTree

section Walk

variable {d : DisallowedFields} {n : TslNode}

theorem fieldNameWalk_ident {name : String} {right : TslValue}
    (h : convertProperty n = .ok (.mk .ident (.text name) right)) :
    fieldNameWalk d n = match getField name d with
      | .error err => .error (.serviceError err)
      | .ok field => .ok (.mk .ident (.text field) .nil) := by
  rw [fieldNameWalk]
  split <;> simp_all

theorem fieldNameWalk_op {func : String} {left right : TslValue}
    (h : convertProperty n = .ok (.mk (.other func) left right)) :
    fieldNameWalk d n = do
      let l ← walkLeft d left
      let r ← walkRight d right
      return .mk (.other func) (.node l) r := by
  rw [fieldNameWalk]
  split <;> simp_all

/-- A walk gives `a` when the names are allowed, and otherwise an error for the user. -/
def Walked {α : Type} (d : DisallowedFields) (names : List String) (a : α)
    (r : Except CallFailure α) : Prop :=
  (∀ name ∈ names, Allowed d (Text.trim ' ' name)) ∧ r = .ok a ∨
    (∃ name ∈ names, ¬ Allowed d (Text.trim ' ' name)) ∧ ∃ err, r = .error (.serviceError err)

theorem Walked.ok {α : Type} (a : α) : Walked d [] a (.ok a) := .inl ⟨by simp,rfl⟩

theorem Walked.map {α β : Type} {names : List String} {a : α} {r : Except CallFailure α}
    (f : α → β) (h : Walked d names a r) : Walked d names (f a) (do return f (← r)) := by
  rcases h with ⟨hall,rfl⟩ | ⟨hex,err,rfl⟩
  · exact .inl ⟨hall,rfl⟩
  · exact .inr ⟨hex,err,rfl⟩

/-- Two walks one after the other. -/
theorem Walked.map₂ {α β γ : Type} {names names' : List String} {a : α} {b : β}
    {r : Except CallFailure α} {r' : Except CallFailure β} (f : α → β → γ)
    (h : Walked d names a r) (h' : Walked d names' b r') :
    Walked d (names ++ names') (f a b) (do return f (← r) (← r')) := by
  rcases h with ⟨hall,rfl⟩ | ⟨⟨name,hname,hbad⟩,err,rfl⟩
  · rcases h' with ⟨hall',rfl⟩ | ⟨⟨name,hname,hbad⟩,err,rfl⟩
    · exact .inl ⟨fun name hname => (List.mem_append.mp hname).elim (hall name) (hall' name),rfl⟩
    · exact .inr ⟨⟨name,List.mem_append_right _ hname,hbad⟩,err,rfl⟩
  · exact .inr ⟨⟨name,List.mem_append_left _ hname,hbad⟩,err,rfl⟩

end Walk

namespace SearchTree

variable {d : DisallowedFields}

theorem walked_ident (name : String) : Walked d (ident name).checked (ident name).rewritten.node
    (fieldNameWalk d (ident name).node) := by
  have hconvert : convertProperty (ident name).node = .ok (.mk .ident (.text name) .nil) := rfl
  rw [fieldNameWalk_ident hconvert,checked]
  cases hget : getField name d with
  | ok field =>
    obtain ⟨rfl,hok⟩ := getField_eq_ok.mp hget
    refine .inl ⟨?_,rfl⟩
    split
    · simp
    · next hprop => simpa [hprop] using hok
  | error err =>
    have hno : ¬ (Text.startsWith "properties ->>" (Text.trim ' ' name) = true ∨
        Allowed d (Text.trim ' ' name)) := by
      intro hok
      cases hget.symm.trans (getField_eq_ok.mpr ⟨rfl,hok⟩)
    obtain ⟨hprop,hbad⟩ := not_or.mp hno
    rw [if_neg hprop]
    exact .inr ⟨⟨name,List.mem_singleton_self _,hbad⟩,err,rfl⟩

/-- The property that is converted is not checked. -/
theorem walked_property {left : SearchTree} (h : left.isProperty = true) :
    Walked d [] left.property.node (fieldNameWalk d left.property.node) := by
  cases left with
  | ident name =>
    have hwalk := walked_ident (d := d)
      ("properties ->> '" ++ String.ofList (name.toList.drop 11) ++ "'")
    have htrim : Text.trim ' ' ("properties ->> '" ++ String.ofList (name.toList.drop 11) ++ "'") =
        "properties ->> '" ++ String.ofList (name.toList.drop 11) ++ "'" := by
      refine Text.trim_of_ends (by simp) fun c hc => ?_
      rw [String.toList_append,show "'".toList = ['\''] from rfl,List.getLast?_concat] at hc
      cases hc
      decide
    have hstart : Text.startsWith "properties ->>"
        ("properties ->> '" ++ String.ofList (name.toList.drop 11) ++ "'") = true := by
      simp [Text.startsWith]
    rw [checked,rewritten,htrim,if_pos hstart] at hwalk
    exact hwalk
  | _ => cases h

theorem convertProperty_op (func : String) (left : SearchTree) (right : TslValue) :
    convertProperty (.mk (.other func) (.node left.node) right) = .ok (.mk (.other func)
      (.node (if left.isProperty then left.property.node else left.node)) right) := by
  cases left with
  | ident name =>
    have hhas : hasProperty (.mk (.other func) (.node (ident name).node) right) =
        .ok (startsWithProperties name) := rfl
    rw [convertProperty,hhas,isProperty]
    cases startsWithProperties name with
    | true => rfl
    | false => rfl
  | _ => rfl

mutual
/-- What the walk does to a tree, from what it does to the parts. -/
theorem walked (t : SearchTree) : Walked d t.checked t.rewritten.node (fieldNameWalk d t.node) := by
  cases t with
  | ident name => exact walked_ident name
  | string s =>
    rw [fieldNameWalk]
    exact .ok _
  | number q =>
    rw [fieldNameWalk]
    exact .ok _
  | op func left right =>
    rw [node,fieldNameWalk_op (convertProperty_op func left _),walkLeft]
    have hleft : Walked d (if left.isProperty then [] else left.checked)
        (if left.isProperty then left.property else left.rewritten).node
        (fieldNameWalk d (if left.isProperty then left.property.node else left.node)) := by
      cases hprop : left.isProperty with
      | true => exact walked_property hprop
      | false => exact walked left
    rw [checked,rewritten,node]
    exact hleft.map₂ (fun l r => TslNode.mk (.other func) (.node l) r) (walked_right right)
theorem walked_right (right : SearchRight) :
    Walked d (checkedRight right) (value (rewrittenRight right)) (walkRight d (value right)) := by
  cases right with
  | none =>
    rw [value,walkRight]
    exact .ok _
  | tree t =>
    rw [value,walkRight,checkedRight,rewrittenRight,value]
    exact (walked t).map TslValue.node
  | list ts =>
    rw [value,walkRight,checkedRight,rewrittenRight,value]
    exact (walked_list ts).map TslValue.nodes
theorem walked_list (ts : List SearchTree) :
    Walked d (checkedList ts) (nodes (rewrittenList ts)) (fieldNameWalks d (nodes ts)) := by
  cases ts with
  | nil =>
    rw [nodes,fieldNameWalks]
    exact .ok _
  | cons t ts =>
    rw [nodes,fieldNameWalks,checkedList,rewrittenList,nodes]
    exact (walked t).map₂ List.cons (walked_list ts)
end

end SearchTree

end Maestro
