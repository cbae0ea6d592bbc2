import Maestro.Api.Reference
import Maestro.Api.SliceFilter
import Maestro.Services.Generic

/-!
# The list handlers

The handlers of consumers and of resource bundles list, present and, when the request names
fields, project. They give the filter the items instead of the list that the items are in.
-/

namespace Maestro
open Data

/-- `openapi.ConsumerList` and `openapi.ResourceBundleList`. -/
structure ItemList (β : Type) where
  kind : String
  page : Int32
  size : Int32
  total : Int32
  items : List β

/-- What a list handler responds. -/
inductive ListBody (β : Type)
  | list (l : ItemList β)
  | projection (p : ProjectionList)

section Handlers

variable {α β : Type} (format : Option Time → String)

/-- `List` of a handler: the kind of the list, what presents a row and the item as a Go value. -/
def handleList (kind : String) (present : α → Except String β) (goValue : β → GoValue)
    (list : ListArguments → Except CallFailure (PagingMeta × List α)) (params : String → String) :
    Except CallFailure (ListBody β) :=
  let listArgs := newListArguments params
  match list listArgs with
  | .error err => .error err
  | .ok (paging,rows) =>
    match rows.mapM present with
    | .error err =>
      .error (.serviceError (Errors.generalError ("failed to present resource bundle: " ++ err)))
    | .ok items =>
      match listArgs.fields with
      | none => .ok (.list ⟨kind,paging.page.toInt32,paging.size.toInt32,paging.total.toInt32,items⟩)
      | some fields =>
        match sliceFilter format fields (.slice (items.map goValue)) with
        | .error err => .error err
        | .ok filteredItems => .ok (.projection filteredItems)

/-- `consumerHandler.List`. -/
def consumerHandlerList :
    (ListArguments → Except CallFailure (PagingMeta × List Consumer)) → (String → String) →
      Except CallFailure (ListBody ConsumerBody) :=
  handleList format "ConsumerList" (fun consumer => .ok (presentConsumer consumer))
    ConsumerBody.goValue

/-- `resourceBundleHandler.List`. -/
def resourceBundleHandlerList (ext : External) :
    (ListArguments → Except CallFailure (PagingMeta × List Resource)) → (String → String) →
      Except CallFailure (ListBody ResourceBundle) :=
  handleList format "ResourceBundleList" (presentResourceBundle ext) ResourceBundle.goValue

end Handlers

section Law

variable {β : Type} (format : Option Time → String) (goValue : β → GoValue)

/-- The projected value of a field is the value of the item; a field that is absent or empty
there may be absent or null. -/
def SameField (item projected : Option Json) : Prop :=
  projected = item ∨ (item = none ∨ ∃ v, item = some v ∧ (GoValue.plain v).isEmptyValue = true) ∧
    (projected = none ∨ projected = some .null)

/-- An item has been projected to the fields: it has these, with their values, and no other. -/
def ProjectsItem (fields : List String) (item : GoValue) (projected : List (String × Projected)) :
    Prop :=
  ∀ name, if name ∈ fields then
      SameField (item.field format name)
        ((projected.lookup name).map (Projected.json format))
    else projected.lookup name = none

/-- What the response to a list request has to be. -/
def ProjectionLaw (fields : Option (List String)) (l : ItemList β)
    (response : Except CallFailure (ListBody β)) : Prop :=
  match fields with
  | none => response = .ok (.list l)
  | some fields =>
    -- the items have one type, so any of them says which fields there are
    if ∃ name ∈ fields, ∃ item ∈ l.items, name ∉ (goValue item).jsonNames then
      ∃ reason, response = .error (.serviceError (Errors.validation reason))
    else
      ∃ p, response = .ok (.projection p) ∧ p.kind = l.kind ∧ p.page = l.page ∧ p.size = l.size ∧
        p.total = l.total ∧
        List.Forall₂ (fun item projected => ProjectsItem format fields (goValue item) projected)
          l.items p.items

end Law

section Response

variable {α β : Type} {format : Option Time → String} {kind : String}
  {present : α → Except String β} {goValue : β → GoValue}
  {list : ListArguments → Except CallFailure (PagingMeta × List α)} {params : String → String}

/-- The list that is presented when no fields are named. -/
def itemList (kind : String) (paging : PagingMeta) (items : List β) : ItemList β :=
  ⟨kind,paging.page.toInt32,paging.size.toInt32,paging.total.toInt32,items⟩

theorem newListArguments_fields (params : String → String) :
    (newListArguments params).fields = none ↔ Text.trim ' ' (params "fields") = "" := by
  unfold newListArguments
  dsimp only
  split <;> simp_all

/-- A request that names fields panics, and one that names none is answered. -/
theorem handleList_eq {paging : PagingMeta} {rows : List α} {items : List β}
    (hlist : list (newListArguments params) = .ok (paging,rows))
    (hpresent : rows.mapM present = .ok items) :
    handleList format kind present goValue list params =
      match (newListArguments params).fields with
      | none => .ok (.list (itemList kind paging items))
      | some _ => .error .panic := by
  rw [handleList,hlist]
  dsimp only
  rw [hpresent]
  cases (newListArguments params).fields with
  | none => rfl
  | some fields => rfl

theorem handleList_law_iff {paging : PagingMeta} {rows : List α} {items : List β}
    (hlist : list (newListArguments params) = .ok (paging,rows))
    (hpresent : rows.mapM present = .ok items) :
    ProjectionLaw format goValue (newListArguments params).fields (itemList kind paging items)
        (handleList format kind present goValue list params) ↔
      Text.trim ' ' (params "fields") = "" := by
  rw [← newListArguments_fields,handleList_eq hlist hpresent]
  cases (newListArguments params).fields with
  | none => exact iff_of_true rfl rfl
  | some fields =>
    refine iff_of_false ?_ (by simp)
    simp only [ProjectionLaw]
    split
    · rintro ⟨reason,h⟩
      cases h
    · rintro ⟨p,h,-⟩
      cases h

end Response

/-- The list handlers respond as they should exactly when the request names no fields. -/
theorem listHandlers_project_iff (format : Option Time → String) (ext : External)
    (params : String → String)
    (consumers : ListArguments → Except CallFailure (PagingMeta × List Consumer))
    (resources : ListArguments → Except CallFailure (PagingMeta × List Resource)) :
    (∀ paging rows, consumers (newListArguments params) = .ok (paging,rows) →
      (ProjectionLaw format ConsumerBody.goValue (newListArguments params).fields
          (itemList "ConsumerList" paging (rows.map presentConsumer))
          (consumerHandlerList format consumers params) ↔
        Text.trim ' ' (params "fields") = "")) ∧
    ∀ paging rows bundles, resources (newListArguments params) = .ok (paging,rows) →
      rows.mapM (presentResourceBundle ext) = .ok bundles →
      (ProjectionLaw format ResourceBundle.goValue (newListArguments params).fields
          (itemList "ResourceBundleList" paging bundles)
          (resourceBundleHandlerList format ext resources params) ↔
        Text.trim ' ' (params "fields") = "") := by
  refine ⟨fun paging rows hlist => ?_,fun paging rows bundles => handleList_law_iff⟩
  refine handleList_law_iff hlist ?_
  exact List.mapM_pure

/-- One consumer, listed. -/
def listedConsumer (_ : ListArguments) : Except CallFailure (PagingMeta × List Consumer) :=
  .ok (⟨1,1,1⟩,[{ id := "c", name := "cluster" }])

/-- The parameters of a request that names fields. -/
def fieldsParam (fields name : String) : String := if name = "fields" then fields else ""

theorem listHandlers_project_unnamed :
    ProjectionLaw (fun _ => "") ConsumerBody.goValue (newListArguments (fieldsParam " ")).fields
      (itemList "ConsumerList" ⟨1,1,1⟩ [presentConsumer { id := "c", name := "cluster" }])
      (consumerHandlerList (fun _ => "") listedConsumer (fieldsParam " ")) :=
  ((listHandlers_project_iff (fun _ => "") Reference.packages (fieldsParam " ") listedConsumer
    fun _ => .error .panic).1 _ _ rfl).mpr rfl

/-- A request for the names of the consumers is a panic. -/
theorem consumerHandlerList_panics :
    consumerHandlerList (fun _ => "") listedConsumer (fieldsParam "name") = .error .panic ∧
      ¬ ProjectionLaw (fun _ => "") ConsumerBody.goValue
        (newListArguments (fieldsParam "name")).fields
        (itemList "ConsumerList" ⟨1,1,1⟩ [presentConsumer { id := "c", name := "cluster" }])
        (consumerHandlerList (fun _ => "") listedConsumer (fieldsParam "name")) := by
  have hpanic : consumerHandlerList (fun _ => "") listedConsumer (fieldsParam "name") =
      .error .panic := rfl
  refine ⟨hpanic,?_⟩
  have hfields : (newListArguments (fieldsParam "name")).fields = some ["name","id"] := by decide
  rw [hpanic,hfields]
  simp only [ProjectionLaw]
  split
  · rintro ⟨reason,h⟩
    cases h
  · rintro ⟨p,h,-⟩
    cases h

end Maestro
