import Maestro.Data.Chunks
import Maestro.Db.FieldNameWalk
import Maestro.Services.ListArguments

/-!
# The generic list service

A list request is turned into a query by its builders, the query is counted, and one page of it
is fetched. The search and the order-by arguments are texts of the user; a page is named by its
number and cut out by an offset of 64 bits.
-/

namespace Maestro
open Data

/-- The `WHERE` of a query: its text and the values in it. -/
structure SqlCondition where
  sql : String
  values : List String
deriving DecidableEq

/-- The packages that parse a search and print it as SQL. -/
structure SearchPackages where
  /-- `sql_parser`. -/
  parseSQL : String → Except String SqlCondition
  parseTSL : String → Except String TslNode
  /-- `ident.Walk`. -/
  walkIdents : (String → Except String String) → TslNode → Except String TslNode
  /-- `sql.Walk`, and `ToSql` of what it returns. -/
  walkSQL : TslNode → Except String (Except String SqlCondition)

section Builders

variable (pkg : SearchPackages) (disallowed : DisallowedFields) (resourceType resourceTable : String)

def isJSONBSearch (search : String) : Bool := contains search "->>" || contains search "@>"

/-- `treeWalkForRelatedTables`. The models have no relations to other tables. -/
def treeWalkForRelatedTables (tslTree : TslNode) : Except ServiceError TslNode :=
  match pkg.walkIdents walkFn tslTree with
  | .error err => .error (Errors.badRequest err)
  | .ok tslTree => .ok tslTree
where
  walkFn (field : String) : Except String String :=
    match Text.split '.' field with
    | fieldName :: _ :: _ =>
      if fieldName ≠ resourceTable then
        .error (fieldName ++ " is not a related resource of " ++ resourceType)
      else
        .ok field
    | _ => .ok field

def treeWalkForAddingTableName (tslTree : TslNode) : Except ServiceError TslNode :=
  match pkg.walkIdents walkFn tslTree with
  | .error err => .error (Errors.badRequest err)
  | .ok tslTree => .ok tslTree
where
  walkFn (field : String) : Except String String :=
    match Text.split '.' field with
    | [_] => if contains field "->" then .ok field else .ok (resourceTable ++ "." ++ field)
    | _ => .ok field

def treeWalkForSqlizer (tslTree : TslNode) : Except CallFailure (Except String SqlCondition) :=
  match fieldNameWalk disallowed tslTree with
  | .error err => .error err
  | .ok tslTree =>
    match pkg.walkSQL tslTree with
    | .error err => .error (.serviceError (Errors.badRequest err))
    | .ok sqlizer => .ok sqlizer

/-- `buildSearch`. -/
def buildSearch (search : String) : Except CallFailure (Option SqlCondition) :=
  if search = "" then
    .ok none
  else if isJSONBSearch search then
    match pkg.parseSQL search with
    | .error err =>
      .error (.serviceError (Errors.badRequest ("failed to parse the search query: " ++ err)))
    | .ok condition => .ok (some condition)
  else
    match pkg.parseTSL search with
    | .error _ =>
      .error (.serviceError (Errors.badRequest ("Failed to parse search query: " ++ search)))
    | .ok tslTree =>
      match treeWalkForRelatedTables pkg resourceType resourceTable tslTree with
      | .error err => .error (.serviceError err)
      | .ok tslTree =>
        match treeWalkForAddingTableName pkg resourceTable tslTree with
        | .error err => .error (.serviceError err)
        | .ok tslTree =>
          match treeWalkForSqlizer pkg disallowed tslTree with
          | .error err => .error err
          | .ok (.error err) => .error (.serviceError (Errors.generalError err))
          | .ok (.ok condition) => .ok (some condition)

end Builders

/-- The walk of a search tree succeeds exactly when the identifiers that it checks are allowed.
Then it keeps the tree but for the names of identifiers, which are trimmed or become properties;
otherwise no tree goes on to the SQL. -/
theorem fieldNameWalk_keeps_query (pkg : SearchPackages) (disallowed : DisallowedFields)
    (t : SearchTree) :
    ((∃ m, fieldNameWalk disallowed t.node = .ok m) ↔
      ∀ name ∈ t.checked, Allowed disallowed (Text.trim ' ' name)) ∧
    (∀ m, fieldNameWalk disallowed t.node = .ok m →
      m = t.rewritten.node ∧ t.rewritten.shape = t.shape) ∧
    ∀ failure, fieldNameWalk disallowed t.node = .error failure → ∃ err,
      failure = .serviceError err ∧
        treeWalkForSqlizer pkg disallowed t.node = .error (.serviceError err) := by
  rcases t.walked (d := disallowed) with ⟨hall,hok⟩ | ⟨⟨name,hname,hbad⟩,err,herr⟩
  · refine ⟨iff_of_true ⟨_,hok⟩ hall,?_,?_⟩
    · intro m hm
      cases hok.symm.trans hm
      exact ⟨rfl,t.shape_rewritten⟩
    · intro failure hfail
      cases hok.symm.trans hfail
  · refine ⟨iff_of_false ?_ fun hall => hbad (hall name hname),?_,?_⟩
    · rintro ⟨m,hm⟩
      cases herr.symm.trans hm
    · intro m hm
      cases herr.symm.trans hm
    · intro failure hfail
      cases herr.symm.trans hfail
      exact ⟨err,rfl,by rw [treeWalkForSqlizer,herr]⟩

/-- `PagingMeta`. -/
structure PagingMeta where
  page : Int64
  size : Int64
  total : Int64
deriving DecidableEq

/-- `Fetch`; an offset that is not positive is left out of the query. -/
def fetch {α : Type} (offset limit : ℤ) (rows : List α) : List α :=
  (rows.drop offset.toNat).take limit.toNat

/-- A query, as the builders leave it. -/
structure ListQuery where
  orderBy : List String
  condition : Option SqlCondition
deriving DecidableEq

section List

variable {α : Type}

/-- `loadList`, for what the query returns. The error of the count is ignored. -/
def loadList (args : ListArguments) (rows : Except String (List α)) :
    Except ServiceError (PagingMeta × List α) :=
  let total := match rows with
    | .error _ => 0
    | .ok rows => Int64.ofNat rows.length
  if args.size = 0 then
    .ok (⟨args.page,0,total⟩,[])
  else
    match rows with
    | .error err => .error (Errors.generalError ("Unable to list resources: " ++ err))
    | .ok rows =>
      let resourceList := fetch ((args.page - 1) * args.size).toInt args.size.toInt rows
      .ok (⟨args.page,Int64.ofNat resourceList.length,total⟩,resourceList)

/-- `List` of the generic service, over what the database returns for a query. -/
def genericList (pkg : SearchPackages) (disallowed : DisallowedFields)
    (resourceType resourceTable : String) (database : ListQuery → Except String (List α))
    (args : ListArguments) : Except CallFailure (PagingMeta × List α) :=
  match argsToOrderBy disallowed args.orderBy with
  | .error err => .error (.serviceError err)
  | .ok orderBy =>
    match buildSearch pkg disallowed resourceType resourceTable (Text.trim ' ' args.search) with
    | .error err => .error err
    | .ok condition =>
      match loadList args (database ⟨orderBy,condition⟩) with
      | .error err => .error (.serviceError err)
      | .ok result => .ok result

end List

end Maestro
