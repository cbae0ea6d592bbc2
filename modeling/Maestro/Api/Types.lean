import Mathlib.Data.List.Infix
import Maestro.Api.Json

namespace Maestro

/-- Instants as clocks return them. The zero `time.Time` is none of them: where
the source tests `IsZero` the model has an `Option Time`. -/
abbrev Time := ℤ

/-- `gorm.DeletedAt`. A time can be set in memory without being valid. -/
structure DeletedAt where
  time : Option Time := none
  valid : Bool := false
deriving DecidableEq

/-- `api.Resource` with its embedded `api.Meta`. -/
structure Resource where
  id : String
  createdAt : Option Time := none
  updatedAt : Option Time := none
  deletedAt : DeletedAt := {}
  version : Int32
  source : String := ""
  consumerName : String
  type : String := ""
  payload : JSONMap := none
  status : JSONMap := none
  name : String := ""
deriving DecidableEq

/-- A row of the `resources` table; `none` is NULL. -/
structure ResourceRow where
  id : String
  createdAt : Time
  updatedAt : Time
  deletedAt : Option Time := none
  version : Int32
  source : String
  consumerName : String
  type : String := ""
  payload : JSONMap
  status : JSONMap := none
  name : String
deriving DecidableEq

/-- The struct that a query fills from a row. -/
def ResourceRow.scan (row : ResourceRow) : Resource where
  id := row.id
  createdAt := some row.createdAt
  updatedAt := some row.updatedAt
  deletedAt := ⟨row.deletedAt,row.deletedAt.isSome⟩
  version := row.version
  source := row.source
  consumerName := row.consumerName
  type := row.type
  payload := row.payload.scan
  status := row.status.scan
  name := row.name

inductive EventType
  | create
  | update
  | delete
deriving DecidableEq

/-- `api.Event`, a row of the `events` table. Nothing soft-deletes events. -/
structure Event where
  id : String := ""
  createdAt : Time := 0
  updatedAt : Time := 0
  source : String
  sourceID : String
  eventType : EventType
  reconciledDate : Option Time := none
deriving DecidableEq

inductive StatusEventType
  | statusUpdate
  | statusDelete
deriving DecidableEq

/-- `api.StatusEvent`, a row of the `status_events` table. -/
structure StatusEvent where
  id : String := ""
  createdAt : Time := 0
  updatedAt : Time := 0
  resourceID : String
  resourceSource : String := ""
  resourceType : String := ""
  payload : JSONMap := none
  status : JSONMap := none
  statusEventType : StatusEventType
  reconciledDate : Option Time := none
deriving DecidableEq

/-- An error of the database layer: `gorm.ErrRecordNotFound`, or a text. -/
inductive DbErr
  | recordNotFound
  | other (text : String)
deriving DecidableEq

def DbErr.error : DbErr → String
  | .recordNotFound => "record not found"
  | .other text => text

/-- `strings.Contains`. -/
def contains (s sub : String) : Bool := decide (sub.toList <:+: s.toList)

inductive ServiceErrorCode
  | forbidden
  | conflict
  | notFound
  | validation
  | general
  | badRequest
  | databaseAdvisoryLock
deriving DecidableEq

def ServiceErrorCode.number : ServiceErrorCode → ℕ
  | .forbidden => 4
  | .conflict => 6
  | .notFound => 7
  | .validation => 8
  | .general => 9
  | .badRequest => 21
  | .databaseAdvisoryLock => 26

structure ServiceError where
  code : ServiceErrorCode
  reason : String
deriving DecidableEq

namespace ServiceError

def error (e : ServiceError) : String := "maestro-" ++ toString e.code.number ++ ": " ++ e.reason

def is404 (e : ServiceError) : Bool := e.code = .notFound

def isConflict (e : ServiceError) : Bool := e.code = .conflict

end ServiceError

namespace Errors

def forbidden (reason : String) : ServiceError := ⟨.forbidden,reason⟩
def conflict (reason : String) : ServiceError := ⟨.conflict,reason⟩
def notFound (reason : String) : ServiceError := ⟨.notFound,reason⟩
def validation (reason : String) : ServiceError := ⟨.validation,reason⟩
def generalError (reason : String) : ServiceError := ⟨.general,reason⟩
def badRequest (reason : String) : ServiceError := ⟨.badRequest,reason⟩

/-- The error text is used as a format with one argument too many. -/
def databaseAdvisoryLock (err : DbErr) : ServiceError :=
  ⟨.databaseAdvisoryLock,err.error ++ "%!(EXTRA []string=[])"⟩

end Errors

/-- How a call fails: by a panic, or with an error for the user. -/
inductive CallFailure
  | panic
  | serviceError (err : ServiceError)
deriving DecidableEq

end Maestro
