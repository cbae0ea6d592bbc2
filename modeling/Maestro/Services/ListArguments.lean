import Maestro.Api.JsonText
import Maestro.Data.Text

namespace Maestro
open Data

/-- `ListArguments`. No preloads are ever asked for. -/
structure ListArguments where
  page : Int64 := 1
  size : Int64 := 100
  search : String := ""
  orderBy : List String := []
  /-- `none` is the nil slice. -/
  fields : Option (List String) := none
deriving DecidableEq

/-- `MAX_LIST_SIZE`. -/
def maxListSize : ℤ := 65500

/-- The number that `strconv.Atoi` and `strconv.ParseInt` return next to an error that is ignored:
0 for a text that is no number, and the nearest bound for a number that is too large. -/
def parseInt (s : String) : Int64 :=
  let value : Option (ℤ × List Char) :=
    match s.toList with
    | '+' :: cs => (JsonText.readNat cs).map fun p => ((p.1 : ℤ),p.2)
    | cs => JsonText.readInt cs
  match value with
  | some (n,[]) => Int64.ofInt (max (-9223372036854775808) (min n 9223372036854775807))
  | _ => 0

/-- The names in the `fields` parameter; the ID is always among them. -/
def fieldNames (v : String) : List String :=
  let fields := ((Text.split ',' v).map (Text.trim ' ')).filter fun field => field ≠ ""
  if "id" ∈ fields then fields else fields ++ ["id"]

/-- `NewListArguments`, of the values of the query parameters. -/
def newListArguments (params : String → String) : ListArguments :=
  let param name := Text.trim ' ' (params name)
  let size := if param "size" = "" then 100 else parseInt (param "size")
  { page := if param "page" = "" then 1 else parseInt (param "page")
    size := if size.toInt > maxListSize ∨ size < 0 then Int64.ofInt maxListSize else size
    search := param "search"
    orderBy := if param "orderBy" = "" then [] else Text.split ',' (param "orderBy")
    fields := if param "fields" = "" then none else some (fieldNames (param "fields")) }

theorem newListArguments_size (params : String → String) :
    0 ≤ (newListArguments params).size.toInt ∧ (newListArguments params).size.toInt ≤ maxListSize := by
  have hmax : (Int64.ofInt maxListSize).toInt = maxListSize := by decide
  dsimp only [newListArguments]
  generalize (if Text.trim ' ' (params "size") = "" then (100 : Int64) else
    parseInt (Text.trim ' ' (params "size"))) = size
  split
  · rw [hmax,maxListSize]
    omega
  · next h =>
    have hzero : (0 : Int64).toInt = 0 := rfl
    rw [not_or,Int64.lt_iff_toInt_lt,hzero] at h
    omega

end Maestro
