import OrderService.Codec.Calendar
import OrderService.Services.Refund

/-! The script that creates the monthly partitions of the orders ahead of time. A `Date` is its time
value. -/
namespace OrderService
open Calendar

/-- `String(n).padStart(2, "0")`. -/
def pad (n : Int) : String := String.ofList (List.replicate (2 - (toString n).length) '0') ++ toString n

/-- The name of a partition, its first day, and the first day that it does not hold. -/
structure MonthRange where
  name : String
  fromIso : String
  toIso : String
  deriving DecidableEq

/-- The loop of `monthRanges`: `count` ranges from the cursor on. -/
def monthRangesFrom : (count : Nat) → (cursor : Int) → List MonthRange
  | 0, _ => []
  | count + 1, cursor =>
    let next := utc (yearFromTime cursor) (monthFromTime cursor + 1) 1
    { name := "orders_" ++ toString (yearFromTime cursor) ++ "_" ++ pad (monthFromTime cursor + 1)
      fromIso := toString (yearFromTime cursor) ++ "-" ++ pad (monthFromTime cursor + 1) ++ "-01"
      toIso := toString (yearFromTime next) ++ "-" ++ pad (monthFromTime next + 1) ++ "-01" } ::
    monthRangesFrom count (setUTCMonth cursor (monthFromTime cursor + 1))

def monthRanges (start : Int) (count : Nat) : List MonthRange :=
  monthRangesFrom count (utc (yearFromTime start) (monthFromTime start) 1)

/-- `/^[a-z_][a-z0-9_]{0,62}$/`. -/
def isSafeIdentifier (name : String) : Bool :=
  match name.toList with
  | [] => false
  | c :: rest => (c.isLower || c = '_') && rest.length ≤ 62 &&
      rest.all fun c => c.isLower || c.isDigit || c = '_'

/-- `/^\d{4}-\d{2}-\d{2}$/`. -/
def isSafeDate (d : String) : Bool :=
  let cs := d.toList
  cs.length = 10 && (cs.take 4).all Char.isDigit && (cs.drop 4).take 1 = ['-'] &&
    ((cs.drop 5).take 2).all Char.isDigit && (cs.drop 7).take 1 = ['-'] &&
    (cs.drop 8).all Char.isDigit

def partitionSql (r : MonthRange) : String :=
  "CREATE TABLE IF NOT EXISTS " ++ r.name ++ " PARTITION OF orders FOR VALUES FROM ('" ++ r.fromIso ++
    "') TO ('" ++ r.toIso ++ "')"

def MonthRange.json (r : MonthRange) : Json :=
  .obj [("name", .str r.name), ("fromIso", .str r.fromIso), ("toIso", .str r.toIso)]

/-- The statements that `ensurePartitions` sends, and the error that it ends with. -/
def ensurePartitions : List MonthRange → List String × Option Err
  | [] => ([], none)
  | r :: ranges =>
    if !isSafeIdentifier r.name || !isSafeDate r.fromIso || !isSafeDate r.toIso then
      ([], some (.error ("Refusing to inline unsafe partition spec: " ++ r.json.stringify)))
    else
      let rest := ensurePartitions ranges
      (partitionSql r :: rest.1, rest.2)

end OrderService
