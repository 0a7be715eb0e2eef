import Mathlib.Data.List.Sort
import OrderService.Codec.QueryString
import OrderService.Entities

/-! `verifyKashierWebhookSignature` and the JavaScript string conversions it relies on. -/
namespace OrderService

/-- A value of `JSON.parse`. A number is the text that `String(n)` gives it; an object has its
own properties, each name once. -/
inductive Json where
  | null
  | bool (b : Bool)
  | num (text : String)
  | str (s : String)
  | arr (items : List Json)
  | obj (fields : List (String × Json))

/-- `{...}` as an own-property lookup. -/
def getField (fields : List (String × Json)) (key : String) : Option Json :=
  (fields.find? fun f => f.1 = key).map Prod.snd

/-- `String(...)` of what an object inherits under a name. -/
def objectPrototype (key : String) : Option String :=
  if key = "__proto__" then some "[object Object]"
  else if key = "constructor" then some "function Object() \x7b [native code] \x7d"
  else if key ∈ ["__defineGetter__", "__defineSetter__", "hasOwnProperty", "__lookupGetter__",
      "__lookupSetter__", "isPrototypeOf", "propertyIsEnumerable", "toString", "valueOf",
      "toLocaleString"] then
    some ("function " ++ key ++ "() \x7b [native code] \x7d")
  else none

mutual

/-- `String(value)`. An own `toString` of a parsed object is no function, so it cannot be
converted. -/
def Json.text : Json → Except Err String
  | .null => .ok "null"
  | .bool b => .ok (if b then "true" else "false")
  | .num t => .ok t
  | .str s => .ok s
  | .arr items => (Json.joinTexts items).map (String.intercalate ",")
  | .obj fields => if (getField fields "toString").isSome then .error .typeError
      else .ok "[object Object]"

/-- The parts that `Array.prototype.join` puts together: a null leaves its place empty. -/
def Json.joinTexts : List Json → Except Err (List String)
  | [] => .ok []
  | .null :: rest => do
    let texts ← Json.joinTexts rest
    pure ("" :: texts)
  | item :: rest => do
    let text ← item.text
    let texts ← Json.joinTexts rest
    pure (text :: texts)

end

def Json.truthy : Json → Bool
  | .null => false
  | .bool b => b
  | .num t => t ≠ "0"
  | .str s => s ≠ ""
  | .arr _ => true
  | .obj _ => true

/-- The elements of `[...value]`, each as the property name it serves as. -/
def spreadKeys : Json → Except Err (List String)
  | .arr items => items.mapM Json.text
  | .str s => .ok (s.toList.map fun c => String.ofList [c])
  | _ => .error .typeError

/-- The UTF-16 code units by which `Array.prototype.sort` compares strings. -/
def utf16 (s : String) : List Nat :=
  s.toList.flatMap fun c =>
    if c.toNat < 0x10000 then [c.toNat]
    else [0xD800 + (c.toNat - 0x10000) / 0x400, 0xDC00 + (c.toNat - 0x10000) % 0x400]

def sortKeys (keys : List String) : List String :=
  keys.insertionSort fun a b => utf16 a ≤ utf16 b

/-- The bytes that `encodeURIComponent` leaves alone: letters, digits and the nine marks. -/
def unescaped (b : UInt8) : Bool :=
  (48 ≤ b && b ≤ 57) || (65 ≤ b && b ≤ 90) || (97 ≤ b && b ≤ 122) ||
    b ∈ [45, 95, 46, 33, 126, 42, 39, 40, 41]

/-- `v === undefined || v === null ? "" : String(v)` for `v = data[key]`. -/
def stringified (data : List (String × Json)) (key : String) : Except Err String :=
  match getField data key with
  | some .null => .ok ""
  | some v => v.text
  | none => .ok ((objectPrototype key).getD "")

def signaturePart (data : List (String × Json)) (key : String) : Except Err (List Char) := do
  let value ← stringified data key
  pure (QueryString.pair unescaped key value)

def signaturePayload (data : List (String × Json)) (keys : List String) : Except Err String := do
  let parts ← (sortKeys keys).mapM (signaturePart data)
  pure (String.ofList (QueryString.join '&' parts))

def hexValue (c : Char) : Option Nat :=
  if '0' ≤ c ∧ c ≤ '9' then some (c.toNat - 48)
  else if 'a' ≤ c ∧ c ≤ 'f' then some (c.toNat - 87)
  else if 'A' ≤ c ∧ c ≤ 'F' then some (c.toNat - 55)
  else none

/-- `Buffer.from(text, "hex")`: it stops at the first pair that is not hex. -/
def hexBytes : List Char → List Nat
  | a :: b :: rest =>
    match hexValue a, hexValue b with
    | some x, some y => (16 * x + y) :: hexBytes rest
    | _, _ => []
  | _ => []

/-- `timingSafeEqual` throws on buffers of different lengths. -/
def safeCompare (a b : String) : Except Err Bool :=
  let bufA := hexBytes a.toList
  let bufB := hexBytes b.toList
  if bufA.length ≠ bufB.length then
    .error (.error "Input buffers must have the same byte length")
  else .ok (bufA = bufB)

section Verification

-- `createHmac("sha256", key).update(message).digest("hex")`
variable (hmacSha256 : String → String → String)

def verifyKashierWebhookSignature (data : List (String × Json)) (signature : String)
    (signatureKeys : Json) (apiKey : String) : Except Err Bool :=
  if signature = "" then .ok false
  else do
    let keys ← spreadKeys signatureKeys
    let payload ← signaturePayload data keys
    safeCompare (hmacSha256 apiKey payload) signature

end Verification

end OrderService
