import OrderService.Codec.JsonText

/-! The `idempotency` middleware, the responses it captures, and the cache it shares with the other
requests. -/
namespace OrderService
open Interleaving

section Time

inductive TimeUnit where
  | d
  | h
  | m
  | s

def TimeUnit.multiplier : TimeUnit → Nat
  | .s => 1000
  | .m => 60 * 1000
  | .h => 60 * 60 * 1000
  | .d => 24 * 60 * 60 * 1000

def toMs (value : Nat) (unit : TimeUnit) : Nat := value * unit.multiplier

def toSeconds (value : Nat) (unit : TimeUnit) : Nat := toMs value unit / 1000

end Time

section Response

/-- What a handler gives to `res.json`. -/
structure JsonBody where
  value : Json
  wellFormed : value.WellFormed

/-- `res.status(status).json(body)`. -/
structure JsonReply where
  status : Nat
  body : JsonBody

/-- The fields `success`, `data` and `meta` of a response; what is undefined is left out. -/
def ApiResponse.body (data metadata : Option JsonBody) : JsonBody where
  value := .obj ([("success", .bool true)]
    ++ (data.toList.map fun d => ("data", d.value)) ++ metadata.toList.map fun m => ("meta", m.value))
  wellFormed := by
    cases data with
    | none =>
      cases metadata with
      | none => exact ⟨by decide, trivial, trivial⟩
      | some m => exact ⟨by simp; decide, trivial, m.wellFormed, trivial⟩
    | some d =>
      cases metadata with
      | none => exact ⟨by simp; decide, trivial, d.wellFormed, trivial⟩
      | some m => exact ⟨by simp; decide, trivial, d.wellFormed, m.wellFormed, trivial⟩

def sendSuccess (data : Option JsonBody) (statusCode : Nat := 200)
    (metadata : Option JsonBody := none) : JsonReply :=
  ⟨statusCode, ApiResponse.body data metadata⟩

def sendPaginated (data metadata : JsonBody) : JsonReply :=
  ⟨200, ApiResponse.body (some data) (some metadata)⟩

/-- `{error: message}`. -/
def errorBody (message : String) : JsonBody where
  value := .obj [("error", .str message)]
  wellFormed := ⟨List.pairwise_singleton _ _, trivial, trivial⟩

/-- Only an `AppError` is operational. -/
def errorHandler : Err → JsonReply
  | .app e => ⟨e.statusCode, errorBody e.message⟩
  | _ => ⟨500, errorBody "Something went wrong"⟩

/-- How a handler ends: it responds, or it passes an error on to `errorHandler`. -/
inductive Handled where
  | responds (reply : JsonReply)
  | fails (err : Err)

def Handled.reply : Handled → JsonReply
  | .responds reply => reply
  | .fails err => errorHandler err

end Response

section Middleware

/-- `req.headers[name]`. -/
inductive HeaderValue where
  | undefined
  | text (value : String)
  | list (values : List String)
  deriving DecidableEq

/-- An authenticated request; the handler reads its user, region and body. -/
structure Request where
  method : String
  originalUrl : String
  idempotencyKey : HeaderValue
  userId : Nat
  region : String
  body : Json

/-- The header, if it is a string and not empty. -/
def Request.key? (req : Request) : Option String :=
  match req.idempotencyKey with
  | .text value => if value = "" then none else some value
  | _ => none

def cachedMethods : List String := ["POST", "PATCH", "PUT"]

def cacheKey (method originalUrl key : String) : String :=
  "idempotency:" ++ method ++ ":" ++ originalUrl ++ ":" ++ key

/-- The entry under which the replies to a request are kept, if they are. -/
def Request.cacheKey? (req : Request) : Option String :=
  if req.method ∈ cachedMethods then req.key?.map (cacheKey req.method req.originalUrl) else none

inductive HttpOp where
  | get (key : String)
  | set (key value : String) (ttlSeconds : Nat)
  | next (req : Request)

abbrev HttpOp.Res : HttpOp → Type
  | .get _ => Option String
  | .set .. => Unit
  | .next _ => JsonReply

abbrev Middleware (α : Type) := Prog HttpOp HttpOp.Res Err α

def cacheGet (key : String) : Middleware (Option String) := Prog.perform (HttpOp.get key)

def cacheSet (key value : String) (ttlSeconds : Nat) : Middleware Unit :=
  Prog.perform (HttpOp.set key value ttlSeconds)

def next (req : Request) : Middleware JsonReply := Prog.perform (HttpOp.next req)

structure IdempotencyOptions where
  strict : Bool := false

def idempotencyTtl : Nat := toSeconds 1 .d

def missingKeyBody : JsonBody := errorBody "Missing Idempotency-Key header"

def unavailableBody : JsonBody := errorBody "Idempotency service unavailable"

/-- A reply as the client gets it: what was read from the cache is sent as it is. -/
structure Sent where
  status : Nat
  body : Json

def JsonReply.sent (reply : JsonReply) : Sent := ⟨reply.status, reply.body.value⟩

/-- `res.status(200).json(JSON.parse(cached))`. -/
def replayCached (cached : String) : Middleware Sent :=
  match Json.parse cached with
  | some body => pure ⟨200, body⟩
  | none => throw (.error "Unexpected token in JSON")

/-- The wrapped `res.json` starts the write and does not wait for it. -/
def handleAndKeep (req : Request) (key : String) : Middleware Sent := do
  let reply ← next req
  tryCatch (cacheSet key reply.body.value.stringify idempotencyTtl) fun _ => pure ()
  pure reply.sent

/-- An empty entry is no entry. -/
def answerOnce (req : Request) (key : String) : Middleware Sent := do
  let cached ← cacheGet key
  match cached.filter (· ≠ "") with
  | some text => replayCached text
  | none => handleAndKeep req key

/-- Only the lookup can reach the `catch`: an error of the handler goes to `errorHandler`. -/
def idempotency (options : IdempotencyOptions) (req : Request) : Middleware Sent :=
  if req.method ∉ cachedMethods then do
    let reply ← next req
    pure reply.sent
  else match req.key? with
    | none =>
      if options.strict then pure ⟨400, missingKeyBody.value⟩
      else do
        let reply ← next req
        pure reply.sent
    | some key =>
      tryCatch (answerOnce req (cacheKey req.method req.originalUrl key)) fun _ =>
        if options.strict then pure ⟨503, unavailableBody.value⟩
        else do
          let reply ← next req
          pure reply.sent

end Middleware

section Server

structure CacheEntry where
  text : String
  expiresAt : Nat

/-- What happened at the cache and in the handlers; a run of a handler has its time. -/
inductive HttpEvent where
  | read (p : Pid) (key : String) (found : Option String)
  | ran (p : Pid) (req : Request) (reply : JsonReply) (time : Nat)
  | wrote (p : Pid) (key text : String)

/-- Redis and its clock in milliseconds; `log` has the latest event first. -/
structure HttpWorld where
  entries : String → Option CacheEntry := fun _ => none
  clock : Nat := 0
  log : List HttpEvent := []

/-- Whether Redis answers, and how the handler ends. -/
structure HttpEnv where
  up : Bool := true
  handled : Handled := .responds (sendSuccess none)

/-- `GET`: an entry lives to the millisecond it expires. -/
def HttpWorld.lookup (w : HttpWorld) (key : String) : Option String :=
  match w.entries key with
  | some entry => if w.clock ≤ entry.expiresAt then some entry.text else none
  | none => none

def execHttp (p : Pid) : (o : HttpOp) → HttpEnv → HttpWorld →
    Option (Except Err o.Res × HttpWorld)
  | .get key, e, w =>
    if e.up then some (.ok (w.lookup key), { w with log := .read p key (w.lookup key) :: w.log })
    else some (.error .failed, w)
  | .set key value ttlSeconds, e, w =>
    if e.up then some (.ok (), { w with
      entries := Function.update w.entries key (some ⟨value, w.clock + ttlSeconds * 1000⟩)
      log := .wrote p key value :: w.log })
    else some (.error .failed, w)
  | .next req, e, w =>
    some (.ok e.handled.reply, { w with log := .ran p req e.handled.reply w.clock :: w.log })

/-- The environment lets time pass. -/
def httpMachine : Machine Pid HttpOp HttpOp.Res Err HttpWorld HttpEnv Nat where
  exec := execHttp
  crash _ w := w
  ext d w := { w with clock := w.clock + d }

end Server

end OrderService
