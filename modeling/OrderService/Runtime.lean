import OrderService.Tables
import OrderService.Interleaving.RelyGuarantee
import OrderService.Services.Signature

/-! The operations that the services await, and the world that answers them: the shard,
Redis, the core service, the payment provider and the sockets. -/
namespace OrderService
open ReadCommitted Interleaving

abbrev Pid := Nat

/-- A query goes to the pool (`db(region)`) or to the open transaction of the call. -/
inductive Conn where
  | pool
  | trx
  deriving DecidableEq

inductive CacheKey where
  | offer (publicId : String)
  | claim (publicId : String)
  | rejectFlag (branchId : Nat)
  | restaurantOrders (region : String) (branchId : Nat)
  | attempts (publicId : String)
  | presence (region : String) (agentId : Nat)
  deriving DecidableEq

/-- The strings in Redis, apart from their text: a comma separated list of agent ids, the flag
`"1"`, or a counter. -/
inductive CacheValue where
  | ids (agents : List Nat)
  | flag
  | count (n : Nat)
  deriving DecidableEq

inductive CacheCmd where
  | get (key : CacheKey)
  | trySet (key : CacheKey) (value : CacheValue) (ttlSeconds : Nat)
  | set (key : CacheKey) (value : CacheValue) (ttlSeconds : Nat)
  | del (key : CacheKey)
  | keyExists (key : CacheKey)
  | incr (key : CacheKey)
  | expire (key : CacheKey) (ttlSeconds : Nat)
  | ttl (key : CacheKey)
  | saddBusy (region : String) (agentId : Nat)
  | sremBusy (region : String) (agentId : Nat)
  | sismemberBusy (region : String) (agentId : Nat)
  | geosearchByRadius (region : String) (fromLng fromLat : Int) (radiusMeters count : Nat)

abbrev CacheCmd.Res : CacheCmd → Type
  | .get _ => Option CacheValue
  | .trySet .. => Bool
  | .set .. => Unit
  | .del _ => Nat
  | .keyExists _ => Bool
  | .incr _ => Nat
  | .expire .. => Unit
  | .ttl _ => Int
  | .saddBusy .. => Unit
  | .sremBusy .. => Unit
  | .sismemberBusy .. => Bool
  | .geosearchByRadius .. => List Nat

inductive Room where
  | customer (id : Nat)
  | branch (id : Nat)
  | agent (id : Nat)
  | adminAlerts

inductive SocketEvent where
  | orderCreated
  | orderStatusChanged
  | taskOffered
  | taskAssigned
  | offerCancelled
  | assignmentExhausted
  | deliveryStatusChanged
  | deliveryPosition

/-- `io.to(room).emit(event, payload)`; of the payload only the order it tells about. -/
structure Emission where
  room : Room
  event : SocketEvent
  orderId : String

/-- What an HTTP attempt comes back with: nothing that can be read, a status that is not ok with
the text of the response, or its JSON. -/
inductive HttpReply where
  | lost
  | status (code : Nat) (text : String)
  | ok (data : Json)

inductive Op where
  | start
  | commit
  | rollback
  | sql (c : Conn) (q : Sql)
  | now
  | randomUUID
  | getBranch (branchId : Nat)
  | getCustomerAddress (addressId : Nat)
  | getBranchProducts (branchId : Nat) (productIds : List Nat)
  | reserveStock (branchId : Nat) (items : List ReserveStockItem) (idempotencyKey : Option String)
  | undoReserveStock (branchId : Nat) (items : List ReserveStockItem)
      (idempotencyKey : Option String)
  | createSession (input : CreateSessionInput)
  | random36
  | fetchRefund (params : RefundParams)
  | cache (c : CacheCmd)
  | emit (m : Emission)

abbrev Op.Res : Op → Type
  | .sql _ q => q.Res
  | .now => Time
  | .randomUUID => String
  | .getBranch _ => Branch
  | .getCustomerAddress _ => CoreCustomerAddress
  | .getBranchProducts .. => List CoreBranchProduct
  | .createSession _ => CreateSessionResult
  | .random36 => String
  | .fetchRefund _ => HttpReply
  | .cache c => c.Res
  | _ => Unit

abbrev Svc (α : Type) := Prog Op Op.Res Err α

/-- What the environment answers to one operation: whether it fails, and the data of the
services outside. `received` tells whether a refund request came to the provider, whatever the
client sees of it. `nearby` are the agents around a place, the nearest first. -/
structure Env where
  fail : Bool := false
  uuid : String := ""
  branch : Branch := ⟨0, 0, "", none, "", 0, 0, false, false, 0, "", none, "", ""⟩
  address : CoreCustomerAddress := ⟨0, 0, "", "", "", "", 0, 0⟩
  products : List CoreBranchProduct := []
  session : CreateSessionResult := ⟨"", "", none⟩
  random : String := ""
  received : Bool := true
  refund : HttpReply := .ok (.obj [("status", .str "SUCCESS")])
  nearby : List Nat := []
  ttl : Int := 0

/-- What the environment does by itself: time passes, and a Redis key expires or is deleted. -/
inductive Ext where
  | tick (d : Nat)
  | drop (key : CacheKey)

structure Cache where
  entries : CacheKey → Option CacheValue := fun _ => none
  busy : List (String × Nat) := []

/-- The provider answered, so it has received the request. -/
def HttpReply.isOk : HttpReply → Bool
  | .ok _ => true
  | _ => false

/-- A stock request that core received and applied. -/
inductive StockCall where
  | reserve (branchId : Nat) (items : List ReserveStockItem)
  | undo (branchId : Nat) (items : List ReserveStockItem)

/-- The shared world. `refunds` are the requests that the provider executed. `seen p` is a ghost:
the status in the order row that call `p` read last. -/
structure World where
  store : Store Pid Db Write Key
  seqs : Seqs := {}
  cache : Cache := {}
  clock : Time := 0
  uuids : List String := []
  stockCalls : List StockCall := []
  refunds : List RefundParams := []
  emitted : List Emission := []
  seen : Pid → Option OrderStatus := fun _ => none

def Store.ofDb (db : Db) : Store Pid Db Write Key := ⟨db, [], fun _ => .idle, []⟩

def Cache.set (c : Cache) (key : CacheKey) (value : Option CacheValue) : Cache :=
  { c with entries := Function.update c.entries key value }

/-- `INCR`: without a value the counter starts at zero. -/
def CacheValue.increment : Option CacheValue → Nat
  | some (.count n) => n + 1
  | some (.ids _) => 1
  | some .flag => 2
  | none => 1

def CacheCmd.run (c : Cache) (e : Env) : (cmd : CacheCmd) → cmd.Res × Cache
  | .get key => (c.entries key, c)
  | .trySet key value _ =>
    match c.entries key with
    | some _ => (false, c)
    | none => (true, c.set key (some value))
  | .set key value _ => ((), c.set key (some value))
  | .keyExists key => ((c.entries key).isSome, c)
  | .incr key => (CacheValue.increment (c.entries key),
      c.set key (some (.count (CacheValue.increment (c.entries key)))))
  | .expire _ _ => ((), c)
  | .ttl _ => (e.ttl, c)
  | .del key => (if (c.entries key).isSome then 1 else 0, c.set key none)
  | .saddBusy region agentId =>
    ((), if c.busy.contains (region, agentId) then c
      else { c with busy := (region, agentId) :: c.busy })
  | .sremBusy region agentId => ((), { c with busy := c.busy.filter (· ≠ (region, agentId)) })
  | .sismemberBusy region agentId => (c.busy.contains (region, agentId), c)
  | .geosearchByRadius _ _ _ _ count => (e.nearby.take count, c)

/-- The ghost that remembers the status a call read. -/
def Sql.observe (p : Pid) (seen : Pid → Option OrderStatus) :
    (q : Sql) → Except Err q.Res → Pid → Option OrderStatus
  | .findOrderByPublicId _, .ok (some o) => Function.update seen p (some o.status)
  | _, _ => seen

/-- The statements that read an order by its public id. -/
def Sql.finds : Sql → Bool
  | .findOrderByPublicId _ => true
  | _ => false

/-- A statement on the pool commits at once; one on a completed transaction rejects. -/
def execSql (p : Pid) (c : Conn) (q : Sql) (w : World) :
    Option (Except Err q.Res × World) :=
  match c with
  | .pool =>
    (w.store.autocommit engine p (q.eval w.seqs w.clock)).map fun a =>
      (a.1, { w with store := a.2, seqs := q.bump w.seqs, seen := q.observe p w.seen a.1 })
  | .trx =>
    (w.store.query engine p (q.eval w.seqs w.clock)).map fun a =>
      match a.1 with
      | none => (.error .completed, w)
      | some r => (r, { w with store := a.2, seqs := q.bump w.seqs, seen := q.observe p w.seen r })

/-- One awaited operation of call `p`. A failed commit leaves nothing; a failed request to core
may or may not have been applied, and here it was not. -/
def exec (p : Pid) : (o : Op) → Env → World → Option (Except Err o.Res × World)
  | .now, _, w => some (.ok w.clock, w)
  | .emit m, _, w => some (.ok (), { w with emitted := w.emitted ++ [m] })
  | .randomUUID, e, w =>
    if e.uuid ∈ w.uuids then none
    else some (.ok e.uuid, { w with uuids := e.uuid :: w.uuids })
  | .rollback, _, w => some (.ok (), { w with store := w.store.rollback p })
  | .start, e, w =>
    if e.fail then some (.error .failed, w)
    else some (.ok (), { w with store := w.store.start p })
  | .commit, e, w =>
    if e.fail then some (.error .failed, { w with store := w.store.rollback p })
    else match w.store.commit engine p with
      | none => some (.error .completed, w)
      | some s => some (.ok (), { w with store := s })
  | .sql c q, e, w => if e.fail then some (.error .failed, w) else execSql p c q w
  | .getBranch _, e, w => some (if e.fail then .error .failed else .ok e.branch, w)
  | .getCustomerAddress _, e, w => some (if e.fail then .error .failed else .ok e.address, w)
  | .getBranchProducts .., e, w => some (if e.fail then .error .failed else .ok e.products, w)
  | .createSession _, e, w => some (if e.fail then .error .failed else .ok e.session, w)
  | .random36, e, w => some (.ok e.random, w)
  | .fetchRefund params, e, w =>
    some (.ok e.refund,
      { w with refunds := if e.received || e.refund.isOk then w.refunds ++ [params] else w.refunds })
  | .reserveStock branchId items _, e, w =>
    if e.fail then some (.error .failed, w)
    else some (.ok (), { w with stockCalls := w.stockCalls ++ [.reserve branchId items] })
  | .undoReserveStock branchId items _, e, w =>
    if e.fail then some (.error .failed, w)
    else some (.ok (), { w with stockCalls := w.stockCalls ++ [.undo branchId items] })
  | .cache c, e, w =>
    if e.fail then some (.error .failed, w)
    else some (.ok (c.run w.cache e).1, { w with cache := (c.run w.cache e).2 })

/-- The server rolls back what a dead process left open. -/
def machine : Machine Pid Op Op.Res Err World Env Ext where
  exec := exec
  crash p w := { w with store := w.store.rollback p }
  ext
    | .tick d, w => { w with clock := w.clock + d }
    | .drop key, w => { w with cache := w.cache.set key none }

def sql (c : Conn) (q : Sql) : Svc q.Res := Prog.perform (Op.sql c q)

def now : Svc Time := Prog.perform Op.now

def cache (c : CacheCmd) : Svc c.Res := Prog.perform (Op.cache c)

def emit (room : Room) (event : SocketEvent) (orderId : String) : Svc Unit :=
  Prog.perform (Op.emit ⟨room, event, orderId⟩)

def startTransaction : Svc Unit := Prog.perform Op.start

def commit : Svc Unit := Prog.perform Op.commit

def rollback : Svc Unit := Prog.perform Op.rollback

def getBranch (branchId : Nat) : Svc Branch := Prog.perform (Op.getBranch branchId)

/-- `throw new AppError(message, statusCode)`. -/
def throwApp {α : Type} (message : String) (statusCode : Nat) : Svc α :=
  .throw (.app ⟨message, statusCode⟩)

/-- `if (cond) { body }`. -/
def onlyIf (cond : Prop) [Decidable cond] (body : Svc Unit) : Svc Unit :=
  if cond then body else .pure ()

/-- `toEntity(row)` of the first returned row: without a row its first property access throws. -/
def toEntity {α : Type} : Option α → Svc α
  | some row => .pure row
  | none => .throw .typeError

end OrderService
