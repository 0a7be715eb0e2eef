import OrderService.Calls
import OrderService.Services.Reads

/-! `withCache` on the list of a branch's orders: the answers that Redis keeps under their URL, and
the key that a change of an order deletes. -/
namespace OrderService
open Interleaving

section Keys

/-- A key of the form `${region}:GET:${url}`. -/
structure UrlKey where
  region : String
  url : String
  deriving DecidableEq

def UrlKey.text (key : UrlKey) : String := key.region ++ ":GET:" ++ key.url

/-- The key that `withCache` makes of a request that `requireRegion` let through. -/
def withCacheKey (v : Visit) (originalUrl : String) : UrlKey := ⟨v.region.getD "", originalUrl⟩

/-- `RESTAURANT_ORDERS_CACHE_PREFIX`. -/
def restaurantOrdersCachePrefix (region : String) (branchId : Nat) : UrlKey :=
  ⟨region, "/api/restaurant/orders?branchId=" ++ toString branchId⟩

/-- The key that an operation deletes. -/
def deletedKey : Op → Option UrlKey
  | .cache (.del (.restaurantOrders region branchId)) =>
    some (restaurantOrdersCachePrefix region branchId)
  | _ => none

def sameSegment (segment : List Char) (name : String) : Bool :=
  (String.ofList segment).toLower = name

/-- `restaurantId` and `branchId` in a URL that comes to the list of a branch's orders: the path
may be written in capitals and end in a slash, any query may follow. -/
def orderListParams (originalUrl : String) : Option (String × String) :=
  match (originalUrl.toList.takeWhile (· ≠ '?')).splitOn '/' with
  | [] :: api :: restaurants :: restaurantId :: branches :: branchId :: orders :: rest =>
    if sameSegment api "api" ∧ sameSegment restaurants "restaurants" ∧ restaurantId ≠ [] ∧
        sameSegment branches "branches" ∧ branchId ≠ [] ∧ sameSegment orders "orders" ∧
        (rest = [] ∨ rest = [[]]) then
      some (.ofList restaurantId, .ofList branchId)
    else none
  | _ => none

end Keys

section Entries

/-- An answer in Redis. `serial` is a ghost: how many were stored before it. -/
structure ListEntry where
  body : OrdersBody
  expiry : Time
  serial : Nat

structure OrderLists where
  entry : UrlKey → Option ListEntry := fun _ => none
  stores : Nat := 0
  numbered : ∀ key e, entry key = some e → e.serial < stores := by intro _ _ h; cases h

def OrderLists.set (lists : OrderLists) (key : UrlKey) (body : OrdersBody) (expiry : Time) :
    OrderLists where
  entry := Function.update lists.entry key (some ⟨body, expiry, lists.stores⟩)
  stores := lists.stores + 1
  numbered := by
    intro key' e he
    by_cases hkey : key' = key
    · rw [hkey, Function.update_self] at he
      cases he
      exact Nat.lt_succ_self _
    · rw [Function.update_of_ne hkey] at he
      exact Nat.lt_succ_of_lt (lists.numbered key' e he)

def OrderLists.del (lists : OrderLists) (key : UrlKey) : OrderLists where
  entry := Function.update lists.entry key none
  stores := lists.stores
  numbered := by
    intro key' e he
    by_cases hkey : key' = key
    · rw [hkey, Function.update_self] at he
      cases he
    · rw [Function.update_of_ne hkey] at he
      exact lists.numbered key' e he

end Entries

section Machine

/-- The world of the services and, in the same Redis, the lists. -/
structure ListWorld where
  world : World
  lists : OrderLists := {}

/-- What Redis gives for the key: an entry whose time is over is gone. -/
def ListWorld.lookup (w : ListWorld) (key : UrlKey) : Option ListEntry :=
  (w.lists.entry key).filter fun e => w.world.clock < e.expiry

inductive ListOp where
  | svc (o : Op)
  | get (key : UrlKey)
  | find (branchId : JsNumber) (query : ListQuery)
  | set (key : UrlKey) (body : OrdersBody) (ttlSeconds : Nat)

abbrev ListOp.Res : ListOp → Type
  | .svc o => o.Res
  | .get _ => Option OrdersBody
  | .find .. => OrdersBody
  | .set .. => Unit

/-- The lists after an operation of a service that did not fail. -/
def OrderLists.afterOp (lists : OrderLists) (o : Op) (e : Env) : OrderLists :=
  match deletedKey o with
  | none => lists
  | some key => if e.fail then lists else lists.del key

variable (order : RowOrder OrderEntity OrderEntity.createdAt)

def execList (p : Pid) : (o : ListOp) → Env → ListWorld →
    Option (Except Err o.Res × ListWorld)
  | .svc o, e, w => (exec p o e w.world).map fun a => (a.1, ⟨a.2, w.lists.afterOp o e⟩)
  | .get key, e, w =>
    some (if e.fail then .error .failed else .ok ((w.lookup key).map ListEntry.body), w)
  | .find branchId query, e, w =>
    some (if e.fail then .error .failed
      else listRestaurantOrders order branchId query w.world.store.db, w)
  | .set key body ttlSeconds, e, w =>
    if e.fail then some (.error .failed, w)
    else some (.ok (), { w with lists := w.lists.set key body (w.world.clock + ttlSeconds * 1000) })

def listMachine : Machine Pid ListOp ListOp.Res Err ListWorld Env Ext where
  exec := execList order
  crash p w := { w with world := machine.crash p w.world }
  ext x w := { w with world := machine.ext x w.world }

abbrev ListSvc (α : Type) : Type := Prog ListOp ListOp.Res Err α

/-- A service as a program beside the lists. -/
def besideLists {α : Type} : Svc α → ListSvc α
  | .pure a => .pure a
  | .throw err => .throw err
  | .op o k => .op (.svc o) fun r => besideLists (k r)

end Machine

section Programs

/-- `withCache(ttl)` around a handler. A failed answer is not kept, and a failed `set` is passed
over. -/
def withCache (key : UrlKey) (ttlSeconds : Nat) (handler : ListSvc OrdersBody) :
    ListSvc OrdersBody := do
  let cached ← Prog.perform (ListOp.get key)
  match cached with
  | some body => pure body
  | none => do
    let body ← handler
    tryCatch (Prog.perform (ListOp.set key body ttlSeconds)) fun _ => pure ()
    pure body

-- what Express and the query parser read in a URL
variable (parseUrl : String → BranchOrdersRequest)

/-- `GET /restaurants/:restaurantId/branches/:branchId/orders` with its guards. -/
def serveOrderList (v : Visit) (originalUrl : String) : ListSvc (Guarded OrdersBody) :=
  match (parseUrl originalUrl).route.serve v with
  | .error refusal => pure (.error refusal)
  | .ok _ => do
    let body ← withCache (withCacheKey v originalUrl) 60
      (Prog.perform (ListOp.find (parseUrl originalUrl).branchId (parseUrl originalUrl).query))
    pure (.ok body)

/-- A request for a list, or any other call. -/
inductive ListCall where
  | call (c : Call)
  | list (v : Visit) (originalUrl : String)

inductive ListReply where
  | reply (r : Reply)
  | listed (answer : Guarded OrdersBody)

variable (hmacSha256 : String → String → String) (cfg : Config)

def ListCall.prog : ListCall → ListSvc ListReply
  | .call c => besideLists (c.prog hmacSha256 cfg) >>= fun r => pure (.reply r)
  | .list v originalUrl => serveOrderList parseUrl v originalUrl >>= fun answer =>
    pure (.listed answer)

def listing (calls : Pid → Option ListCall) (w : ListWorld) :
    Sys Pid ListOp ListOp.Res Err ListWorld ListReply :=
  ⟨w, fun p => (calls p).map (ListCall.prog parseUrl hmacSha256 cfg)⟩

end Programs

section Facts

theorem takeWhile_before {c : Char} {before after : List Char} (h : c ∉ before) :
    (before ++ c :: after).takeWhile (· ≠ c) = before := by
  have hall : ∀ d ∈ before, decide (d ≠ c) = true := by
    intro d hd
    rw [decide_eq_true_iff]
    intro hdc
    exact h (hdc ▸ hd)
  rw [List.takeWhile_append_of_pos hall, List.takeWhile_cons_of_neg (by simp), List.append_nil]

/-- Where no region has a colon in its name, different keys are different texts. -/
theorem UrlKey.text_injective {key key' : UrlKey} (hkey : ':' ∉ key.region.toList)
    (hkey' : ':' ∉ key'.region.toList) (h : key.text = key'.text) : key = key' := by
  have hlist : key.region.toList ++ ':' :: ("GET:".toList ++ key.url.toList)
      = key'.region.toList ++ ':' :: ("GET:".toList ++ key'.url.toList) := by
    have htext := congrArg String.toList h
    simpa [UrlKey.text, String.toList_append] using htext
  have hregion : key.region.toList = key'.region.toList := by
    have hbefore := congrArg (List.takeWhile (· ≠ ':')) hlist
    rwa [takeWhile_before hkey, takeWhile_before hkey'] at hbefore
  rw [hregion] at hlist
  have htail := List.cons.inj (List.append_cancel_left hlist)
  have hurl : key.url.toList = key'.url.toList := List.append_cancel_left htail.2
  cases key
  cases key'
  rw [UrlKey.mk.injEq]
  exact ⟨String.ext hregion, String.ext hurl⟩

/-- No list of a branch's orders has the URL in the key that a change of an order deletes. -/
theorem orderListParams_deleted (branchId : Nat) (region : String) :
    orderListParams (restaurantOrdersCachePrefix region branchId).url = none := by
  have hurl : (restaurantOrdersCachePrefix region branchId).url.toList
      = "/api/restaurant/orders".toList ++ '?' :: ("branchId=" ++ toString branchId).toList := by
    simp [restaurantOrdersCachePrefix, String.toList_append]
  unfold orderListParams
  rw [hurl, takeWhile_before (by decide)]
  rfl

example : orderListParams "/API/restaurants/1/Branches/2/orders/?status=placed" = some ("1", "2") := by
  decide +kernel

end Facts

end OrderService
