import OrderService.Services.Reads

/-! The pages of a list of orders: the cursor that one page gives and the next one compares. -/
namespace OrderService

section Query

/-- The parameters of a page as the URL has them, with `limit` as `Number` gives it. -/
structure PaginationQuery where
  limit : JsNumber := .nan
  cursor : Option String := none
  sortBy : Option String := none
  sortOrder : Option String := none

structure PaginationParams where
  cursor : Option String
  limit : Rat
  sortBy : String
  sortOrder : SortOrder

def paginationLimit : JsNumber → Rat
  | .finite q => if 0 < q then min 100 q else 20
  | _ => 20

def parsePaginationQuery (query : PaginationQuery) (allowedSortBy : List String) :
    PaginationParams where
  cursor := query.cursor
  limit := paginationLimit query.limit
  sortBy := (query.sortBy.filter (· ∈ allowedSortBy)).getD "createdAt"
  sortOrder := if query.sortOrder = some "asc" then .asc else .desc

def camelToSnake (str : String) : String :=
  .ofList (str.toList.flatMap fun letter =>
    if letter.isUpper then ['_', letter.toLower] else [letter])

def orderColumns : List String :=
  ["id", "region", "public_id", "country_code", "restaurant_id", "restaurant_owner_id", "branch_id",
    "customer_id", "customer_address_id", "delivery_lat", "delivery_lng",
    "delivery_address_text_snapshot", "branch_lat", "branch_lng", "status", "subtotal",
    "delivery_fee", "service_fee", "total", "commission", "currency", "payment_method",
    "delivery_agent_id", "created_at", "updated_at", "accepted_at", "rejected_at", "ready_at",
    "assigned_at", "picked_at", "delivered_at", "cancelled_at"]

end Query

namespace Pagination

section Pages
variable (timestamptz : String → Option Time) (columnText : OrderEntity → String → String)
  (order : RowOrder OrderEntity OrderEntity.createdAt)

/-- The moment that the database reads in the cursor; a text that is none fails the statement. -/
def cursorTime (cursor : Option String) : Except Err (Option Time) :=
  match cursor with
  | none => .ok none
  | some text =>
    if text = "" then .ok none
    else match timestamptz text with
      | none => .error .failed
      | some time => .ok (some time)

def after (sortOrder : SortOrder) (cursor : Option Time) (o : OrderEntity) : Bool :=
  match cursor, sortOrder with
  | none, _ => true
  | some cursor, .asc => cursor < o.createdAt
  | some cursor, .desc => o.createdAt < cursor

/-- Both lists allow one `sortBy`, whose column is `created_at`. Knex cuts the limit. -/
def applyCursorPagination (rows : List OrderEntity) (params : PaginationParams) :
    Except Err (List OrderEntity) :=
  match cursorTime timestamptz params.cursor with
  | .error err => .error err
  | .ok cursor =>
    .ok ((order.arrange params.sortOrder (rows.filter (after params.sortOrder cursor))).take
      (params.limit + 1).floor.toNat)

/-- `String(row[field])` for a row under its column names. -/
def rowText (row : OrderEntity) (field : String) : String :=
  if field ∈ orderColumns then columnText row field else "undefined"

def buildPaginationResult {α : Type} (text : α → String → String) (rows : List α) (limit : Rat)
    (sortBy : String) : List α × PaginationMeta :=
  let hasMore : Bool := limit < rows.length
  let data := if hasMore then rows.take limit.floor.toNat else rows
  let nextCursor := data.getLast?.bind fun lastItem =>
    if hasMore then some (text lastItem sortBy) else none
  (data, ⟨nextCursor, hasMore, data.length⟩)

def page (rows : List OrderEntity) (pagination : PaginationParams) :
    Except Err (List OrderEntity × PaginationMeta) :=
  match applyCursorPagination timestamptz order rows pagination with
  | .error err => .error err
  | .ok rows =>
    .ok (buildPaginationResult (rowText columnText) rows pagination.limit pagination.sortBy)

def findOrdersByCustomer (customerId : Nat) (start stop : Time) (pagination : PaginationParams)
    (db : Db) : Except Err (List OrderEntity × PaginationMeta) :=
  page timestamptz columnText order
    (db.orders.filter fun o => o.customerId = customerId && start ≤ o.createdAt &&
      o.createdAt < stop) pagination

/-- `filter` stands for what `applyFilters` adds. -/
def findOrdersByBranch (branchId : Nat) (pagination : PaginationParams) (status : Option String)
    (createdFrom createdTo : Option Time) (filter : OrderEntity → Bool) (db : Db) :
    Except Err (List OrderEntity × PaginationMeta) :=
  page timestamptz columnText order
    (db.orders.filter fun o => o.branchId = branchId &&
      status.all (fun s => s = "" || o.status.text = s) && createdFrom.all (· ≤ o.createdAt) &&
      createdTo.all (o.createdAt < ·) && filter o) pagination

end Pages

end Pagination

section Listings

/-- A list of orders, with what its statement asks of a row. -/
inductive OrderListing where
  | byCustomer (customerId : Nat) (start stop : Time)
  | byBranch (branchId : Nat) (status : Option String) (createdFrom createdTo : Option Time)
      (filter : OrderEntity → Bool)

def OrderListing.admits : OrderListing → OrderEntity → Bool
  | .byCustomer customerId start stop, o =>
    o.customerId = customerId && start ≤ o.createdAt && o.createdAt < stop
  | .byBranch branchId status createdFrom createdTo filter, o =>
    o.branchId = branchId && status.all (fun s => s = "" || o.status.text = s) &&
      createdFrom.all (· ≤ o.createdAt) && createdTo.all (o.createdAt < ·) && filter o

def OrderListing.matching (listing : OrderListing) (db : Db) : List OrderEntity :=
  db.orders.filter listing.admits

/-- The function of the repository behind the list. -/
def OrderListing.find (listing : OrderListing) (timestamptz : String → Option Time)
    (columnText : OrderEntity → String → String)
    (order : RowOrder OrderEntity OrderEntity.createdAt) (pagination : PaginationParams) (db : Db) :
    Except Err (List OrderEntity × PaginationMeta) :=
  match listing with
  | .byCustomer customerId start stop =>
    Pagination.findOrdersByCustomer timestamptz columnText order customerId start stop pagination db
  | .byBranch branchId status createdFrom createdTo filter =>
    Pagination.findOrdersByBranch timestamptz columnText order branchId pagination status
      createdFrom createdTo filter db

end Listings

section Facts

theorem sortBy_createdAt (query : PaginationQuery) :
    (parsePaginationQuery query ["createdAt"]).sortBy = "createdAt" := by
  unfold parsePaginationQuery
  cases query.sortBy with
  | none => rfl
  | some s =>
    by_cases hs : s = "createdAt"
    · rw [hs]
      rfl
    · simp [Option.filter, hs]

example : camelToSnake "createdAt" = "created_at" := by decide

/-- No column of the table has the name that the cursor is read under. -/
theorem createdAt_unnamed : "createdAt" ∉ orderColumns := by decide

theorem paginationLimit_pos (limit : JsNumber) : 0 < paginationLimit limit := by
  have hdefault : (0 : Rat) < 20 := by decide +kernel
  have hmost : (0 : Rat) < 100 := by decide +kernel
  unfold paginationLimit
  cases limit with
  | nan => exact hdefault
  | infinity negative => exact hdefault
  | finite q =>
    by_cases hq : 0 < q
    · simp only [if_pos hq]
      exact lt_min hmost hq
    · simp only [if_neg hq]
      exact hdefault

theorem parseLimit_eq (limit : JsNumber) :
    parseLimit limit = (paginationLimit limit).floor.toNat := by
  have hdefault : (20 : Nat) = (20 : Rat).floor.toNat := by decide +kernel
  unfold parseLimit paginationLimit
  cases limit with
  | nan => exact hdefault
  | infinity negative => exact hdefault
  | finite q =>
    by_cases hq : 0 < q
    · simp only [if_pos hq]
    · simp only [if_neg hq]
      exact hdefault

variable {limit : Rat}

theorem limit_floor_nonneg (hpos : 0 < limit) : 0 ≤ limit.floor := by
  rw [Rat.le_floor_iff]
  exact hpos.le

/-- A number of rows is above the limit as it is above the limit cut to a whole number. -/
theorem limit_lt_iff (hpos : 0 < limit) (n : Nat) : limit < n ↔ limit.floor.toNat < n := by
  have hfloor : 0 ≤ limit.floor := limit_floor_nonneg hpos
  have hlt : limit.floor < (n : Int) ↔ limit < n := Rat.floor_lt_iff
  rw [← hlt]
  omega

theorem limit_succ (hpos : 0 < limit) : (limit + 1).floor.toNat = limit.floor.toNat + 1 := by
  have hfloor : 0 ≤ limit.floor := limit_floor_nonneg hpos
  have hadd : (limit + 1).floor = limit.floor + 1 := Rat.floor_add_one
  omega

theorem OrderListing.find_eq (listing : OrderListing) (timestamptz : String → Option Time)
    (columnText : OrderEntity → String → String)
    (order : RowOrder OrderEntity OrderEntity.createdAt) (pagination : PaginationParams) (db : Db) :
    listing.find timestamptz columnText order pagination db =
      Pagination.page timestamptz columnText order (listing.matching db) pagination := by
  cases listing <;> rfl

end Facts

section Built
variable {columnText : OrderEntity → String → String} {rows : List OrderEntity} {limit : Rat}

theorem rowText_createdAt (row : OrderEntity) :
    Pagination.rowText columnText row "createdAt" = "undefined" := if_neg createdAt_unnamed

/-- The two readings of the function agree: as one with the limit of the URL, as the other with
the limit cut to a number of rows. -/
theorem buildPaginationResult_eq (hpos : 0 < limit) :
    Pagination.buildPaginationResult (Pagination.rowText columnText) rows limit "createdAt"
      = buildPaginationResult rows limit.floor.toNat := by
  have hcut := limit_lt_iff hpos rows.length
  unfold Pagination.buildPaginationResult buildPaginationResult
  by_cases hmore : limit < rows.length
  · have hnat : limit.floor.toNat < rows.length := hcut.mp hmore
    cases hlast : (rows.take limit.floor.toNat).getLast? with
    | none =>
      have hnil : rows.take limit.floor.toNat = [] := List.getLast?_eq_none_iff.mp hlast
      simp [hmore, hnat, hnil]
    | some lastItem =>
      have hne : rows.take limit.floor.toNat ≠ [] := by
        intro hnil
        rw [hnil] at hlast
        cases hlast
      simp [hmore, hnat, hlast, hne, rowText_createdAt]
  · have hnat : ¬limit.floor.toNat < rows.length := fun h => hmore (hcut.mpr h)
    have hwhole : rows.take limit.floor.toNat = rows := List.take_of_length_le (by omega)
    have hcursor : (rows.getLast?.bind fun _ => (none : Option String)) = none := by
      cases rows.getLast? <;> rfl
    simp [hmore, hnat, hwhole, hcursor]

/-- The list of a branch, with the cursor as the database reads it. -/
theorem findOrdersByBranch_eq (timestamptz : String → Option Time)
    (order : RowOrder OrderEntity OrderEntity.createdAt) (branchId : Nat) (q : ListQuery)
    (cursor : Option String) (hcursor : Pagination.cursorTime timestamptz cursor = .ok q.cursor)
    (db : Db) :
    Pagination.findOrdersByBranch timestamptz columnText order branchId
        ⟨cursor, paginationLimit q.limit, "createdAt", q.sortOrder⟩ q.status q.createdFrom
        q.createdTo (fun _ => true) db
      = findOrdersByBranch order (.ofNat branchId) q db := by
  have hpos := paginationLimit_pos q.limit
  have hinteger : (JsNumber.ofNat branchId).integer? = some (branchId : Int) := rfl
  unfold Pagination.findOrdersByBranch Pagination.page Pagination.applyCursorPagination
    findOrdersByBranch
  simp only [hcursor, hinteger, buildPaginationResult_eq hpos, limit_succ hpos, parseLimit_eq,
    List.filter_filter]
  congr 5
  funext o
  have hid : decide ((o.branchId : Int) = branchId) = decide (o.branchId = branchId) :=
    decide_eq_decide.mpr Int.ofNat_inj
  have hafter : Pagination.after q.sortOrder q.cursor o = q.afterCursor o := rfl
  simp only [ListQuery.admits, hid, hafter, Bool.and_true]
  cases q.afterCursor o <;> simp [Bool.and_assoc]

end Built

end OrderService
