import OrderService.Services.Pagination
import OrderService.TenantReads

/-! A list of orders is read page by page: when the pages give all of it. -/
namespace OrderService

section Runs
variable {α : Type} (fetch : Nat → Option String → Except Err (List α × PaginationMeta))

/-- The requests that pass each cursor back until there is none, with the rows they show. -/
inductive Visits : Nat → Option String → List α → Prop
  | last {k : Nat} {cursor : Option String} {rows : List α} {pageInfo : PaginationMeta}
      (answer : fetch k cursor = .ok (rows, pageInfo)) (stop : pageInfo.nextCursor = none) :
      Visits k cursor rows
  | next {k : Nat} {cursor : Option String} {rows rest : List α} {pageInfo : PaginationMeta}
      {nextCursor : String} (answer : fetch k cursor = .ok (rows, pageInfo))
      (go : pageInfo.nextCursor = some nextCursor) (visits : Visits (k + 1) (some nextCursor) rest) :
      Visits k cursor (rows ++ rest)

/-- The requests that are made on the way. -/
inductive Asked : Nat → Option String → Prop
  | first : Asked 0 none
  | next {k : Nat} {cursor : Option String} {rows : List α} {pageInfo : PaginationMeta}
      {nextCursor : String} (asked : Asked k cursor) (answer : fetch k cursor = .ok (rows, pageInfo))
      (go : pageInfo.nextCursor = some nextCursor) : Asked (k + 1) (some nextCursor)

/-- The pages show exactly the matching rows, each once and in order, and a page that has more
after it says where. -/
structure Enumerates (matching : List α) (le : α → α → Prop) : Prop where
  visits : ∃ visited, Visits fetch 0 none visited ∧ visited.Perm matching ∧ visited.Pairwise le
  cursors : ∀ k cursor rows pageInfo, Asked fetch k cursor →
    fetch k cursor = .ok (rows, pageInfo) → pageInfo.hasMore = true → pageInfo.nextCursor ≠ none

variable {fetch} {matching : List α} {le : α → α → Prop} {rows : List α}
  {pageInfo : PaginationMeta}

/-- Without a cursor on the first page no second one is asked for. -/
theorem asked_first {k : Nat} {cursor : Option String}
    (answer : fetch 0 none = .ok (rows, pageInfo)) (stop : pageInfo.nextCursor = none)
    (hasked : Asked fetch k cursor) : k = 0 ∧ cursor = none := by
  induction hasked with
  | first => exact ⟨rfl, rfl⟩
  | next asked earlier go ih =>
    obtain ⟨hk, hcursor⟩ := ih
    rw [hk, hcursor, answer] at earlier
    cases earlier
    rw [stop] at go
    cases go

/-- One page with all of them is an enumeration. -/
theorem enumerates_of_one_page (answer : fetch 0 none = .ok (rows, pageInfo))
    (stop : pageInfo.nextCursor = none) (hmore : pageInfo.hasMore = false)
    (hrows : rows.Perm matching) (hsorted : rows.Pairwise le) : Enumerates fetch matching le := by
  refine ⟨⟨rows, .last answer stop, hrows, hsorted⟩, ?_⟩
  intro k cursor rows' pageInfo' hasked hanswer hmore'
  obtain ⟨hk, hcursor⟩ := asked_first answer stop hasked
  rw [hk, hcursor, answer] at hanswer
  cases hanswer
  rw [hmore] at hmore'
  cases hmore'

/-- Where a page has more and the request with its cursor fails, nothing enumerates. -/
theorem not_enumerates_of_failure {text : String} {err : Err}
    (answer : fetch 0 none = .ok (rows, pageInfo)) (hmore : pageInfo.hasMore = true)
    (hcursor : ∀ nextCursor, pageInfo.nextCursor = some nextCursor → nextCursor = text)
    (hfails : fetch 1 (some text) = .error err) : ¬Enumerates fetch matching le := by
  intro h
  cases hnext : pageInfo.nextCursor with
  | none => exact h.cursors 0 none rows pageInfo .first answer hmore hnext
  | some nextCursor =>
    have htext : nextCursor = text := hcursor nextCursor hnext
    obtain ⟨visited, hvisits, -⟩ := h.visits
    cases hvisits with
    | last answer' stop =>
      rw [answer] at answer'
      cases answer'
      rw [hnext] at stop
      cases stop
    | next answer' go visits =>
      rw [answer] at answer'
      cases answer'
      rw [hnext] at go
      cases go
      rw [htext] at visits
      cases visits with
      | last second => rw [hfails] at second; cases second
      | next second => rw [hfails] at second; cases second

end Runs

section Pages
variable {timestamptz : String → Option Time} {columnText : OrderEntity → String → String}
  {order : RowOrder OrderEntity OrderEntity.createdAt} {rows : List OrderEntity}
  {query : PaginationQuery}

/-- The cursor that every page gives is refused by the database. -/
theorem page_undefined (hundefined : timestamptz "undefined" = none) :
    Pagination.page timestamptz columnText order rows
      (parsePaginationQuery { query with cursor := some "undefined" } ["createdAt"])
      = .error .failed := by
  have hcursor : Pagination.cursorTime timestamptz (some "undefined") = .error .failed := by
    unfold Pagination.cursorTime
    simp only [if_neg (by decide : ("undefined" : String) ≠ ""), hundefined]
  unfold Pagination.page Pagination.applyCursorPagination
  have hparsed : (parsePaginationQuery { query with cursor := some "undefined" }
      ["createdAt"]).cursor = some "undefined" := rfl
  rw [hparsed, hcursor]

/-- The first page: as many of the sorted rows as the limit allows. -/
theorem page_first :
    let params := parsePaginationQuery { query with cursor := none } ["createdAt"]
    let limit := params.limit.floor.toNat
    Pagination.page timestamptz columnText order rows params
      = .ok (buildPaginationResult ((order.arrange params.sortOrder rows).take (limit + 1))
          limit) := by
  intro params limit
  have hpos : 0 < params.limit := paginationLimit_pos query.limit
  have hall : rows.filter (Pagination.after params.sortOrder none) = rows :=
    List.filter_eq_self.mpr fun _ _ => by cases params.sortOrder <;> rfl
  have hsortBy : params.sortBy = "createdAt" := sortBy_createdAt _
  have hcursor : Pagination.cursorTime timestamptz params.cursor = .ok none := rfl
  unfold Pagination.page Pagination.applyCursorPagination
  simp only [hcursor, hall, hsortBy, limit_succ hpos, buildPaginationResult_eq hpos]
  rfl

theorem nextCursor_undefined {α : Type} {rows : List α} {limit : Nat} {nextCursor : String}
    (hnext : (buildPaginationResult rows limit).2.nextCursor = some nextCursor) :
    nextCursor = "undefined" := by
  unfold buildPaginationResult at hnext
  dsimp only at hnext
  split at hnext
  · exact (Option.some.inj hnext).symm
  · cases hnext

end Pages

section Enumeration

/-- The pages of a list; the database may arrange rows of one moment anew for each. -/
def OrderListing.pages (listing : OrderListing) (timestamptz : String → Option Time)
    (columnText : OrderEntity → String → String)
    (orders : Nat → RowOrder OrderEntity OrderEntity.createdAt) (query : PaginationQuery) (db : Db)
    (k : Nat) (cursor : Option String) : Except Err (List OrderEntity × PaginationMeta) :=
  listing.find timestamptz columnText (orders k)
    (parsePaginationQuery { query with cursor } ["createdAt"]) db

def PaginationQuery.before (query : PaginationQuery) (a b : OrderEntity) : Prop :=
  (parsePaginationQuery query ["createdAt"]).sortOrder.le a.createdAt b.createdAt

/-- The number of rows that a page may have. -/
def PaginationQuery.pageSize (query : PaginationQuery) : Nat :=
  (parsePaginationQuery query ["createdAt"]).limit.floor.toNat

variable (timestamptz : String → Option Time) (columnText : OrderEntity → String → String)
  (orders : Nat → RowOrder OrderEntity OrderEntity.createdAt) (listing : OrderListing)
  (query : PaginationQuery) (db : Db)

theorem pages_first :
    listing.pages timestamptz columnText orders query db 0 none
      = .ok (buildPaginationResult (((orders 0).arrange
          (parsePaginationQuery query ["createdAt"]).sortOrder (listing.matching db)).take
            (query.pageSize + 1)) query.pageSize) := by
  unfold OrderListing.pages
  rw [OrderListing.find_eq]
  exact page_first

theorem pages_undefined (hundefined : timestamptz "undefined" = none) (k : Nat) :
    listing.pages timestamptz columnText orders query db k (some "undefined")
      = .error .failed := by
  unfold OrderListing.pages
  rw [OrderListing.find_eq]
  exact page_undefined hundefined

/-- A list of orders is enumerated by its pages exactly if it fits in the first one: the cursor of
a page is the text "undefined", which the database does not read as a moment. -/
theorem cursor_pagination (hundefined : timestamptz "undefined" = none) :
    Enumerates (listing.pages timestamptz columnText orders query db) (listing.matching db)
        query.before
      ↔ (listing.matching db).length ≤ query.pageSize := by
  have hfirst := pages_first timestamptz columnText orders listing query db
  have hsecond := pages_undefined timestamptz columnText orders listing query db hundefined 1
  have hsize : ((orders 0).arrange (parsePaginationQuery query ["createdAt"]).sortOrder
      (listing.matching db)).length = (listing.matching db).length :=
    ((orders 0).perm _ _).length_eq
  generalize hsorted : (orders 0).arrange (parsePaginationQuery query ["createdAt"]).sortOrder
    (listing.matching db) = sorted at hfirst hsize
  constructor
  · intro henumerates
    by_contra hlong
    -- the first page is cut, and what follows it cannot be asked for
    have hmore : query.pageSize < (sorted.take (query.pageSize + 1)).length := by
      rw [List.length_take]
      omega
    refine not_enumerates_of_failure hfirst ?_ ?_ hsecond henumerates
    · exact decide_eq_true hmore
    · intro nextCursor hnext
      exact nextCursor_undefined hnext
  · intro hshort
    have hall : sorted.take (query.pageSize + 1) = sorted :=
      List.take_of_length_le (by omega)
    have hnone : ¬query.pageSize < sorted.length := by omega
    rw [hall] at hfirst
    have hrows : sorted.take query.pageSize = sorted := List.take_of_length_le (by omega)
    have hperm : sorted.Perm (listing.matching db) := hsorted ▸ (orders 0).perm _ _
    have hinorder : sorted.Pairwise query.before := hsorted ▸ (orders 0).sorted _ _
    refine enumerates_of_one_page hfirst ?_ ?_ ?_ ?_
    · exact if_neg fun h => hnone h.2
    · exact decide_eq_false hnone
    · show (sorted.take query.pageSize).Perm (listing.matching db)
      rw [hrows]
      exact hperm
    · show (sorted.take query.pageSize).Pairwise query.before
      rw [hrows]
      exact hinorder

def olderOrder : OrderEntity := { OrderEntity.sample "order-1" .placed with createdAt := 1000 }

def newerOrder : OrderEntity :=
  { OrderEntity.sample "order-2" .placed with id := 2, createdAt := 2000 }

def listOfTwo : Db := { orders := [newerOrder, olderOrder] }

/-- The texts of the two moments, as the database reads them. -/
def readMoment (text : String) : Option Time :=
  if text = "1970-01-01T00:00:01Z" then some 1000
  else if text = "1970-01-01T00:00:02Z" then some 2000 else none

/-- Both orders are on the default page. -/
theorem cursor_pagination_one_page :
    Enumerates ((OrderListing.byCustomer 3 0 31536000000).pages readMoment (fun _ _ => "")
        (fun _ => foreignFirst 1) {} listOfTwo)
      ((OrderListing.byCustomer 3 0 31536000000).matching listOfTwo) (PaginationQuery.before {}) :=
  (cursor_pagination readMoment (fun _ _ => "") (fun _ => foreignFirst 1)
    (.byCustomer 3 0 31536000000) {} listOfTwo (by decide)).mpr (by decide +kernel)

theorem listOfTwo_arranged : (foreignFirst 1).arrange .desc listOfTwo.orders = listOfTwo.orders :=
  List.mergeSort_of_pairwise (by decide)

/-- With one order to a page, the request for the second page is refused. -/
theorem second_page_refused :
    let fetch := (OrderListing.byCustomer 3 0 31536000000).pages readMoment (fun _ _ => "")
      (fun _ => foreignFirst 1) { limit := .finite 1 } listOfTwo
    fetch 0 none = .ok ([newerOrder], ⟨some "undefined", true, 1⟩) ∧
      fetch 1 (some "undefined") = .error .failed ∧
      ¬Enumerates fetch ((OrderListing.byCustomer 3 0 31536000000).matching listOfTwo)
        (PaginationQuery.before { limit := .finite 1 }) := by
  intro fetch
  have hsize : PaginationQuery.pageSize { limit := .finite 1 } = 1 := by decide +kernel
  have hmatching : (OrderListing.byCustomer 3 0 31536000000).matching listOfTwo
      = listOfTwo.orders := by
    decide +kernel
  have hfirst : fetch 0 none = .ok ([newerOrder], ⟨some "undefined", true, 1⟩) := by
    have hpage := pages_first readMoment (fun _ _ => "") (fun _ => foreignFirst 1)
      (.byCustomer 3 0 31536000000) { limit := .finite 1 } listOfTwo
    rw [hsize, hmatching, show (parsePaginationQuery { limit := .finite 1 }
      ["createdAt"]).sortOrder = .desc from rfl, listOfTwo_arranged] at hpage
    exact hpage
  have hsecond : fetch 1 (some "undefined") = .error .failed :=
    pages_undefined _ _ _ _ _ _ (by decide) 1
  refine ⟨hfirst, hsecond, ?_⟩
  refine not_enumerates_of_failure hfirst rfl ?_ hsecond
  intro nextCursor hnext
  exact (Option.some.inj hnext).symm

end Enumeration

end OrderService
