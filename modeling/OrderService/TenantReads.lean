import OrderService.TenantWrites
import OrderService.Services.Reads

/-! The list of a branch's orders names a restaurant that no statement compares. -/
namespace OrderService
open ReadCommitted Interleaving

section Statement

/-- A body that the handler made for the same URL when the tables were at an earlier point. -/
def KeptFrom (request : BranchOrdersRequest) (db : Db) (body : OrdersBody) : Prop :=
  ∃ order earlier ws, engine.applyAll ws earlier = db ∧
    listRestaurantOrders order request.branchId request.query earlier = .ok body

/-- Whatever the other parameters are, in whatever order the database gives its rows, and whether
the cache or the handler answers: each order that is shown is of this restaurant. -/
def ShowsOnly (v : Visit) (restaurantId branchId queryBranchId : JsNumber) (own : Nat) (db : Db) :
    Prop :=
  ∀ (query : ListQuery) (order : RowOrder OrderEntity OrderEntity.createdAt)
    (cached : Option OrdersBody),
    (∀ body, cached = some body →
      KeptFrom ⟨restaurantId, branchId, queryBranchId, query⟩ db body) →
    ∀ body, getBranchOrders order v ⟨restaurantId, branchId, queryBranchId, query⟩ cached db
      = .ok body → ∀ o ∈ body.data, o.restaurantId = own

/-- Every order of the branch is of this restaurant. -/
def BranchOf (branchId : Int) (own : Nat) (db : Db) : Prop :=
  ∀ o ∈ db.orders, (o.branchId : Int) = branchId → o.restaurantId = own

end Statement

section Rows
variable {db : Db}

/-- An order stays in the tables, with its restaurant and its branch. -/
theorem order_stays (ws : List Write) {o : OrderEntity} (ho : o ∈ db.orders) :
    ∃ o' ∈ (engine.applyAll ws db).orders, o'.restaurantId = o.restaurantId ∧
      o'.branchId = o.branchId := by
  induction ws generalizing db o with
  | nil => exact ⟨o, ho, rfl, rfl⟩
  | cons x ws ih =>
    rw [applyAll_cons]
    have hstep : ∃ o' ∈ (engine.apply x db).orders, o'.restaurantId = o.restaurantId ∧
        o'.branchId = o.branchId := by
      cases x with
      | insertOrder row => exact ⟨o, List.mem_append_left _ ho, rfl, rfl⟩
      | setOrderStatus publicId status stamp now =>
        refine ⟨_, List.mem_map_of_mem ho, ?_⟩
        split
        · unfold OrderEntity.withStatus
          cases stamp with
          | none => exact ⟨rfl, rfl⟩
          | some column => cases column <;> exact ⟨rfl, rfl⟩
        · exact ⟨rfl, rfl⟩
      | assignOrder publicId agentId now =>
        refine ⟨_, List.mem_map_of_mem ho, ?_⟩
        split <;> exact ⟨rfl, rfl⟩
      | _ => exact ⟨o, ho, rfl, rfl⟩
    obtain ⟨o', ho', hrestaurant, hbranch⟩ := hstep
    obtain ⟨o'', ho'', hrestaurant', hbranch'⟩ := ih ho'
    exact ⟨o'', ho'', hrestaurant'.trans hrestaurant, hbranch'.trans hbranch⟩

/-- What is listed are rows of the branch. -/
theorem of_listed {order : RowOrder OrderEntity OrderEntity.createdAt} {branchId : JsNumber}
    {query : ListQuery} {body : OrdersBody}
    (h : listRestaurantOrders order branchId query db = .ok body) :
    ∃ id, branchId.integer? = some id ∧ ∀ s ∈ body.data, ∃ o ∈ db.orders,
      (o.branchId : Int) = id ∧ s.restaurantId = o.restaurantId := by
  unfold listRestaurantOrders findOrdersByBranch at h
  cases hid : branchId.integer? with
  | none =>
    rw [hid] at h
    cases h
  | some id =>
    rw [hid] at h
    refine ⟨id, rfl, fun s hs => ?_⟩
    rw [← Except.ok.inj h] at hs
    obtain ⟨o, ho, rfl⟩ := List.mem_map.mp hs
    -- A row of the page comes from the rows that were found.
    have hrow := List.mem_of_mem_take (List.mem_of_mem_take ho)
    have hfound := List.mem_filter.mp ((order.perm _ _).mem_iff.mp hrow)
    have hbranch : (o.branchId : Int) = id := by
      have hboth := hfound.2
      rw [Bool.and_eq_true, decide_eq_true_iff] at hboth
      exact hboth.1
    exact ⟨o, hfound.1, hbranch, rfl⟩

end Rows

section Exposure
variable {own : Nat} {db : Db}

theorem SortOrder.le_trans (s : SortOrder) {a b c : Nat} (hab : s.le a b) (hbc : s.le b c) :
    s.le a c := by
  cases s with
  | asc => exact Nat.le_trans hab hbc
  | desc => exact Nat.le_trans hbc hab

theorem SortOrder.le_total (s : SortOrder) (a b : Nat) : s.le a b ∨ s.le b a := by
  cases s with
  | asc => exact Nat.le_total a b
  | desc => exact Nat.le_total b a

instance (s : SortOrder) (a b : Nat) : Decidable (s.le a b) := by
  cases s with
  | asc => exact inferInstanceAs (Decidable (a ≤ b))
  | desc => exact inferInstanceAs (Decidable (b ≤ a))

/-- Of two rows with the same key, one of another restaurant comes first. -/
def foreignFirst (own : Nat) : RowOrder OrderEntity OrderEntity.createdAt where
  arrange s rows := (rows.filter (fun o => o.restaurantId ≠ own)
    ++ rows.filter fun o => !decide (o.restaurantId ≠ own)).mergeSort
      fun a b => s.le a.createdAt b.createdAt
  perm s rows := (List.mergeSort_perm _ _).trans (List.filter_append_perm _ rows)
  sorted s rows := by
    have htrans : ∀ a b c : OrderEntity, decide (s.le a.createdAt b.createdAt) = true →
        decide (s.le b.createdAt c.createdAt) = true →
        decide (s.le a.createdAt c.createdAt) = true := by
      intro a b c hab hbc
      rw [decide_eq_true_iff] at hab hbc ⊢
      exact s.le_trans hab hbc
    have htotal : ∀ a b : OrderEntity, (decide (s.le a.createdAt b.createdAt) ||
        decide (s.le b.createdAt a.createdAt)) = true := by
      intro a b
      rw [Bool.or_eq_true, decide_eq_true_iff, decide_eq_true_iff]
      exact s.le_total a.createdAt b.createdAt
    have hsorted := List.pairwise_mergeSort htrans htotal
      (rows.filter (fun o => o.restaurantId ≠ own)
        ++ rows.filter fun o => !decide (o.restaurantId ≠ own))
    exact hsorted.imp fun h => of_decide_eq_true h

/-- The query that asks for the rows of one moment. -/
def momentOf (o : OrderEntity) : ListQuery :=
  { createdFrom := some o.createdAt, createdTo := some (o.createdAt + 1) }

theorem momentOf_admits {o o' : OrderEntity} :
    (momentOf o).admits o' = true ↔ o'.createdAt = o.createdAt := by
  have hadmits : (momentOf o).admits o' = true ↔
      o.createdAt ≤ o'.createdAt ∧ o'.createdAt < o.createdAt + 1 := by
    simp [ListQuery.admits, momentOf, ListQuery.afterCursor]
  rw [hadmits]
  constructor
  · rintro ⟨hfrom, hto⟩
    exact Nat.le_antisymm (Nat.le_of_lt_succ hto) hfrom
  · intro heq
    rw [heq]
    exact ⟨Nat.le_refl _, Nat.lt_succ_self _⟩

/-- Among the rows of one moment a row of another restaurant can come first, and is shown. -/
theorem listed_of_foreign {branchId : JsNumber} {id : Int} (hid : branchId.integer? = some id)
    {o : OrderEntity} (ho : o ∈ db.orders) (hbranch : (o.branchId : Int) = id)
    (hforeign : o.restaurantId ≠ own) :
    ∃ body, listRestaurantOrders (foreignFirst own) branchId (momentOf o) db = .ok body ∧
      ∃ s ∈ body.data, s.restaurantId ≠ own := by
  set rows := db.orders.filter fun o' => (o'.branchId : Int) = id && (momentOf o).admits o'
    with hrows
  set foreign := rows.filter fun o' => o'.restaurantId ≠ own with hforeignRows
  set rest := rows.filter fun o' => !decide (o'.restaurantId ≠ own) with hrest
  have hmoment : ∀ o' ∈ foreign ++ rest, o'.createdAt = o.createdAt := by
    intro o' ho'
    have hmem : o' ∈ rows := by
      rcases List.mem_append.mp ho' with ho' | ho'
      · exact List.mem_of_mem_filter ho'
      · exact List.mem_of_mem_filter ho'
    have hboth := (List.mem_filter.mp hmem).2
    rw [Bool.and_eq_true] at hboth
    exact momentOf_admits.mp hboth.2
  have hmem : o ∈ foreign := by
    refine List.mem_filter.mpr ⟨List.mem_filter.mpr ⟨ho, ?_⟩, decide_eq_true hforeign⟩
    rw [Bool.and_eq_true, decide_eq_true_iff]
    exact ⟨hbranch, momentOf_admits.mpr rfl⟩
  -- All rows have the same key, so sorting leaves them as they are.
  have harranged : (foreignFirst own).arrange .desc rows = foreign ++ rest := by
    refine List.mergeSort_of_pairwise (List.pairwise_of_forall_mem_list ?_)
    intro a ha b hb
    have ha' := hmoment a ha
    have hb' := hmoment b hb
    exact decide_eq_true (Nat.le_of_eq (hb'.trans ha'.symm))
  cases hsplit : foreign with
  | nil =>
    rw [hsplit] at hmem
    cases hmem
  | cons first others =>
    have hfirst : first.restaurantId ≠ own := by
      have hin : first ∈ foreign := by
        rw [hsplit]
        exact List.mem_cons_self
      simpa using (List.mem_filter.mp hin).2
    refine ⟨_, by rw [listRestaurantOrders, findOrdersByBranch, hid], ?_⟩
    refine ⟨.ofOrder first (db.orderItems.countP fun i => i.orderId = first.id), ?_, hfirst⟩
    apply List.mem_map_of_mem
    have hquery : (momentOf o).sortOrder = .desc := rfl
    have hlimit : parseLimit (momentOf o).limit = 20 := rfl
    rw [← hrows, hquery, harranged, hlimit, hsplit]
    exact List.mem_cons_self

end Exposure

section Result

/-- Whoever is served sees the orders that another restaurant has in the branch. -/
theorem shows_foreign {v : Visit} {restaurantId branchId queryBranchId : JsNumber} {own : Nat}
    {db : Db} {handler : Handler}
    (hserved : (RouteRequest.listRestaurantOrders restaurantId branchId queryBranchId).serve v
      = .ok handler)
    {id : Int} (hid : branchId.integer? = some id) {o : OrderEntity} (ho : o ∈ db.orders)
    (hbranch : (o.branchId : Int) = id) (hforeign : o.restaurantId ≠ own) :
    ¬ShowsOnly v restaurantId branchId queryBranchId own db := by
  intro hshows
  obtain ⟨body, hbody, s, hs, hother⟩ := listed_of_foreign hid ho hbranch hforeign
  have hanswer : getBranchOrders (foreignFirst own) v
      ⟨restaurantId, branchId, queryBranchId, momentOf o⟩ none db = .ok body := by
    simp only [getBranchOrders, BranchOrdersRequest.route, hserved, guarded_bind, hbody]
    rfl
  exact hother (hshows (momentOf o) (foreignFirst own) none (fun _ h => by cases h) body
    hanswer s hs)

/-- What a request is shown is of the restaurant exactly if the guards refuse it, its branch is no
integer, or the branch in the path has orders of this restaurant alone. -/
theorem orders_shown_iff (v : Visit) (restaurantId branchId queryBranchId : JsNumber) (own : Nat)
    (db : Db) :
    ShowsOnly v restaurantId branchId queryBranchId own db ↔
      (∀ handler, (RouteRequest.listRestaurantOrders restaurantId branchId queryBranchId).serve v
        ≠ .ok handler) ∨
      ∀ id, branchId.integer? = some id → BranchOf id own db := by
  constructor
  · intro hshows
    by_cases hserved : ∃ handler,
        (RouteRequest.listRestaurantOrders restaurantId branchId queryBranchId).serve v
          = .ok handler
    · obtain ⟨handler, hserved⟩ := hserved
      refine .inr fun id hid o ho hbranch => ?_
      by_contra hforeign
      exact shows_foreign hserved hid ho hbranch hforeign hshows
    · exact .inl fun handler h => hserved ⟨handler, h⟩
  · rintro hwhen query order cached hcached body hanswer s hs
    obtain ⟨handler, hserved, hanswer⟩ := guarded_ok hanswer
    rcases hwhen with hrefused | hbranch
    · exact absurd hserved (hrefused handler)
    · cases cached with
      | some kept =>
        -- The rows of an earlier page are still there, with their restaurant.
        obtain rfl : kept = body := Except.ok.inj hanswer
        obtain ⟨_, earlier, ws, rfl, hlisted⟩ := hcached kept rfl
        obtain ⟨id, hid, hrows⟩ := of_listed hlisted
        obtain ⟨o, ho, hof, hrestaurant⟩ := hrows s hs
        obtain ⟨o', ho', hsame, hsame'⟩ := order_stays ws ho
        rw [hrestaurant, ← hsame]
        refine hbranch id hid o' ho' ?_
        rw [hsame']
        exact hof
      | none =>
        dsimp only at hanswer
        cases hlisted : listRestaurantOrders order branchId query db with
        | error err =>
          rw [hlisted] at hanswer
          cases hanswer
        | ok listed =>
          rw [hlisted] at hanswer
          obtain rfl : listed = body := Except.ok.inj hanswer
          obtain ⟨id, hid, hrows⟩ := of_listed hlisted
          obtain ⟨o, ho, hof, hrestaurant⟩ := hrows s hs
          rw [hrestaurant]
          exact hbranch id hid o ho hof

/-- The owner of restaurant 1 names his restaurant and a branch of restaurant 2, and is shown an
order of restaurant 2. -/
theorem owner_reads_elsewhere :
    ¬ShowsOnly (visitOf restaurantOwner ["orders:read"]) (.ofNat 1) (.ofNat 2) .nan 1
      (neighbour 2).store.db := by
  have hserved : (RouteRequest.listRestaurantOrders (.ofNat 1) (.ofNat 2) .nan).serve
      (visitOf restaurantOwner ["orders:read"]) = .ok .reads := rfl
  exact shows_foreign hserved rfl List.mem_cons_self rfl (by decide)

end Result

end OrderService
