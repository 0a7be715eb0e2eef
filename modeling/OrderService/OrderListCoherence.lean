import OrderService.DeliveredSettled
import OrderService.LifecycleInTurn
import OrderService.RoutePermissions
import OrderService.Services.OrderListCache
import OrderService.TenantReads

/-! The cached lists of a branch after an order of the branch has changed: no call takes them out,
so they answer until their time is over. -/
namespace OrderService
open Interleaving ReadCommitted

section Statement

abbrev ListSys : Type := Sys Pid ListOp ListOp.Res Err ListWorld ListReply

variable (order : RowOrder OrderEntity OrderEntity.createdAt)
  (parseUrl : String → BranchOrdersRequest) (hmacSha256 : String → String → String) (cfg : Config)

def runLists (labels : List (Label Pid Env Ext)) (s : ListSys) : Option ListSys :=
  (listMachine order).run (fun _ _ _ _ => true) labels s

/-- A URL of the list of the branch's orders. -/
def ListsBranch (branchId : Nat) (url : String) : Prop :=
  (orderListParams url).isSome ∧ (parseUrl url).branchId = .ofNat branchId

/-- `placeOrder` of a cash order, a webhook, or `updateStatus`. -/
def ListCall.ChangesOrders : ListCall → Prop
  | .call (.placeOrder _ _ dto) => dto.paymentMethod = .cod
  | .call (.webhook ..) => True
  | .call (.updateStatus ..) => True
  | _ => False

/-- A run of any calls in which a step of one of them changes an order of the branch, and in which
this call returns. -/
structure OrderChange (branchId : Nat) where
  calls : Pid → Option ListCall
  start : ListWorld
  earlier : List (Label Pid Env Ext)
  atChange : ListSys
  reached : runLists order earlier (listing parseUrl hmacSha256 cfg calls start) = some atChange
  p : Pid
  call : ListCall
  runs : calls p = some call
  kind : call.ChangesOrders
  answer : Env
  changed : ListSys
  step : (listMachine order).step (.act p answer) atChange = some changed
  writes : ∃ o ∈ changed.world.world.store.db.orders,
    o.branchId = branchId ∧ o ∉ atChange.world.world.store.db.orders
  later : List (Label Pid Env Ext)
  atReturn : ListSys
  returns : runLists order later changed = some atReturn
  returned : ∃ reply, atReturn.procs p = some (.pure reply)

variable {order parseUrl hmacSha256 cfg}

/-- After the return no list of the branch is answered with what was stored before the change. -/
def OrderChange.Coherent {branchId : Nat} (c : OrderChange order parseUrl hmacSha256 cfg branchId)
    (region : String) : Prop :=
  ∀ t, (listMachine order).Reaches (fun _ _ _ _ => True) c.atReturn t →
    ∀ url, ListsBranch parseUrl branchId url → ∀ e, t.world.lookup ⟨region, url⟩ = some e →
      c.changed.world.lists.stores ≤ e.serial

variable (order)

/-- A request for the list stores its answer in this step. -/
def storesNow (key : UrlKey) (l : Label Pid Env Ext) (s : ListSys) : Prop :=
  ∃ p e body ttl k, l = .act p e ∧ s.procs p = some (.op (.set key body ttl) k) ∧ e.fail = false

def StoredIn (key : UrlKey) : List (Label Pid Env Ext) → ListSys → Prop
  | [], _ => False
  | l :: ls, s => storesNow key l s ∨ ∃ t, (listMachine order).step l s = some t ∧ StoredIn key ls t

end Statement

section Steps
variable {order : RowOrder OrderEntity OrderEntity.createdAt} {p : Pid} {o : ListOp} {e : Env}
  {w w' : ListWorld} {r : Except Err o.Res} {key : UrlKey}

/-- What a service does leaves every list where it is. -/
theorem afterOp_entry (hkey : (orderListParams key.url).isSome) (lists : OrderLists) (o : Op) :
    (lists.afterOp o e).entry key = lists.entry key ∧ (lists.afterOp o e).stores = lists.stores := by
  unfold OrderLists.afterOp
  cases hdel : deletedKey o with
  | none => exact ⟨rfl, rfl⟩
  | some key' =>
    have hne : key ≠ key' := by
      intro heq
      unfold deletedKey at hdel
      split at hdel
      · cases hdel
        rw [heq, orderListParams_deleted] at hkey
        cases hkey
      · cases hdel
    by_cases hfail : e.fail = true
    · simp only [if_pos hfail]
      exact ⟨trivial, trivial⟩
    · simp only [if_neg hfail]
      exact ⟨Function.update_of_ne hne _ _, rfl⟩

theorem execList_set (key : UrlKey) (body : OrdersBody) (ttl : Nat) :
    execList order p (.set key body ttl) e w = if e.fail then some (.error .failed, w)
      else some (.ok (), { w with lists := w.lists.set key body (w.world.clock + ttl * 1000) }) :=
  rfl

theorem execList_clock (hx : execList order p o e w = some (r, w')) :
    w'.world.clock = w.world.clock := by
  cases o with
  | svc o =>
    obtain ⟨a, ha, heq⟩ := Option.map_eq_some_iff.mp hx
    cases heq
    exact (exec_clock ha).1
  | get key => cases hx; rfl
  | find branchId query => cases hx; rfl
  | set key body ttl =>
    rw [execList_set] at hx
    split_ifs at hx <;> cases hx <;> rfl

/-- Either the entry is as it was, or this operation has stored it. -/
theorem execList_entry (hkey : (orderListParams key.url).isSome)
    (hx : execList order p o e w = some (r, w')) :
    (w'.lists.entry key = w.lists.entry key ∧ w.lists.stores ≤ w'.lists.stores) ∨
      (∃ body ttl, o = .set key body ttl) ∧ e.fail = false ∧ w'.world = w.world ∧
        w'.lists.stores = w.lists.stores + 1 ∧
        ∀ entry, w'.lists.entry key = some entry → entry.serial = w.lists.stores := by
  cases o with
  | svc o =>
    obtain ⟨a, ha, heq⟩ := Option.map_eq_some_iff.mp hx
    cases heq
    obtain ⟨hentry, hstores⟩ := afterOp_entry hkey w.lists o (e := e)
    exact .inl ⟨hentry, hstores.ge⟩
  | get key => cases hx; exact .inl ⟨rfl, le_refl _⟩
  | find branchId query => cases hx; exact .inl ⟨rfl, le_refl _⟩
  | set key' body ttl =>
    rw [execList_set] at hx
    cases hfail : e.fail with
    | true =>
      rw [hfail, if_pos rfl] at hx
      cases hx
      exact .inl ⟨rfl, le_refl _⟩
    | false =>
      rw [hfail, if_neg Bool.false_ne_true] at hx
      cases hx
      by_cases hsame : key = key'
      · subst hsame
        refine .inr ⟨⟨body, ttl, rfl⟩, rfl, rfl, rfl, ?_⟩
        intro entry hentry
        have hset := hentry
        simp only [OrderLists.set, Function.update_self] at hset
        cases hset
        rfl
      · exact .inl ⟨Function.update_of_ne hsame _ _, Nat.le_succ _⟩

end Steps

section Kept
variable {order : RowOrder OrderEntity OrderEntity.createdAt} {key : UrlKey} {n : Nat}
  {first w w' : ListWorld}

/-- Everything under the key is from `n` on. -/
def Fresh (key : UrlKey) (n : Nat) (w : ListWorld) : Prop :=
  n ≤ w.lists.stores ∧ ∀ entry, w.lists.entry key = some entry → n ≤ entry.serial

/-- What is from before `n` was already in `first`. -/
def OlderKept (key : UrlKey) (n : Nat) (first w : ListWorld) : Prop :=
  n ≤ w.lists.stores ∧ ∀ entry, w.lists.entry key = some entry → entry.serial < n →
    first.lists.entry key = some entry

theorem fresh_exec (hkey : (orderListParams key.url).isSome) {p : Pid} {o : ListOp} {e : Env}
    {r : Except Err o.Res} (h : Fresh key n w) (hx : execList order p o e w = some (r, w')) :
    Fresh key n w' := by
  obtain ⟨hn, hserial⟩ := h
  rcases execList_entry hkey hx with ⟨hentry, hstores⟩ | ⟨-, -, -, hstores, hnew⟩
  · refine ⟨hn.trans hstores, fun entry he => ?_⟩
    rw [hentry] at he
    exact hserial entry he
  · refine ⟨by omega, fun entry he => ?_⟩
    rw [hnew entry he]
    exact hn

theorem olderKept_exec (hkey : (orderListParams key.url).isSome) {p : Pid} {o : ListOp} {e : Env}
    {r : Except Err o.Res} (h : OlderKept key n first w)
    (hx : execList order p o e w = some (r, w')) : OlderKept key n first w' := by
  obtain ⟨hn, hkept⟩ := h
  rcases execList_entry hkey hx with ⟨hentry, hstores⟩ | ⟨-, -, -, hstores, hnew⟩
  · refine ⟨hn.trans hstores, fun entry he hold => ?_⟩
    rw [hentry] at he
    exact hkept entry he hold
  · refine ⟨by omega, fun entry he hold => ?_⟩
    have hserial := hnew entry he
    omega

theorem fresh_reaches (hkey : (orderListParams key.url).isSome) {s t : ListSys}
    (h : Fresh key n s.world)
    (hst : (listMachine order).Reaches (fun _ _ _ _ => True) s t) : Fresh key n t.world := by
  refine hst.keeps (fun p o e w r w' hw hx => fresh_exec hkey hw hx) ?_ ?_ h
  · exact fun p w hw => hw
  · exact fun x w hw => hw

theorem olderKept_reaches (hkey : (orderListParams key.url).isSome) {s t : ListSys}
    (h : OlderKept key n first s.world)
    (hst : (listMachine order).Reaches (fun _ _ _ _ => True) s t) :
    OlderKept key n first t.world := by
  refine hst.keeps (fun p o e w r w' hw hx => olderKept_exec hkey hw hx) ?_ ?_ h
  · exact fun p w hw => hw
  · exact fun x w hw => hw

theorem clock_reaches {s t : ListSys}
    (hst : (listMachine order).Reaches (fun _ _ _ _ => True) s t) :
    s.world.world.clock ≤ t.world.world.clock := by
  refine hst.keeps (J := fun w => s.world.world.clock ≤ w.world.clock)
    (fun p o e w r w' hw hx => ?_) ?_ ?_ (le_refl _)
  · exact hw.trans (execList_clock hx).ge
  · exact fun p w hw => hw
  · exact fun x w hw => hw.trans (ext_clock x w.world)

theorem runLists_cons (l : Label Pid Env Ext) (ls : List (Label Pid Env Ext)) (s : ListSys) :
    runLists order (l :: ls) s = ((listMachine order).step l s).bind (runLists order ls) := by
  have haccepts : Machine.accepts (fun _ _ _ _ => true) s l = true := by
    cases l with
    | act p e =>
      simp only [Machine.accepts]
      cases s.procs p with
      | none => rfl
      | some prog => cases prog <;> rfl
    | crash p => rfl
    | ext x => rfl
  exact if_pos haccepts

/-- A step that stores under the key: what is there is new, and the services see no difference. -/
theorem step_stores {l : Label Pid Env Ext} {s t : ListSys} (hnow : storesNow key l s)
    (hstep : (listMachine order).step l s = some t) :
    t.world.world = s.world.world ∧ Fresh key s.world.lists.stores t.world := by
  obtain ⟨p, e, body, ttl, k, rfl, hp, hfail⟩ := hnow
  simp only [Machine.step, hp] at hstep
  obtain ⟨⟨r, w'⟩, hx, rfl⟩ := Option.map_eq_some_iff.mp hstep
  have hset : execList order p (.set key body ttl) e s.world = some (r, w') := hx
  rw [execList_set, hfail, if_neg Bool.false_ne_true] at hset
  cases hset
  refine ⟨rfl, Nat.le_succ _, fun entry he => ?_⟩
  simp only [OrderLists.set, Function.update_self] at he
  cases he
  exact le_refl _

theorem step_entry (hkey : (orderListParams key.url).isSome) {l : Label Pid Env Ext} {s t : ListSys}
    (hnow : ¬storesNow key l s) (hstep : (listMachine order).step l s = some t) :
    t.world.lists.entry key = s.world.lists.entry key ∧
      s.world.lists.stores ≤ t.world.lists.stores := by
  cases l with
  | act p e =>
    simp only [Machine.step] at hstep
    split at hstep
    case h_2 => cases hstep
    case h_1 o k hp =>
      obtain ⟨⟨r, w'⟩, hx, rfl⟩ := Option.map_eq_some_iff.mp hstep
      rcases execList_entry hkey hx with hsame | ⟨⟨body, ttl, ho⟩, hfail, -⟩
      · exact hsame
      · subst ho
        exact absurd ⟨p, e, body, ttl, k, rfl, hp, hfail⟩ hnow
  | crash p =>
    obtain ⟨_, _, rfl⟩ := Option.map_eq_some_iff.mp hstep
    exact ⟨rfl, le_refl _⟩
  | ext x =>
    cases hstep
    exact ⟨rfl, le_refl _⟩

/-- Where no request stores under the key, the entry stays. -/
theorem entry_run (hkey : (orderListParams key.url).isSome) {labels : List (Label Pid Env Ext)}
    {s t : ListSys} (hrun : runLists order labels s = some t)
    (hnone : ¬StoredIn order key labels s) : t.world.lists.entry key = s.world.lists.entry key := by
  induction labels generalizing s with
  | nil => cases hrun; rfl
  | cons l ls ih =>
    rw [runLists_cons] at hrun
    obtain ⟨u, hu, hrest⟩ := Option.bind_eq_some_iff.mp hrun
    have hafter : ¬StoredIn order key ls u := fun h => hnone (.inr ⟨u, hu, h⟩)
    rw [ih hrest hafter]
    exact (step_entry hkey (fun h => hnone (.inl h)) hu).1

/-- Where a request stores under the key, what is there in the end is from this run. -/
theorem fresh_run (hkey : (orderListParams key.url).isSome) {labels : List (Label Pid Env Ext)}
    {s t : ListSys} (hn : n ≤ s.world.lists.stores) (hrun : runLists order labels s = some t)
    (hstored : StoredIn order key labels s) : Fresh key n t.world := by
  induction labels generalizing s with
  | nil => exact absurd hstored id
  | cons l ls ih =>
    rw [runLists_cons] at hrun
    obtain ⟨u, hu, hrest⟩ := Option.bind_eq_some_iff.mp hrun
    have hreaches : (listMachine order).Reaches (fun _ _ _ _ => True) u t :=
      Machine.reaches_of_run (fun _ _ _ _ _ => trivial) ls hrest
    by_cases hnow : storesNow key l s
    · obtain ⟨-, hstores, hserial⟩ := step_stores hnow hu
      have hfrom : Fresh key n u.world :=
        ⟨hn.trans hstores, fun entry he => hn.trans (hserial entry he)⟩
      exact fresh_reaches hkey hfrom hreaches
    · have hstores := (step_entry hkey hnow hu).2
      rcases hstored with h | ⟨u', hu', hlater⟩
      · exact absurd h hnow
      · rw [hu] at hu'
        cases hu'
        exact ih (hn.trans hstores) hrest hlater

end Kept

section Result
variable {order : RowOrder OrderEntity OrderEntity.createdAt}
  {parseUrl : String → BranchOrdersRequest} {hmacSha256 : String → String → String} {cfg : Config}
  {branchId : Nat}

/-- The step that changes the order leaves the list where it is. -/
theorem OrderChange.entry_at_change (c : OrderChange order parseUrl hmacSha256 cfg branchId)
    (region : String) {url : String} (hurl : ListsBranch parseUrl branchId url) :
    c.changed.world.lists.entry ⟨region, url⟩ = c.atChange.world.lists.entry ⟨region, url⟩ ∧
      c.atChange.world.lists.stores ≤ c.changed.world.lists.stores := by
  have hlist : (orderListParams (UrlKey.mk region url).url).isSome := hurl.1
  refine step_entry hlist ?_ c.step
  intro hnow
  have hsame := (step_stores hnow c.step).1
  obtain ⟨o, ho, -, hnew⟩ := c.writes
  rw [hsame] at ho
  exact hnew ho

/-- The lists of a branch are coherent after a change exactly if each one that is stored when the
order changes has run out of time, or been stored anew, when the operation returns. -/
theorem order_list_coherence (c : OrderChange order parseUrl hmacSha256 cfg branchId)
    (region : String) :
    c.Coherent region ↔ ∀ url, ListsBranch parseUrl branchId url →
      ∀ e, c.atChange.world.lists.entry ⟨region, url⟩ = some e →
        e.expiry ≤ c.atReturn.world.world.clock ∨
          StoredIn order ⟨region, url⟩ c.later c.changed := by
  have hafter : (listMachine order).Reaches (fun _ _ _ _ => True) c.changed c.atReturn :=
    Machine.reaches_of_run (fun _ _ _ _ _ => trivial) c.later c.returns
  constructor
  · intro hcoherent url hurl e he
    by_contra hneither
    obtain ⟨halive, hnone⟩ := not_or.mp hneither
    obtain ⟨hentry, hstores⟩ := c.entry_at_change region hurl
    -- the entry is still there, so the next request gets it
    have hstill : c.atReturn.world.lists.entry ⟨region, url⟩ = some e := by
      have hlist : (orderListParams (UrlKey.mk region url).url).isSome := hurl.1
      rw [entry_run hlist c.returns hnone, hentry, he]
    have hlookup : c.atReturn.world.lookup ⟨region, url⟩ = some e := by
      unfold ListWorld.lookup
      rw [hstill]
      exact Option.filter_some_pos (decide_eq_true (Nat.lt_of_not_le halive))
    have hnew := hcoherent c.atReturn .start url hurl e hlookup
    have hold := c.atChange.world.lists.numbered _ e he
    omega
  · intro hcond t ht url hurl e he
    by_contra hold
    have hlookup : t.world.lists.entry ⟨region, url⟩ = some e ∧
        t.world.world.clock < e.expiry := by
      unfold ListWorld.lookup at he
      obtain ⟨hentry, halive⟩ := Option.filter_eq_some_iff.mp he
      exact ⟨hentry, of_decide_eq_true halive⟩
    have hlist : (orderListParams (UrlKey.mk region url).url).isSome := hurl.1
    have hstart : OlderKept ⟨region, url⟩ c.changed.world.lists.stores c.changed.world
        c.changed.world := ⟨Nat.le_refl _, fun _ hentry _ => hentry⟩
    have hkept : OlderKept ⟨region, url⟩ c.changed.world.lists.stores c.changed.world t.world :=
      olderKept_reaches hlist hstart (hafter.trans ht)
    have hbefore : c.atChange.world.lists.entry ⟨region, url⟩ = some e := by
      rw [← (c.entry_at_change region hurl).1]
      exact hkept.2 e hlookup.1 (Nat.lt_of_not_le hold)
    rcases hcond url hurl e hbefore with hexpired | hstored
    · have hclock := clock_reaches ht
      exact absurd hlookup.2 (Nat.not_lt_of_le (Nat.le_trans hexpired hclock))
    · have hfresh : Fresh ⟨region, url⟩ c.changed.world.lists.stores t.world :=
        fresh_reaches hlist (fresh_run hlist (le_refl _) c.returns hstored) ht
      exact hold (hfresh.2 e hlookup.1)

end Result

section Samples

def ownersList : String := "/api/restaurants/1/branches/2/orders"

def readOwnersList (url : String) : BranchOrdersRequest :=
  if url = ownersList then ⟨.ofNat 1, .ofNat 2, .nan, {}⟩ else ⟨.nan, .nan, .nan, {}⟩

def acceptAndList : Pid → Option ListCall
  | 0 => some (.call (.updateStatus restaurantOwner ⟨.accepted, none⟩ "eg" "order-1"))
  | 1 => some (.list (visitOf restaurantOwner ["orders:read"]) ownersList)
  | _ => none

def oneOrderListed : ListWorld where
  world := { store := Store.ofDb { orders := [OrderEntity.sample "order-1" .placed] } }

/-- The owner accepts the order after these steps: before its status changes, after that, and when
the request has returned. -/
def acceptance (earlier : List (Label Pid Env Ext)) : Option (ListSys × ListSys × ListSys) := do
  let s ← runLists (foreignFirst 1) (earlier ++ List.replicate 3 (.act 0 {}))
    (listing readOwnersList (fun _ _ => "") sampleConfig acceptAndList oneOrderListed)
  let t ← (listMachine (foreignFirst 1)).step (.act 0 {}) s
  let u ← runLists (foreignFirst 1) (List.replicate 5 (.act 0 {})) t
  some (s, t, u)

def ListSys.returned (s : ListSys) (p : Pid) : Bool :=
  match s.procs p with
  | some (.pure _) => true
  | _ => false

/-- The order is accepted, and the request has returned. -/
def accepts (a : ListSys × ListSys × ListSys) : Bool :=
  decide (∃ o ∈ a.2.1.world.world.store.db.orders, o.branchId = 2 ∧
    o ∉ a.1.world.world.store.db.orders) && a.2.2.returned 0

theorem acceptance_change {earlier : List (Label Pid Env Ext)}
    (h : (acceptance earlier).any accepts = true) :
    ∃ c : OrderChange (foreignFirst 1) readOwnersList (fun _ _ => "") sampleConfig 2,
      acceptance earlier = some (c.atChange, c.changed, c.atReturn) := by
  obtain ⟨a, ha, hok⟩ := (Option.any_eq_true _ _).mp h
  obtain ⟨s, hs, hrest⟩ := Option.bind_eq_some_iff.mp ha
  obtain ⟨t, ht, hrest⟩ := Option.bind_eq_some_iff.mp hrest
  obtain ⟨u, hu, hrest⟩ := Option.bind_eq_some_iff.mp hrest
  cases hrest
  obtain ⟨hwrites, hreturned⟩ := (Bool.and_eq_true _ _).mp hok
  refine ⟨⟨acceptAndList, oneOrderListed, _, s, hs, 0, _, rfl, trivial, {}, t, ht,
    of_decide_eq_true hwrites, _, u, hu, ?_⟩, ha⟩
  have hdone : u.returned 0 = true := hreturned
  unfold ListSys.returned at hdone
  split at hdone
  · next reply hreply => exact ⟨reply, hreply⟩
  · cases hdone

/-- The owner reads the list, accepts the order, and reads the list again: the order is still
waiting there. -/
theorem list_stale_after_acceptance :
    ∃ c : OrderChange (foreignFirst 1) readOwnersList (fun _ _ => "") sampleConfig 2,
      ∃ e, c.atReturn.world.lookup ⟨"eg", ownersList⟩ = some e ∧
        e.body.data.map OrderSummaryResponse.status = [.placed] ∧
        c.atReturn.world.world.store.db.orders.map OrderEntity.status = [.accepted] ∧
        ¬c.Coherent "eg" := by
  have hany : (acceptance (List.replicate 3 (.act 1 {}))).any accepts = true := by decide +kernel
  obtain ⟨c, hc⟩ := acceptance_change hany
  have hstale : (acceptance (List.replicate 3 (.act 1 {}))).any (fun a =>
      (a.2.2.world.lookup ⟨"eg", ownersList⟩).any (fun e =>
        e.body.data.map OrderSummaryResponse.status = [.placed] &&
          e.serial < a.2.1.world.lists.stores) &&
        a.2.2.world.world.store.db.orders.map OrderEntity.status = [.accepted]) = true := by
    decide +kernel
  rw [hc, Option.any_some, Bool.and_eq_true] at hstale
  obtain ⟨hlisted, haccepted⟩ := hstale
  cases hlookup : c.atReturn.world.lookup ⟨"eg", ownersList⟩ with
  | none =>
    rw [hlookup] at hlisted
    cases hlisted
  | some e =>
    rw [hlookup, Option.any_some, Bool.and_eq_true] at hlisted
    obtain ⟨hplaced, holder⟩ := hlisted
    refine ⟨c, e, hlookup, of_decide_eq_true hplaced, of_decide_eq_true haccepted, ?_⟩
    intro hcoherent
    have hurl : ListsBranch readOwnersList 2 ownersList := ⟨by decide +kernel, by decide +kernel⟩
    have hnew := hcoherent c.atReturn .start ownersList hurl e hlookup
    have hold : e.serial < c.changed.world.lists.stores := of_decide_eq_true holder
    omega

/-- Nobody has read the list, so nothing old can answer. -/
theorem order_list_coherence_unlisted :
    ∃ c : OrderChange (foreignFirst 1) readOwnersList (fun _ _ => "") sampleConfig 2,
      c.Coherent "eg" := by
  have hany : (acceptance []).any accepts = true := by decide +kernel
  obtain ⟨c, hc⟩ := acceptance_change hany
  have hempty : (acceptance []).any (fun a => a.1.world.lists.stores = 0) = true := by
    decide +kernel
  rw [hc, Option.any_some] at hempty
  have hnone : c.atChange.world.lists.stores = 0 := of_decide_eq_true hempty
  refine ⟨c, (order_list_coherence c "eg").mpr fun url hurl e he => ?_⟩
  have hserial := c.atChange.world.lists.numbered _ e he
  omega

end Samples

end OrderService
