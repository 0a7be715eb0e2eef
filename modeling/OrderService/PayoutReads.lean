import OrderService.TenantReads

/-! The payments and the payouts that a restaurant reads: a row without an order is told from no
other, and payouts are found by the account they were paid to. -/
namespace OrderService
open ReadCommitted Interleaving

section Statement

/-- The row was inserted by a call of `recordPayout`; since then only its status and its mark may
have changed. -/
def RecordedPayout (calls : Pid → Option Call) (history : List (Pid × List Write))
    (row : TransactionEntity) : Prop :=
  ∃ p input ws inserted, calls p = some (.recordPayout input) ∧ (p, ws) ∈ history ∧
    .insertTransaction inserted ∈ ws ∧
    row = { inserted with
      status := row.status, isRefunded := row.isRefunded, updatedAt := row.updatedAt }

/-- Every payout in the tables was recorded by a call. -/
def PayoutsRecorded (calls : Pid → Option Call) (db : Db) (history : List (Pid × List Write)) :
    Prop :=
  ∀ row ∈ db.transactions, row.transactionType = .payout → RecordedPayout calls history row

/-- The transaction is no other restaurant's, as far as the order it names is found. -/
def OfOwnOrder (own : Nat) (db : Db) (t : TransactionEntity) : Prop :=
  ∀ o, db.orders.find? (fun o => t.orderId = some o.id) = some o → o.restaurantId = own

end Statement

section Recording
variable {calls : Pid → Option Call} {db : Db} {history : List (Pid × List Write)} {p : Pid}
  {c : Call}

/-- The settlement books no payout. -/
theorem not_payout_of_settlement {order : OrderEntity} {agentId : Nat} {rate : Int → Prop}
    {row : TransactionEntity} (h : SettlementWrite order agentId rate (.insertTransaction row)) :
    row.transactionType ≠ .payout := by
  cases h with
  | cod id now => exact fun h => by cases h
  | commission bps id now hrate => exact fun h => by cases h
  | serviceFee id now => exact fun h => by cases h
  | deliveryFee id now => exact fun h => by cases h

/-- Only `recordPayout` inserts a payout. -/
theorem records_of_mayWrite {row : TransactionEntity} (h : c.MayWrite (.insertTransaction row))
    (hkind : row.transactionType = .payout) : ∃ input, c = .recordPayout input := by
  cases c with
  | recordPayout input => exact ⟨input, rfl⟩
  | webhook rawBody signature region =>
    have hcharge : row.transactionType = .charge := h
    rw [hkind] at hcharge
    cases hcharge
  | refundPayment input =>
    have hrefund : row.transactionType = .refund := h.1
    rw [hkind] at hrefund
    cases hrefund
  | agentUpdateStatus publicId agentId region action =>
    cases action with
    | picked =>
      obtain ⟨_, _, _, hwrite⟩ := h
      cases hwrite
    | delivered =>
      rcases h with ⟨_, _, _, hwrite⟩ | ⟨order, hsettle⟩
      · cases hwrite
      · exact absurd hkind (not_payout_of_settlement hsettle)
    | _ => exact absurd h id
  | claim publicId agentId region =>
    obtain ⟨_, hwrite⟩ := h
    cases hwrite
  | adminAssign publicId agentId region =>
    obtain ⟨_, hwrite⟩ := h
    cases hwrite
  | _ => exact absurd h id

theorem RecordedPayout.later {row : TransactionEntity} (h : RecordedPayout calls history row)
    (bs : List (Pid × List Write)) : RecordedPayout calls (history ++ bs) row := by
  obtain ⟨q, input, ws, inserted, hcall, hws, hmem, hrow⟩ := h
  exact ⟨q, input, ws, inserted, hcall, List.mem_append_left _ hws, hmem, hrow⟩

/-- An update keeps what was inserted recognisable. -/
theorem RecordedPayout.updated {row : TransactionEntity} (h : RecordedPayout calls history row)
    (status : TransactionStatus) (isRefunded : Bool) (now : Time) :
    RecordedPayout calls history
      { row with status := status, isRefunded := isRefunded, updatedAt := now } := by
  obtain ⟨q, input, ws, inserted, hcall, hws, hmem, hrow⟩ := h
  refine ⟨q, input, ws, inserted, hcall, hws, hmem, ?_⟩
  rw [hrow]

/-- One write of a commit that holds it. -/
theorem payoutsRecorded_apply (hcall : calls p = some c) {log : List Write}
    (hlog : (p, log) ∈ history) {x : Write} (hmem : x ∈ log) (hx : c.MayWrite x)
    (h : PayoutsRecorded calls db history) :
    PayoutsRecorded calls (engine.apply x db) history := by
  intro row hrow hkind
  cases x with
  | insertTransaction inserted =>
    rcases List.mem_append.mp hrow with hold | hnew
    · exact h row hold hkind
    · obtain rfl := List.mem_singleton.mp hnew
      obtain ⟨input, rfl⟩ := records_of_mayWrite hx hkind
      exact ⟨p, input, log, row, hcall, hlog, hmem, rfl⟩
  | setTransactionStatus id status now =>
    obtain ⟨t, ht, rfl⟩ := List.mem_map.mp hrow
    by_cases hid : t.id = id
    · rw [if_pos hid] at hkind ⊢
      exact (h t ht hkind).updated status t.isRefunded now
    · rw [if_neg hid] at hkind ⊢
      exact h t ht hkind
  | markRefunded id now =>
    obtain ⟨t, ht, rfl⟩ := List.mem_map.mp hrow
    by_cases hid : t.id = id
    · rw [if_pos hid] at hkind ⊢
      exact (h t ht hkind).updated t.status true now
    · rw [if_neg hid] at hkind ⊢
      exact h t ht hkind
  | _ => exact h row hrow hkind

theorem payoutsRecorded_keptBy (hcall : calls p = some c) :
    KeptBy (PayoutsRecorded calls) p c.MayWrite := by
  intro db history log h hlog
  have hbegin : PayoutsRecorded calls db (history ++ [(p, log)]) :=
    fun row hrow hkind => (h row hrow hkind).later _
  have hbatch : (p, log) ∈ history ++ [(p, log)] := by simp
  -- The writes are applied one after the other; each of them is in the batch.
  have hall : ∀ part, (∀ x ∈ part, x ∈ log) → ∀ d, PayoutsRecorded calls d (history ++ [(p, log)]) →
      PayoutsRecorded calls (engine.applyAll part d) (history ++ [(p, log)]) := by
    intro part
    induction part with
    | nil => exact fun _ d hd => hd
    | cons x part ih =>
      intro hpart d hd
      have hx := hpart x List.mem_cons_self
      rw [applyAll_cons]
      exact ih (fun y hy => hpart y (List.mem_cons_of_mem x hy)) _
        (payoutsRecorded_apply hcall hbatch hx (hlog x hx) hd)
  exact hall log (fun x hx => hx) db hbegin

variable (hmacSha256 : String → String → String) (cfg : Config)

/-- Calls keep what each of them keeps by what it may write. -/
theorem mayWrite_reaches {I : Db → List (Pid × List Write) → Prop} {w : World} (hw : w.AtRest)
    (hI : ∀ p c, calls p = some c → KeptBy I p c.MayWrite) (hinit : I w.store.db [])
    {t : Sys Pid Op Op.Res Err World Reply}
    (h : machine.Reaches anyOp (running hmacSha256 cfg calls w) t) :
    I t.world.store.db t.world.store.history := by
  refine shared_reaches hw hinit (fun p prog hprog => ?_) h
  obtain ⟨c, hc, rfl⟩ := Option.map_eq_some_iff.mp hprog
  have hempty : ∀ x ∈ w.log p, c.MayWrite x := by
    intro x hx
    rw [World.log, hw.txn p] at hx
    cases hx
  refine wp_mono ?_ (wp_harmless (within_mayWrite hmacSha256 cfg c) (hI p c hc)
    (fun _ _ _ _ _ _ _ _ _ => trivial) hempty)
  rintro (err | a) v _ <;> trivial

end Recording

section Reading
variable {v : Visit} {user : ActorContext} {own : Nat} {db : Db}

theorem requireRestaurantMember_ok {restaurantId : JsNumber} (hrole : user.role = .restaurantUser)
    (hown : user.restaurantId = some own)
    (h : requireRestaurantMember restaurantId user = .ok ()) : restaurantId = .ofNat own := by
  have hadmin : user.role ≠ .systemAdmin := by
    rw [hrole]
    decide
  unfold requireRestaurantMember at h
  split_ifs at h with hfalsy hother
  · cases h
  · cases h
  · rw [hown] at hother
    simp only [JsNumber.ofId, JsNumber.same, Bool.not_eq_true, Bool.not_eq_false',
      Bool.and_eq_true] at hother
    exact (of_decide_eq_true hother.2).symm

/-- What the service returns for a restaurant names no order of another one. -/
theorem getById_own {paymentId : Int} {response : PaymentResponse}
    (h : getById paymentId (.ofNat own) db = .ok response) :
    ∃ t ∈ db.transactions, response = .ofTransaction t ∧ OfOwnOrder own db t := by
  unfold getById findTransactionWithRestaurant at h
  cases hfound : db.transactions.find? (fun t => (t.id : Int) = paymentId) with
  | none =>
    rw [hfound] at h
    cases h
  | some t =>
    rw [hfound, Option.map_some] at h
    dsimp only at h
    split_ifs at h with hother
    refine ⟨t, List.mem_of_find?_eq_some hfound, (Except.ok.inj h).symm, fun o ho => ?_⟩
    rw [ho, Option.map_some, Option.any_some] at hother
    simp only [JsNumber.same, JsNumber.ofNat, Bool.not_eq_true, Bool.not_eq_false',
      Bool.and_eq_true, decide_eq_true_iff, JsNumber.finite.injEq] at hother
    exact_mod_cast hother.2

theorem getPayment_own (hv : v.user = some user) (hrole : user.role = .restaurantUser)
    (hown : user.restaurantId = some own) {restaurantId paymentId : JsNumber}
    {response : PaymentResponse} (h : getPayment v restaurantId paymentId db = .ok response) :
    ∃ t ∈ db.transactions, response = .ofTransaction t ∧ OfOwnOrder own db t := by
  obtain ⟨handler, hserved, h⟩ := guarded_ok h
  obtain ⟨u, hu, hserved⟩ := guarded_ok hserved
  obtain rfl : u = user := by
    rw [authenticate, hv] at hu
    exact (Except.ok.inj hu).symm
  obtain ⟨region, _, hserved⟩ := guarded_ok hserved
  obtain ⟨_, hmember, _⟩ := guarded_ok hserved
  obtain rfl := requireRestaurantMember_ok hrole hown hmember
  cases paymentId with
  | nan => cases h
  | infinity negative => cases h
  | finite value =>
    dsimp only at h
    split_ifs at h
    · cases h
    · cases hid : (JsNumber.finite value).integer? with
      | none =>
        rw [hid] at h
        cases h
      | some id =>
        rw [hid] at h
        dsimp only at h
        cases hget : getById id (.ofNat own) db with
        | error err =>
          rw [hget] at h
          cases h
        | ok found =>
          rw [hget] at h
          obtain rfl : found = response := Except.ok.inj h
          exact getById_own hget

/-- What is listed was paid to the account of the restaurant's owner. -/
theorem of_listPayouts {order : RowOrder TransactionEntity TransactionEntity.createdAt}
    {region : String} {createdFrom createdTo : Time} {listed : List PayoutResponse}
    (h : listPayouts order own region createdFrom createdTo db = .ok listed) :
    ∀ response ∈ listed, ∃ row ∈ db.transactions, response = .fromTransaction row ∧
      row.transactionType = .payout ∧ row.region = region ∧
      createdFrom ≤ row.createdAt ∧ row.createdAt ≤ createdTo ∧
      ∃ owner, db.ownerOf own region = some owner ∧ row.dstAccId = some owner := by
  unfold listPayouts at h
  cases howner : orNull (db.ownerOf own region) with
  | none =>
    rw [howner] at h
    cases h
  | some ownerUserId =>
    rw [howner] at h
    have hfound : db.ownerOf own region = some ownerUserId := by
      cases hraw : db.ownerOf own region with
      | none =>
        rw [hraw] at howner
        cases howner
      | some n =>
        rw [hraw] at howner
        cases n with
        | zero => cases howner
        | succ n => exact howner
    intro response hresponse
    rw [← Except.ok.inj h] at hresponse
    obtain ⟨row, hrow, rfl⟩ := List.mem_map.mp hresponse
    have hmem := (order.perm _ _).mem_iff.mp (List.mem_of_mem_take hrow)
    obtain ⟨hin, htest⟩ := List.mem_filter.mp hmem
    simp only [Bool.and_eq_true, decide_eq_true_iff] at htest
    obtain ⟨⟨⟨⟨hregion, hkind⟩, haccount⟩, hfrom⟩, hto⟩ := htest
    exact ⟨row, hin, rfl, hkind, hregion, hfrom, hto, ownerUserId, hfound, haccount⟩

end Reading

section Result
variable (hmacSha256 : String → String → String) (cfg : Config)

/-- On any tables a restaurant user reads no transaction of another restaurant's order; and after
any calls, whatever their interleaving, the payouts that are listed for a restaurant were recorded
by `recordPayout` and paid to the account of its owner. -/
theorem payment_reads (user : ActorContext) (hrole : user.role = .restaurantUser) (own : Nat)
    (hown : user.restaurantId = some own) (w : World) (hw : w.AtRest)
    (hnone : ∀ row ∈ w.store.db.transactions, row.transactionType ≠ .payout)
    (calls : Pid → Option Call) {t : Sys Pid Op Op.Res Err World Reply}
    (h : machine.Reaches anyOp (running hmacSha256 cfg calls w) t) :
    (∀ (v : Visit) (restaurantId paymentId : JsNumber) (db : Db) (response : PaymentResponse),
      v.user = some user → getPayment v restaurantId paymentId db = .ok response →
        ∃ tx ∈ db.transactions, response = .ofTransaction tx ∧ OfOwnOrder own db tx) ∧
    ∀ (order : RowOrder TransactionEntity TransactionEntity.createdAt) (region : String)
      (createdFrom createdTo : Time) (listed : List PayoutResponse),
      listPayouts order own region createdFrom createdTo t.world.store.db = .ok listed →
        ∀ response ∈ listed, ∃ row, response = .fromTransaction row ∧
          RecordedPayout calls t.world.store.history row ∧
          ∃ owner, t.world.store.db.ownerOf own region = some owner ∧
            row.dstAccId = some owner := by
  have hrecorded : PayoutsRecorded calls t.world.store.db t.world.store.history :=
    mayWrite_reaches hmacSha256 cfg hw (fun p c hc => payoutsRecorded_keptBy hc)
      (fun row hrow hkind => absurd hkind (hnone row hrow)) h
  refine ⟨fun v restaurantId paymentId db response hv hget => ?_, ?_⟩
  · exact getPayment_own hv hrole hown hget
  · intro order region createdFrom createdTo listed hlisted response hresponse
    obtain ⟨row, hrow, hof, hkind, -, -, -, hpaid⟩ := of_listPayouts hlisted response hresponse
    exact ⟨row, hof, hrecorded row hrow hkind, hpaid⟩

/-- Restaurants 1 and 2 have one owner. -/
def ownerOfTwo : World :=
  { store := Store.ofDb
      { orders := [OrderEntity.sample "order-1" .delivered,
          { OrderEntity.sample "order-2" .delivered with id := 2, restaurantId := 2 }]
        restaurantBalances := [⟨1, "eg", "EGP", 100⟩, ⟨2, "eg", "EGP", 100⟩] } }

/-- The only payout is one to restaurant 2. -/
def payoutElsewhere : Pid → Option Call
  | 0 => some (.recordPayout { payoutOfSixty with restaurantId := 2 })
  | _ => none

def payoutElsewhereSchedule : List (Label Pid Env Ext) := List.replicate 8 (.act 0 {})

/-- A member of the staff of restaurant 3. -/
def strangerToPayout : ActorContext := ⟨12, .restaurantUser, some 3, some "staff", some [5]⟩

theorem payment_reads_stranger :
    ∃ t, machine.run (fun _ _ _ _ => true) payoutElsewhereSchedule
        (running (fun _ _ => "") sampleConfig payoutElsewhere ownerOfTwo) = some t ∧
      (∀ (v : Visit) (restaurantId paymentId : JsNumber) (db : Db) (response : PaymentResponse),
        v.user = some strangerToPayout → getPayment v restaurantId paymentId db = .ok response →
          ∃ tx ∈ db.transactions, response = .ofTransaction tx ∧ OfOwnOrder 3 db tx) ∧
      ∀ (order : RowOrder TransactionEntity TransactionEntity.createdAt) (region : String)
        (createdFrom createdTo : Time) (listed : List PayoutResponse),
        listPayouts order 3 region createdFrom createdTo t.world.store.db = .ok listed →
          ∀ response ∈ listed, ∃ row, response = .fromTransaction row ∧
            RecordedPayout payoutElsewhere t.world.store.history row ∧
            ∃ owner, t.world.store.db.ownerOf 3 region = some owner ∧
              row.dstAccId = some owner := by
  obtain ⟨t, ht⟩ := Option.isSome_iff_exists.mp (by decide +kernel : (machine.run
    (fun _ _ _ _ => true) payoutElsewhereSchedule (running (fun _ _ => "") sampleConfig
      payoutElsewhere ownerOfTwo)).isSome = true)
  exact ⟨t, ht, payment_reads _ sampleConfig strangerToPayout rfl 3 rfl ownerOfTwo
    ⟨rfl, fun _ => rfl, rfl⟩ (by decide) payoutElsewhere
    (Machine.reaches_of_run (fun _ _ _ _ _ => trivial) _ ht)⟩

/-- The payout to restaurant 2 is listed for restaurant 1, and a member of restaurant 3 reads it
under its id. -/
theorem payout_shown_elsewhere :
    ∃ t, machine.run (fun _ _ _ _ => true) payoutElsewhereSchedule
        (running (fun _ _ => "") sampleConfig payoutElsewhere ownerOfTwo) = some t ∧
      (∀ p input, payoutElsewhere p = some (.recordPayout input) → input.restaurantId = 2) ∧
      (∀ order : RowOrder TransactionEntity TransactionEntity.createdAt, ∃ response,
        listPayouts order 1 "eg" 0 100 t.world.store.db = .ok [response]) ∧
      ∃ response, getPayment (visitOf strangerToPayout ["payments:read"]) (.ofNat 3) (.ofNat 1)
        t.world.store.db = .ok response := by
  have hrun : (machine.run (fun _ _ _ _ => true) payoutElsewhereSchedule
      (running (fun _ _ => "") sampleConfig payoutElsewhere ownerOfTwo)).any (fun t =>
        t.world.store.db.ownerOf 1 "eg" = some 9 &&
        (t.world.store.db.transactions.filter fun row => row.region = "eg" &&
          row.transactionType = .payout && row.dstAccId = some 9 && 0 ≤ row.createdAt &&
          row.createdAt ≤ 100).length = 1 &&
        (getPayment (visitOf strangerToPayout ["payments:read"]) (.ofNat 3) (.ofNat 1)
          t.world.store.db).isOk) = true := by
    decide +kernel
  obtain ⟨t, ht, hfound⟩ := (Option.any_eq_true _ _).mp hrun
  simp only [Bool.and_eq_true, decide_eq_true_iff] at hfound
  obtain ⟨⟨howner, hrows⟩, hpayment⟩ := hfound
  refine ⟨t, ht, ?_, fun order => ?_, ?_⟩
  · intro p input hp
    unfold payoutElsewhere at hp
    split at hp <;> cases hp
    rfl
  · obtain ⟨row, hrow⟩ := List.length_eq_one_iff.mp hrows
    have hone : order.arrange .desc [row] = [row] := List.perm_singleton.mp (order.perm _ _)
    have hfound : findPayouts order 9 "eg" 0 100 t.world.store.db = [row] := by
      unfold findPayouts
      rw [hrow, hone]
      rfl
    refine ⟨.fromTransaction row, ?_⟩
    calc listPayouts order 1 "eg" 0 100 t.world.store.db
        = .ok ((findPayouts order 9 "eg" 0 100 t.world.store.db).map .fromTransaction) := by
          unfold listPayouts
          rw [howner]
          rfl
      _ = .ok [.fromTransaction row] := by
          rw [hfound]
          rfl
  · cases hget : getPayment (visitOf strangerToPayout ["payments:read"]) (.ofNat 3) (.ofNat 1)
        t.world.store.db with
    | error err =>
      rw [hget] at hpayment
      cases hpayment
    | ok response => exact ⟨response, rfl⟩

end Result

end OrderService
