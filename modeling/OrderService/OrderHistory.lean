import OrderService.LedgerWellFormed
import OrderService.OrderLifecycle
import OrderService.Services.OrderDetails
import OrderService.StatusRecords

/-! The history that `GET /orders/:publicId` shows, and the statuses that the order has been in. -/
namespace OrderService
open ReadCommitted Interleaving

section Statement

/-- Every entry is a status of `been`, none is there twice, and the times do not go back. -/
structure SoundHistory (been : OrderStatus → Prop) (history : List (OrderStatus × Time)) :
    Prop where
  been : ∀ e ∈ history, been e.1
  once : (history.map Prod.fst).Nodup
  ordered : (history.map Prod.snd).Pairwise (· ≤ ·)

/-- One of the turns was a webhook, and the order is placed after it. -/
def PlacedByWebhook (hmacSha256 : String → String → String) (cfg : Config) (n : Pid)
    (turns : List Turn) (w : World) (publicId : String) : Prop :=
  ∃ k rawBody signature region es,
    turns[k]? = some (.call (.webhook rawBody signature region) es) ∧
      ∃ o ∈ (takeTurns hmacSha256 cfg n (turns.take (k + 1)) w).store.db.orders,
        o.publicId = publicId ∧ o.status = .placed

end Statement

section Entries
variable {o : OrderEntity}

/-- The columns of `buildHistory`, in the order in which it goes through them. -/
def shownStamps : List Stamp :=
  [.acceptedAt, .rejectedAt, .readyAt, .assignedAt, .pickedAt, .deliveredAt, .cancelledAt]

def OrderEntity.shown (o : OrderEntity) : List (OrderStatus × Option Time) :=
  (.pendingPayment, if o.paymentMethod = .online then some o.createdAt else none) ::
    (.placed, some o.createdAt) :: shownStamps.map fun c => (c.status, o.column c)

/-- An entry, if it has a time. -/
def timed (e : OrderStatus × Option Time) : Option (OrderStatus × Time) := e.2.map fun t => (e.1, t)

theorem buildHistory_eq (o : OrderEntity) : buildHistory o = o.shown.filterMap timed := by
  have hcons : ∀ (status : OrderStatus) (ts : Option Time) l,
      ((status, ts) :: l).filterMap timed
        = (ts.map fun t => (status, t)).toList ++ l.filterMap timed := by
    intro status ts l
    cases ts <;> rfl
  unfold buildHistory OrderEntity.shown
  simp only [shownStamps, List.map_cons, List.map_nil, hcons, List.filterMap_nil]
  split_ifs <;> simp only [List.append_assoc, List.append_nil] <;> rfl

theorem statuses_timed (l : List (OrderStatus × Option Time)) :
    ((l.filterMap timed).map Prod.fst).Sublist (l.map Prod.fst) := by
  induction l with
  | nil => exact List.Sublist.refl _
  | cons e l ih =>
    obtain ⟨status, ts⟩ := e
    cases ts with
    | none => exact ih.cons status
    | some t => exact ih.cons_cons status

/-- No status is listed twice. -/
theorem buildHistory_once (o : OrderEntity) : ((buildHistory o).map Prod.fst).Nodup := by
  rw [buildHistory_eq]
  refine (statuses_timed o.shown).nodup ?_
  change (OrderStatus.pendingPayment :: OrderStatus.placed ::
    (shownStamps.map fun c => (c.status, o.column c)).map Prod.fst).Nodup
  rw [List.map_map]
  exact (by decide : (OrderStatus.pendingPayment :: OrderStatus.placed ::
    shownStamps.map Stamp.status).Nodup)

/-- A rejected order has no other column set. -/
theorem RowConsistent.rejected_alone (h : RowConsistent o) (hset : o.rejectedAt.isSome) {c : Stamp}
    (hc : c ≠ .rejectedAt) : o.column c = none := by
  have hrejected : o.status = .rejected := by
    have hcolumn := h.columns .rejectedAt _ rfl
    exact of_decide_eq_true (hcolumn.symm.trans hset)
  refine Option.not_isSome_iff_eq_none.mp ?_
  rw [h.columns c false (by rw [hrejected]; cases c <;> first | rfl | exact absurd rfl hc)]
  exact Bool.false_ne_true

/-- Where the lifecycle has one column before another, its time is not later. -/
theorem RowConsistent.notAfter (h : RowConsistent o) {c c' : Stamp}
    (hlt : lifecycle.idxOf c < lifecycle.idxOf c') : NotAfter (o.column c) (o.column c') := by
  have hmem : ∀ c, c ∈ lifecycle := by
    intro c
    cases c <;> decide
  have hpairs := List.pairwise_map.mp (List.pairwise_cons.mp h.ordered).2
  have hget := List.pairwise_iff_getElem.mp hpairs _ _ (List.idxOf_lt_length_of_mem (hmem c))
    (List.idxOf_lt_length_of_mem (hmem c')) hlt
  rwa [List.getElem_idxOf, List.getElem_idxOf] at hget

/-- The rejection shares the row with no other time. -/
theorem RowConsistent.notAfter_rejected (h : RowConsistent o) {c : Stamp} (hc : c ≠ .rejectedAt) :
    NotAfter (o.column c) o.rejectedAt ∧ NotAfter o.rejectedAt (o.column c) := by
  have hleft : ∀ a, NotAfter none a := fun _ _ hx => by cases hx
  have hright : ∀ a, NotAfter a none := fun _ _ _ _ hy => by cases hy
  cases hset : o.rejectedAt with
  | none => exact ⟨hright _, hleft _⟩
  | some t =>
    rw [h.rejected_alone (by rw [hset]; rfl) hc]
    exact ⟨hleft _, hright _⟩

/-- The columns of a consistent row are in the order in which they are shown. -/
theorem RowConsistent.shown_ordered (h : RowConsistent o) :
    (o.shown.map Prod.snd).Pairwise NotAfter := by
  have hcreated : ∀ a ∈ shownStamps.map o.column, NotAfter (some o.createdAt) a := by
    intro a ha
    obtain ⟨c, _, rfl⟩ := List.mem_map.mp ha
    have hmem : c ∈ lifecycle := by cases c <;> decide
    exact (List.pairwise_cons.mp h.ordered).1 _ (List.mem_map_of_mem hmem)
  have hcolumns : (shownStamps.map o.column).Pairwise NotAfter := by
    -- Only the rejection stands elsewhere than in the lifecycle.
    have hplaces : shownStamps.Pairwise fun c c' => c = .rejectedAt ∧ c' ≠ .rejectedAt ∨
        c' = .rejectedAt ∧ c ≠ .rejectedAt ∨ lifecycle.idxOf c < lifecycle.idxOf c' := by decide
    refine List.pairwise_map.mpr (hplaces.imp ?_)
    rintro c c' (⟨rfl, hc'⟩ | ⟨rfl, hc⟩ | hlt)
    · exact (h.notAfter_rejected hc').2
    · exact (h.notAfter_rejected hc).1
    · exact h.notAfter hlt
  have hplaced : (some o.createdAt :: shownStamps.map o.column).Pairwise NotAfter :=
    List.pairwise_cons.mpr ⟨hcreated, hcolumns⟩
  change ((if o.paymentMethod = .online then some o.createdAt else none) :: some o.createdAt ::
    (shownStamps.map fun c => (c.status, o.column c)).map Prod.snd).Pairwise NotAfter
  rw [List.map_map]
  refine List.pairwise_cons.mpr ⟨?_, hplaced⟩
  split_ifs
  · refine List.forall_mem_cons.mpr ⟨?_, hcreated⟩
    rintro x ⟨⟩ y ⟨⟩
    exact Nat.le_refl _
  · exact fun a _ x hx => by cases hx

theorem buildHistory_ordered (h : RowConsistent o) :
    ((buildHistory o).map Prod.snd).Pairwise (· ≤ ·) := by
  rw [buildHistory_eq, List.pairwise_map, List.pairwise_filterMap]
  refine (List.pairwise_map.mp h.shown_ordered).imp ?_
  rintro ⟨status, ts⟩ ⟨status', ts'⟩ hle e he e' he'
  obtain ⟨t, ht, rfl⟩ := Option.map_eq_some_iff.mp he
  obtain ⟨t', ht', rfl⟩ := Option.map_eq_some_iff.mp he'
  exact hle t ht t' ht'

/-- Every status that is shown is one that the row records, or `placed`. -/
theorem buildHistory_been {been : String → OrderStatus → Prop} (h : RowRecorded been o)
    (hplaced : been o.publicId .placed) : ∀ e ∈ buildHistory o, been o.publicId e.1 := by
  intro e he
  rw [buildHistory_eq] at he
  obtain ⟨⟨status, ts⟩, hshown, htimed⟩ := List.mem_filterMap.mp he
  obtain ⟨t, rfl, rfl⟩ := Option.map_eq_some_iff.mp htimed
  simp only [OrderEntity.shown, List.mem_cons, List.mem_map, Prod.mk.injEq] at hshown
  rcases hshown with ⟨rfl, hts⟩ | ⟨rfl, _⟩ | ⟨c, _, rfl, hts⟩
  · have hfirst := h.first
    split_ifs at hts with honline
    rw [honline] at hfirst
    exact hfirst
  · exact hplaced
  · exact h.columns c (by rw [hts]; rfl)

/-- However it is paid, the order is shown as placed when it was created. -/
theorem placed_mem_buildHistory (o : OrderEntity) : (.placed, o.createdAt) ∈ buildHistory o := by
  rw [buildHistory_eq]
  exact List.mem_filterMap.mpr ⟨(.placed, some o.createdAt),
    List.mem_cons_of_mem _ List.mem_cons_self, rfl⟩

end Entries

section Calls
variable (hmacSha256 : String → String → String) (cfg : Config)

/-- A rule sets the column of its target or none. -/
theorem rule_stamp_status {source target : OrderStatus} {rule : TransitionRule}
    (hrule : transitions source target = some rule) : ∀ c ∈ rule.stamp, c.status = target := by
  rintro c hc
  cases source <;> cases target <;> cases hrule <;> cases hc <;> rfl

theorem settlementWrite_movesTo {order : OrderEntity} {agentId : Nat} {rate : Int → Prop}
    {x : Write} {target : OrderStatus} (h : SettlementWrite order agentId rate x) :
    x.MovesTo target := by
  cases h <;> trivial

def Call.IsWebhook : Call → Prop
  | .webhook .. => True
  | _ => False

/-- A call places new orders, or moves orders to one status. Only webhooks move to `placed`. -/
theorem call_moves (c : Call) :
    (∃ actor region dto, c = .placeOrder actor region dto) ∨
      ∃ target, (target = .placed ↔ c.IsWebhook) ∧
        Within (Write.MovesTo target) (c.prog hmacSha256 cfg) := by
  cases c with
  | placeOrder actor region dto => exact .inl ⟨actor, region, dto, rfl⟩
  | webhook rawBody signature region =>
    refine .inr ⟨.placed, iff_of_true rfl trivial, within_do (within_webhook ?_ ?_) fun _ => trivial⟩
    · exact ⟨fun _ _ _ => trivial, fun _ _ _ => trivial, fun _ _ => trivial, fun _ _ => trivial,
        fun _ _ => ⟨rfl, fun _ hc => by cases hc⟩⟩
    · exact fun _ => trivial
  | updateStatus actor dto region orderId =>
    by_cases hplaced : dto.status = .placed
    · -- Only the system may place an order, and no actor is the system.
      refine .inr ⟨.accepted, iff_of_false (by decide) id,
        within_do (within_updateStatus ?_ fun _ _ => trivial) fun _ => trivial⟩
      intro publicId order statusActor rule now hactor hrule hallowed
      rw [hplaced] at hrule
      cases hsource : order.status <;> rw [hsource] at hrule <;> cases hrule
      exact absurd (List.mem_singleton.mp hallowed) (resolveStatusActor_ne_system hactor)
    · refine .inr ⟨dto.status, iff_of_false hplaced id,
        within_do (within_updateStatus ?_ fun _ _ => trivial) fun _ => trivial⟩
      intro publicId order statusActor rule now hactor hrule hallowed
      exact ⟨rfl, rule_stamp_status hrule⟩
  | claim publicId agentId region =>
    exact .inr ⟨.assigned, iff_of_false (by decide) id,
      within_do (within_claim fun _ => rfl) fun _ => trivial⟩
  | adminAssign publicId agentId region =>
    exact .inr ⟨.assigned, iff_of_false (by decide) id,
      within_do (within_adminAssign fun _ => rfl) fun _ => trivial⟩
  | agentUpdateStatus publicId agentId region action =>
    by_cases hpicked : action = .picked
    · refine .inr ⟨.picked, iff_of_false (by decide) id,
        within_do (within_agentUpdateStatus ?_ ?_ ?_) fun _ => trivial⟩
      · rintro _ publicId now
        exact ⟨rfl, fun c hc => by cases hc; rfl⟩
      · rw [hpicked]
        exact fun h => by cases h
      · exact fun _ _ _ hx => settlementWrite_movesTo hx
    · refine .inr ⟨.delivered, iff_of_false (by decide) id,
        within_do (within_agentUpdateStatus ?_ ?_ ?_) fun _ => trivial⟩
      · exact fun h => absurd h hpicked
      · rintro _ publicId now
        exact ⟨rfl, fun c hc => by cases hc; rfl⟩
      · exact fun _ _ _ hx => settlementWrite_movesTo hx
  | recordPayout input =>
    exact .inr ⟨.accepted, iff_of_false (by decide) id,
      within_do (within_recordPayout (fun _ _ _ _ => trivial) fun _ _ _ _ => trivial) fun _ => trivial⟩
  | refundPayment input =>
    exact .inr ⟨.accepted, iff_of_false (by decide) id,
      within_do (within_refundPayment (fun _ _ => trivial) fun _ _ _ _ => trivial) fun _ => trivial⟩

/-- A placement inserts the order with the first status of its payment method. -/
theorem inserts_enters : InsertsOnly Write.Enters where
  order d id ownerId now hstatus := by
    refine ⟨?_, fun c => by cases c <;> rfl⟩
    change d.status = d.paymentMethod.firstStatus
    rw [hstatus]
    cases d.paymentMethod <;> rfl
  item _ := trivial
  event _ _ := trivial
  session _ := trivial

end Calls

section Turns
variable {hmacSha256 : String → String → String} {cfg : Config} {n : Pid} {w : World} {α : Type}

/-- What a program keeps while others run, it keeps while the environment moves. -/
theorem paced_shared {I : Db → List (Pid × List Write) → Prop} {prog : Svc α}
    {es : List (List Ext × Env)} {Q : Except Err α → World → Prop} (hi : (sharedSpec I).inv w)
    (hwp : wp machine anyOp (sharedSpec I) n prog Q w) :
    I (machine.paced.runAlone n prog es w).2.store.db
      (machine.paced.runAlone n prog es w).2.store.history := by
  have hpaced := wp_paced (sharedSpec_fits I).admits hwp
  have hmeets : RunMeets machine.paced (fun p o e w => anyOp p o e.2 (machine.moves e.1 w))
      (fun _ => True) n prog es w := runMeets_of_answers prog (fun _ _ _ _ => trivial) w
  have hsound := runAlone_sound ((sharedSpec_fits I).refl n) hi hpaced hmeets
  cases hrun : machine.paced.runAlone n prog es w with
  | mk outcome w' =>
    rw [hrun] at hsound
    cases outcome with
    | returned a => exact hsound.1.2
    | threw e => exact hsound.1.2
    | crashed =>
      obtain ⟨v, hv, _, rfl⟩ := hsound
      exact hv.2

/-- The commits of a turn are of the writes that its program can come to. -/
theorem turn_commits {H : Write → Prop} (h : BetweenTurns n w) {prog : Svc α}
    (hprog : Within H prog) (es : List (List Ext × Env)) :
    Commits H w.store.db w.store.history (machine.paced.runAlone n prog es w).2.store.db
      (machine.paced.runAlone n prog es w).2.store.history := by
  refine paced_shared ⟨h.inv.locked, commits_refl⟩
    (wp_harmless hprog (commits_keptBy n) (fun _ _ _ _ _ _ _ _ _ => trivial) ?_)
  rw [h.log]
  exact fun x hx => absurd hx List.not_mem_nil

/-- The first turn is the webhook, or one of the rest. -/
theorem placedByWebhook_cons {turn : Turn} {turns : List Turn} {publicId : String} {m : Pid}
    {v : World} (hturn : ∀ rest, takeTurns hmacSha256 cfg n (turn :: rest) w
      = takeTurns hmacSha256 cfg m rest v) :
    PlacedByWebhook hmacSha256 cfg n (turn :: turns) w publicId ↔
      ((∃ rawBody signature region es, turn = .call (.webhook rawBody signature region) es) ∧
        ∃ o ∈ v.store.db.orders, o.publicId = publicId ∧ o.status = .placed) ∨
      PlacedByWebhook hmacSha256 cfg m turns v publicId := by
  constructor
  · rintro ⟨k, rawBody, signature, region, es, hk, hplaced⟩
    rw [List.take_succ_cons, hturn] at hplaced
    cases k with
    | zero => exact .inl ⟨⟨rawBody, signature, region, es, Option.some.inj hk⟩, hplaced⟩
    | succ k => exact .inr ⟨k, rawBody, signature, region, es, hk, hplaced⟩
  · rintro (⟨⟨rawBody, signature, region, es, rfl⟩, hplaced⟩ |
      ⟨k, rawBody, signature, region, es, hk, hplaced⟩)
    · refine ⟨0, rawBody, signature, region, es, rfl, ?_⟩
      rw [List.take_succ_cons, hturn]
      exact hplaced
    · refine ⟨k + 1, rawBody, signature, region, es, hk, ?_⟩
      rw [List.take_succ_cons, hturn]
      exact hplaced

variable {before : Db} {paid : String → Prop}

/-- A program that moves orders to one status leads on in the chronicle. -/
theorem chronicle_moves {prog : Svc α} {target : OrderStatus} (h : BetweenTurns n w)
    (hc : Chronicle before paid w.store.db w.store.history)
    (hprog : Within (Write.MovesTo target) prog) (es : List (List Ext × Env)) :
    let after := (machine.paced.runAlone n prog es w).2
    Chronicle before (fun publicId => paid publicId ∨ target = .placed ∧
      ∃ o ∈ after.store.db.orders, o.publicId = publicId ∧ o.status = .placed)
      after.store.db after.store.history :=
  hc.moved (turn_commits h hprog es)

end Turns

section Runs
variable (hmacSha256 : String → String → String) (cfg : Config) {before : Db}

/-- A call leads on in the chronicle. -/
theorem chronicle_call {n : Pid} {w : World} {paid : String → Prop} (h : BetweenTurns n w)
    (hc : Chronicle before paid w.store.db w.store.history) (c : Call)
    (es : List (List Ext × Env)) :
    let after := (machine.paced.runAlone n (c.prog hmacSha256 cfg) es w).2
    Chronicle before (fun publicId => paid publicId ∨ c.IsWebhook ∧
      ∃ o ∈ after.store.db.orders, o.publicId = publicId ∧ o.status = .placed)
      after.store.db after.store.history := by
  have hafter := betweenTurns_call hmacSha256 cfg h c es
  rcases call_moves hmacSha256 cfg c with ⟨actor, region, dto, rfl⟩ | ⟨target, htarget, hprog⟩
  · have hwp : wp machine anyOp (sharedSpec (Commits Write.Enters w.store.db w.store.history)) n
        ((Call.placeOrder actor region dto).prog hmacSha256 cfg) (OnOk fun _ _ => True) w := by
      refine wp_seq (wp_mono (fun r v _ => ?_) (wp_placeOrder inserts_enters (commits_keptBy n)))
      cases r <;> trivial
    have hcommits : Commits Write.Enters w.store.db w.store.history
        (machine.paced.runAlone n _ es w).2.store.db
        (machine.paced.runAlone n _ es w).2.store.history :=
      paced_shared ⟨h.inv.locked, commits_refl⟩ hwp
    refine (hc.entered hcommits hafter.inv.orders.distinct).congr fun publicId => ⟨.inl, ?_⟩
    rintro (hpaid | ⟨hwebhook, _⟩)
    · exact hpaid
    · exact hwebhook.elim
  · refine (chronicle_moves h hc hprog es).congr fun publicId => ?_
    rw [htarget]

/-- Whatever the turns, the chronicle of the shard goes on, and the online orders that were ever
placed are those that a webhook placed. -/
theorem chronicle_run (turns : List Turn) {n : Pid} {w : World} {paid : String → Prop}
    (h : BetweenTurns n w) (hc : Chronicle before paid w.store.db w.store.history) :
    Chronicle before
      (fun publicId => paid publicId ∨ PlacedByWebhook hmacSha256 cfg n turns w publicId)
      (takeTurns hmacSha256 cfg n turns w).store.db
      (takeTurns hmacSha256 cfg n turns w).store.history := by
  induction turns generalizing n w paid with
  | nil =>
    refine hc.congr fun publicId => ⟨.inl, ?_⟩
    rintro (hpaid | ⟨k, rawBody, signature, region, es, hk, _⟩)
    · exact hpaid
    · cases hk
  | cons turn turns ih =>
    cases turn with
    | call c es =>
      refine (ih (betweenTurns_call hmacSha256 cfg h c es)
        (chronicle_call hmacSha256 cfg h hc c es)).congr fun publicId => ?_
      rw [placedByWebhook_cons (fun _ => rfl), or_assoc]
      have hwebhook : c.IsWebhook ↔ ∃ rawBody signature region es',
          Turn.call c es = .call (.webhook rawBody signature region) es' := by
        constructor
        · cases c with
          | webhook rawBody signature region => exact fun _ => ⟨rawBody, signature, region, es, rfl⟩
          | _ => exact fun hfalse => hfalse.elim
        · rintro ⟨rawBody, signature, region, es', heq⟩
          cases heq
          trivial
      rw [hwebhook]
    | goOffline agentId es =>
      have hprog : Within (Write.MovesTo .accepted) (goOffline agentId) := within_goOffline agentId
      refine (ih (betweenTurns_goOffline h agentId es) (chronicle_moves h hc hprog es)).congr
        fun publicId => ?_
      rw [placedByWebhook_cons (fun _ => rfl)]
      simp
    | ext x =>
      have hsame : Chronicle before paid (machine.ext x w).store.db
          (machine.ext x w).store.history := by
        rw [ext_store]
        exact hc
      refine (ih (betweenTurns_ext h x) hsame).congr fun publicId => ?_
      rw [placedByWebhook_cons (fun _ => rfl)]
      simp

theorem chronicle_start {w : World} (hw : w.AtRest) (hempty : w.store.db.orders = []) :
    Chronicle w.store.db (fun _ => False) w.store.db w.store.history := by
  have hnone : ∀ publicId status, ¬HasBeen w.store.db w.store.history publicId status := by
    rintro publicId status ⟨past, future, heq, o, ho, _⟩
    rw [hw.history] at heq
    obtain ⟨rfl, _⟩ := List.append_eq_nil_iff.mp heq.symm
    change o ∈ w.store.db.orders at ho
    rw [hempty] at ho
    cases ho
  refine ⟨?_, ?_, fun publicId status hbeen => absurd hbeen (hnone publicId status),
    fun _ hpaid => hpaid.elim, ?_⟩
  · rw [hw.history]
    rfl
  · rw [hempty]
    exact fun o ho => absurd ho List.not_mem_nil
  · rw [hempty]
    exact fun o ho => absurd ho List.not_mem_nil

/-- From a shard without orders on, after any turns: the history of an order is sound exactly if
the order is not paid online, or a webhook has placed it. -/
theorem order_history_sound_iff (turns : List Turn) (w : World) (hw : w.AtRest)
    (hempty : w.store.db.orders = []) (items : List OrderItemEntity) :
    ∀ o ∈ (takeTurns hmacSha256 cfg 0 turns w).store.db.orders,
      SoundHistory (HasBeen w.store.db (takeTurns hmacSha256 cfg 0 turns w).store.history o.publicId)
          (OrderDetailsResponse.ofOrder o items).history ↔
        (o.paymentMethod = .online → PlacedByWebhook hmacSha256 cfg 0 turns w o.publicId) := by
  intro o ho
  have hbetween : BetweenTurns 0 w := betweenTurns_atRest hw hempty
  have hconsistent := (betweenTurns_run hmacSha256 cfg turns hbetween).rows o ho
  have hc := (chronicle_run hmacSha256 cfg turns hbetween (chronicle_start hw hempty)).congr
    fun publicId => iff_of_eq (false_or _)
  have hrow := hc.rows o ho
  constructor
  · intro hsound honline
    exact hc.online o ho honline (hsound.been _ (placed_mem_buildHistory o))
  · intro hpaid
    refine ⟨buildHistory_been hrow ?_, buildHistory_once o, buildHistory_ordered hconsistent⟩
    cases hmethod : o.paymentMethod with
    | online => exact hc.placed _ (hpaid hmethod)
    | cod =>
      have hfirst := hrow.first
      rw [hmethod] at hfirst
      exact hfirst

end Runs

section Samples

def placeOnlineOrder : Call :=
  .placeOrder ⟨5, .other "customer", none, none, none⟩ (some "eg") ⟨1, 1, .online, [⟨3, 1⟩]⟩

/-- An online order, and the webhook of its payment. -/
def paidTurns : List Turn :=
  [.call placeOnlineOrder (unhurried 17 kosharyAnswers),
   .call (.webhook (some (payBody "SUCCESS")) (paySignature "SUCCESS") "eg")
     (unhurried 24 kosharyAnswers)]

theorem order_history_sound_paid :
    ((takeTurns sampleHmac sampleConfig 0 paidTurns paymentsShard).store.db.orders.map
        fun o => (o.status, buildHistory o)) =
      [(.placed, [(.pendingPayment, 16000), (.placed, 16000)])] ∧
      ∀ o ∈ (takeTurns sampleHmac sampleConfig 0 paidTurns paymentsShard).store.db.orders,
        SoundHistory (HasBeen paymentsShard.store.db
            (takeTurns sampleHmac sampleConfig 0 paidTurns paymentsShard).store.history o.publicId)
          (OrderDetailsResponse.ofOrder o []).history := by
  refine ⟨by decide +kernel, fun o ho => ?_⟩
  have hplaced : ∀ o ∈ (takeTurns sampleHmac sampleConfig 0 paidTurns paymentsShard).store.db.orders,
      o.status = .placed := by decide +kernel
  exact (order_history_sound_iff sampleHmac sampleConfig paidTurns paymentsShard
    ⟨rfl, fun _ => rfl, rfl⟩ rfl [] o ho).mpr fun _ => ⟨1, _, _, _, _, rfl, o, ho, rfl, hplaced o ho⟩

/-- A new order that nobody has paid is shown as placed. -/
theorem unpaid_order_shown_placed :
    paymentsShard.AtRest ∧ paymentsShard.store.db.orders = [] ∧
    ∃ o ∈ (takeTurns sampleHmac sampleConfig 0 (paidTurns.take 1) paymentsShard).store.db.orders,
      o.status = .pendingPayment ∧
      ¬SoundHistory (HasBeen paymentsShard.store.db
          (takeTurns sampleHmac sampleConfig 0 (paidTurns.take 1) paymentsShard).store.history
          o.publicId)
        (OrderDetailsResponse.ofOrder o []).history := by
  have hrun : ∀ o ∈ (takeTurns sampleHmac sampleConfig 0 (paidTurns.take 1)
      paymentsShard).store.db.orders, o.status = .pendingPayment ∧
        ¬HasBeen paymentsShard.store.db (takeTurns sampleHmac sampleConfig 0 (paidTurns.take 1)
          paymentsShard).store.history o.publicId .placed := by
    decide +kernel
  have hsome : (takeTurns sampleHmac sampleConfig 0 (paidTurns.take 1)
      paymentsShard).store.db.orders ≠ [] := by decide +kernel
  obtain ⟨o, ho⟩ := List.exists_mem_of_ne_nil _ hsome
  obtain ⟨hpending, hnever⟩ := hrun o ho
  exact ⟨⟨rfl, fun _ => rfl, rfl⟩, rfl, o, ho, hpending, fun hsound =>
    hnever (hsound.been _ (placed_mem_buildHistory o))⟩

end Samples

end OrderService
