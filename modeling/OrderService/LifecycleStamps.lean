import OrderService.StatusHistory

/-! The timestamps of an order row: which of them its status sets, and in which order. -/
namespace OrderService
open ReadCommitted

section Statement

def OrderEntity.column (o : OrderEntity) : Stamp → Option Time
  | .acceptedAt => o.acceptedAt
  | .rejectedAt => o.rejectedAt
  | .readyAt => o.readyAt
  | .assignedAt => o.assignedAt
  | .pickedAt => o.pickedAt
  | .deliveredAt => o.deliveredAt
  | .cancelledAt => o.cancelledAt

/-- Whether the column is set while an order has the status. An order may be cancelled before or
after the steps on its way. -/
def Stamp.setIn : Stamp → OrderStatus → Option Bool
  | .acceptedAt, .cancelled => none
  | .acceptedAt, s => some (s ∈ [.accepted, .preparing, .ready, .assigned, .picked, .delivered])
  | .readyAt, .cancelled => none
  | .readyAt, s => some (s ∈ [.ready, .assigned, .picked, .delivered])
  | .assignedAt, .cancelled => none
  | .assignedAt, s => some (s ∈ [.assigned, .picked, .delivered])
  | .pickedAt, s => some (s ∈ [.picked, .delivered])
  | .deliveredAt, s => some (s = .delivered)
  | .rejectedAt, s => some (s = .rejected)
  | .cancelledAt, s => some (s = .cancelled)

/-- The stamps in the order of the lifecycle; the two other ends come last. -/
def lifecycle : List Stamp :=
  [.acceptedAt, .readyAt, .assignedAt, .pickedAt, .deliveredAt, .rejectedAt, .cancelledAt]

def OrderEntity.stamps (o : OrderEntity) : List (Option Time) :=
  some o.createdAt :: lifecycle.map o.column

/-- Of two columns that are both set, the first is not later than the second. -/
def NotAfter (a b : Option Time) : Prop := ∀ x ∈ a, ∀ y ∈ b, x ≤ y

/-- The columns of a row agree with its status and with each other. -/
structure RowConsistent (o : OrderEntity) : Prop where
  agent : o.deliveryAgentId.isSome = o.assignedAt.isSome
  columns : ∀ c b, c.setIn o.status = some b → (o.column c).isSome = b
  ordered : o.stamps.Pairwise NotAfter

end Statement

section Stamps
variable {o : OrderEntity} {now : Time}

/-- No stamp of the order is later than `now`. -/
def OrderEntity.StampedBy (o : OrderEntity) (now : Time) : Prop :=
  ∀ a ∈ o.stamps, ∀ x ∈ a, x ≤ now

theorem OrderEntity.StampedBy.mono {later : Time} (h : o.StampedBy now) (hle : now ≤ later) :
    o.StampedBy later :=
  fun a ha x hx => Nat.le_trans (h a ha x hx) hle

/-- A column may be stamped with a time that no stamp exceeds, as long as nothing after it is
set. -/
theorem pairwise_stamp {l : List (Option Time)} {i : Nat} (h : l.Pairwise NotAfter)
    (hpast : ∀ a ∈ l, ∀ x ∈ a, x ≤ now) (hfuture : ∀ a ∈ l.drop (i + 1), a = none) :
    (l.set i (some now)).Pairwise NotAfter := by
  induction l generalizing i with
  | nil => exact List.Pairwise.nil
  | cons a l ih =>
    obtain ⟨hhead, htail⟩ := List.pairwise_cons.mp h
    have hpast' : ∀ b ∈ l, ∀ x ∈ b, x ≤ now :=
      fun b hb => hpast b (List.mem_cons_of_mem a hb)
    cases i with
    | zero =>
      refine List.pairwise_cons.mpr ⟨fun b hb x _ y hy => ?_, htail⟩
      rw [hfuture b hb] at hy
      cases hy
    | succ i =>
      refine List.pairwise_cons.mpr ⟨fun b hb => ?_, ih htail hpast' hfuture⟩
      rcases List.mem_or_eq_of_mem_set hb with hb | rfl
      · exact hhead b hb
      · rintro x hx _ ⟨⟩
        exact hpast a List.mem_cons_self x hx

/-- The rows that agree with `o` but for one stamp and the status. -/
structure StampedAs (o : OrderEntity) (c : Stamp) (now : Time) (o' : OrderEntity) : Prop where
  columns : ∀ c', o'.column c' = if c' = c then some now else o.column c'
  stamps : o'.stamps = o.stamps.set (lifecycle.idxOf c + 1) (some now)

theorem StampedAs.stampedBy {c : Stamp} {o' : OrderEntity} (hs : StampedAs o c now o')
    (h : o.StampedBy now) : o'.StampedBy now := by
  intro a ha x hx
  rw [hs.stamps] at ha
  rcases List.mem_or_eq_of_mem_set ha with ha | rfl
  · exact h a ha x hx
  · cases hx
    exact Nat.le_refl now

theorem stampedAs_withStatus (o : OrderEntity) (status : OrderStatus) (c : Stamp) (now : Time) :
    StampedAs o c now (o.withStatus status (some c) now) := by
  refine ⟨fun c' => ?_, ?_⟩
  · cases c <;> cases c' <;> rfl
  · cases c <;> rfl

theorem OrderEntity.StampedBy.withStatus (h : o.StampedBy now) (status : OrderStatus)
    (stamp : Option Stamp) : (o.withStatus status stamp now).StampedBy now := by
  cases stamp with
  | none => exact h
  | some c => exact (stampedAs_withStatus o status c now).stampedBy h

theorem stampedAs_assignTo (o : OrderEntity) (agentId : Nat) (now : Time) :
    StampedAs o .assignedAt now (o.assignTo agentId now) := by
  refine ⟨fun c' => ?_, rfl⟩
  cases c' <;> rfl

end Stamps

section Moves
variable {o : OrderEntity} {now : Time} {target : OrderStatus} {rule : TransitionRule}

/-- A rule sets the columns of its target that its source does not have set yet. -/
theorem setIn_target {source : OrderStatus} (hrule : transitions source target = some rule)
    {c : Stamp} {b : Bool} (hb : c.setIn target = some b) :
    rule.stamp = some c ∧ b = true ∨ rule.stamp ≠ some c ∧ c.setIn source = some b := by
  cases source <;> cases target <;> cases hrule <;> cases c <;> cases hb <;> decide

/-- Where a rule sets a column, those after it are not set. -/
theorem unset_after {source : OrderStatus} (hrule : transitions source target = some rule)
    {c c' : Stamp} (hc : rule.stamp = some c) (hafter : c' ∈ lifecycle.drop (lifecycle.idxOf c + 1)) :
    c'.setIn source = some false := by
  revert hafter
  cases source <;> cases target <;> cases hrule <;> cases hc <;> cases c' <;> decide

/-- A row that a rule moves, with the rule's stamp, still has the columns of its status. -/
theorem RowConsistent.stampedAs {c : Stamp} {o' : OrderEntity} (h : RowConsistent o)
    (hpast : o.StampedBy now) (hs : StampedAs o c now o')
    (hrule : transitions o.status o'.status = some rule) (hc : rule.stamp = some c)
    (hagent : o'.deliveryAgentId.isSome = o'.assignedAt.isSome) : RowConsistent o' where
  agent := hagent
  columns c' b hb := by
    rw [hs.columns]
    rcases setIn_target hrule hb with ⟨hstamp, rfl⟩ | ⟨hstamp, hsource⟩
    · have hsame : c' = c := by
        rw [hc, Option.some.injEq] at hstamp
        exact hstamp.symm
      rw [if_pos hsame]
      rfl
    · have hother : c' ≠ c := by
        rintro rfl
        exact hstamp hc
      rw [if_neg hother]
      exact h.columns c' b hsource
  ordered := by
    rw [hs.stamps]
    refine pairwise_stamp h.ordered hpast fun a ha => ?_
    have hdrop : o.stamps.drop (lifecycle.idxOf c + 1 + 1)
        = (lifecycle.drop (lifecycle.idxOf c + 1)).map o.column := by
      rw [OrderEntity.stamps, List.drop_succ_cons, List.map_drop]
    rw [hdrop] at ha
    obtain ⟨c', hc', rfl⟩ := List.mem_map.mp ha
    exact Option.not_isSome_iff_eq_none.mp (by
      rw [h.columns c' false (unset_after hrule hc hc')]
      exact Bool.false_ne_true)

/-- Only the assignment sets an agent, so every other rule keeps the two together. -/
theorem RowConsistent.withStatus (h : RowConsistent o) (hpast : o.StampedBy now)
    (hrule : transitions o.status target = some rule) (htarget : target ≠ .assigned) :
    RowConsistent (o.withStatus target rule.stamp now) := by
  cases hstamp : rule.stamp with
  | none =>
    refine ⟨h.agent, fun c b hb => ?_, h.ordered⟩
    rcases setIn_target hrule hb with ⟨hsome, _⟩ | ⟨_, hsource⟩
    · rw [hstamp] at hsome
      cases hsome
    · have hsame := h.columns c b hsource
      cases c <;> exact hsame
  | some c =>
    have hs := stampedAs_withStatus o target c now
    have hstatus := withStatus_status o target (some c) now
    refine h.stampedAs hpast hs (by rw [hstatus]; exact hrule) hstamp ?_
    have hother : Stamp.assignedAt ≠ c := by
      rintro rfl
      apply htarget
      revert hstamp
      cases hsource : o.status <;> rw [hsource] at hrule <;> cases target <;> cases hrule <;>
        intro hstamp <;> cases hstamp
      rfl
    have hassigned := hs.columns .assignedAt
    rw [if_neg hother] at hassigned
    change _ = Option.isSome (OrderEntity.column _ .assignedAt)
    rw [hassigned, withStatus_deliveryAgentId]
    exact h.agent

theorem RowConsistent.assignTo (h : RowConsistent o) (hpast : o.StampedBy now)
    (hfree : o.claimable = true) (agentId : Nat) : RowConsistent (o.assignTo agentId now) := by
  have hready : o.status = .ready := by
    simp only [OrderEntity.claimable, Bool.and_eq_true, decide_eq_true_eq] at hfree
    exact hfree.1
  have hrule : transitions o.status .assigned = some ⟨[.system], some .assignedAt, false⟩ := by
    rw [hready]
    rfl
  exact h.stampedAs hpast (stampedAs_assignTo o agentId now) hrule rfl rfl

theorem rowConsistent_toEntity {d : OrderData} {id ownerId : Nat}
    (hstatus : d.status = .placed ∨ d.status = .pendingPayment) :
    RowConsistent (d.toEntity id ownerId now) where
  agent := rfl
  columns c b hb := by
    change c.setIn d.status = some b at hb
    rcases hstatus with hstatus | hstatus <;> rw [hstatus] at hb <;> cases c <;> cases hb <;> rfl
  ordered := by
    refine List.pairwise_cons.mpr ⟨fun a ha x _ y hy => ?_, ?_⟩
    · obtain ⟨c, _, rfl⟩ := List.mem_map.mp ha
      cases c <;> cases hy
    · refine List.pairwise_map.mpr (List.pairwise_of_forall fun c c' x hx => ?_)
      cases c <;> cases hx

end Moves

section Tables
variable {db : Db} {uuids uuids' : List String} {clock now : Time} {publicId : String}

/-- Every row is consistent, and stamped by now; no two have the same public id. -/
structure OrdersConsistent (orders : List OrderEntity) (uuids : List String) (clock : Time) :
    Prop where
  rows : ∀ o ∈ orders, RowConsistent o
  stamped : ∀ o ∈ orders, o.StampedBy clock
  named : ∀ o ∈ orders, o.publicId ∈ uuids
  distinct : (orders.map OrderEntity.publicId).Nodup

theorem OrdersConsistent.mono {orders : List OrderEntity} {later : Time}
    (h : OrdersConsistent orders uuids clock) (huuids : uuids ⊆ uuids') (hle : clock ≤ later) :
    OrdersConsistent orders uuids' later :=
  ⟨h.rows, fun o ho => (h.stamped o ho).mono hle, fun o ho => huuids (h.named o ho), h.distinct⟩

/-- The rows with a public id are the one that a statement finds. -/
theorem OrdersConsistent.only {o o' : OrderEntity} (h : OrdersConsistent db.orders uuids clock)
    (ho : db.order publicId = some o) (ho' : o' ∈ db.orders) (hid : o'.publicId = publicId) :
    o' = o := by
  have hmem := List.mem_of_find?_eq_some ho
  have hfound : o.publicId = publicId := by simpa using List.find?_some ho
  exact List.inj_on_of_nodup_map h.distinct ho' hmem (hid.trans hfound.symm)

/-- An update of some rows that keeps their public ids. -/
theorem OrdersConsistent.map {orders : List OrderEntity} {f : OrderEntity → OrderEntity}
    (h : OrdersConsistent orders uuids clock) (hid : ∀ o, (f o).publicId = o.publicId)
    (hf : ∀ o ∈ orders, RowConsistent (f o) ∧ (f o).StampedBy clock) :
    OrdersConsistent (orders.map f) uuids clock where
  rows := by
    intro o' ho'
    obtain ⟨o, ho, rfl⟩ := List.mem_map.mp ho'
    exact (hf o ho).1
  stamped := by
    intro o' ho'
    obtain ⟨o, ho, rfl⟩ := List.mem_map.mp ho'
    exact (hf o ho).2
  named := by
    intro o' ho'
    obtain ⟨o, ho, rfl⟩ := List.mem_map.mp ho'
    rw [hid]
    exact h.named o ho
  distinct := by
    have hsame : (orders.map f).map OrderEntity.publicId = orders.map OrderEntity.publicId := by
      rw [List.map_map]
      exact List.map_congr_left fun o _ => hid o
    rw [hsame]
    exact h.distinct

theorem OrdersConsistent.move {o : OrderEntity} {target : OrderStatus} {rule : TransitionRule}
    (h : OrdersConsistent db.orders uuids clock) (hpast : ∀ o ∈ db.orders, o.StampedBy now)
    (hnow : now ≤ clock) (ho : db.order publicId = some o)
    (hrule : transitions o.status target = some rule) (htarget : target ≠ .assigned) :
    OrdersConsistent (engine.apply (.setOrderStatus publicId target rule.stamp now) db).orders
      uuids clock := by
  refine h.map (fun o' => ?_) fun o' ho' => ?_
  · split_ifs
    · exact withStatus_publicId _ _ _ _
    · rfl
  · split_ifs with hid
    · obtain rfl := h.only ho ho' hid
      refine ⟨(h.rows o' ho').withStatus (hpast o' ho') hrule htarget, ?_⟩
      exact ((hpast o' ho').withStatus target rule.stamp).mono hnow
    · exact ⟨h.rows o' ho', h.stamped o' ho'⟩

theorem OrdersConsistent.assign (h : OrdersConsistent db.orders uuids clock)
    (hpast : ∀ o ∈ db.orders, o.StampedBy now) (hnow : now ≤ clock) (agentId : Nat) :
    OrdersConsistent (engine.apply (.assignOrder publicId agentId now) db).orders uuids clock := by
  refine h.map (fun o' => ?_) fun o' ho' => ?_
  · split_ifs <;> rfl
  · split_ifs with hfree
    · refine ⟨(h.rows o' ho').assignTo (hpast o' ho') hfree.2 agentId, ?_⟩
      exact ((stampedAs_assignTo o' agentId now).stampedBy (hpast o' ho')).mono hnow
    · exact ⟨h.rows o' ho', h.stamped o' ho'⟩

theorem OrdersConsistent.insert {d : OrderData} {id ownerId : Nat}
    (h : OrdersConsistent db.orders uuids clock) (hnow : now ≤ clock)
    (hstatus : d.status = .placed ∨ d.status = .pendingPayment) (huuid : d.publicId ∈ uuids)
    (hfresh : d.publicId ∉ db.orders.map OrderEntity.publicId) :
    OrdersConsistent (engine.apply (.insertOrder (d.toEntity id ownerId now)) db).orders uuids
      clock where
  rows := List.forall_mem_append.mpr ⟨h.rows,
    List.forall_mem_singleton.mpr (rowConsistent_toEntity hstatus)⟩
  stamped := by
    refine List.forall_mem_append.mpr ⟨h.stamped, List.forall_mem_singleton.mpr ?_⟩
    intro a ha x hx
    rcases List.mem_cons.mp ha with rfl | ha
    · cases hx
      exact hnow
    · obtain ⟨c, _, rfl⟩ := List.mem_map.mp ha
      cases c <;> cases hx
  named := List.forall_mem_append.mpr ⟨h.named, List.forall_mem_singleton.mpr huuid⟩
  distinct := by
    change ((db.orders ++ [_]).map OrderEntity.publicId).Nodup
    rw [List.map_append, List.map_singleton]
    exact List.nodup_append_comm.mp (List.nodup_cons.mpr ⟨hfresh, h.distinct⟩)

end Tables

end OrderService
