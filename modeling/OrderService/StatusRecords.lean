import OrderService.Effects
import OrderService.LifecycleStamps

/-! The statuses that an order has been in, and what the columns of its row say of them. -/
namespace OrderService
open ReadCommitted

section Statement

/-- After some commit of the history the order had the status. -/
def HasBeen (before : Db) (history : List (Pid × List Write)) (publicId : String)
    (status : OrderStatus) : Prop :=
  ∃ past future, history = past ++ future ∧
    ∃ o ∈ (tablesAfter before past).orders, o.publicId = publicId ∧ o.status = status

/-- The status whose time a column is. -/
def Stamp.status : Stamp → OrderStatus
  | .acceptedAt => .accepted
  | .rejectedAt => .rejected
  | .readyAt => .ready
  | .assignedAt => .assigned
  | .pickedAt => .picked
  | .deliveredAt => .delivered
  | .cancelledAt => .cancelled

/-- The status of a new order. -/
def PaymentMethod.firstStatus : PaymentMethod → OrderStatus
  | .online => .pendingPayment
  | .cod => .placed

/-- The order has been in its status, in its first one and in those whose columns are set. -/
structure RowRecorded (been : String → OrderStatus → Prop) (o : OrderEntity) : Prop where
  now : been o.publicId o.status
  first : been o.publicId o.paymentMethod.firstStatus
  columns : ∀ c, (o.column c).isSome → been o.publicId c.status

end Statement

section Past
variable {before : Db} {history cs : List (Pid × List Write)} {publicId : String}
  {status : OrderStatus}

theorem hasBeen_iff : HasBeen before history publicId status ↔
    ∃ k < history.length + 1, ∃ o ∈ (tablesAfter before (history.take k)).orders,
      o.publicId = publicId ∧ o.status = status := by
  constructor
  · rintro ⟨past, future, rfl, ho⟩
    refine ⟨past.length, by rw [List.length_append]; omega, ?_⟩
    rw [List.take_left]
    exact ho
  · rintro ⟨k, _, ho⟩
    exact ⟨history.take k, history.drop k, (List.take_append_drop k history).symm, ho⟩

instance : Decidable (HasBeen before history publicId status) :=
  decidable_of_iff _ hasBeen_iff.symm

theorem HasBeen.mono (h : HasBeen before history publicId status)
    (cs : List (Pid × List Write)) : HasBeen before (history ++ cs) publicId status := by
  obtain ⟨past, future, rfl, ho⟩ := h
  exact ⟨past, future ++ cs, List.append_assoc _ _ _, ho⟩

theorem hasBeen_now {o : OrderEntity} (ho : o ∈ (tablesAfter before history).orders) :
    HasBeen before history o.publicId o.status :=
  ⟨history, [], (List.append_nil _).symm, o, ho, rfl, rfl⟩

/-- What an order was along more commits, it was before them or after some of them. -/
theorem hasBeen_append (h : HasBeen before (history ++ cs) publicId status) :
    HasBeen before history publicId status ∨
      ∃ done left, cs = done ++ left ∧
        ∃ o ∈ (tablesAfter (tablesAfter before history) done).orders,
          o.publicId = publicId ∧ o.status = status := by
  obtain ⟨past, future, heq, ho⟩ := h
  rcases List.append_eq_append_iff.mp heq with ⟨done, rfl, rfl⟩ | ⟨left, rfl, rfl⟩
  · refine .inr ⟨done, future, rfl, ?_⟩
    rw [← tablesAfter_append]
    exact ho
  · exact .inl ⟨past, left, rfl, ho⟩

end Past

section Moves
variable {target : OrderStatus}

/-- What becomes of a row while orders are moved to `target` alone. -/
structure Became (target : OrderStatus) (o o' : OrderEntity) : Prop where
  publicId : o'.publicId = o.publicId
  paymentMethod : o'.paymentMethod = o.paymentMethod
  status : o'.status = o.status ∨ o'.status = target
  columns : ∀ c, (o'.column c).isSome →
    (o.column c).isSome ∨ c.status = target ∧ o'.status = target

theorem Became.refl (target : OrderStatus) (o : OrderEntity) : Became target o o :=
  ⟨rfl, rfl, .inl rfl, fun _ hc => .inl hc⟩

theorem Became.trans {a b c : OrderEntity} (hab : Became target a b) (hbc : Became target b c) :
    Became target a c where
  publicId := hbc.publicId.trans hab.publicId
  paymentMethod := hbc.paymentMethod.trans hab.paymentMethod
  status := by
    rcases hbc.status with hsame | hmoved
    · rw [hsame]
      exact hab.status
    · exact .inr hmoved
  columns := by
    intro col hset
    rcases hbc.columns col hset with hset | hnew
    · rcases hab.columns col hset with hset | ⟨hcol, hb⟩
      · exact .inl hset
      · -- The column was set on the way, and the status has stayed.
        refine .inr ⟨hcol, ?_⟩
        rcases hbc.status with hsame | hmoved
        · rw [hsame]
          exact hb
        · exact hmoved
    · exact .inr hnew

theorem became_of_stampedAs {c : Stamp} {now : Time} {o o' : OrderEntity}
    (hs : StampedAs o c now o') (hc : c.status = target) (hstatus : o'.status = target)
    (hid : o'.publicId = o.publicId) (hpaid : o'.paymentMethod = o.paymentMethod) :
    Became target o o' where
  publicId := hid
  paymentMethod := hpaid
  status := .inr hstatus
  columns := by
    intro col hset
    by_cases hcol : col = c
    · rw [hcol]
      exact .inr ⟨hc, hstatus⟩
    · rw [hs.columns, if_neg hcol] at hset
      exact .inl hset

theorem became_withStatus (o : OrderEntity) {stamp : Option Stamp} (now : Time)
    (hstamp : ∀ c ∈ stamp, c.status = target) : Became target o (o.withStatus target stamp now) := by
  cases stamp with
  | none => exact ⟨rfl, rfl, .inr rfl, fun c hset => .inl (by cases c <;> exact hset)⟩
  | some c =>
    exact became_of_stampedAs (stampedAs_withStatus o target c now) (hstamp c rfl)
      (withStatus_status _ _ _ _) (withStatus_publicId _ _ _ _) (withStatus_paymentMethod _ _ _ _)

/-- The writes that move orders to `target` alone, and set its column or none. -/
def Write.MovesTo (target : OrderStatus) : Write → Prop
  | .insertOrder _ => False
  | .setOrderStatus _ status stamp _ => status = target ∧ ∀ c ∈ stamp, c.status = target
  | .assignOrder .. => target = .assigned
  | _ => True

theorem rows_of_move {x : Write} (hx : x.MovesTo target) (db : Db) :
    ∃ f, (engine.apply x db).orders = db.orders.map f ∧ ∀ o, Became target o (f o) := by
  have hkept : ∃ f, db.orders = db.orders.map f ∧ ∀ o, Became target o (f o) :=
    ⟨id, (List.map_id _).symm, Became.refl target⟩
  cases x with
  | insertOrder row => exact absurd hx id
  | setOrderStatus publicId status stamp now =>
    obtain ⟨rfl, hstamp⟩ := hx
    refine ⟨_, rfl, fun o => ?_⟩
    split_ifs
    · exact became_withStatus o now hstamp
    · exact Became.refl status o
  | assignOrder publicId agentId now =>
    obtain rfl : target = .assigned := hx
    refine ⟨_, rfl, fun o => ?_⟩
    split_ifs
    · exact became_of_stampedAs (stampedAs_assignTo o agentId now) rfl rfl rfl rfl
    · exact Became.refl _ o
  | _ => exact hkept

theorem rows_of_moves {log : List Write} (hlog : ∀ x ∈ log, x.MovesTo target) (db : Db) :
    ∃ f, (engine.applyAll log db).orders = db.orders.map f ∧ ∀ o, Became target o (f o) := by
  induction log generalizing db with
  | nil => exact ⟨id, (List.map_id _).symm, Became.refl target⟩
  | cons x log ih =>
    obtain ⟨f, hf, hbecame⟩ := rows_of_move (hlog x List.mem_cons_self) db
    obtain ⟨g, hg, hbecame'⟩ := ih (fun y hy => hlog y (List.mem_cons_of_mem x hy))
      (engine.apply x db)
    refine ⟨g ∘ f, ?_, fun o => (hbecame o).trans (hbecame' (f o))⟩
    rw [applyAll_cons, hg, hf, List.map_map]

end Moves

section Entries

/-- The row of a new order. -/
structure NewRow (o : OrderEntity) : Prop where
  status : o.status = o.paymentMethod.firstStatus
  columns : ∀ c, o.column c = none

/-- The writes that touch the orders by inserting new ones alone. -/
def Write.Enters : Write → Prop
  | .insertOrder row => NewRow row
  | .setOrderStatus .. => False
  | .assignOrder .. => False
  | _ => True

theorem rows_of_entries {log : List Write} (hlog : ∀ x ∈ log, x.Enters) (db : Db) :
    ∃ new, (engine.applyAll log db).orders = db.orders ++ new ∧ ∀ o ∈ new, NewRow o := by
  induction log generalizing db with
  | nil => exact ⟨[], (List.append_nil _).symm, by simp⟩
  | cons x log ih =>
    have hstep : ∃ new, (engine.apply x db).orders = db.orders ++ new ∧ ∀ o ∈ new, NewRow o := by
      have hx := hlog x List.mem_cons_self
      cases x with
      | insertOrder row => exact ⟨[row], rfl, List.forall_mem_singleton.mpr hx⟩
      | setOrderStatus | assignOrder => exact absurd hx id
      | _ => exact ⟨[], (List.append_nil _).symm, by simp⟩
    obtain ⟨first, hfirst, hnew⟩ := hstep
    obtain ⟨rest, hrest, hnew'⟩ := ih (fun y hy => hlog y (List.mem_cons_of_mem x hy))
      (engine.apply x db)
    refine ⟨first ++ rest, ?_, List.forall_mem_append.mpr ⟨hnew, hnew'⟩⟩
    rw [applyAll_cons, hrest, hfirst, List.append_assoc]

end Entries

section Chronicle

/-- Commits of writes that satisfy `H` lead from one state to the other. -/
def Commits (H : Write → Prop) (db : Db) (history : List (Pid × List Write)) (db' : Db)
    (history' : List (Pid × List Write)) : Prop :=
  ∃ cs, history' = history ++ cs ∧ db' = tablesAfter db cs ∧ ∀ b ∈ cs, ∀ x ∈ b.2, H x

/-- The tables are those of the history, and every row is recorded in it. The online orders that
were ever placed are those of `paid`. -/
structure Chronicle (before : Db) (paid : String → Prop) (db : Db)
    (history : List (Pid × List Write)) : Prop where
  tables : db = tablesAfter before history
  rows : ∀ o ∈ db.orders, RowRecorded (HasBeen before history) o
  known : ∀ publicId status, HasBeen before history publicId status →
    ∃ o ∈ db.orders, o.publicId = publicId
  placed : ∀ publicId, paid publicId → HasBeen before history publicId .placed
  online : ∀ o ∈ db.orders, o.paymentMethod = .online →
    HasBeen before history o.publicId .placed → paid o.publicId

variable {before db db' : Db} {paid : String → Prop} {history history' : List (Pid × List Write)}
  {H : Write → Prop}

theorem commits_refl : Commits H db history db history :=
  ⟨[], (List.append_nil _).symm, rfl, by simp⟩

theorem commits_keptBy (p : Pid) : KeptBy (Commits H db history) p H := by
  rintro db' history' log ⟨cs, rfl, rfl, hcs⟩ hlog
  refine ⟨cs ++ [(p, log)], List.append_assoc _ _ _, ?_, ?_⟩
  · rw [tablesAfter_append, tablesAfter_singleton]
  · exact List.forall_mem_append.mpr ⟨hcs, List.forall_mem_singleton.mpr hlog⟩

theorem forall_flatMap_commits {cs : List (Pid × List Write)} (hcs : ∀ b ∈ cs, ∀ x ∈ b.2, H x) :
    ∀ x ∈ cs.flatMap Prod.snd, H x := by
  intro x hx
  obtain ⟨b, hb, hx⟩ := List.mem_flatMap.mp hx
  exact hcs b hb x hx

theorem Chronicle.congr {paid' : String → Prop} (h : Chronicle before paid db history)
    (hpaid : ∀ publicId, paid publicId ↔ paid' publicId) : Chronicle before paid' db history where
  tables := h.tables
  rows := h.rows
  known := h.known
  placed publicId hpaid' := h.placed publicId ((hpaid publicId).mpr hpaid')
  online o ho honline hbeen := (hpaid o.publicId).mp (h.online o ho honline hbeen)

theorem RowRecorded.mono {been been' : String → OrderStatus → Prop} {o : OrderEntity}
    (h : RowRecorded been o) (hle : ∀ publicId status, been publicId status →
      been' publicId status) : RowRecorded been' o :=
  ⟨hle _ _ h.now, hle _ _ h.first, fun c hset => hle _ _ (h.columns c hset)⟩

theorem RowRecorded.became {been : String → OrderStatus → Prop} {target : OrderStatus}
    {o o' : OrderEntity} (h : RowRecorded been o) (hbecame : Became target o o')
    (hnow : been o'.publicId o'.status) : RowRecorded been o' where
  now := hnow
  first := by
    rw [hbecame.publicId, hbecame.paymentMethod]
    exact h.first
  columns := by
    intro c hset
    rcases hbecame.columns c hset with hset | ⟨hcol, hmoved⟩
    · rw [hbecame.publicId]
      exact h.columns c hset
    · rw [hcol, ← hmoved]
      exact hnow

theorem NewRow.recorded {been : String → OrderStatus → Prop} {o : OrderEntity} (h : NewRow o)
    (hnow : been o.publicId o.status) : RowRecorded been o where
  now := hnow
  first := by
    rw [← h.status]
    exact hnow
  columns := by
    intro c hset
    rw [h.columns c] at hset
    cases hset

/-- Moving orders to one status records it, and leaves all else that is known of them. -/
theorem Chronicle.moved {target : OrderStatus} (h : Chronicle before paid db history)
    (hc : Commits (Write.MovesTo target) db history db' history') :
    Chronicle before (fun publicId => paid publicId ∨ target = .placed ∧
      ∃ o ∈ db'.orders, o.publicId = publicId ∧ o.status = .placed) db' history' := by
  obtain ⟨cs, rfl, rfl, hcs⟩ := hc
  have htables : tablesAfter db cs = tablesAfter before (history ++ cs) := by
    rw [h.tables, tablesAfter_append]
  have hnow : ∀ o ∈ (tablesAfter db cs).orders,
      HasBeen before (history ++ cs) o.publicId o.status := by
    intro o ho
    rw [htables] at ho
    exact hasBeen_now ho
  -- The rows after some of the commits come from those before, and go on to those at the end.
  have hrows : ∀ done left, cs = done ++ left →
      ∃ f, (tablesAfter db done).orders = db.orders.map f ∧ ∀ o, Became target o (f o) := by
    rintro done left rfl
    exact rows_of_moves (forall_flatMap_commits (List.forall_mem_append.mp hcs).1) db
  obtain ⟨f, hf, hbecame⟩ := hrows cs [] (List.append_nil _).symm
  constructor
  case tables => exact htables
  case rows =>
    intro o' ho'
    have hstatus := hnow o' ho'
    rw [hf] at ho'
    obtain ⟨o, ho, rfl⟩ := List.mem_map.mp ho'
    exact ((h.rows o ho).mono fun _ _ hbeen => hbeen.mono cs).became (hbecame o) hstatus
  case known =>
    intro publicId status hbeen
    have hid : ∃ o ∈ db.orders, o.publicId = publicId := by
      rcases hasBeen_append hbeen with hbeen | ⟨done, left, heq, o', ho', hid, _⟩
      · exact h.known publicId status hbeen
      · obtain ⟨g, hg, hbecame'⟩ := hrows done left heq
        rw [← h.tables, hg] at ho'
        obtain ⟨o, ho, rfl⟩ := List.mem_map.mp ho'
        exact ⟨o, ho, (hbecame' o).publicId.symm.trans hid⟩
    obtain ⟨o, ho, hid⟩ := hid
    refine ⟨f o, ?_, (hbecame o).publicId.trans hid⟩
    rw [hf]
    exact List.mem_map_of_mem ho
  case placed =>
    rintro publicId (hpaid | ⟨_, o, ho, rfl, hplaced⟩)
    · exact (h.placed publicId hpaid).mono cs
    · rw [← hplaced]
      exact hnow o ho
  case online =>
    intro o' ho' honline hbeen
    rw [hf] at ho'
    obtain ⟨o, ho, rfl⟩ := List.mem_map.mp ho'
    rw [(hbecame o).paymentMethod] at honline
    rw [(hbecame o).publicId] at hbeen ⊢
    rcases hasBeen_append hbeen with hbeen | ⟨done, left, heq, u', hu', hid, hplaced⟩
    · exact .inl (h.online o ho honline hbeen)
    obtain ⟨g, hg, hbecame'⟩ := hrows done left heq
    by_cases htarget : target = .placed
    · -- Placed on the way, and only moved to `placed` afterwards.
      subst htarget heq
      obtain ⟨k, hk, hbecame''⟩ := rows_of_moves
        (forall_flatMap_commits (List.forall_mem_append.mp hcs).2) (tablesAfter db done)
      rw [← h.tables] at hu'
      refine .inr ⟨rfl, k u', ?_, (hbecame'' u').publicId.trans hid, ?_⟩
      · rw [tablesAfter_append]
        change k u' ∈ (engine.applyAll _ _).orders
        rw [hk]
        exact List.mem_map_of_mem hu'
      · rcases (hbecame'' u').status with hsame | hmoved
        · rw [hsame]
          exact hplaced
        · exact hmoved
    · -- It was placed before already.
      rw [← h.tables, hg] at hu'
      obtain ⟨u, hu, rfl⟩ := List.mem_map.mp hu'
      have hsame : u.status = .placed := by
        rcases (hbecame' u).status with hsame | hmoved
        · exact hsame.symm.trans hplaced
        · exact absurd (hmoved.symm.trans hplaced) htarget
      have hearlier : HasBeen before history u.publicId u.status := by
        rw [h.tables] at hu
        exact hasBeen_now hu
      rw [hsame, (hbecame' u).publicId.symm, hid] at hearlier
      exact .inl (h.online o ho honline hearlier)

/-- New orders are recorded with their first status. -/
theorem Chronicle.entered (h : Chronicle before paid db history)
    (hc : Commits Write.Enters db history db' history')
    (hdistinct : (db'.orders.map OrderEntity.publicId).Nodup) :
    Chronicle before paid db' history' := by
  obtain ⟨cs, rfl, rfl, hcs⟩ := hc
  have htables : tablesAfter db cs = tablesAfter before (history ++ cs) := by
    rw [h.tables, tablesAfter_append]
  have hmore : ∀ done left, cs = done ++ left →
      ∃ new, (tablesAfter db done).orders = db.orders ++ new ∧ ∀ o ∈ new, NewRow o := by
    rintro done left rfl
    exact rows_of_entries (forall_flatMap_commits (List.forall_mem_append.mp hcs).1) db
  have hstays : ∀ done left, cs = done ++ left →
      ∀ o ∈ (tablesAfter db done).orders, o ∈ (tablesAfter db cs).orders := by
    rintro done left rfl o ho
    obtain ⟨new, hnew, _⟩ := rows_of_entries
      (forall_flatMap_commits (List.forall_mem_append.mp hcs).2) (tablesAfter db done)
    rw [tablesAfter_append]
    change o ∈ (engine.applyAll _ _).orders
    rw [hnew]
    exact List.mem_append_left new ho
  have hold : ∀ o ∈ db.orders, o ∈ (tablesAfter db cs).orders := hstays [] cs rfl
  constructor
  case tables => exact htables
  case rows =>
    obtain ⟨new, hnew, hfresh⟩ := hmore cs [] (List.append_nil _).symm
    intro o ho
    have hstatus : HasBeen before (history ++ cs) o.publicId o.status := by
      rw [htables] at ho
      exact hasBeen_now ho
    rw [hnew] at ho
    rcases List.mem_append.mp ho with ho | ho
    · exact (h.rows o ho).mono fun _ _ hbeen => hbeen.mono cs
    · exact (hfresh o ho).recorded hstatus
  case known =>
    intro publicId status hbeen
    rcases hasBeen_append hbeen with hbeen | ⟨done, left, heq, o, ho, hid, _⟩
    · obtain ⟨o, ho, hid⟩ := h.known publicId status hbeen
      exact ⟨o, hold o ho, hid⟩
    · rw [← h.tables] at ho
      exact ⟨o, hstays done left heq o ho, hid⟩
  case placed => exact fun publicId hpaid => (h.placed publicId hpaid).mono cs
  case online =>
    intro o ho honline hbeen
    -- No other row has the public id.
    have honly : ∀ u ∈ (tablesAfter db cs).orders, u.publicId = o.publicId → u = o :=
      fun u hu hid => List.inj_on_of_nodup_map hdistinct hu ho hid
    have hbefore : HasBeen before history o.publicId .placed → paid o.publicId := by
      intro hbeen
      obtain ⟨u, hu, hid⟩ := h.known _ _ hbeen
      rw [honly u (hold u hu) hid] at hu
      exact h.online o hu honline hbeen
    rcases hasBeen_append hbeen with hbeen | ⟨done, left, heq, u, hu, hid, hplaced⟩
    · exact hbefore hbeen
    rw [← h.tables] at hu
    have hsame : u = o := honly u (hstays done left heq u hu) hid
    rw [hsame] at hu hplaced
    obtain ⟨new, hnew, hfresh⟩ := hmore done left heq
    rw [hnew] at hu
    rcases List.mem_append.mp hu with hu | hu
    · apply hbefore
      rw [← hplaced]
      rw [h.tables] at hu
      exact hasBeen_now hu
    · -- A new online order awaits its payment.
      have hpending := (hfresh o hu).status
      rw [hplaced, honline] at hpending
      cases hpending

end Chronicle

end OrderService
