import OrderService.Isolation

/-! What a program can write, read off its statements, and the rules for programs all of whose
writes are of one kind. -/
namespace OrderService
open ReadCommitted Interleaving

/-- The writes that a statement can come to, on any tables. -/
def Sql.MayWrite : Sql → Write → Prop
  | .createOrder data now, x => ∃ id ownerId, data.restaurantOwnerId = some ownerId ∧
      x = .insertOrder (data.toEntity id ownerId now)
  | .updateOrderStatus publicId status stamp now, x => x = .setOrderStatus publicId status stamp now
  | .claimReadyOrderForAgent publicId agentId now, x => x = .assignOrder publicId agentId now
  | .bulkInsertItems _ _, x => ∃ row, x = .insertOrderItem row
  | .createPaymentSession data now, x => ∃ id, x = .insertSession
      { data with id := id, createdAt := now, updatedAt := now }
  | .updatePaymentSessionStatus id status now, x => x = .setSessionStatus id status now
  | .insertWebhookEvent data now, x => ∃ id, x = .insertWebhookEvent
      { data with id := id, receivedAt := now, processedAt := none, processError := none }
  | .updateWebhookEventStatus id processedAt processError, x =>
    x = .setWebhookEvent id processedAt processError
  | .createTransaction data now, x => ∃ id, x = .insertTransaction (data.toEntity id now)
  | .updateTransactionStatus id status now, x => x = .setTransactionStatus id status now
  | .markTransactionAsRefunded id now, x => x = .markRefunded id now
  | .upsertBalance restaurantId region currency delta, x =>
    x = .addBalance restaurantId region currency delta
  | .insertEarning data, x => ∃ id clock, x = .insertEarning
      { data with id := id, earnedAt := clock }
  | .insertOutboxEvent input, x => ∃ id clock, x = .insertOutbox
      { input with id := id, createdAt := clock }
  | _, _ => False

theorem Sql.mayWrite_of_mem {seqs : Seqs} {clock : Time} {q : Sql} {db : Db} {x : Write}
    (h : x ∈ (q.eval seqs clock db).writes) : q.MayWrite x := by
  cases q with
  | createOrder data now =>
    simp only [Sql.eval] at h
    split at h
    · cases h
    · next ownerId hid => exact ⟨seqs.orders, ownerId, hid, List.mem_singleton.mp h⟩
  | updateOrderStatus publicId status stamp now =>
    simp only [Sql.eval] at h
    split at h
    · cases h
    · exact List.mem_singleton.mp h
  | claimReadyOrderForAgent publicId agentId now =>
    simp only [Sql.eval] at h
    split at h
    · cases h
    · exact List.mem_singleton.mp h
  | bulkInsertItems items now =>
    simp only [Sql.eval] at h
    split at h
    · obtain ⟨row, _, rfl⟩ := List.mem_map.mp h
      exact ⟨row, rfl⟩
    · cases h
  | createPaymentSession data now =>
    simp only [Sql.eval] at h
    split at h
    · cases h
    · exact ⟨seqs.paymentSessions, List.mem_singleton.mp h⟩
  | updatePaymentSessionStatus id status now =>
    simp only [Sql.eval] at h
    split at h
    · cases h
    · exact List.mem_singleton.mp h
  | insertWebhookEvent data now =>
    simp only [Sql.eval] at h
    split at h
    · cases h
    · exact ⟨seqs.webhookEvents, List.mem_singleton.mp h⟩
  | updateWebhookEventStatus id processedAt processError => exact List.mem_singleton.mp h
  | createTransaction data now =>
    simp only [Sql.eval] at h
    split at h
    · cases h
    · exact ⟨seqs.transactions, List.mem_singleton.mp h⟩
  | updateTransactionStatus id status now =>
    simp only [Sql.eval] at h
    split at h
    · cases h
    · exact List.mem_singleton.mp h
  | markTransactionAsRefunded id now => exact List.mem_singleton.mp h
  | lockBalance restaurantId currency =>
    simp only [Sql.eval] at h
    split at h <;> cases h
  | upsertBalance restaurantId region currency delta => exact List.mem_singleton.mp h
  | insertEarning data =>
    simp only [Sql.eval] at h
    split at h
    · cases h
    · exact ⟨seqs.agentEarnings, clock, List.mem_singleton.mp h⟩
  | insertOutboxEvent input => exact ⟨seqs.eventsOutbox, clock, List.mem_singleton.mp h⟩
  | _ => cases h

section Harmless
variable {I : Db → List (Pid × List Write) → Prop} {ok : Pid → Op → Env → World → Prop}
  {p : Pid} {H : Write → Prop} {α : Type}

/-- Every write that the operation can come to satisfies `H`. -/
def Op.Harmless (H : Write → Prop) : Op → Prop
  | .sql _ q => ∀ x, q.MayWrite x → H x
  | _ => True

/-- No operation adds a write to a transaction that `H` does not allow. -/
theorem log_exec {o : Op} {e : Env} {w w' : World} {r : Except Err o.Res}
    (hx : exec p o e w = some (r, w')) (ho : o.Harmless H) (hlog : ∀ x ∈ w.log p, H x) :
    ∀ x ∈ w'.log p, H x := by
  have hs := exec_store hx
  have hsame : w'.store = w.store → ∀ x ∈ w'.log p, H x := by
    intro heq x hmem
    rw [World.log, heq] at hmem
    exact hlog x hmem
  have hclosed : w'.store.txn p = .closed ∨ w'.store.txn p = .active [] →
      ∀ x ∈ w'.log p, H x := by
    intro htxn x hmem
    rcases htxn with htxn | htxn <;> rw [World.log, htxn] at hmem <;> cases hmem
  cases o with
  | sql c q =>
    cases c with
    | pool =>
      rcases hs with hs | ⟨a, hs⟩
      · exact hsame hs
      · obtain ⟨_, _, hs⟩ := autocommit_cases hs
        intro x hmem
        rw [World.log, hs] at hmem
        exact hlog x hmem
    | trx =>
      rcases hs with hs | ⟨a, hs⟩
      · exact hsame hs
      · rcases query_cases hs with ⟨_, hs, _⟩ | ⟨log, hactive, _, _, hs⟩
        · exact hsame hs
        · intro x hmem
          rw [World.log, hs] at hmem
          simp only [Function.update_self, Txn.log, List.mem_append] at hmem
          rcases hmem with hmem | hmem
          · exact hlog x (by rw [World.log, hactive]; exact hmem)
          · exact ho x (Sql.mayWrite_of_mem hmem)
  | commit =>
    rcases hs with hs | hs | hs
    · exact hclosed (.inl (by rw [hs]; exact Function.update_self _ _ _))
    · exact hsame hs
    · obtain ⟨_, _, hs⟩ := commit_cases hs
      exact hclosed (.inl (by rw [hs]; exact Function.update_self _ _ _))
  | start =>
    rcases hs with hs | hs
    · exact hsame hs
    · exact hclosed (.inr (by rw [hs]; exact Function.update_self _ _ _))
  | rollback =>
    have hs : w'.store = w.store.rollback p := hs
    exact hclosed (.inl (by rw [hs]; exact Function.update_self _ _ _))
  | _ => exact hsame hs

/-- The invariant is kept by every commit of writes that satisfy `H`. -/
def KeptBy (I : Db → List (Pid × List Write) → Prop) (p : Pid) (H : Write → Prop) : Prop :=
  ∀ db history log, I db history → (∀ x ∈ log, H x) →
    I (engine.applyAll log db) (history ++ [(p, log)])

theorem inv_exec (hI : KeptBy I p H) {o : Op} {e : Env} {w w' : World} {r : Except Err o.Res}
    (hx : exec p o e w = some (r, w')) (ho : o.Harmless H) (hlog : ∀ x ∈ w.log p, H x)
    (hi : (sharedSpec I).inv w) : (sharedSpec I).inv w' := by
  by_cases hc : o.commits = false
  · exact (sharedSpec_isolated I p).quiet o e w r w' hc hi hx
  refine ⟨exec_locked hi.1 hx, ?_⟩
  have hs := exec_store hx
  have hsame : w'.store.db = w.store.db → w'.store.history = w.store.history →
      I w'.store.db w'.store.history := by
    intro hdb hhist
    rw [hdb, hhist]
    exact hi.2
  cases o with
  | sql c q =>
    cases c with
    | pool =>
      rcases hs with hs | ⟨a, hs⟩
      · exact hsame (by rw [hs]) (by rw [hs])
      · obtain ⟨_, _, hs⟩ := autocommit_cases hs
        by_cases hempty : (w.onPool q).writes = []
        · have hempty' : (q.eval w.seqs w.clock w.store.db).writes = [] := hempty
          exact hsame (by rw [hs, hempty']; rfl) (by rw [hs, hempty']; rfl)
        · have hempty' : ¬(q.eval w.seqs w.clock w.store.db).writes.isEmpty = true := by
            simpa [World.onPool] using hempty
          rw [hs]
          simp only [if_neg hempty']
          exact hI _ _ _ hi.2 fun x hmem => ho x (Sql.mayWrite_of_mem hmem)
    | trx => exact absurd rfl hc
  | commit =>
    rcases hs with hs | hs | hs
    · exact hsame (by rw [hs]; rfl) (by rw [hs]; rfl)
    · exact hsame (by rw [hs]) (by rw [hs])
    · obtain ⟨log, hactive, hs⟩ := commit_cases hs
      rw [hs]
      exact hI _ _ _ hi.2 fun x hmem => hlog x (by rw [World.log, hactive]; exact hmem)
  | _ => exact absurd rfl hc

/-- A program whose writes all satisfy `H` keeps what every commit of such writes keeps, and at
any time its transaction holds only such writes. -/
theorem wp_harmless {R : (o : Op) → o.Res → Prop} {Q : α → Prop} {prog : Svc α}
    (hc : prog.Calls (Op.Harmless H) R Q) (hI : KeptBy I p H)
    (hR : ∀ o e w a w', (sharedSpec I).inv w → (∀ x ∈ w.log p, H x) → ok p o e w →
      exec p o e w = some (.ok a, w') → R o a)
    {w : World} (hlog : ∀ x ∈ w.log p, H x) :
    wp machine ok (sharedSpec I) p prog
      (fun r w' => (∀ x ∈ w'.log p, H x) ∧ ∀ a, r = .ok a → Q a) w := by
  induction prog generalizing w with
  | pure a =>
    refine ⟨hlog, fun b hb => ?_⟩
    cases hb
    exact hc
  | throw e => exact ⟨hlog, fun b hb => by cases hb⟩
  | op o k ih =>
    intro w₁ hr hi e r w₂ hok hx
    have hlog₁ : ∀ x ∈ w₁.log p, H x := by
      rw [World.log, hr.1.txn]
      exact hlog
    have hlog₂ := log_exec hx hc.1 hlog₁
    refine ⟨inv_exec hI hx hc.1 hlog₁ hi,
      (sharedSpec_isolated I p).guarantee o e w₁ r w₂ hi hx, ih r ?_ hlog₂⟩
    cases r with
    | error err => exact hc.2.1 err
    | ok a => exact hc.2.2 a (hR o e w₁ a w₂ hi hlog₁ hok hx)

end Harmless

section Outside
variable {S : Spec Pid World} {ok : Pid → Op → Env → World → Prop} {p : Pid} {α : Type}

theorem calls_outer {o : Op} (ho : o.outer = true) {R : (o : Op) → o.Res → Prop} :
    (Prog.perform o : Svc o.Res).Calls (fun o => o.outer = true) R fun _ => True :=
  Prog.calls_perform ho fun _ _ => trivial

/-- A program without a statement keeps what is said of the store alone. -/
theorem wp_outside_always (hS : Isolated S p) {F : World → Prop}
    (hrely : ∀ w w', S.rely p w w' → F w → F w')
    (hstore : ∀ w w' : World, w'.store = w.store → F w → F w') {prog : Svc α}
    (hc : prog.Calls (fun o => o.outer = true) (fun _ _ => True) fun _ => True) {w : World}
    (hF : F w) : wp machine ok S p prog (fun _ w' => F w') w := by
  induction prog generalizing w with
  | pure a => exact hF
  | throw e => exact hF
  | op o k ih =>
    intro w₁ hr hi e r w₂ _ hx
    rw [machine_exec] at hx
    have hquiet := Op.not_commits_of_outer hc.1
    have hF₂ : F w₂ := hstore w₁ w₂ (exec_outer hc.1 hx).1 (hrely w w₁ hr hF)
    refine ⟨hS.quiet o e w₁ r w₂ hquiet hi hx, hS.guarantee o e w₁ r w₂ hi hx, ih r ?_ hF₂⟩
    cases r with
    | error err => exact hc.2.1 err
    | ok a => exact hc.2.2 a trivial

theorem wp_outside_keeps (hS : Isolated S p) {F : World → Prop}
    (hrely : ∀ w w', S.rely p w w' → F w → F w')
    (hstore : ∀ w w' : World, w'.store = w.store → F w → F w') {prog : Svc α}
    (hc : prog.Calls (fun o => o.outer = true) (fun _ _ => True) fun _ => True)
    {P : α → World → Prop} (hP : ∀ a w, F w → P a w) {w : World} (hF : F w) :
    wp machine ok S p prog (OnOk P) w := by
  apply wp_mono _ (wp_outside_always hS hrely hstore hc hF)
  intro r w' hF'
  cases r with
  | ok a => exact hP a w' hF'
  | error err => trivial

/-- A program without a statement changes nothing that a specification speaks of. -/
theorem wp_outside (hS : Isolated S p) {prog : Svc α}
    (hc : prog.Calls (fun o => o.outer = true) (fun _ _ => True) fun _ => True)
    {P : α → World → Prop} (hP : ∀ a w, P a w) {w : World} :
    wp machine ok S p prog (OnOk P) w :=
  wp_outside_keeps (F := fun _ => True) hS (fun _ _ _ _ => trivial) (fun _ _ _ _ => trivial) hc
    (fun a w _ => hP a w) trivial

end Outside

section Appends
variable {S : Spec Pid World} {ok : Pid → Op → Env → World → Prop} {p : Pid} {H : Write → Prop}
  {α : Type}

/-- A statement in the transaction whose writes satisfy `H`, or an operation outside the store. -/
def Op.Appends (H : Write → Prop) : Op → Prop
  | .sql .trx q => ∀ x, q.MayWrite x → H x
  | .sql .pool _ => False
  | o => o.outer = true

theorem Op.appends_of_outer {o : Op} (ho : o.outer = true) : o.Appends H := by
  cases o with
  | sql c q => cases ho
  | _ => exact ho

theorem Op.Appends.any {o : Op} (ho : o.Appends H) : o.Appends fun _ => True := by
  cases o with
  | sql c q =>
    cases c with
    | pool => exact ho
    | trx => exact fun _ _ => trivial
  | _ => exact ho

/-- Such an operation leaves the committed tables alone and gives no lock back. -/
theorem exec_appends {o : Op} {e : Env} {w w' : World} {r : Except Err o.Res} (ho : o.Appends H)
    (hx : exec p o e w = some (r, w')) :
    w'.store.db = w.store.db ∧ w'.store.history = w.store.history ∧
      ∀ l ∈ w.store.locks, l ∈ w'.store.locks := by
  have hs := exec_store hx
  have hsame : w'.store = w.store → w'.store.db = w.store.db ∧
      w'.store.history = w.store.history ∧ ∀ l ∈ w.store.locks, l ∈ w'.store.locks := by
    intro heq
    rw [heq]
    exact ⟨rfl, rfl, fun l hl => hl⟩
  cases o with
  | sql c q =>
    cases c with
    | pool => exact absurd ho id
    | trx =>
      rcases hs with hs | ⟨a, hs⟩
      · exact hsame hs
      · rcases query_cases hs with ⟨_, hs, _⟩ | ⟨_, _, _, _, hs⟩
        · exact hsame hs
        · rw [hs]
          exact ⟨rfl, rfl, fun l hl => List.mem_append_left _ hl⟩
  | start | commit | rollback => exact absurd ho Bool.false_ne_true
  | _ => exact hsame hs

/-- A program that only appends to its open transaction. `F` is anything that holds at the
start and that neither the others nor its own operations falsify. -/
theorem wp_appends (hS : Isolated S p) {P : Op → Prop} (hP : ∀ o, P o → o.Appends H)
    {R : (o : Op) → o.Res → Prop} {Q : α → Prop} {F : World → Prop} {prog : Svc α}
    (hc : prog.Calls P R Q) (hrely : ∀ w w', S.rely p w w' → F w → F w')
    (hstep : ∀ o e w r w', P o → S.inv w → ok p o e w → exec p o e w = some (r, w') →
      F w → F w' ∧ ∀ a, r = .ok a → R o a)
    {w : World} {log : List Write} (hlog : w.store.txn p = .active log) (hF : F w) :
    wp machine ok S p prog (fun r w' => F w' ∧ (∀ a, r = .ok a → Q a) ∧
      ∃ ws, w'.store.txn p = .active (log ++ ws) ∧ ∀ x ∈ ws, H x) w := by
  induction prog generalizing w log with
  | pure a =>
    refine ⟨hF, fun b hb => ?_, [], by rw [List.append_nil]; exact hlog, by simp⟩
    cases hb
    exact hc
  | throw e =>
    exact ⟨hF, (fun b hb => by cases hb), [], by rw [List.append_nil]; exact hlog, by simp⟩
  | op o k ih =>
    intro w₁ hr hi e r w₂ hok hx
    rw [machine_exec] at hx
    have ho : o.Appends H := hP o hc.1
    have hlog₁ : w₁.store.txn p = .active log := (hS.sees w w₁ hr).1.txn.trans hlog
    have houter : o.outer = true → w₂.store = w₁.store := fun ho => (exec_outer ho hx).1
    obtain ⟨hF₂, hR⟩ := hstep o e w₁ r w₂ hc.1 hi hok hx (hrely w w₁ hr hF)
    have hquiet : o.commits = false := by
      cases o with
      | sql c q =>
        cases c with
        | pool => exact absurd ho id
        | trx => rfl
      | commit => exact absurd ho Bool.false_ne_true
      | _ => rfl
    -- The writes of this operation, which may be none.
    have hws : ∃ ws, w₂.store.txn p = .active (log ++ ws) ∧ ∀ x ∈ ws, H x := by
      cases o with
      | sql c q =>
        cases c with
        | pool => exact absurd ho id
        | trx =>
          by_cases hf : e.fail = true
          · simp only [exec, hf, if_true, Option.some.injEq, Prod.mk.injEq] at hx
            exact ⟨[], by rw [← hx.2, List.append_nil]; exact hlog₁, by simp⟩
          · obtain ⟨_, rfl⟩ := exec_trx hlog₁ (Bool.eq_false_iff.mpr hf) hx
            exact ⟨_, World.queried_txn_of_log hlog₁, fun x hmem => ho x (Sql.mayWrite_of_mem hmem)⟩
      | start | commit | rollback => exact absurd ho Bool.false_ne_true
      | _ =>
        exact ⟨[], by rw [houter rfl, List.append_nil]; exact hlog₁, by simp⟩
    obtain ⟨ws, hlog₂, hH⟩ := hws
    refine ⟨hS.quiet o e w₁ r w₂ hquiet hi hx, hS.guarantee o e w₁ r w₂ hi hx, ?_⟩
    have hk : (k r).Calls P R Q := by
      cases r with
      | error err => exact hc.2.1 err
      | ok a => exact hc.2.2 a (hR a rfl)
    apply wp_mono _ (ih r hk hlog₂ hF₂)
    rintro _ w₃ ⟨hF₃, hQ, ws', hlog₃, hH'⟩
    refine ⟨hF₃, hQ, ws ++ ws', by rw [hlog₃, List.append_assoc], fun x hmem => ?_⟩
    rcases List.mem_append.mp hmem with hmem | hmem
    · exact hH x hmem
    · exact hH' x hmem

/-- A program that only reads in its open transaction leaves the log as it is. -/
theorem wp_reading (hS : Isolated S p) {Q : α → Prop} {prog : Svc α}
    (hc : prog.Calls (Op.Appends fun _ => False) (fun _ _ => True) Q) {w : World}
    {log : List Write} (hlog : w.store.txn p = .active log) {P : α → World → Prop}
    (hP : ∀ a v, Q a → v.store.txn p = .active log → P a v) :
    wp machine ok S p prog (OnOk P) w := by
  refine wp_mono ?_ (wp_appends (F := fun _ => True) hS (fun _ ho => ho) hc
    (fun _ _ _ _ => trivial) (fun _ _ _ _ _ _ _ _ _ _ => ⟨trivial, fun _ _ => trivial⟩) hlog
    trivial)
  rintro (err | a) v ⟨-, hQ, ws, htxn, hnone⟩
  · trivial
  · obtain rfl : ws = [] := List.eq_nil_iff_forall_not_mem.mpr hnone
    rw [List.append_nil] at htxn
    exact hP a v (hQ a rfl) htxn

end Appends

end OrderService
