import OrderService.Calls
import OrderService.Isolation
import OrderService.Interleaving.Tracking

/-! In which order the calls lock rows. The keys have ranks, and a transaction that has locked one
goes on to keys of higher ranks only, so the calls never wait for each other in a circle; at its end
a call has closed its transaction. -/
namespace OrderService
open ReadCommitted Interleaving

section Statement

/-- What the service itself puts before an id to make an idempotency key. -/
def ownPrefixes : List String :=
  ["kashier:", "cod-collect:", "commission:", "service-fee:", "delivery-fee:"]

def hasPrefix (start text : String) : Bool := start.toList.isPrefixOf text.toList

/-- The key of a payout is none that the service makes for a charge or a settlement. -/
def PayoutInput.Foreign (input : PayoutInput) : Prop :=
  ∀ start ∈ ownPrefixes, hasPrefix start input.idempotencyKey = false

instance (input : PayoutInput) : Decidable input.Foreign :=
  inferInstanceAs (Decidable (∀ start ∈ ownPrefixes, _))

/-- A webhook locks a session, the key of its charge, the order and its event; a delivery the order,
the rows of its settlement, the balance and the earning; a payout the balance and its own key. -/
def Key.rank : Key → Nat
  | .session _ => 0
  | .idempotency key =>
    if hasPrefix "kashier:" key then 1
    else if hasPrefix "cod-collect:" key then 3
    else if hasPrefix "commission:" key then 5
    else if hasPrefix "service-fee:" key then 6
    else if hasPrefix "delivery-fee:" key then 7
    else 11
  | .order _ => 2
  | .transaction _ => 4
  | .balance _ _ => 8
  | .earning _ => 9
  | .webhookRow _ => 10
  | .providerSession _ => 12
  | .webhookEvent _ _ => 12

/-- The keys that a statement locks at most, on whatever tables it runs. -/
def Sql.keys : Sql → List Key
  | .createOrder data _ => [.order data.publicId]
  | .updateOrderStatus publicId _ _ _ => [.order publicId]
  | .claimReadyOrderForAgent publicId _ _ => [.order publicId]
  | .createPaymentSession data _ => [.providerSession data.providerSessionId]
  | .updatePaymentSessionStatus id _ _ => [.session id]
  | .insertWebhookEvent data _ => [.webhookEvent data.providerId data.providerEventId]
  | .updateWebhookEventStatus id _ _ => [.webhookRow id]
  | .createTransaction data _ => ((orNullText data.idempotencyKey).map Key.idempotency).toList
  | .updateTransactionStatus id _ _ => [.transaction id]
  | .markTransactionAsRefunded id _ => [.transaction id]
  | .lockBalance restaurantId currency => [.balance restaurantId currency]
  | .upsertBalance restaurantId _ currency _ => [.balance restaurantId currency]
  | .insertEarning data => [.earning data.orderId]
  | _ => []

/-- Without a transaction, or with one that has locked some of the keys. -/
def World.LocksWithin (p : Pid) (w : World) : Option (List Key) → Prop
  | none => (∀ k, (k, p) ∉ w.store.locks) ∧ ∀ log, w.store.txn p ≠ .active log
  | some keys => (∀ k, (k, p) ∈ w.store.locks → k ∈ keys) ∧ ∃ log, w.store.txn p = .active log

/-- Whoever has locked keys goes on to the one of the highest rank, or to a key of a higher rank; on
the pool, where its own locks are in its way too, to a key of a higher rank only. -/
def lockProtocol : Protocol Op Op.Res Err (Option (List Key)) where
  allows
    | some held, .sql .trx q => ∀ k ∈ q.keys, ∀ h ∈ held, h = k ∨ h.rank < k.rank
    | some held, .sql .pool q => ∀ k ∈ q.keys, ∀ h ∈ held, h.rank < k.rank
    | some _, .start => False
    | _, _ => True
  after
    | _, .commit, _ => none
    | _, .rollback, _ => none
    | _, .start, .ok _ => some []
    | some held, .sql .trx q, _ => some (held ++ q.keys)
    | st, _, _ => st

end Statement

section Steps
variable {p q : Pid} {o : Op} {e : Env} {w w' : World} {r : Except Err o.Res}

theorem keys_eval (s : Sql) (seqs : Seqs) (clock : Time) (db : Db) :
    ∀ k ∈ engine.keys (s.eval seqs clock db), k ∈ s.keys := by
  cases s with
  | bulkInsertItems items now =>
    simp only [Sql.eval]
    split_ifs <;> simp [Engine.keys, engine, writing, Write.key, Function.comp_def]
  | createOrder data now =>
    simp only [Sql.eval]
    split <;> simp [Engine.keys, engine, writing, Write.key, Sql.keys, OrderData.toEntity]
  | createTransaction data now =>
    simp only [Sql.eval]
    split <;> simp [Engine.keys, engine, reading, writing, Write.key, Sql.keys,
      TransactionData.toEntity]
  | updateOrderStatus publicId status stamp now =>
    simp only [Sql.eval]
    split <;> simp [Engine.keys, engine, reading, writing, Write.key, Sql.keys]
  | claimReadyOrderForAgent publicId agentId now =>
    simp only [Sql.eval]
    split <;> simp [Engine.keys, engine, reading, writing, Write.key, Sql.keys]
  | updatePaymentSessionStatus id status now =>
    simp only [Sql.eval]
    split <;> simp [Engine.keys, engine, reading, writing, Write.key, Sql.keys]
  | updateTransactionStatus id status now =>
    simp only [Sql.eval]
    split <;> simp [Engine.keys, engine, reading, writing, Write.key, Sql.keys]
  | lockBalance restaurantId currency =>
    simp only [Sql.eval]
    split <;> simp [Engine.keys, engine, reading, Sql.keys]
  | createPaymentSession data now =>
    simp only [Sql.eval]
    split <;> simp [Engine.keys, engine, writing, Write.key, Sql.keys]
  | insertWebhookEvent data now =>
    simp only [Sql.eval]
    split <;> simp [Engine.keys, engine, reading, writing, Write.key, Sql.keys]
  | insertEarning data =>
    simp only [Sql.eval]
    split <;> simp [Engine.keys, engine, reading, writing, Write.key, Sql.keys]
  | _ => simp [Sql.eval, Engine.keys, engine, reading, writing, Write.key, Sql.keys]

/-- What an operation does to the transactions and the locks of the others: nothing. -/
theorem exec_others (hx : exec p o e w = some (r, w')) (hqp : q ≠ p) :
    w'.store.txn q = w.store.txn q ∧ ∀ k, (k, q) ∈ w'.store.locks ↔ (k, q) ∈ w.store.locks := by
  have hs := exec_store hx
  have hrollback : ∀ s, s = w.store.rollback p →
      s.txn q = w.store.txn q ∧ ∀ k, (k, q) ∈ s.locks ↔ (k, q) ∈ w.store.locks := by
    rintro s rfl
    refine ⟨Function.update_of_ne hqp _ _, fun k => ?_⟩
    simp [Store.rollback, hqp]
  cases o with
  | sql c s =>
    cases c with
    | pool =>
      rcases hs with hs | ⟨a, hs⟩
      · simp [hs]
      · obtain ⟨_, _, hs⟩ := autocommit_cases hs
        simp [hs]
    | trx =>
      rcases hs with hs | ⟨a, hs⟩
      · simp [hs]
      · rcases query_cases hs with ⟨_, hs, _⟩ | ⟨_, _, _, _, hs⟩
        · simp [hs]
        · rw [hs]
          refine ⟨Function.update_of_ne hqp _ _, fun k => ?_⟩
          simp only [List.mem_append, List.mem_map, Prod.mk.injEq, or_iff_left_iff_imp]
          rintro ⟨_, _, _, hpq⟩
          exact absurd hpq.symm hqp
  | commit =>
    rcases hs with hs | hs | hs
    · exact hrollback _ hs
    · simp [hs]
    · obtain ⟨log, _, hs⟩ := commit_cases hs
      rw [hs]
      refine ⟨Function.update_of_ne hqp _ _, fun k => ?_⟩
      simp [hqp]
  | start =>
    rcases hs with hs | hs
    · simp [hs]
    · rw [hs]
      exact ⟨Function.update_of_ne hqp _ _, fun _ => Iff.rfl⟩
  | rollback => exact hrollback _ hs
  | _ =>
    have hs : w'.store = w.store := hs
    simp [hs]

theorem World.LocksWithin.congr {st : Option (List Key)} (h : w.LocksWithin p st)
    (htxn : w'.store.txn p = w.store.txn p)
    (hlocks : ∀ k, (k, p) ∈ w'.store.locks ↔ (k, p) ∈ w.store.locks) : w'.LocksWithin p st := by
  cases st with
  | none => exact ⟨fun k hk => h.1 k ((hlocks k).mp hk), fun log => htxn ▸ h.2 log⟩
  | some held => exact ⟨fun k hk => h.1 k ((hlocks k).mp hk), htxn ▸ h.2⟩

theorem locksWithin_rollback (p : Pid) (w : World) :
    World.LocksWithin p { w with store := w.store.rollback p } none := by
  refine ⟨fun k hk => ?_, fun log hlog => ?_⟩
  · simp [Store.rollback] at hk
  · simp [Store.rollback] at hlog

/-- The store shows no more locks than the protocol reckons with. -/
theorem exec_locksWithin {st : Option (List Key)} (hx : exec p o e w = some (r, w'))
    (h : w.LocksWithin p st) (hstart : o = .start → st = none) :
    w'.LocksWithin p (lockProtocol.after st o r) := by
  cases o with
  | start =>
    simp only [exec] at hx
    split_ifs at hx <;> cases hx
    · cases st <;> exact h
    · cases st with
      | none => exact ⟨fun k hk => absurd hk (h.1 k), [], Function.update_self ..⟩
      | some held => cases hstart rfl
  | commit =>
    have hafter : lockProtocol.after st .commit r = none := by cases st <;> rfl
    rw [hafter]
    simp only [exec] at hx
    split_ifs at hx
    · cases hx
      exact locksWithin_rollback p w
    · split at hx
      · next hnone =>
        cases hx
        cases st with
        | none => exact h
        | some held =>
          obtain ⟨log, hlog⟩ := h.2
          simp [Store.commit, hlog] at hnone
      · next s hs =>
        cases hx
        obtain ⟨log, _, rfl⟩ := commit_cases hs
        exact ⟨fun k hk => by simp at hk, fun log' hlog' => by simp at hlog'⟩
  | rollback =>
    have hafter : lockProtocol.after st .rollback r = none := by cases st <;> rfl
    rw [hafter]
    cases hx
    exact locksWithin_rollback p w
  | sql c s =>
    have hs := exec_store hx
    cases c with
    | pool =>
      have hafter : lockProtocol.after st (.sql .pool s) r = st := by cases st <;> rfl
      rw [hafter]
      rcases hs with hs | ⟨a, hs⟩
      · exact h.congr (by rw [hs]) (by simp [hs])
      · obtain ⟨_, _, hs⟩ := autocommit_cases hs
        exact h.congr (by rw [hs]) (by simp [hs])
    | trx =>
      cases st with
      | none =>
        rcases hs with hs | ⟨a, hs⟩
        · exact h.congr (by rw [hs]) (by simp [hs])
        · rcases query_cases hs with ⟨_, hs, _⟩ | ⟨log, hlog, _⟩
          · exact h.congr (by rw [hs]) (by simp [hs])
          · exact absurd hlog (h.2 log)
      | some held =>
        have hmore : w.LocksWithin p (some (held ++ s.keys)) :=
          ⟨fun k hk => List.mem_append_left _ (h.1 k hk), h.2⟩
        rcases hs with hs | ⟨a, hs⟩
        · exact hmore.congr (by rw [hs]) (by simp [hs])
        · rcases query_cases hs with ⟨_, hs, _⟩ | ⟨log, _, _, _, hs⟩
          · exact hmore.congr (by rw [hs]) (by simp [hs])
          · have htxn : ∃ log', w'.store.txn p = .active log' := by
              rw [hs]
              exact ⟨_, Function.update_self ..⟩
            refine ⟨fun k hk => ?_, htxn⟩
            rw [hs] at hk
            rcases List.mem_append.mp hk with hk | hk
            · exact hmore.1 k hk
            · obtain ⟨k', hk', heq⟩ := List.mem_map.mp hk
              cases heq
              exact List.mem_append_right _ (keys_eval s _ _ _ k hk')
  | _ =>
    have hs : w'.store = w.store := exec_store hx
    cases st <;> exact h.congr (by rw [hs]) (by simp [hs])

end Steps

section Rules
variable {α β : Type} {M N R : Option (List Key) → Prop}

/-- Started in a state of the first kind the program keeps to the protocol, and where it returns, it
ends in one of the second kind. -/
def Moves (prog : Svc α) (M N : Option (List Key) → Prop) : Prop :=
  ∀ st, M st → prog.Tracks lockProtocol (fun r st' => ∀ a, r = .ok a → N st') st

/-- From the state on the program keeps to the protocol, and ends without a transaction. -/
def ClosesFrom (st : Option (List Key)) (prog : Svc α) : Prop :=
  prog.Tracks lockProtocol (fun _ st' => st' = none) st

/-- The transaction is open, and all that it has locked has a rank below the bound. -/
def Below (bound : Nat) : Option (List Key) → Prop
  | none => False
  | some held => ∀ h ∈ held, h.rank < bound

/-- The transaction is open, and all that it has locked is the key or has a lower rank. -/
def UpTo (key : Key) : Option (List Key) → Prop
  | none => False
  | some held => ∀ h ∈ held, h = key ∨ h.rank < key.rank

theorem Below.mono {m n : Nat} (hmn : m ≤ n) {st : Option (List Key)} (h : Below m st) :
    Below n st := by
  cases st with
  | none => exact h
  | some held => exact fun k hk => Nat.lt_of_lt_of_le (h k hk) hmn

theorem UpTo.below {key : Key} {n : Nat} (hn : key.rank < n) {st : Option (List Key)}
    (h : UpTo key st) : Below n st := by
  cases st with
  | none => exact h
  | some held =>
    intro k hk
    rcases h k hk with rfl | hlt
    · exact hn
    · exact Nat.lt_trans hlt hn

theorem Below.upTo {key : Key} {st : Option (List Key)} (h : Below key.rank st) : UpTo key st := by
  cases st with
  | none => exact h
  | some held => exact fun k hk => .inr (h k hk)

theorem Moves.weaken {prog : Svc α} {M' N' : Option (List Key) → Prop} (h : Moves prog M N)
    (hM : ∀ st, M' st → M st) (hN : ∀ st, N st → N' st) : Moves prog M' N' :=
  fun st hst => (h st (hM st hst)).mono fun _ st' hr a ha => hN st' (hr a ha)

theorem moves_do {prog : Svc α} {f : α → Svc β} (h : Moves prog M R)
    (hf : ∀ a, Moves (f a) R N) : Moves (prog >>= f) M N := by
  intro st hst
  apply Prog.tracks_do
  apply (h st hst).mono
  intro r st' hr
  cases r with
  | ok a => exact hf a st' (hr a rfl)
  | error e => exact fun a ha => by cases ha

theorem moves_pure {a : α} : Moves (pure a) M M := fun _ hst _ _ => hst

theorem moves_throw {e : Err} : Moves (throw e : Svc α) M N := fun _ _ a ha => by cases ha

theorem moves_ofExcept {r : Except Err α} : Moves (Prog.ofExcept r) M M :=
  fun _ hst => Prog.tracks_ofExcept fun _ _ => hst

/-- What is not done locks nothing. -/
theorem moves_raise {a : α} {m n : Nat} (hmn : m ≤ n) : Moves (pure a) (Below m) (Below n) :=
  moves_pure.weaken (fun _ h => h) fun _ h => h.mono hmn

theorem moves_onlyIf {cond : Prop} [Decidable cond] {body : Svc Unit} {m n : Nat}
    (hbody : Moves body (Below m) (Below n)) (hmn : m ≤ n) :
    Moves (onlyIf cond body) (Below m) (Below n) := by
  unfold onlyIf
  split_ifs
  · exact hbody
  · exact moves_raise hmn

/-- What neither locks a key nor touches the transaction. -/
def Op.still : Op → Prop
  | .start => False
  | .commit => False
  | .rollback => False
  | .sql _ q => q.keys = []
  | _ => True

theorem still_allowed {o : Op} (ho : o.still) (st : Option (List Key)) :
    lockProtocol.allows st o ∧ ∀ r, lockProtocol.after st o r = st := by
  cases o with
  | sql c q =>
    have hkeys : q.keys = [] := ho
    cases c <;> cases st <;> simp [lockProtocol, hkeys]
  | start => exact ho.elim
  | commit => exact ho.elim
  | rollback => exact ho.elim
  | _ => cases st <;> exact ⟨trivial, fun _ => rfl⟩

/-- A program of such operations ends in the state in which it began, whatever its result. -/
theorem tracks_still {prog : Svc α}
    (hc : prog.Calls Op.still (fun _ _ => True) fun _ => True)
    {Q : Except Err α → Option (List Key) → Prop} {st : Option (List Key)} (hQ : ∀ r, Q r st) :
    prog.Tracks lockProtocol Q st := by
  induction prog with
  | pure a => exact hQ _
  | throw e => exact hQ _
  | op o k ih =>
    obtain ⟨hallows, hafter⟩ := still_allowed hc.1 st
    refine ⟨hallows, fun r => ?_⟩
    rw [hafter r]
    cases r with
    | ok a => exact ih _ (hc.2.2 a trivial)
    | error e => exact ih _ (hc.2.1 e)

theorem moves_still {prog : Svc α}
    (hc : prog.Calls Op.still (fun _ _ => True) fun _ => True) : Moves prog M M :=
  fun _ hst => tracks_still hc fun _ _ _ => hst

/-- A statement of the transaction that locks one key. -/
theorem moves_locking {q : Sql} {key : Key} (hq : ∀ k ∈ q.keys, k = key) :
    Moves (sql .trx q) (UpTo key) (UpTo key) := by
  intro st hst
  cases st with
  | none => exact hst.elim
  | some held =>
    apply Prog.tracks_perform
    · intro k hk h hh
      rw [hq k hk]
      exact hst h hh
    · intro r _ _ h hh
      rcases List.mem_append.mp hh with hh | hh
      · exact hst h hh
      · exact .inl (hq h hh)

/-- What locks no other key than one leads from below its rank to above it. -/
theorem Moves.locks {prog : Svc α} {key : Key} {m n : Nat}
    (h : Moves prog (UpTo key) (UpTo key)) (hm : m ≤ key.rank) (hn : key.rank < n) :
    Moves prog (Below m) (Below n) :=
  h.weaken (fun _ hst => (hst.mono hm).upTo) fun _ hst => hst.below hn

/-- A statement on the pool while the transaction has locked nothing. -/
theorem moves_pool {q : Sql} : Moves (sql .pool q) (Below 0) (Below 0) := by
  intro st hst
  cases st with
  | none => exact hst.elim
  | some held =>
    apply Prog.tracks_perform
    · exact fun k _ h hh => absurd (hst h hh) (Nat.not_lt_zero _)
    · exact fun r _ _ => hst

theorem moves_commit : Moves commit M (· = none) := by
  intro st _
  apply Prog.tracks_perform
  · cases st <;> trivial
  · intro r _ _
    cases st <;> rfl

/-- Without a transaction everything is allowed, and nothing but a start opens one. -/
theorem tracks_closed {prog : Svc α}
    (hc : prog.Calls (· ≠ .start) (fun _ _ => True) fun _ => True)
    {Q : Except Err α → Option (List Key) → Prop} (hQ : ∀ r, Q r none) :
    prog.Tracks lockProtocol Q none := by
  induction prog with
  | pure a => exact hQ _
  | throw e => exact hQ _
  | op o k ih =>
    have hafter : ∀ r, lockProtocol.after none o r = none := by
      intro r
      cases o with
      | start => exact absurd rfl hc.1
      | sql c q => cases c <;> rfl
      | _ => rfl
    refine ⟨?_, fun r => ?_⟩
    · cases o with
      | sql c q => cases c <;> trivial
      | _ => trivial
    · rw [hafter r]
      cases r with
      | ok a => exact ih _ (hc.2.2 a trivial)
      | error e => exact ih _ (hc.2.1 e)

theorem unstarted_of_outer {prog : Svc α}
    (hc : prog.Calls (fun o => o.outer = true) (fun _ _ => True) fun _ => True) :
    prog.Calls (· ≠ .start) (fun _ _ => True) fun _ => True :=
  hc.weaken fun o ho heq => by
    subst heq
    cases ho

/-- What follows a commit and only tells the services outside. -/
theorem moves_outer {prog : Svc α}
    (hc : prog.Calls (fun o => o.outer = true) (fun _ _ => True) fun _ => True) :
    Moves prog (· = none) (· = none) := by
  rintro st rfl
  exact tracks_closed (unstarted_of_outer hc) fun _ _ _ => rfl

theorem closes_unstarted {prog : Svc α}
    (hc : prog.Calls (· ≠ .start) (fun _ _ => True) fun _ => True) : ClosesFrom none prog :=
  tracks_closed hc fun _ => rfl

theorem closes_do {prog : Svc α} {f : α → Svc β} {st : Option (List Key)}
    (h : ClosesFrom st prog) (hf : ∀ a, ClosesFrom none (f a)) : ClosesFrom st (prog >>= f) := by
  apply Prog.tracks_do
  apply h.mono
  rintro r _ rfl
  cases r with
  | ok a => exact hf a
  | error e => rfl

theorem closes_pure {a : α} : ClosesFrom none (pure a) := rfl

theorem closes_throw {e : Err} : ClosesFrom none (throw e : Svc α) := rfl

theorem closes_perform {o : Op} (ho : o ≠ .start) :
    ClosesFrom none (Prog.perform o : Svc o.Res) :=
  closes_unstarted (Prog.calls_perform ho fun _ _ => trivial)

theorem closes_ofExcept {r : Except Err α} : ClosesFrom none (Prog.ofExcept r) :=
  Prog.tracks_ofExcept rfl

theorem closes_catch {prog : Svc α} {handler : Err → Svc α} (h : ClosesFrom none prog)
    (hhandler : ∀ e, ClosesFrom none (handler e)) : ClosesFrom none (tryCatch prog handler) := by
  apply Prog.tracks_catch
  apply h.mono
  rintro r _ rfl
  cases r with
  | ok a => rfl
  | error e => exact hhandler e

theorem closes_start {prog : Svc α} (h : ClosesFrom (some []) prog) :
    ClosesFrom none (startTransaction >>= fun _ => prog) := by
  apply Prog.tracks_do
  apply Prog.tracks_perform trivial
  intro r
  cases r with
  | ok _ => exact h
  | error e => rfl

/-- A body that ends closed, and is rolled back where it throws. -/
theorem closes_try {body : Svc α} {rest : Err → Svc α} (hbody : Moves body (Below 0) (· = none))
    (hrest : ∀ e, (rest e).Calls (· ≠ .start) (fun _ _ => True) fun _ => True) :
    ClosesFrom (some []) (tryCatch body fun e => rollback >>= fun _ => rest e) := by
  apply Prog.tracks_catch
  apply (hbody (some []) fun h hh => by cases hh).mono
  intro r st hr
  cases r with
  | ok a => exact hr a rfl
  | error e =>
    apply Prog.tracks_do
    apply Prog.tracks_perform
    · cases st <;> trivial
    · intro r
      have hafter : lockProtocol.after st .rollback r = none := by cases st <;> rfl
      rw [hafter]
      cases r with
      | ok _ => exact closes_unstarted (hrest e)
      | error e => rfl

/-- The same where the handler has nothing more to do. -/
theorem closes_rethrow {body : Svc α} (hbody : Moves body (Below 0) (· = none)) :
    ClosesFrom (some []) (tryCatch body fun e => rollback >>= fun _ => throw e) :=
  closes_try hbody fun _ => trivial

end Rules

end OrderService
