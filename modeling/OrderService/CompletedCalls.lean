import OrderService.LockOrder

/-! Calls that run at the same time do not lock each other out of rows: each closes its transaction,
and at every moment somebody can go on, so all of them can be brought to their ends. -/
namespace OrderService
open ReadCommitted Interleaving

section Unlocked
variable {α β : Type}

/-- The same order without the ranks: it only keeps track of the transaction. -/
def closingProtocol : Protocol Op Op.Res Err (Option (List Key)) where
  allows
    | some _, .start => False
    | _, _ => True
  after := lockProtocol.after

/-- Ends without a transaction, whichever keys it locks. -/
def EndsClosed (prog : Svc α) : Prop := prog.Tracks closingProtocol (fun _ st => st = none) none

theorem ClosesFrom.endsClosed {prog : Svc α} (h : ClosesFrom none prog) : EndsClosed prog := by
  have hlock : prog.Tracks lockProtocol (fun _ st => st = none) none := h
  refine hlock.loosen (T := lockProtocol) rfl fun st o ho => ?_
  cases st with
  | none => trivial
  | some held => cases o <;> trivial

/-- In whatever state it begins: where it returns, the transaction is closed. -/
def ReturnsClosed (prog : Svc α) : Prop :=
  ∀ st, prog.Tracks closingProtocol (fun r st' => ∀ a, r = .ok a → st' = none) st

theorem tracks_unstarted {prog : Svc α}
    (hc : prog.Calls (· ≠ .start) (fun _ _ => True) fun _ => True) (st : Option (List Key)) :
    prog.Tracks closingProtocol (fun _ _ => True) st := by
  induction prog generalizing st with
  | pure a => trivial
  | throw e => trivial
  | op o k ih =>
    refine ⟨?_, fun r => ?_⟩
    · cases st with
      | none => trivial
      | some held =>
        cases o with
        | start => exact absurd rfl hc.1
        | _ => trivial
    · cases r with
      | ok a => exact ih _ (hc.2.2 a trivial) _
      | error e => exact ih _ (hc.2.1 e) _

theorem returnsClosed_do {prog : Svc α} {f : α → Svc β}
    (hc : prog.Calls (· ≠ .start) (fun _ _ => True) fun _ => True) (hf : ∀ a, ReturnsClosed (f a)) :
    ReturnsClosed (prog >>= f) := by
  intro st
  apply Prog.tracks_do
  apply (tracks_unstarted hc st).mono
  intro r st' _
  cases r with
  | ok a => exact hf a st'
  | error e => exact fun a ha => by cases ha

theorem returnsClosed_throw {e : Err} : ReturnsClosed (throw e : Svc α) := fun _ a ha => by cases ha

theorem returnsClosed_commit {a : α} : ReturnsClosed (commit >>= fun _ => pure a) := by
  intro st
  apply Prog.tracks_do
  apply Prog.tracks_perform
  · cases st <;> trivial
  · intro r
    cases r with
    | ok _ =>
      intro _ _
      cases st <;> rfl
    | error e => exact fun a ha => by cases ha

/-- A body in a new transaction that is rolled back where the body throws. -/
theorem endsClosed_rethrow {body : Svc α} (hbody : ReturnsClosed body) :
    EndsClosed (startTransaction >>= fun _ =>
      tryCatch body fun e => rollback >>= fun _ => throw e) := by
  apply Prog.tracks_do
  apply Prog.tracks_perform trivial
  intro r
  cases r with
  | error e => rfl
  | ok _ =>
    apply Prog.tracks_catch
    apply (hbody (some [])).mono
    intro r st hr
    cases r with
    | ok a => exact hr a rfl
    | error e =>
      apply Prog.tracks_do
      apply Prog.tracks_perform
      · cases st <;> trivial
      · intro r
        cases r <;> cases st <;> rfl

/-- Whatever its key, a payout ends closed. -/
theorem endsClosed_recordPayout (input : PayoutInput) :
    EndsClosed (OrderService.recordPayout input) := by
  have howner : (findRestaurantOwnerId input.restaurantId input.region .pool).Calls (· ≠ .start)
      (fun _ _ => True) fun _ => True :=
    Prog.calls_do (calls_any (o := .sql .pool (.findRestaurantOwnerId _ _)) (by simp))
      fun _ _ => trivial
  apply Prog.tracks_do
  apply (closes_unstarted howner).endsClosed.mono
  rintro r _ rfl
  cases r with
  | error e => rfl
  | ok owner =>
    cases owner with
    | none => rfl
    | some ownerUserId =>
      apply endsClosed_rethrow
      apply returnsClosed_do (calls_any (o := .sql .trx _) (by simp))
      intro existing
      cases existing with
      | some row => exact returnsClosed_commit
      | none =>
        apply returnsClosed_do (calls_any (o := .sql .trx _) (by simp))
        intro balance
        cases balance with
        | none => exact returnsClosed_throw
        | some b =>
          dsimp only
          split_ifs
          · exact returnsClosed_throw
          · apply returnsClosed_do (calls_any (o := .sql .trx _) (by simp))
            intro _
            apply returnsClosed_do (calls_createTransaction (by simp) (by simp))
            exact fun payout => returnsClosed_commit

theorem endsClosed_work {cfg : Config} (hmacSha256 : String → String → String) (x : Work) :
    EndsClosed (x.prog hmacSha256 cfg) := by
  have hdo : ∀ {β : Type} {prog : Svc β} {γ : Type} (f : β → γ), EndsClosed prog →
      EndsClosed (prog >>= fun a => pure (f a)) := by
    intro β prog γ f h
    apply Prog.tracks_do
    apply h.mono
    rintro r _ rfl
    cases r <;> rfl
  by_cases hforeign : x.Foreign
  · exact (closes_work hmacSha256 x hforeign).endsClosed
  · cases x with
    | call c =>
      cases c with
      | recordPayout input => exact hdo _ (hdo _ (endsClosed_recordPayout input))
      | _ => exact absurd trivial hforeign
    | _ => exact absurd trivial hforeign

end Unlocked

section Waiting
variable {α : Type} {p : Pid} {o : Op} {e : Env} {w : World}

/-- What waits is a statement: for a lock of somebody else, or on the pool for one of anybody. -/
theorem blocked_cases (hfresh : e.uuid ∉ w.uuids) (hx : exec p o e w = none) :
    ∃ c q k h, o = .sql c q ∧ k ∈ q.keys ∧ (k, h) ∈ w.store.locks ∧ (c = .trx → h ≠ p) := by
  cases o with
  | sql c q =>
    simp only [exec] at hx
    split_ifs at hx
    cases c with
    | pool =>
      simp only [execSql, Option.map_eq_none_iff, Store.autocommit] at hx
      split_ifs at hx with hheld
      obtain ⟨k, hk, hlock⟩ := List.any_eq_true.mp hheld
      obtain ⟨⟨k', h⟩, hmem, heq⟩ := List.any_eq_true.mp hlock
      obtain rfl : k' = k := by simpa using heq
      exact ⟨.pool, q, k', h, rfl, keys_eval q _ _ _ k' hk, hmem, fun h => by cases h⟩
    | trx =>
      simp only [execSql, Option.map_eq_none_iff, Store.query] at hx
      split at hx
      case h_2 => cases hx
      case h_1 log hlog =>
        split_ifs at hx with hheld
        obtain ⟨k, hk, hlock⟩ := List.any_eq_true.mp hheld
        obtain ⟨⟨k', h⟩, hmem, heq⟩ := List.any_eq_true.mp hlock
        obtain ⟨rfl, hother⟩ : k' = k ∧ h ≠ p := by simpa using heq
        exact ⟨.trx, q, k', h, rfl, keys_eval q _ _ _ k' hk, hmem, fun _ => hother⟩
  | randomUUID => simp [exec, hfresh] at hx
  | commit =>
    simp only [exec] at hx
    split_ifs at hx
    split at hx <;> cases hx
  | start | reserveStock b is key | undoReserveStock b is key | cache c =>
    simp only [exec] at hx
    split_ifs at hx
  | _ => cases hx

/-- Of the locks take one of the highest rank: its holder waits for nobody. -/
theorem somebody_moves {t : Sys Pid Op Op.Res Err World α} (hlocked : Locked engine t.world.store)
    (htracks : ∀ p prog, t.procs p = some prog →
      ∃ st, t.world.LocksWithin p st ∧ ClosesFrom st prog)
    (hdead : ∀ p, t.procs p = none → t.world.LocksWithin p none) (answers : Pid → Env)
    (hfresh : ∀ p, (answers p).uuid ∉ t.world.uuids)
    (hlive : ∃ p prog, t.procs p = some prog ∧ ¬prog.Done) :
    ∃ p o k u, t.procs p = some (.op o k) ∧ machine.step (.act p (answers p)) t = some u := by
  by_contra hstuck
  push Not at hstuck
  have hblocked : ∀ p o k, t.procs p = some (.op o k) → exec p o (answers p) t.world = none := by
    intro p o k hp
    cases hx : exec p o (answers p) t.world with
    | none => rfl
    | some a =>
      have hstep : machine.step (.act p (answers p)) t =
          some ⟨a.2, Function.update t.procs p (some (k a.1))⟩ := by
        simp only [Machine.step, hp]
        exact Option.map_eq_some_iff.mpr ⟨a, hx, rfl⟩
      exact absurd hstep (hstuck p o k _ hp)
  obtain ⟨p, prog, hp, hnot⟩ := hlive
  obtain ⟨o, k, rfl⟩ : ∃ o k, prog = .op o k := by
    cases prog with
    | op o k => exact ⟨o, k, rfl⟩
    | pure a => exact absurd trivial hnot
    | throw err => exact absurd trivial hnot
  obtain ⟨_, _, k₀, h₀, _, _, hlock, _⟩ := blocked_cases (hfresh p) (hblocked p o k hp)
  obtain ⟨⟨key, q⟩, hkey, hmax⟩ := t.world.store.locks.toFinset.exists_max_image (fun l => l.1.rank)
    ⟨(k₀, h₀), List.mem_toFinset.mpr hlock⟩
  rw [List.mem_toFinset] at hkey
  cases hq : t.procs q with
  | none => exact (hdead q hq).1 key hkey
  | some rest =>
    obtain ⟨st, hshows, hcloses⟩ := htracks q rest hq
    cases st with
    | none => exact hshows.1 key hkey
    | some held =>
      cases rest with
      | pure a => cases hcloses
      | throw err => cases hcloses
      | op o' k' =>
        obtain ⟨c, s, key', h, rfl, hkey', hlock', hother⟩ :=
          blocked_cases (hfresh q) (hblocked q o' k' hq)
        have hle : key'.rank ≤ key.rank := hmax (key', h) (List.mem_toFinset.mpr hlock')
        have hheld : key ∈ held := hshows.1 key hkey
        cases c with
        | pool => exact absurd (hcloses.1 key' hkey' key hheld) (Nat.not_lt.mpr hle)
        | trx =>
          rcases hcloses.1 key' hkey' key hheld with rfl | hlt
          · exact hother rfl (hlocked.exclusive key h q hlock' hkey)
          · exact absurd hlt (Nat.not_lt.mpr hle)

end Waiting

section Runs
variable {hmacSha256 : String → String → String} {cfg : Config} {work : Pid → Option Work}
  {w : World} {t : Sys Pid Op Op.Res Err World Unit}

/-- The environment answers each operation as it is told. -/
def AnsweredBy (answers : Pid → World → Env) (p : Pid) (_ : Op) (e : Env) (w : World) : Prop :=
  e = answers p w

theorem locksWithin_atRest (hw : w.AtRest) (p : Pid) : w.LocksWithin p none := by
  refine ⟨fun k hk => ?_, fun log hlog => ?_⟩
  · rw [hw.locks] at hk
    cases hk
  · rw [hw.txn p] at hlog
    cases hlog

/-- Every process is in a state of the protocol from which its rest ends as it should. -/
theorem tracks_reached {T : Protocol Op Op.Res Err (Option (List Key))}
    {Q : Except Err Unit → Option (List Key) → Prop} (hw : w.AtRest)
    (hafter : T.after = lockProtocol.after) (hallows : ∀ st, T.allows st .start → st = none)
    (hwork : ∀ p x, work p = some x → (x.prog hmacSha256 cfg).Tracks T Q none)
    (h : machine.Reaches anyOp (working hmacSha256 cfg work w) t) (p : Pid) (prog : Svc Unit)
    (hp : t.procs p = some prog) : ∃ st, t.world.LocksWithin p st ∧ prog.Tracks T Q st := by
  let Shows : Pid → World → Option (List Key) → Prop := fun p v st => v.LocksWithin p st
  change ∃ st, Shows p t.world st ∧ prog.Tracks T Q st
  refine Machine.Reaches.tracks (Q := fun _ => Q) ?_ ?_ ?_ ?_ h p prog hp
  · intro p prog hp
    obtain ⟨x, hx, rfl⟩ := Option.map_eq_some_iff.mp hp
    exact ⟨none, locksWithin_atRest hw p, hwork p x hx⟩
  · intro p o e v r v' hx
    refine ⟨fun st hst ho => ?_, fun q st hqp hst => ?_⟩
    · rw [hafter]
      refine exec_locksWithin hx hst ?_
      rintro rfl
      exact hallows st ho
    · obtain ⟨htxn, hlocks⟩ := exec_others hx hqp
      exact hst.congr htxn hlocks
  · intro p v q st hqp hst
    refine hst.congr (Function.update_of_ne hqp _ _) fun k => ?_
    simp [machine, Store.rollback, hqp]
  · intro x v q st hst
    cases x <;> exact hst.congr rfl fun _ => Iff.rfl

theorem dead_reached (hw : w.AtRest)
    (h : machine.Reaches anyOp (working hmacSha256 cfg work w) t) (p : Pid)
    (hp : t.procs p = none) : t.world.LocksWithin p none := by
  refine Machine.Reaches.dead (D := fun p v => v.LocksWithin p none)
    (fun p _ => locksWithin_atRest hw p) ?_ (fun p v => locksWithin_rollback p v) ?_ ?_ h p hp
  · intro p o e v r v' q hqp hx hq
    obtain ⟨htxn, hlocks⟩ := exec_others hx hqp
    exact hq.congr htxn hlocks
  · intro p v q hqp hq
    refine hq.congr (Function.update_of_ne hqp _ _) fun k => ?_
    simp [machine, Store.rollback, hqp]
  · intro x v q hq
    cases x <;> exact hq.congr rfl fun _ => Iff.rfl

/-- Whatever fails or dies on the way: a call that has come to its end, or has died, has no
transaction open and no row locked. -/
theorem no_transaction_left (hw : w.AtRest)
    (h : machine.Reaches anyOp (working hmacSha256 cfg work w) t) (p : Pid)
    (hdone : ∀ prog, t.procs p = some prog → prog.Done) :
    (∀ k, (k, p) ∉ t.world.store.locks) ∧ ∀ log, t.world.store.txn p ≠ .active log := by
  cases hp : t.procs p with
  | none => exact dead_reached hw h p hp
  | some prog =>
    have hallows : ∀ st, closingProtocol.allows st .start → st = none := by
      rintro (_ | held) hst
      · rfl
      · exact hst.elim
    obtain ⟨st, hshows, htracks⟩ := tracks_reached (T := closingProtocol) hw rfl hallows
      (fun p x _ => endsClosed_work hmacSha256 x) h p prog hp
    have hst : st = none := by
      cases prog with
      | pure a => exact htracks
      | throw e => exact htracks
      | op o k => exact (hdone _ hp).elim
    rwa [hst] at hshows

/-- The delivery of an order of restaurant 1, and a payout to it. -/
def deliveryAndPayout : Pid → Option Work
  | 0 => some (.call (.recordPayout payoutOfSixty))
  | 1 => some (.call (.agentUpdateStatus "order-1" 7 "eg" .delivered))
  | _ => none

/-- The payout has ended while the delivery is open and holds the order. -/
theorem no_transaction_left_of_payout : ∃ t : Sys Pid Op Op.Res Err World Unit,
    (.order "order-1", 1) ∈ t.world.store.locks ∧ (∀ k, (k, 0) ∉ t.world.store.locks) ∧
      ∀ log, t.world.store.txn 0 ≠ .active log := by
  have hrun : (machine.run (fun _ _ _ _ => true)
      (List.replicate 4 (.act 1 {}) ++ List.replicate 8 (.act 0 {}))
      (working (fun _ _ => "") sampleConfig deliveryAndPayout pickedOrder)).map
        (fun t => (t.world.store.locks, (t.procs 0).all fun prog => decide prog.Done)) =
      some ([(.order "order-1", 1)], true) := by
    decide +kernel
  obtain ⟨t, ht, hend⟩ := Option.map_eq_some_iff.mp hrun
  simp only [Prod.mk.injEq] at hend
  have hreach : machine.Reaches anyOp
      (working (fun _ _ => "") sampleConfig deliveryAndPayout pickedOrder) t :=
    Machine.reaches_of_run (fun _ _ _ _ _ => trivial) _ ht
  have hdone : ∀ prog, t.procs 0 = some prog → prog.Done := by
    intro prog hprog
    simpa [hprog] using hend.2
  have hrest : pickedOrder.AtRest := ⟨rfl, fun _ => rfl, rfl⟩
  exact ⟨t, by simp [hend.1], no_transaction_left hrest hreach 0 hdone⟩

/-- From every state that can be reached the calls that live can all be brought to their ends,
whatever the environment answers from there on. -/
theorem calls_completable (hw : w.AtRest) (hforeign : ∀ p x, work p = some x → x.Foreign)
    (hfinite : {p | (work p).isSome}.Finite)
    (h : machine.Reaches anyOp (working hmacSha256 cfg work w) t) (answers : Pid → World → Env)
    (hfresh : ∀ p v, (answers p v).uuid ∉ v.uuids) :
    ∃ u, machine.Reaches (AnsweredBy answers) t u ∧
      ∀ p, (t.procs p).isSome → ∃ prog, u.procs p = some prog ∧ prog.Done := by
  have hlive : {p | (t.procs p).isSome}.Finite := by
    refine hfinite.subset fun p hp => ?_
    obtain ⟨prog, hprog⟩ := Option.isSome_iff_exists.mp hp
    obtain ⟨whole, hwhole, -⟩ := h.leads hprog
    simpa [working] using Option.isSome_of_eq_some hwhole
  apply Machine.completes hlive
  intro v hv hnot
  have hreach := h.trans (hv.loosen fun _ _ _ _ _ => trivial)
  have hallows : ∀ st, lockProtocol.allows st .start → st = none := by
    rintro (_ | held) hst
    · rfl
    · exact hst.elim
  have htracks := tracks_reached (T := lockProtocol) hw rfl hallows
    (fun p x hx => closes_work hmacSha256 x (hforeign p x hx)) hreach
  have hlocked : Locked engine v.world.store :=
    hreach.keeps (J := fun v => Locked engine v.store)
      (fun _ _ _ _ _ _ hl hx => exec_locked hl hx) (fun _ _ hl => rollback_locked hl)
      (fun x _ hl => by cases x <;> exact hl) hw.locked
  obtain ⟨p, o, k, u, hp, hstep⟩ := somebody_moves hlocked htracks (dead_reached hw hreach)
    (fun p => answers p v.world) (fun p => hfresh p v.world) hnot
  refine ⟨p, answers p v.world, u, ?_, hstep⟩
  simp [Machine.Meets, hp, AnsweredBy]

theorem exists_fresh (uuids : List String) : ∃ uuid, uuid ∉ uuids := by
  obtain ⟨uuid, huuid⟩ := Infinite.exists_notMem_finset uuids.toFinset
  exact ⟨uuid, by simpa using huuid⟩

/-- The payout has locked the balance, for which the delivery waits; both come to their ends. -/
theorem delivery_and_payout_completable : ∃ t u : Sys Pid Op Op.Res Err World Unit,
    machine.step (.act 1 {}) t = none ∧ machine.Reaches anyOp t u ∧
      ∀ p ∈ [0, 1], ∃ prog, u.procs p = some prog ∧ prog.Done := by
  have hrun : (machine.run (fun _ _ _ _ => true)
      (List.replicate 4 (.act 0 {}) ++ List.replicate 12 (.act 1 {}))
      (working (fun _ _ => "") sampleConfig deliveryAndPayout pickedOrder)).map
        (fun t => ((machine.step (.act 1 {}) t).isNone, (t.procs 0).isSome, (t.procs 1).isSome)) =
      some (true, true, true) := by
    decide +kernel
  obtain ⟨t, ht, hend⟩ := Option.map_eq_some_iff.mp hrun
  simp only [Prod.mk.injEq, Option.isNone_iff_eq_none] at hend
  have hreach : machine.Reaches anyOp
      (working (fun _ _ => "") sampleConfig deliveryAndPayout pickedOrder) t :=
    Machine.reaches_of_run (fun _ _ _ _ _ => trivial) _ ht
  have hrest : pickedOrder.AtRest := ⟨rfl, fun _ => rfl, rfl⟩
  have hforeign : ∀ p x, deliveryAndPayout p = some x → x.Foreign := by
    intro p x hx
    unfold deliveryAndPayout at hx
    split at hx <;> cases hx
    · change payoutOfSixty.Foreign
      decide
    · trivial
  have hfinite : {p | (deliveryAndPayout p).isSome}.Finite := by
    refine (Set.finite_le_nat 1).subset fun p hp => ?_
    match p with
    | 0 => exact Nat.zero_le 1
    | 1 => exact Nat.le_refl 1
    | n + 2 => cases hp
  choose uuid huuid using exists_fresh
  obtain ⟨u, htu, hdone⟩ := calls_completable hrest hforeign hfinite hreach
    (fun _ v => { uuid := uuid v.uuids }) fun _ v => huuid v.uuids
  refine ⟨t, u, hend.1, htu.loosen fun _ _ _ _ _ => trivial, fun p hp => hdone p ?_⟩
  simp only [List.mem_cons, List.not_mem_nil, or_false] at hp
  rcases hp with rfl | rfl
  · exact hend.2.1
  · exact hend.2.2

end Runs

end OrderService
