import OrderService.Interleaving.Growth
import OrderService.SerialIds

/-! What a call knows of rows that it has read, while the other calls commit. -/
namespace OrderService
open ReadCommitted Interleaving

section Statement
variable (G : Growth engine) (db₀ : Db)

/-- The committed tables came from `db₀` by writes that fit. -/
abbrev grownSpec : Spec Pid World := sharedSpec (G.Run db₀)

/-- The call has a transaction open, whose writes fit, and what it sees there satisfies `K`. -/
structure World.Knows (p : Pid) (K : Db → Prop) (w : World) : Prop where
  run : G.Run db₀ w.store.db w.store.history
  opened : ∃ log, w.store.txn p = .active log
  fitting : G.Fitting (w.log p) w.store.db
  known : K (w.view p)

/-- The committed tables satisfy `K`. -/
structure World.Holds (K : Db → Prop) (w : World) : Prop where
  run : G.Run db₀ w.store.db w.store.history
  holds : K w.store.db

end Statement

section Rules
variable {G : Growth engine} {db₀ : Db} {ok : Pid → Op → Env → World → Prop} {p : Pid}
  {K : Db → Prop} {w w' : World} {α : Type}

theorem grownSpec_le (hrun : G.Run db₀ w.store.db w.store.history)
    (hr : (grownSpec G db₀).rely p w w') (hi : (grownSpec G db₀).inv w') :
    G.le w.store.db w'.store.db := by
  obtain ⟨bs, hhistory, _⟩ := hr.1.commits
  have hlater := hi.2
  rw [hhistory] at hlater
  exact hrun.later hlater

/-- What the others commit does not take away what the call knows. -/
theorem World.Knows.rely (hK : G.Lasting K) (h : w.Knows G db₀ p K)
    (hr : (grownSpec G db₀).rely p w w') (hi : (grownSpec G db₀).inv w') :
    w'.Knows G db₀ p K := by
  have hle := grownSpec_le h.run hr hi
  have hlog : w'.log p = w.log p := by rw [World.log, hr.1.txn, World.log]
  obtain ⟨log, hopen⟩ := h.opened
  refine ⟨hi.2, ⟨log, hr.1.txn.trans hopen⟩, by rw [hlog]; exact h.fitting.mono hle, ?_⟩
  rw [World.view_eq, hlog]
  exact hK _ _ (Growth.applyAll_mono hle) h.known

theorem World.Holds.rely (hK : G.Lasting K) (h : w.Holds G db₀ K)
    (hr : (grownSpec G db₀).rely p w w') (hi : (grownSpec G db₀).inv w') : w'.Holds G db₀ K :=
  ⟨hi.2, hK _ _ (grownSpec_le h.run hr hi) h.holds⟩

theorem World.Knows.of_store (h : w.Knows G db₀ p K) (hstore : w'.store = w.store) :
    w'.Knows G db₀ p K := by
  obtain ⟨hrun, hopen, hfit, hK⟩ := h
  have hlog : w'.log p = w.log p := by rw [World.log, hstore, World.log]
  have hview : w'.view p = w.view p := by rw [World.view, hstore, World.view]
  exact ⟨by rw [hstore]; exact hrun, by rw [hstore]; exact hopen,
    by rw [hlog, hstore]; exact hfit, by rw [hview]; exact hK⟩

theorem World.Holds.of_store (h : w.Holds G db₀ K) (hstore : w'.store = w.store) :
    w'.Holds G db₀ K :=
  ⟨by rw [hstore]; exact h.run, by rw [hstore]; exact h.holds⟩

theorem World.Knows.mono {L : Db → Prop} (h : w.Knows G db₀ p K)
    (hK : ∀ db, K db → L db) : w.Knows G db₀ p L :=
  ⟨h.run, h.opened, h.fitting, hK _ h.known⟩

/-- What the call sees in its transaction is as sound as the tables at the beginning. -/
theorem World.Knows.sound (h : w.Knows G db₀ p K) (hs : G.sound db₀) : G.sound (w.view p) :=
  h.fitting.sound (h.run.sound hs)

/-- A transaction that begins sees the committed tables. -/
theorem World.Holds.start (h : w.Holds G db₀ K) :
    ({ w with store := w.store.start p } : World).Knows G db₀ p K := by
  have hlog : ({ w with store := w.store.start p } : World).log p = [] :=
    World.log_of_active (World.start_txn w p)
  refine ⟨h.run, ⟨[], World.start_txn w p⟩, by rw [hlog]; trivial, ?_⟩
  rw [World.view_eq, hlog]
  exact h.holds

/-- A statement whose writes fit what the call sees. -/
theorem World.Knows.queried {q : Sql} {L : Db → Prop} (h : w.Knows G db₀ p K)
    (hfit : G.Fitting (w.inTrx p q).writes (w.view p))
    (hL : L (engine.applyAll (w.inTrx p q).writes (w.view p))) :
    (w.queried p q).Knows G db₀ p L := by
  have hlog : (w.queried p q).log p = w.log p ++ (w.inTrx p q).writes := by
    rw [World.log, World.queried_txn]
    rfl
  refine ⟨h.run, ⟨_, World.queried_txn⟩, ?_, ?_⟩
  · rw [hlog, Growth.fitting_append]
    exact ⟨h.fitting, hfit⟩
  · rw [World.view_eq, hlog, applyAll_append]
    exact hL

/-- A transaction that begins, whatever was known before. -/
theorem wp_start_fresh {P : Unit → World → Prop}
    (hP : ∀ v, v.Knows G db₀ p (fun _ => True) → P () v) :
    wp machine ok (grownSpec G db₀) p startTransaction (OnOk P) w := by
  apply wp_start_ok (sharedSpec_isolated _ p)
  intro v _ hi _
  have hholds : v.Holds G db₀ fun _ => True := ⟨hi.2, trivial⟩
  exact hP _ hholds.start

/-- A statement on the pool whose writes always fit. -/
theorem wp_pool_fits {q : Sql} (hq : ∀ x, q.MayWrite x → ∀ db, G.fits x db)
    {P : q.Res → World → Prop} (hP : ∀ a v, P a v) :
    wp machine ok (grownSpec G db₀) p (sql .pool q) (OnOk P) w := by
  apply wp_pool_shared
  intro v e _ hi _
  have hfit : G.Fitting (v.onPool q).writes v.store.db :=
    Growth.fitting_of_lasting (K := fun _ => True) (fun _ _ _ _ => trivial)
      (fun x hx db _ => hq x (Sql.mayWrite_of_mem hx) db) trivial
  exact ⟨fun _ => hi.2.commit hfit p, fun a _ => hP a _⟩

/-- A statement in the transaction. It may rely on what the call knows, and its reply may add
to that. -/
theorem wp_trx_knows {q : Sql} {L : q.Res → Db → Prop} (hs : G.sound db₀) (hK : G.Lasting K)
    (h : w.Knows G db₀ p K)
    (hq : ∀ seqs clock db, K db → G.sound db → G.Fitting (q.eval seqs clock db).writes db ∧
      ∀ a, (q.eval seqs clock db).reply = .ok a →
        L a (engine.applyAll (q.eval seqs clock db).writes db))
    {P : q.Res → World → Prop} (hP : ∀ a v, v.Knows G db₀ p (L a) → P a v) :
    wp machine ok (grownSpec G db₀) p (sql .trx q) (OnOk P) w := by
  obtain ⟨log, hlog⟩ := h.opened
  apply wp_trx_ok (sharedSpec_isolated _ p) hlog
  intro v e a hr hi _ _ _ hreply
  have hv := h.rely hK hr hi
  obtain ⟨hfit, hL⟩ := hq v.seqs v.clock (v.view p) hv.known (hv.sound hs)
  exact hP a _ (hv.queried hfit (hL a hreply))

/-- A statement that only reads. -/
theorem wp_trx_reads {q : Sql} {L : q.Res → Db → Prop} (hs : G.sound db₀) (hK : G.Lasting K)
    (h : w.Knows G db₀ p K) (hread : ∀ seqs clock db, (q.eval seqs clock db).writes = [])
    (hq : ∀ seqs clock db a, K db → G.sound db → (q.eval seqs clock db).reply = .ok a → L a db)
    {P : q.Res → World → Prop} (hP : ∀ a v, v.Knows G db₀ p (L a) → P a v) :
    wp machine ok (grownSpec G db₀) p (sql .trx q) (OnOk P) w := by
  apply wp_trx_knows hs hK h _ hP
  intro seqs clock db hdb hsound
  rw [hread seqs clock db]
  exact ⟨trivial, fun a ha => hq seqs clock db a hdb hsound ha⟩

/-- What the call knew in its transaction holds of the committed tables afterwards. -/
theorem wp_commit_knows (hK : G.Lasting K) (h : w.Knows G db₀ p K) {P : Unit → World → Prop}
    (hP : ∀ v, v.Holds G db₀ K → P () v) :
    wp machine ok (grownSpec G db₀) p commit (OnOk P) w := by
  obtain ⟨log, hlog⟩ := h.opened
  apply wp_commit_shared hlog
  intro v hr hi hlog'
  have hv := h.rely hK hr hi
  have hcommitted := hv.run.commit hv.fitting p
  refine ⟨?_, hP _ ⟨hcommitted, hv.known⟩⟩
  rw [← World.log_of_active hlog']
  exact hcommitted

theorem wp_outer_knows (hK : G.Lasting K) (h : w.Knows G db₀ p K) {o : Op} (ho : o.outer = true)
    {P : o.Res → World → Prop}
    (hP : ∀ e a u v, ok p o e u → exec p o e u = some (.ok a, v) → v.Knows G db₀ p K → P a v) :
    wp machine ok (grownSpec G db₀) p (.perform o) (OnOk P) w := by
  apply wp_outer_ok (sharedSpec_isolated _ p) ho
  intro u e a v hr hi hok hx _ hstore _ _
  exact hP e a u v hok hx ((h.rely hK hr hi).of_store hstore)

theorem wp_outer_holds (hK : G.Lasting K) (h : w.Holds G db₀ K) {o : Op} (ho : o.outer = true)
    {P : o.Res → World → Prop}
    (hP : ∀ e a u v, ok p o e u → exec p o e u = some (.ok a, v) → v.Holds G db₀ K → P a v) :
    wp machine ok (grownSpec G db₀) p (.perform o) (OnOk P) w := by
  apply wp_outer_ok (sharedSpec_isolated _ p) ho
  intro u e a v hr hi hok hx _ hstore _ _
  exact hP e a u v hok hx ((h.rely hK hr hi).of_store hstore)

/-- A statement on the pool. -/
theorem wp_pool_holds {q : Sql} {L : q.Res → Db → Prop} (hs : G.sound db₀) (hK : G.Lasting K)
    (h : w.Holds G db₀ K)
    (hq : ∀ seqs clock db, K db → G.sound db → G.Fitting (q.eval seqs clock db).writes db ∧
      ∀ a, (q.eval seqs clock db).reply = .ok a →
        L a (engine.applyAll (q.eval seqs clock db).writes db))
    {P : q.Res → World → Prop} (hP : ∀ a v, v.Holds G db₀ (L a) → P a v) :
    wp machine ok (grownSpec G db₀) p (sql .pool q) (OnOk P) w := by
  apply wp_pool_shared
  intro v e hr hi _
  have hv := h.rely hK hr hi
  obtain ⟨hfit, hL⟩ := hq v.seqs v.clock v.store.db hv.holds (hv.run.sound hs)
  have hcommitted := hv.run.commit hfit p
  refine ⟨fun _ => hcommitted, fun a ha => hP a _ ⟨?_, hL a ha⟩⟩
  by_cases hempty : (v.onPool q).writes = []
  · rw [World.pooled_store hempty]
    exact hv.run
  · simp only [World.pooled, List.isEmpty_iff, hempty, if_false]
    exact hcommitted

/-- A statement on the pool that only reads. -/
theorem wp_pool_reads {q : Sql} (hs : G.sound db₀) (hK : G.Lasting K) (h : w.Holds G db₀ K)
    (hread : ∀ seqs clock db, (q.eval seqs clock db).writes = []) {P : q.Res → World → Prop}
    (hP : ∀ a v, v.Holds G db₀ K → P a v) :
    wp machine ok (grownSpec G db₀) p (sql .pool q) (OnOk P) w := by
  apply wp_pool_holds hs hK h _ hP
  intro seqs clock db hdb _
  rw [hread seqs clock db]
  exact ⟨trivial, fun _ _ => hdb⟩

/-- Writes that fit whatever happened. -/
theorem grown_keptBy {H : Write → Prop} (hH : ∀ x, H x → ∀ db, G.fits x db) (p : Pid) :
    KeptBy (G.Run db₀) p H := by
  intro db history log hrun hlog
  have hfit : G.Fitting log db :=
    Growth.fitting_of_lasting (K := fun _ => True) (fun _ _ _ _ => trivial)
      (fun x hx db _ => hH x (hlog x hx) db) trivial
  exact hrun.commit hfit p

section Appending
variable {H : Write → Prop} {R : (o : Op) → o.Res → Prop} {Q : α → Prop}
  (hK : G.Lasting K) (hfits : ∀ x, H x → ∀ db, K db → G.fits x db)
include hK hfits

theorem World.Knows.exec {o : Op} {e : Env} {r : Except Err o.Res} (h : w.Knows G db₀ p K)
    (ho : o.Appends H) (hx : exec p o e w = some (r, w')) : w'.Knows G db₀ p K := by
  have hsame : w'.store = w.store → w'.Knows G db₀ p K := h.of_store
  cases o with
  | sql c q =>
    cases c with
    | pool => exact absurd ho id
    | trx =>
      rcases exec_sql_cases hx with rfl | ⟨hpool, _⟩ | ⟨_, rfl, _⟩
      · exact h
      · cases hpool
      · have hfit : G.Fitting (w.inTrx p q).writes (w.view p) :=
          Growth.fitting_of_lasting hK
            (fun x hmem db hdb => hfits x (ho x (Sql.mayWrite_of_mem hmem)) db hdb) h.known
        exact h.queried hfit (hK _ _ hfit.le h.known)
  | start | commit | rollback => exact absurd ho Bool.false_ne_true
  | _ => exact hsame (exec_store hx)

/-- A program that only appends writes which fit what the call knows. -/
theorem wp_appends_knows {prog : Svc α} (hc : prog.Calls (Op.Appends H) R Q)
    (hR : ∀ o e w a w', ok p o e w → exec p o e w = some (.ok a, w') → R o a)
    {w : World} (h : w.Knows G db₀ p K) {P : α → World → Prop}
    (hP : ∀ a v, Q a → v.Knows G db₀ p K → P a v) :
    wp machine ok (grownSpec G db₀) p prog (OnOk P) w := by
  induction prog generalizing w with
  | pure a => exact hP a w hc h
  | throw e => trivial
  | op o k ih =>
    intro u hr hi e r v hok hx
    rw [machine_exec] at hx
    have hv := (h.rely hK hr hi).exec hK hfits hc.1 hx
    have hquiet : o.commits = false := by
      have ho := hc.1
      cases o with
      | sql c q =>
        cases c with
        | pool => exact absurd ho id
        | trx => rfl
      | commit => exact absurd ho Bool.false_ne_true
      | _ => rfl
    refine ⟨(sharedSpec_isolated _ p).quiet o e u r v hquiet hi hx,
      (sharedSpec_isolated _ p).guarantee o e u r v hi hx, ih r ?_ hv⟩
    cases r with
    | error err => exact hc.2.1 err
    | ok a => exact hc.2.2 a (hR o e u a v hok hx)

end Appending

end Rules

section Quiet
variable {S : Spec Pid World} {ok : Pid → Op → Env → World → Prop} {p : Pid} {α : Type}

theorem calls_quiet {o : Op} (ho : o.commits = false) {R : (o : Op) → o.Res → Prop} :
    (Prog.perform o : Svc o.Res).Calls (fun o => o.commits = false) R fun _ => True :=
  Prog.calls_perform ho fun _ _ => trivial

/-- A program that cannot commit anything. -/
theorem wp_quiet (hS : Isolated S p) {prog : Svc α} {Q : α → Prop}
    (hc : prog.Calls (fun o => o.commits = false) (fun _ _ => True) Q)
    {P : α → World → Prop} (hP : ∀ a v, Q a → P a v) {w : World} :
    wp machine ok S p prog (OnOk P) w := by
  induction prog generalizing w with
  | pure a => exact hP a w hc
  | throw e => trivial
  | op o k ih =>
    intro u hr hi e r v _ hx
    rw [machine_exec] at hx
    refine ⟨hS.quiet o e u r v hc.1 hi hx, hS.guarantee o e u r v hi hx, ih r ?_⟩
    cases r with
    | error err => exact hc.2.1 err
    | ok a => exact hc.2.2 a trivial

end Quiet

end OrderService
