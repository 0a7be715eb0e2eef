import OrderService.Effects

/-! Work that a call does only when it owns something that no two calls can own. -/
namespace OrderService
open ReadCommitted Interleaving

section Statement

/-- The call has a transaction open, or has committed a write that counts. -/
def World.Engaged (counts : Write → Prop) (w : World) (p : Pid) : Prop :=
  (∃ log, w.store.txn p = .active log) ∨
    ∃ ws, (p, ws) ∈ w.store.history ∧ ∃ x ∈ ws, counts x

/-- Besides `I`, only owners are engaged. What a call owns is read off the commits. -/
def ownedSpec (I : Db → List (Pid × List Write) → Prop) (counts : Write → Prop)
    (Own : Pid → List (Pid × List Write) → Prop) : Spec Pid World where
  inv w := (sharedSpec I).inv w ∧ ∀ q, w.Engaged counts q → Own q w.store.history
  rely p w w' := (sharedSpec I).rely p w w'

end Statement

section Steps
variable {p q : Pid} {o : Op} {e : Env} {w w' : World} {r : Except Err o.Res}

/-- An operation commits for its own process only. -/
theorem exec_history (hx : exec p o e w = some (r, w')) :
    ∃ bs, w'.store.history = w.store.history ++ bs ∧ ∀ b ∈ bs, b.1 = p := by
  have hsame : w'.store.history = w.store.history →
      ∃ bs, w'.store.history = w.store.history ++ bs ∧ ∀ b ∈ bs, b.1 = p :=
    fun heq => ⟨[], by rw [heq, List.append_nil], by simp⟩
  by_cases hc : o.commits = false
  · exact hsame (exec_quiet hx hc).2
  have hs := exec_store hx
  cases o with
  | sql c s =>
    cases c with
    | trx => exact absurd rfl hc
    | pool =>
      rcases hs with hs | ⟨a, hs⟩
      · exact hsame (by rw [hs])
      · obtain ⟨_, _, hs⟩ := autocommit_cases hs
        by_cases hempty : (s.eval w.seqs w.clock w.store.db).writes.isEmpty = true
        · exact hsame (by rw [hs]; exact if_pos hempty)
        · refine ⟨[(p, (s.eval w.seqs w.clock w.store.db).writes)], ?_, by simp⟩
          rw [hs]
          exact if_neg hempty
  | commit =>
    rcases hs with hs | hs | hs
    · exact hsame (by rw [hs]; rfl)
    · exact hsame (by rw [hs])
    · obtain ⟨log, _, hs⟩ := commit_cases hs
      exact ⟨[(p, log)], by rw [hs], by simp⟩
  | _ => exact absurd rfl hc

theorem exec_txn (hl : Locked engine w.store) (hx : exec p o e w = some (r, w')) (hqp : q ≠ p) :
    w'.store.txn q = w.store.txn q := (exec_rely hl hx hqp).txn

end Steps

section Rules
variable {I : Db → List (Pid × List Write) → Prop} {counts : Write → Prop}
  {Own : Pid → List (Pid × List Write) → Prop} {ok : Pid → Op → Env → World → Prop} {p : Pid}
  {α : Type}

/-- What is owned stays owned. -/
def Remains (Own : Pid → List (Pid × List Write) → Prop) : Prop :=
  ∀ q history bs, Own q history → Own q (history ++ bs)

theorem ownedSpec_fits : (ownedSpec I counts Own).Fits machine where
  refl p w := (sharedSpec_fits I).refl p w
  trans p w w' w'' h h' := (sharedSpec_fits I).trans p w w' w'' h h'
  crash p w hi := by
    obtain ⟨hshared, hrely⟩ := (sharedSpec_fits I).crash p w hi.1
    refine ⟨⟨hshared, fun q hq => hi.2 q ?_⟩, hrely⟩
    rcases hq with ⟨log, hlog⟩ | hq
    · by_cases hqp : q = p
      · subst hqp
        have hclosed : (w.store.rollback q).txn q = .closed := Function.update_self _ _ _
        have hlog : (w.store.rollback q).txn q = .active log := hlog
        rw [hclosed] at hlog
        cases hlog
      · have hsame : (w.store.rollback p).txn q = w.store.txn q := Function.update_of_ne hqp _ _
        have hlog : (w.store.rollback p).txn q = .active log := hlog
        exact .inl ⟨log, by rw [← hsame]; exact hlog⟩
    · exact .inr hq
  ext x w hi := by
    obtain ⟨hshared, hrely⟩ := (sharedSpec_fits I).ext x w hi.1
    exact ⟨⟨hshared, fun q hq => by cases x <;> exact hi.2 q hq⟩, hrely⟩

theorem owned_of_store {w w' : World} (h : w'.store = w.store)
    (hi : (ownedSpec I counts Own).inv w) : (ownedSpec I counts Own).inv w' := by
  refine ⟨sharedSpec_inv_of_store h hi.1, fun q hq => ?_⟩
  unfold World.Engaged at hq
  rw [h] at hq ⊢
  exact hi.2 q hq

/-- The other calls are engaged after an operation only if they were before. -/
theorem engaged_other {o : Op} {e : Env} {w w' : World} {r : Except Err o.Res} {q : Pid}
    (hl : Locked engine w.store) (hx : exec p o e w = some (r, w')) (hqp : q ≠ p)
    (h : w'.Engaged counts q) : w.Engaged counts q := by
  rcases h with ⟨log, hlog⟩ | ⟨ws, hws, hcount⟩
  · exact .inl ⟨log, by rw [← exec_txn hl hx hqp]; exact hlog⟩
  · obtain ⟨bs, hhistory, hbs⟩ := exec_history hx
    rw [hhistory, List.mem_append] at hws
    rcases hws with hws | hws
    · exact .inr ⟨ws, hws, hcount⟩
    · exact absurd (hbs _ hws) hqp

/-- An operation that leaves the store as it is. -/
theorem wp_owned_still {o : Op} {Q : Except Err o.Res → World → Prop} {w : World}
    (hstill : ∀ e v r v', exec p o e v = some (r, v') → v'.store = v.store)
    (h : ∀ e v r v', (sharedSpec I).rely p w v → exec p o e v = some (r, v') →
      v'.store = v.store → Q r v') :
    wp machine ok (ownedSpec I counts Own) p (.perform o) Q w := by
  apply wp_perform
  intro v hr hi e r v' _ hx
  rw [machine_exec] at hx
  have hstore := hstill e v r v' hx
  exact ⟨owned_of_store hstore hi,
    fun q hqp => (sharedSpec_isolated I p).guarantee o e v r v' hi.1 hx q hqp,
    h e v r v' hr hx hstore⟩

/-- An owner may do anything whose commits keep `I`. -/
theorem wp_owner (hOwn : Remains Own) {H : Write → Prop} (hI : KeptBy I p H) {prog : Svc α}
    (hc : prog.Calls (Op.Harmless H) (fun _ _ => True) fun _ => True) {w : World}
    (hlog : ∀ x ∈ w.log p, H x) (hown : Own p w.store.history) :
    wp machine ok (ownedSpec I counts Own) p prog (fun _ _ => True) w := by
  induction prog generalizing w with
  | pure a => trivial
  | throw e => trivial
  | op o k ih =>
    intro v hr hi e r v' _ hx
    rw [machine_exec] at hx
    have hlog₁ : ∀ x ∈ v.log p, H x := by
      rw [World.log, hr.1.txn]
      exact hlog
    obtain ⟨others, hothers, _⟩ := hr.1.commits
    have hown₁ : Own p v.store.history := by
      rw [hothers]
      exact hOwn p _ others hown
    obtain ⟨bs, hbs, _⟩ := exec_history hx
    have hown₂ : Own p v'.store.history := by
      rw [hbs]
      exact hOwn p _ bs hown₁
    refine ⟨⟨inv_exec hI hx hc.1 hlog₁ hi.1, fun q hq => ?_⟩,
      fun q hqp => (sharedSpec_isolated I p).guarantee o e v r v' hi.1 hx q hqp,
      ih r ?_ (log_exec hx hc.1 hlog₁) hown₂⟩
    · by_cases hqp : q = p
      · subst hqp
        exact hown₂
      · rw [hbs]
        exact hOwn q _ bs (hi.2 q (engaged_other hi.1.1 hx hqp hq))
    · cases r with
      | error err => exact hc.2.1 err
      | ok a => exact hc.2.2 a trivial

end Rules

end OrderService
