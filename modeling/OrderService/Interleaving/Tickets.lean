import OrderService.Interleaving.RelyGuarantee

/-! Programs that draw tickets and spend them. A ticket is drawn by one process, which spends it
once at most, so a ticket that is to be spent is always free. -/
namespace Interleaving

variable {Pid Op T : Type} {Res : Op → Type} {ε W Env Ext α β : Type}

/-- Which operations spend a ticket, and which replies hand one out. -/
structure Ticketing (Op : Type) (Res : Op → Type) (T : Type) where
  spends : Op → T → Prop
  draws : (o : Op) → Res o → Option T

namespace Ticketing
variable (K : Ticketing Op Res T)

/-- The ticket at hand after a reply. -/
def after {o : Op} (ticket : Option T) : Except ε (Res o) → Option T
  | .ok a => (K.draws o a).or ticket
  | .error _ => ticket

/-- The program spends no ticket but the one at hand, and that one once. -/
def Holds : Option T → Prog Op Res ε α → Prop
  | _, .pure _ => True
  | _, .throw _ => True
  | ticket, .op o k =>
    ((∀ u, ¬K.spends o u) ∧ ∀ r, Holds (K.after ticket r) (k r)) ∨
      (∀ u, K.spends o u → ticket = some u) ∧ ∀ r, Holds none (k r)

/-- Spends nothing. -/
def Idle (o : Op) : Prop := ∀ u, ¬K.spends o u

/-- Spends nothing, and no reply hands out a ticket. -/
def Plain (o : Op) : Prop := K.Idle o ∧ ∀ a, K.draws o a = none

section Programs
variable {K} {ticket : Option T} {prog : Prog Op Res ε α} {f : α → Prog Op Res ε β}

theorem holds_of_calls {Q : α → Prop} (h : prog.Calls K.Idle (fun _ _ => True) Q)
    (ticket : Option T) : K.Holds ticket prog := by
  induction prog generalizing ticket with
  | pure a => trivial
  | throw e => trivial
  | op o k ih =>
    refine .inl ⟨h.1, fun r => ih r ?_ _⟩
    cases r with
    | error e => exact h.2.1 e
    | ok a => exact h.2.2 a trivial

/-- The ticket is for what comes first. -/
theorem holds_then (h : K.Holds ticket prog)
    (hf : ∀ a, (f a).Calls K.Idle (fun _ _ => True) fun _ => True) :
    K.Holds ticket (prog >>= f) := by
  rw [Prog.bind_eq]
  induction prog generalizing ticket with
  | pure a => exact holds_of_calls (hf a) ticket
  | throw e => trivial
  | op o k ih =>
    rcases h with ⟨hidle, hk⟩ | ⟨hspend, hk⟩
    · exact .inl ⟨hidle, fun r => ih r (hk r)⟩
    · exact .inr ⟨hspend, fun r => ih r (hk r)⟩

theorem holds_catch {handler : ε → Prog Op Res ε α} (h : K.Holds ticket prog)
    (hh : ∀ e, (handler e).Calls K.Idle (fun _ _ => True) fun _ => True) :
    K.Holds ticket (tryCatch prog handler) := by
  rw [Prog.tryCatch_eq]
  induction prog generalizing ticket with
  | pure a => trivial
  | throw e => exact holds_of_calls (hh e) ticket
  | op o k ih =>
    rcases h with ⟨hidle, hk⟩ | ⟨hspend, hk⟩
    · exact .inl ⟨hidle, fun r => ih r (hk r)⟩
    · exact .inr ⟨hspend, fun r => ih r (hk r)⟩

/-- The ticket is kept for what comes later. -/
theorem holds_do {R : (o : Op) → Res o → Prop} {Q : α → Prop} (h : prog.Calls K.Plain R Q)
    (hR : ∀ o a, R o a) (hf : ∀ a, Q a → K.Holds ticket (f a)) :
    K.Holds ticket (prog >>= f) := by
  rw [Prog.bind_eq]
  induction prog with
  | pure a => exact hf a h
  | throw e => trivial
  | op o k ih =>
    refine .inl ⟨h.1.1, fun r => ?_⟩
    cases r with
    | error e => exact ih _ (h.2.1 e)
    | ok a =>
      simp only [after, h.1.2 a, Option.none_or]
      exact ih _ (h.2.2 a (hR o a))

theorem holds_draw {o : Op} {f : Res o → Prog Op Res ε β} (ho : K.Idle o)
    (hf : ∀ a, K.Holds ((K.draws o a).or ticket) (f a)) :
    K.Holds ticket (Prog.perform o >>= f) := by
  refine .inl ⟨ho, fun r => ?_⟩
  cases r with
  | error e => trivial
  | ok a => exact hf a

theorem holds_spend {o : Op} (ho : ∀ u, K.spends o u → ticket = some u) :
    K.Holds ticket (Prog.perform o : Prog Op Res ε (Res o)) := by
  refine .inr ⟨ho, fun r => ?_⟩
  cases r <;> trivial

end Programs

section Runs
variable {M : Machine Pid Op Res ε W Env Ext} {J : W → Prop} {free : T → W → Prop}

/-- What the machine must do: spending a free ticket keeps `J`, only spending it takes a ticket,
and one that is handed out is free and was not before. -/
structure Fits (K : Ticketing Op Res T) (M : Machine Pid Op Res ε W Env Ext) (J : W → Prop)
    (free : T → W → Prop) : Prop where
  keeps : ∀ p o e w r w', J w → (∀ u, K.spends o u → free u w) →
    M.exec p o e w = some (r, w') → J w'
  others : ∀ p o e w r w' u, ¬K.spends o u → free u w → M.exec p o e w = some (r, w') → free u w'
  drawn : ∀ p o e w a w' u, J w → M.exec p o e w = some (.ok a, w') → K.draws o a = some u →
    ¬free u w ∧ free u w'
  crash : ∀ p w, (J w → J (M.crash p w)) ∧ ∀ u, free u w → free u (M.crash p w)
  ext : ∀ x w, (J w → J (M.ext x w)) ∧ ∀ u, free u w → free u (M.ext x w)

/-- Every process holds what it may spend, which is free, and no two hold the same. -/
structure Held (K : Ticketing Op Res T) (free : T → W → Prop) (tickets : Pid → Option T)
    (s : Sys Pid Op Res ε W α) : Prop where
  programs : ∀ p prog, s.procs p = some prog → K.Holds (tickets p) prog
  own : ∀ p q u, tickets p = some u → tickets q = some u → p = q
  free : ∀ p u, tickets p = some u → free u s.world

variable {K} [DecidableEq Pid] {s t : Sys Pid Op Res ε W α} {tickets : Pid → Option T}

/-- One process has moved on with another ticket, which is nobody else's. -/
theorem Held.moved {p : Pid} {w' : W} {ticket : Option T} {prog : Prog Op Res ε α}
    (h : K.Held free tickets s) (hprog : K.Holds ticket prog)
    (hothers : ∀ q u, q ≠ p → tickets q = some u → free u w')
    (hmine : ∀ u, ticket = some u → free u w' ∧ ∀ q, q ≠ p → tickets q ≠ some u) :
    K.Held free (Function.update tickets p ticket) ⟨w', Function.update s.procs p (some prog)⟩ := by
  constructor
  case programs =>
    intro q prog' hq
    by_cases hqp : q = p
    · subst hqp
      simp only [Function.update_self, Option.some.injEq] at hq
      rw [Function.update_self, ← hq]
      exact hprog
    · simp only [Function.update_of_ne hqp] at hq ⊢
      exact h.programs q prog' hq
  case own =>
    intro a b u ha hb
    by_cases hap : a = p <;> by_cases hbp : b = p
    · rw [hap, hbp]
    · subst hap
      rw [Function.update_self] at ha
      rw [Function.update_of_ne hbp] at hb
      exact absurd hb ((hmine u ha).2 b hbp)
    · subst hbp
      rw [Function.update_of_ne hap] at ha
      rw [Function.update_self] at hb
      exact absurd ha ((hmine u hb).2 a hap)
    · rw [Function.update_of_ne hap] at ha
      rw [Function.update_of_ne hbp] at hb
      exact h.own a b u ha hb
  case free =>
    intro q u hq
    by_cases hqp : q = p
    · subst hqp
      rw [Function.update_self] at hq
      exact (hmine u hq).1
    · rw [Function.update_of_ne hqp] at hq
      exact hothers q u hqp hq

theorem held_act (hfit : K.Fits M J free) (h : K.Held free tickets s) (hJ : J s.world) {p : Pid}
    {e : Env} {o : Op} {k : Except ε (Res o) → Prog Op Res ε α} (hp : s.procs p = some (.op o k))
    {r : Except ε (Res o)} {w' : W} (hx : M.exec p o e s.world = some (r, w')) :
    J w' ∧ ∃ tickets', K.Held free tickets' ⟨w', Function.update s.procs p (some (k r))⟩ := by
  rcases h.programs p _ hp with ⟨hidle, hk⟩ | ⟨hspend, hk⟩
  · have hkept : ∀ q u, tickets q = some u → free u w' := fun q u hq =>
      hfit.others p o e _ r w' u (hidle u) (h.free q u hq) hx
    refine ⟨hfit.keeps p o e _ r w' hJ (fun u hu => absurd hu (hidle u)) hx, _,
      h.moved (hk r) (fun q u _ => hkept q u) fun u hu => ?_⟩
    have hold : tickets p = some u → free u w' ∧ ∀ q, q ≠ p → tickets q ≠ some u := fun hpu =>
      ⟨hkept p u hpu, fun q hqp hqu => hqp (h.own q p u hqu hpu)⟩
    cases r with
    | error err => exact hold hu
    | ok a =>
      cases hdraw : K.draws o a with
      | none =>
        simp only [after, hdraw, Option.none_or] at hu
        exact hold hu
      | some v =>
        -- A ticket that is handed out was nobody's.
        simp only [after, hdraw, Option.some_or, Option.some.injEq] at hu
        subst hu
        obtain ⟨htaken, hfree⟩ := hfit.drawn p o e _ a w' v hJ hx hdraw
        exact ⟨hfree, fun q _ hq => htaken (h.free q v hq)⟩
  · refine ⟨hfit.keeps p o e _ r w' hJ (fun u hu => h.free p u (hspend u hu)) hx, _,
      h.moved (hk r) (fun q u hqp hq => ?_) nofun⟩
    refine hfit.others p o e _ r w' u (fun hu => ?_) (h.free q u hq) hx
    exact hqp (h.own q p u hq (hspend u hu))

theorem held_step (hfit : K.Fits M J free) (h : K.Held free tickets s) (hJ : J s.world)
    (l : Label Pid Env Ext) (hst : M.step l s = some t) :
    J t.world ∧ ∃ tickets', K.Held free tickets' t := by
  cases l with
  | ext x =>
    cases hst
    exact ⟨(hfit.ext x _).1 hJ, tickets, h.programs, h.own,
      fun p u hp => (hfit.ext x _).2 u (h.free p u hp)⟩
  | crash p =>
    obtain ⟨_, _, rfl⟩ := Option.map_eq_some_iff.mp hst
    refine ⟨(hfit.crash p _).1 hJ, tickets, fun q prog hq => ?_, h.own,
      fun q u hq => (hfit.crash p _).2 u (h.free q u hq)⟩
    by_cases hqp : q = p
    · subst hqp
      simp only [Function.update_self, reduceCtorEq] at hq
    · simp only [Function.update_of_ne hqp] at hq
      exact h.programs q prog hq
  | act p e =>
    simp only [Machine.step] at hst
    split at hst
    case h_2 => cases hst
    case h_1 o k hp =>
      obtain ⟨⟨r, w'⟩, hx, rfl⟩ := Option.map_eq_some_iff.mp hst
      exact held_act hfit h hJ hp hx

/-- In every interleaving a ticket is free when it is spent. -/
theorem held_reaches (hfit : K.Fits M J free) {ok : Pid → Op → Env → W → Prop}
    (h : K.Held free tickets s) (hJ : J s.world) (ht : M.Reaches ok s t) :
    J t.world ∧ ∃ tickets', K.Held free tickets' t := by
  induction ht with
  | start => exact ⟨hJ, tickets, h⟩
  | step l _ _ hst ih =>
    obtain ⟨hJ', tickets', h'⟩ := ih
    exact held_step hfit h' hJ' l hst

/-- Programs that hold nothing at the start. -/
theorem keeps_of_holding (hfit : K.Fits M J free) {ok : Pid → Op → Env → W → Prop}
    (hprogs : ∀ p prog, s.procs p = some prog → K.Holds none prog) (hJ : J s.world)
    (ht : M.Reaches ok s t) : J t.world := by
  have hheld : K.Held free (fun _ => none) s := ⟨hprogs, nofun, nofun⟩
  exact (held_reaches hfit hheld hJ ht).1

end Runs

end Ticketing

end Interleaving
