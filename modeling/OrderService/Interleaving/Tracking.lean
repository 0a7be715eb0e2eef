import Mathlib.Data.DFinsupp.WellFounded
import OrderService.Interleaving.Trace
import OrderService.Interleaving.Translate

/-! Programs that go through the states of a protocol, of which the world shows a bound only, and
systems of programs in which somebody can always go on. -/
namespace Interleaving

variable {Op : Type} {Res : Op → Type} {ε σ α β : Type}

/-- From the state on every operation is allowed, whatever the replies; `Q` holds of the result and
of the state in which the program ends. -/
def Prog.Tracks (T : Protocol Op Res ε σ) (Q : Except ε α → σ → Prop) :
    σ → Prog Op Res ε α → Prop
  | s, .pure a => Q (.ok a) s
  | s, .throw e => Q (.error e) s
  | s, .op o k => T.allows s o ∧ ∀ r, (k r).Tracks T Q (T.after s o r)

section Rules
variable {T : Protocol Op Res ε σ} {s : σ}

theorem Prog.Tracks.mono {Q Q' : Except ε α → σ → Prop} {prog : Prog Op Res ε α}
    (h : prog.Tracks T Q s) (hQ : ∀ r s', Q r s' → Q' r s') : prog.Tracks T Q' s := by
  induction prog generalizing s with
  | pure a => exact hQ _ _ h
  | throw e => exact hQ _ _ h
  | op o k ih => exact ⟨h.1, fun r => ih r (h.2 r)⟩

/-- A protocol that allows more is kept as well. -/
theorem Prog.Tracks.loosen {T' : Protocol Op Res ε σ} {Q : Except ε α → σ → Prop}
    {prog : Prog Op Res ε α} (hafter : T'.after = T.after)
    (hallows : ∀ s o, T.allows s o → T'.allows s o) (h : prog.Tracks T Q s) :
    prog.Tracks T' Q s := by
  induction prog generalizing s with
  | pure a => exact h
  | throw e => exact h
  | op o k ih =>
    refine ⟨hallows s o h.1, fun r => ih r ?_⟩
    rw [hafter]
    exact h.2 r

theorem Prog.tracks_do {Q : Except ε β → σ → Prop} {prog : Prog Op Res ε α}
    {f : α → Prog Op Res ε β}
    (h : prog.Tracks T (fun r s' => match r with
      | .ok a => (f a).Tracks T Q s'
      | .error e => Q (.error e) s') s) : (prog >>= f).Tracks T Q s := by
  rw [Prog.bind_eq]
  induction prog generalizing s with
  | pure a => exact h
  | throw e => exact h
  | op o k ih => exact ⟨h.1, fun r => ih r (h.2 r)⟩

theorem Prog.tracks_catch {Q : Except ε α → σ → Prop} {prog : Prog Op Res ε α}
    {handler : ε → Prog Op Res ε α}
    (h : prog.Tracks T (fun r s' => match r with
      | .ok a => Q (.ok a) s'
      | .error e => (handler e).Tracks T Q s') s) :
    (MonadExcept.tryCatch prog handler).Tracks T Q s := by
  rw [Prog.tryCatch_eq]
  induction prog generalizing s with
  | pure a => exact h
  | throw e => exact h
  | op o k ih => exact ⟨h.1, fun r => ih r (h.2 r)⟩

theorem Prog.tracks_perform {o : Op} {Q : Except ε (Res o) → σ → Prop} (ho : T.allows s o)
    (h : ∀ r, Q r (T.after s o r)) : (Prog.perform o : Prog Op Res ε (Res o)).Tracks T Q s := by
  refine ⟨ho, fun r => ?_⟩
  cases r with
  | ok a => exact h _
  | error e => exact h _

theorem Prog.tracks_ofExcept {Q : Except ε α → σ → Prop} {r : Except ε α} (h : Q r s) :
    (Prog.ofExcept r : Prog Op Res ε α).Tracks T Q s := by
  cases r with
  | ok a => exact h
  | error e => exact h

end Rules

section Systems
variable {Pid W Env Ext : Type} [DecidableEq Pid] {M : Machine Pid Op Res ε W Env Ext}
  {ok : Pid → Op → Env → W → Prop} {s t : Sys Pid Op Res ε W α}

/-- Where the world bounds the state of each process as the protocol says, every process is in a
state within its bound from which the rest of its program goes on. -/
theorem Machine.Reaches.tracks {T : Protocol Op Res ε σ} {Shows : Pid → W → σ → Prop}
    {Q : Pid → Except ε α → σ → Prop}
    (hstart : ∀ p prog, s.procs p = some prog → ∃ st, Shows p s.world st ∧ prog.Tracks T (Q p) st)
    (hexec : ∀ p o e w r w', M.exec p o e w = some (r, w') →
      (∀ st, Shows p w st → T.allows st o → Shows p w' (T.after st o r)) ∧
        ∀ q st, q ≠ p → Shows q w st → Shows q w' st)
    (hcrash : ∀ p w q st, q ≠ p → Shows q w st → Shows q (M.crash p w) st)
    (hext : ∀ x w q st, Shows q w st → Shows q (M.ext x w) st) (h : M.Reaches ok s t) (p : Pid)
    (prog : Prog Op Res ε α) (hp : t.procs p = some prog) :
    ∃ st, Shows p t.world st ∧ prog.Tracks T (Q p) st := by
  induction h generalizing p prog with
  | start => exact hstart p prog hp
  | @step u v l _ _ hst ih =>
    cases l with
    | act q e =>
      simp only [Machine.step] at hst
      split at hst
      case h_2 => cases hst
      case h_1 o k hq =>
        obtain ⟨⟨r, w'⟩, hx, rfl⟩ := Option.map_eq_some_iff.mp hst
        obtain ⟨hown, hothers⟩ := hexec q o e u.world r w' hx
        by_cases hpq : p = q
        · subst hpq
          simp only [Function.update_self, Option.some.injEq] at hp
          obtain ⟨st, hshows, hallows, hrest⟩ := ih p _ hq
          rw [← hp]
          exact ⟨T.after st o r, hown st hshows hallows, hrest r⟩
        · simp only [Function.update_of_ne hpq] at hp
          obtain ⟨st, hshows, hrest⟩ := ih p prog hp
          exact ⟨st, hothers p st hpq hshows, hrest⟩
    | crash q =>
      obtain ⟨_, _, rfl⟩ := Option.map_eq_some_iff.mp hst
      by_cases hpq : p = q
      · simp only [hpq, Function.update_self, reduceCtorEq] at hp
      · simp only [Function.update_of_ne hpq] at hp
        obtain ⟨st, hshows, hrest⟩ := ih p prog hp
        exact ⟨st, hcrash q u.world p st hpq hshows, hrest⟩
    | ext x =>
      cases hst
      obtain ⟨st, hshows, hrest⟩ := ih p prog hp
      exact ⟨st, hext x u.world p st hshows, hrest⟩

theorem Machine.Reaches.loosen {ok' : Pid → Op → Env → W → Prop} (h : M.Reaches ok s t)
    (hok : ∀ p o e w, ok p o e w → ok' p o e w) : M.Reaches ok' s t := by
  induction h with
  | start => exact .start
  | @step u v l _ hm hst ih =>
    refine .step l ih ?_ hst
    cases l with
    | act p e =>
      simp only [Machine.Meets] at hm ⊢
      split
      · next o k hp =>
        simp only [hp] at hm
        exact hok p o e u.world hm
      · trivial
    | crash p => trivial
    | ext x => trivial

/-- What the death of a process leaves behind stays, if the others cannot change it. -/
theorem Machine.Reaches.dead {D : Pid → W → Prop} (hstart : ∀ p, s.procs p = none → D p s.world)
    (hexec : ∀ p o e w r w' q, q ≠ p → M.exec p o e w = some (r, w') → D q w → D q w')
    (hcrash : ∀ p w, D p (M.crash p w)) (hother : ∀ p w q, q ≠ p → D q w → D q (M.crash p w))
    (hext : ∀ x w q, D q w → D q (M.ext x w)) (h : M.Reaches ok s t) (p : Pid)
    (hp : t.procs p = none) : D p t.world := by
  induction h generalizing p with
  | start => exact hstart p hp
  | @step u v l _ _ hst ih =>
    cases l with
    | act q e =>
      simp only [Machine.step] at hst
      split at hst
      case h_2 => cases hst
      case h_1 o k hq =>
        obtain ⟨⟨r, w'⟩, hx, rfl⟩ := Option.map_eq_some_iff.mp hst
        by_cases hpq : p = q
        · simp only [hpq, Function.update_self, reduceCtorEq] at hp
        · simp only [Function.update_of_ne hpq] at hp
          exact hexec q o e u.world r w' p hpq hx (ih p hp)
    | crash q =>
      obtain ⟨_, _, rfl⟩ := Option.map_eq_some_iff.mp hst
      by_cases hpq : p = q
      · rw [hpq]
        exact hcrash q u.world
      · simp only [Function.update_of_ne hpq] at hp
        exact hother q u.world p hpq (ih p hp)
    | ext x =>
      cases hst
      exact hext x u.world p (ih p hp)

end Systems

section Completion
variable {Pid W Env Ext : Type}

/-- The program has come to its end. -/
def Prog.Done : Prog Op Res ε α → Prop
  | .op _ _ => False
  | _ => True

instance (prog : Prog Op Res ε α) : Decidable prog.Done :=
  match prog with
  | .op _ _ => .isFalse id
  | .pure _ => .isTrue trivial
  | .throw _ => .isTrue trivial

/-- What is left of a program after one more of its operations. -/
def Prog.Next : (rest prog : Option (Prog Op Res ε α)) → Prop
  | some rest, some (.op _ k) => ∃ r, rest = k r
  | _, _ => False

theorem Prog.next_wellFounded :
    WellFounded fun rest prog : Option (Prog Op Res ε α) => Prog.Next rest prog := by
  constructor
  intro prog
  have hnone : Acc Prog.Next (none : Option (Prog Op Res ε α)) := by
    constructor
    intro rest hrest
    cases rest <;> exact hrest.elim
  cases prog with
  | none => exact hnone
  | some prog =>
    induction prog with
    | pure a =>
      constructor
      intro rest hrest
      cases rest <;> exact hrest.elim
    | throw e =>
      constructor
      intro rest hrest
      cases rest <;> exact hrest.elim
    | op o k ih =>
      constructor
      intro rest hrest
      cases rest with
      | none => exact hnone
      | some rest =>
        obtain ⟨r, rfl⟩ := hrest
        exact ih r

variable [DecidableEq Pid] {M : Machine Pid Op Res ε W Env Ext}
  {ok : Pid → Op → Env → W → Prop} {s : Sys Pid Op Res ε W α}

theorem Machine.act_cases {p : Pid} {e : Env} {t : Sys Pid Op Res ε W α}
    (h : M.step (.act p e) s = some t) : Prog.Next (t.procs p) (s.procs p) ∧
      ∀ q, q ≠ p → t.procs q = s.procs q := by
  simp only [Machine.step] at h
  split at h
  case h_2 => cases h
  case h_1 o k hp =>
    obtain ⟨⟨r, w'⟩, -, rfl⟩ := Option.map_eq_some_iff.mp h
    refine ⟨?_, fun q hq => Function.update_of_ne hq _ _⟩
    dsimp only
    rw [hp, Function.update_self]
    exact ⟨r, rfl⟩

/-- If in every state that can be reached somebody who is not done can go on, finitely many programs
can all be brought to their ends without a death. -/
theorem Machine.completes (hfinite : {p | (s.procs p).isSome}.Finite)
    (hmoves : ∀ t, M.Reaches ok s t → (∃ p prog, t.procs p = some prog ∧ ¬prog.Done) →
      ∃ p e u, Machine.Meets ok t (.act p e : Label Pid Env Ext) ∧ M.step (.act p e) t = some u) :
    ∃ t, M.Reaches ok s t ∧ ∀ p, (s.procs p).isSome →
      ∃ prog, t.procs p = some prog ∧ prog.Done := by
  let live := {p // p ∈ {p | (s.procs p).isSome}}
  have : Finite live := hfinite
  let rests : Sys Pid Op Res ε W α → live → Option (Prog Op Res ε α) := fun t p => t.procs p.1
  have hwf : WellFounded (Pi.Lex (WellOrderingRel (α := live))
      fun {_} (rest prog : Option (Prog Op Res ε α)) => Prog.Next rest prog) :=
    Pi.Lex.wellFounded _ fun _ => Prog.next_wellFounded
  have hrun : ∀ t, M.Reaches ok s t → (∀ p, (t.procs p).isSome = (s.procs p).isSome) →
      ∃ u, M.Reaches ok s u ∧ ∀ p, (s.procs p).isSome →
        ∃ prog, u.procs p = some prog ∧ prog.Done := by
    intro t
    induction hrests : rests t using hwf.induction generalizing t with
    | h x ih =>
      intro ht halive
      by_cases hdone : ∃ p prog, t.procs p = some prog ∧ ¬prog.Done
      · obtain ⟨p, e, u, hmeets, hstep⟩ := hmoves t ht hdone
        obtain ⟨hnext, hothers⟩ := Machine.act_cases hstep
        obtain ⟨htp, hup⟩ : (t.procs p).isSome ∧ (u.procs p).isSome := by
          cases hu : u.procs p <;> cases hp : t.procs p <;> simp [hu, hp, Prog.Next] at hnext ⊢
        have hlive : p ∈ {p | (s.procs p).isSome} := (halive p).symm.trans htp
        refine ih (rests u) ⟨⟨p, hlive⟩, fun q hq => ?_, ?_⟩ u rfl (.step _ ht hmeets hstep)
          fun q => ?_
        · subst hrests
          have hqp : q.1 ≠ p := by
            intro heq
            have hsame : q = ⟨p, hlive⟩ := Subtype.ext heq
            rw [hsame] at hq
            exact irrefl _ hq
          exact hothers q.1 hqp
        · subst hrests
          exact hnext
        · by_cases hqp : q = p
          · rw [hqp, hup]
            exact hlive.symm
          · rw [hothers q hqp]
            exact halive q
      · refine ⟨t, ht, fun p hp => ?_⟩
        obtain ⟨prog, hprog⟩ := Option.isSome_iff_exists.mp ((halive p).trans hp)
        refine ⟨prog, hprog, ?_⟩
        by_contra hnot
        exact hdone ⟨p, prog, hprog, hnot⟩
  exact hrun s .start fun _ => rfl

end Completion

end Interleaving
