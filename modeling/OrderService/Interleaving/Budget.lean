import OrderService.Interleaving.RelyGuarantee

/-! How much a program can spend, whatever it is answered, and how much of it is spent at any
moment of an interleaving. -/
namespace Interleaving

variable {Pid Op : Type} {Res : Op → Type} {ε W Env Ext α β : Type} {cost : Op → Nat}

/-- On every path the operations of the program cost `n` at most. -/
def Prog.Spends (cost : Op → Nat) : Prog Op Res ε α → Nat → Prop
  | .pure _, _ => True
  | .throw _, _ => True
  | .op o k, n => cost o ≤ n ∧ ∀ r, (k r).Spends cost (n - cost o)

namespace Prog
variable {prog : Prog Op Res ε α} {n m : Nat}

theorem Spends.mono (h : prog.Spends cost n) (hle : n ≤ m) : prog.Spends cost m := by
  induction prog generalizing n m with
  | pure a => trivial
  | throw e => trivial
  | op o k ih =>
    obtain ⟨hcost, hk⟩ := h
    have hrest : n - cost o ≤ m - cost o := by omega
    exact ⟨by omega, fun r => ih r (hk r) hrest⟩

theorem spends_do {f : α → Prog Op Res ε β} (hp : prog.Spends cost n)
    (hf : ∀ a, (f a).Spends cost m) : (prog >>= f).Spends cost (n + m) := by
  rw [bind_eq]
  induction prog generalizing n with
  | pure a => exact (hf a).mono (by omega)
  | throw e => trivial
  | op o k ih =>
    obtain ⟨hcost, hk⟩ := hp
    have hsplit : n + m - cost o = n - cost o + m := by omega
    refine ⟨by omega, fun r => ?_⟩
    rw [hsplit]
    exact ih r (hk r)

/-- What comes first is free. -/
theorem spends_after {f : α → Prog Op Res ε β} (hp : prog.Spends cost 0)
    (hf : ∀ a, (f a).Spends cost n) : (prog >>= f).Spends cost n :=
  (spends_do hp hf).mono (Nat.le_of_eq (Nat.zero_add n))

/-- What comes afterwards is free. -/
theorem spends_before {f : α → Prog Op Res ε β} (hp : prog.Spends cost n)
    (hf : ∀ a, (f a).Spends cost 0) : (prog >>= f).Spends cost n := spends_do hp hf

theorem spends_catch {handler : ε → Prog Op Res ε α} (hp : prog.Spends cost n)
    (hh : ∀ e, (handler e).Spends cost m) :
    (MonadExcept.tryCatch prog handler).Spends cost (n + m) := by
  rw [tryCatch_eq]
  induction prog generalizing n with
  | pure a => trivial
  | throw e => exact (hh e).mono (by omega)
  | op o k ih =>
    obtain ⟨hcost, hk⟩ := hp
    have hsplit : n + m - cost o = n - cost o + m := by omega
    refine ⟨by omega, fun r => ?_⟩
    rw [hsplit]
    exact ih r (hk r)

/-- A program all of whose operations are free. -/
theorem Calls.spends {R : (o : Op) → Res o → Prop} {Q : α → Prop}
    (h : prog.Calls (fun o => cost o = 0) R Q) (hR : ∀ o r, R o r) : prog.Spends cost 0 := by
  induction prog with
  | pure a => trivial
  | throw e => trivial
  | op o k ih =>
    obtain ⟨hcost, hthrown, hreply⟩ := h
    refine ⟨Nat.le_of_eq hcost, fun r => ?_⟩
    rw [Nat.zero_sub]
    cases r with
    | error e => exact ih _ (hthrown e)
    | ok a => exact ih _ (hreply a (hR o a))

theorem spends_ofExcept {a : Except ε α} : (ofExcept a : Prog Op Res ε α).Spends cost n := by
  cases a <;> trivial

theorem spends_perform {o : Op} (h : cost o ≤ n) :
    (perform o : Prog Op Res ε (Res o)).Spends cost n :=
  ⟨h, fun _ => spends_ofExcept⟩

end Prog

section Interleavings
variable [DecidableEq Pid] {M : Machine Pid Op Res ε W Env Ext}

/-- What a process has spent so far and what it can still spend are within its budget. -/
def WithinBudget (cost : Op → Nat) (spent : Pid → W → Nat) (budget : Pid → Nat)
    (s : Sys Pid Op Res ε W α) : Prop :=
  ∀ p, spent p s.world ≤ budget p ∧
    ∀ prog, s.procs p = some prog → prog.Spends cost (budget p - spent p s.world)

/-- No process exceeds its budget, if an operation adds its cost at most to what its own process
has spent. -/
theorem Machine.Reaches.withinBudget {ok : Pid → Op → Env → W → Prop} {spent : Pid → W → Nat}
    (hown : ∀ p o e w r w', M.exec p o e w = some (r, w') → spent p w' ≤ spent p w + cost o)
    (hother : ∀ p o e w r w' q, M.exec p o e w = some (r, w') → q ≠ p → spent q w' = spent q w)
    (hcrash : ∀ p w q, spent q (M.crash p w) ≤ spent q w)
    (hext : ∀ x w q, spent q (M.ext x w) = spent q w) {budget : Pid → Nat}
    {s t : Sys Pid Op Res ε W α} (hs : WithinBudget cost spent budget s) (h : M.Reaches ok s t) :
    WithinBudget cost spent budget t := by
  induction h with
  | start => exact hs
  | @step v u l _ _ hst ih =>
    cases l with
    | act p e =>
      simp only [Machine.step] at hst
      split at hst
      case h_2 => cases hst
      case h_1 o k hp =>
        obtain ⟨⟨r, w'⟩, hx, rfl⟩ := Option.map_eq_some_iff.mp hst
        intro q
        by_cases hqp : q = p
        · subst hqp
          obtain ⟨hwithin, hspends⟩ := ih q
          obtain ⟨hcost, hk⟩ := hspends _ hp
          have hstep := hown q o e _ r w' hx
          refine ⟨by dsimp only; omega, fun prog hprog => ?_⟩
          simp only [Function.update_self, Option.some.injEq] at hprog
          subst hprog
          exact (hk r).mono (by dsimp only; omega)
        · simp only [Function.update_of_ne hqp, hother p o e _ r w' q hx hqp]
          exact ih q
    | crash p =>
      obtain ⟨_, _, rfl⟩ := Option.map_eq_some_iff.mp hst
      intro q
      obtain ⟨hwithin, hspends⟩ := ih q
      have hless := hcrash p v.world q
      refine ⟨by dsimp only; omega, fun prog hprog => ?_⟩
      by_cases hqp : q = p
      · subst hqp
        simp only [Function.update_self, reduceCtorEq] at hprog
      · simp only [Function.update_of_ne hqp] at hprog
        exact (hspends prog hprog).mono (by dsimp only; omega)
    | ext x =>
      cases hst
      intro q
      simp only [hext]
      exact ih q

end Interleavings

end Interleaving
