import OrderService.Interleaving.Program

/-! Which errors a program lets out, when it is known which ones its operations reply with. -/
namespace Interleaving

variable {Pid Op : Type} {Res : Op → Type} {ε W Env Ext α β : Type} {E : ε → Prop}

/-- The program throws errors that satisfy `E` alone, if its operations do. -/
def Prog.Throws (E : ε → Prop) : Prog Op Res ε α → Prop
  | .pure _ => True
  | .throw err => E err
  | .op _ k => ∀ r, (∀ err, r = .error err → E err) → (k r).Throws E

theorem Prog.throws_do {prog : Prog Op Res ε α} {f : α → Prog Op Res ε β} (h : prog.Throws E)
    (hf : ∀ a, (f a).Throws E) : (prog >>= f).Throws E := by
  rw [Prog.bind_eq]
  induction prog with
  | pure a => exact hf a
  | throw err => exact h
  | op o k ih => exact fun r hr => ih r (h r hr)

theorem Prog.throws_catch {prog : Prog Op Res ε α} {handler : ε → Prog Op Res ε α}
    (h : prog.Throws E) (hhandler : ∀ err, E err → (handler err).Throws E) :
    (MonadExcept.tryCatch prog handler).Throws E := by
  rw [Prog.tryCatch_eq]
  induction prog with
  | pure a => trivial
  | throw err => exact hhandler err h
  | op o k ih => exact fun r hr => ih r (h r hr)

theorem Prog.throws_ofExcept {a : Except ε α} (h : ∀ err, a = .error err → E err) :
    (.ofExcept a : Prog Op Res ε α).Throws E := by
  cases a with
  | ok a => trivial
  | error err => exact h err rfl

theorem Prog.throws_perform {o : Op} : (.perform o : Prog Op Res ε (Res o)).Throws E :=
  fun _ hr => Prog.throws_ofExcept hr

/-- What a run lets out is an error of its program. -/
theorem Machine.threw_runAlone {M : Machine Pid Op Res ε W Env Ext} {p : Pid}
    (hexec : ∀ o e w err w', M.exec p o e w = some (.error err, w') → E err)
    {prog : Prog Op Res ε α} (h : prog.Throws E) {es : List Env} {w : W} {err : ε}
    (hrun : (M.runAlone p prog es w).1 = .threw err) : E err := by
  induction prog generalizing es w with
  | pure a => cases hrun
  | throw err' =>
    have heq : err' = err := Outcome.threw.inj hrun
    rw [← heq]
    exact h
  | op o k ih =>
    cases es with
    | nil => cases hrun
    | cons e es =>
      simp only [Machine.runAlone] at hrun
      cases hx : M.exec p o e w with
      | none =>
        rw [hx] at hrun
        cases hrun
      | some a =>
        rw [hx] at hrun
        refine ih a.1 (h a.1 fun err' herr => hexec o e w err' a.2 ?_) hrun
        rw [hx, ← herr]

end Interleaving
