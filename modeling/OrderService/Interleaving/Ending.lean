import OrderService.Interleaving.RelyGuarantee

/-! Programs that come to their end by themselves, within so many operations. -/
namespace Interleaving

variable {Pid Op : Type} {Res : Op → Type} {ε W Env Ext α β : Type}

/-- From `w` the program ends in at most `n` operations, whatever answers that satisfy `given` it
gets, and `Q` holds of how many of them are left, of its result and of the last world. -/
def Ends (M : Machine Pid Op Res ε W Env Ext) (given : Pid → Op → Env → W → Prop) (p : Pid) :
    Prog Op Res ε α → (Nat → Except ε α → W → Prop) → Nat → W → Prop
  | .pure a, Q, n, w => Q n (.ok a) w
  | .throw e, Q, n, w => Q n (.error e) w
  | .op o k, Q, n, w => 0 < n ∧ ∀ e r w', given p o e w → M.exec p o e w = some (r, w') →
      Ends M given p (k r) Q (n - 1) w'

section Rules
variable {M : Machine Pid Op Res ε W Env Ext} {given : Pid → Op → Env → W → Prop} {p : Pid}
  {n : Nat} {w : W}

theorem Ends.mono {prog : Prog Op Res ε α} {Q Q' : Nat → Except ε α → W → Prop}
    (h : Ends M given p prog Q n w) (hQ : ∀ m r w, Q m r w → Q' m r w) :
    Ends M given p prog Q' n w := by
  induction prog generalizing n w with
  | pure a => exact hQ _ _ _ h
  | throw e => exact hQ _ _ _ h
  | op o k ih =>
    refine ⟨h.1, fun e r w' hgiven hx => ?_⟩
    exact ih r (h.2 e r w' hgiven hx)

theorem ends_do {prog : Prog Op Res ε α} {f : α → Prog Op Res ε β}
    {Q : Nat → Except ε β → W → Prop}
    (h : Ends M given p prog (fun m r w' => match r with
      | .ok a => Ends M given p (f a) Q m w'
      | .error e => Q m (.error e) w') n w) :
    Ends M given p (prog >>= f) Q n w := by
  rw [Prog.bind_eq]
  induction prog generalizing n w with
  | pure a => exact h
  | throw e => exact h
  | op o k ih =>
    refine ⟨h.1, fun e r w' hgiven hx => ?_⟩
    exact ih r (h.2 e r w' hgiven hx)

theorem ends_perform {o : Op} {Q : Nat → Except ε (Res o) → W → Prop} (hn : 0 < n)
    (h : ∀ e r w', given p o e w → M.exec p o e w = some (r, w') → Q (n - 1) r w') :
    Ends M given p (.perform o) Q n w := by
  refine ⟨hn, fun e r w' hgiven hx => ?_⟩
  have hQ := h e r w' hgiven hx
  cases r with
  | ok a => exact hQ
  | error err => exact hQ

/-- Where every operation is answered, the run is over after that many answers, and not because the
program died. -/
theorem ends_sound {prog : Prog Op Res ε α} {Q : Nat → Except ε α → W → Prop} {es : List Env}
    (hanswered : ∀ o e w, M.exec p o e w ≠ none) (h : Ends M given p prog Q n w)
    (hn : n ≤ es.length) (hgiven : RunMeets M given (fun _ => True) p prog es w) :
    ∃ m, match M.runAlone p prog es w with
      | (.returned a, w') => Q m (.ok a) w'
      | (.threw e, w') => Q m (.error e) w'
      | (.crashed, _) => False := by
  induction prog generalizing es n w with
  | pure a => exact ⟨n, h⟩
  | throw e => exact ⟨n, h⟩
  | op o k ih =>
    obtain ⟨hpos, hstep⟩ := h
    cases es with
    | nil =>
      rw [List.length_nil] at hn
      omega
    | cons e es =>
      rw [List.length_cons] at hn
      simp only [RunMeets] at hgiven
      simp only [Machine.runAlone]
      cases hx : M.exec p o e w with
      | none => exact absurd hx (hanswered o e w)
      | some a =>
        obtain ⟨r, w'⟩ := a
        simp only [hx] at hgiven
        have hk := hstep e r w' hgiven.1 hx
        have hleft : n - 1 ≤ es.length := by omega
        exact ih r hk hleft hgiven.2

end Rules

end Interleaving
