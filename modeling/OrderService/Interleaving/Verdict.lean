import OrderService.Interleaving.RelyGuarantee

/-! Programs that run by themselves, judged by a condition on their steps: whether all of the steps
met it is known of every result. -/
namespace Interleaving

variable {Pid Op : Type} {Res : Op → Type} {ε W Env Ext α β : Type}

/-- From `w`, whatever answers that satisfy `given` the program gets, `Q` holds of its result and of
whether every step, on top of `met`, met the condition `ok`. -/
def Judged (M : Machine Pid Op Res ε W Env Ext) (given ok : Pid → Op → Env → W → Prop) (p : Pid) :
    Prog Op Res ε α → (Prop → Except ε α → W → Prop) → Prop → W → Prop
  | .pure a, Q, met, w => Q met (.ok a) w
  | .throw e, Q, met, w => Q met (.error e) w
  | .op o k, Q, met, w => ∀ e r w', given p o e w → M.exec p o e w = some (r, w') →
      Judged M given ok p (k r) Q (met ∧ ok p o e w) w'

section Rules
variable {M : Machine Pid Op Res ε W Env Ext} {given ok : Pid → Op → Env → W → Prop} {p : Pid}
  {met : Prop} {w : W}

theorem Judged.mono {prog : Prog Op Res ε α} {Q Q' : Prop → Except ε α → W → Prop}
    (h : Judged M given ok p prog Q met w) (hQ : ∀ met r w, Q met r w → Q' met r w) :
    Judged M given ok p prog Q' met w := by
  induction prog generalizing met w with
  | pure a => exact hQ _ _ _ h
  | throw e => exact hQ _ _ _ h
  | op o k ih =>
    intro e r w' hgiven hx
    exact ih r (h e r w' hgiven hx)

theorem judged_do {prog : Prog Op Res ε α} {f : α → Prog Op Res ε β}
    {Q : Prop → Except ε β → W → Prop}
    (h : Judged M given ok p prog (fun met' r w' => match r with
      | .ok a => Judged M given ok p (f a) Q met' w'
      | .error e => Q met' (.error e) w') met w) :
    Judged M given ok p (prog >>= f) Q met w := by
  rw [Prog.bind_eq]
  induction prog generalizing met w with
  | pure a => exact h
  | throw e => exact h
  | op o k ih =>
    intro e r w' hgiven hx
    exact ih r (h e r w' hgiven hx)

theorem judged_catch {prog : Prog Op Res ε α} {handler : ε → Prog Op Res ε α}
    {Q : Prop → Except ε α → W → Prop}
    (h : Judged M given ok p prog (fun met' r w' => match r with
      | .ok a => Q met' (.ok a) w'
      | .error e => Judged M given ok p (handler e) Q met' w') met w) :
    Judged M given ok p (tryCatch prog handler) Q met w := by
  rw [Prog.tryCatch_eq]
  induction prog generalizing met w with
  | pure a => exact h
  | throw e => exact h
  | op o k ih =>
    intro e r w' hgiven hx
    exact ih r (h e r w' hgiven hx)

theorem judged_perform {o : Op} {Q : Prop → Except ε (Res o) → W → Prop}
    (h : ∀ e r w', given p o e w → M.exec p o e w = some (r, w') → Q (met ∧ ok p o e w) r w') :
    Judged M given ok p (.perform o) Q met w := by
  intro e r w' hgiven hx
  have hQ := h e r w' hgiven hx
  cases r with
  | ok a => exact hQ
  | error err => exact hQ

/-- A step of which the condition asks nothing. -/
theorem judged_unasked {o : Op} (hok : ∀ e w, ok p o e w) {Q : Prop → Except ε (Res o) → W → Prop}
    (h : ∀ e r w', given p o e w → M.exec p o e w = some (r, w') → Q met r w') :
    Judged M given ok p (.perform o) Q met w := by
  apply judged_perform
  intro e r w' hgiven hx
  have hmet : (met ∧ ok p o e w) = met := propext (and_iff_left (hok e w))
  rw [hmet]
  exact h e r w' hgiven hx

/-- Steps of which the condition asks nothing. -/
theorem judged_free {P : Op → Prop} {R : (o : Op) → Res o → Prop} {T : α → Prop} {F : W → Prop}
    {prog : Prog Op Res ε α} (hc : prog.Calls P R T)
    (hfree : ∀ o e w r w', P o → F w → given p o e w → M.exec p o e w = some (r, w') →
      ok p o e w ∧ F w' ∧ ∀ a, r = .ok a → R o a) (hF : F w)
    {Q : Prop → Except ε α → W → Prop}
    (hthrow : ∀ e w', F w' → Q met (.error e) w') (hreturn : ∀ a w', T a → F w' → Q met (.ok a) w') :
    Judged M given ok p prog Q met w := by
  induction prog generalizing w with
  | pure a => exact hreturn a w hc hF
  | throw e => exact hthrow e w hF
  | op o k ih =>
    intro e r w' hgiven hx
    obtain ⟨hok, hF', hR⟩ := hfree o e w r w' hc.1 hF hgiven hx
    have hmet : (met ∧ ok p o e w) = met := propext (and_iff_left hok)
    rw [hmet]
    apply ih r _ hF'
    cases r with
    | error err => exact hc.2.1 err
    | ok a => exact hc.2.2 a (hR a rfl)

/-- What a finished run leaves, with the verdict on its steps. -/
theorem judged_sound {prog : Prog Op Res ε α} {Q : Prop → Except ε α → W → Prop} {es : List Env}
    (h : Judged M given ok p prog Q met w)
    (hgiven : RunMeets M given (fun _ => True) p prog es w) :
    match M.runAlone p prog es w with
    | (.returned a, w') => Q (met ∧ RunMeets M ok (fun _ => True) p prog es w) (.ok a) w'
    | (.threw e, w') => Q (met ∧ RunMeets M ok (fun _ => True) p prog es w) (.error e) w'
    | (.crashed, _) => True := by
  induction prog generalizing es met w with
  | pure a =>
    simp only [Machine.runAlone, RunMeets, and_true]
    exact h
  | throw e =>
    simp only [Machine.runAlone, RunMeets, and_true]
    exact h
  | op o k ih =>
    cases es with
    | nil => trivial
    | cons e es =>
      simp only [RunMeets] at hgiven
      simp only [Machine.runAlone, RunMeets]
      cases hx : M.exec p o e w with
      | none => trivial
      | some a =>
        obtain ⟨r, w'⟩ := a
        simp only [hx] at hgiven ⊢
        have hrest := ih r (h e r w' hgiven.1 hx) hgiven.2
        simpa only [and_assoc] using hrest

end Rules

end Interleaving
