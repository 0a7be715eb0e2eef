import OrderService.Interleaving.RelyGuarantee

/-! Complete runs of one program by itself: the answers of the environment are used up exactly
when it ends, so that a run of a sequence is a run of each part. -/
namespace Interleaving
variable {Pid Op : Type} {Res : Op → Type} {ε W Env Ext α β : Type}

/-- The result and the last world, if the program ends with the last of the answers. -/
def Machine.complete (M : Machine Pid Op Res ε W Env Ext) (p : Pid) :
    Prog Op Res ε α → List Env → W → Option (Except ε α × W)
  | .pure a, [], w => some (.ok a, w)
  | .throw err, [], w => some (.error err, w)
  | .op o k, e :: es, w => (M.exec p o e w).bind fun a => M.complete p (k a.1) es a.2
  | _, _, _ => none

section Parts
variable {M : Machine Pid Op Res ε W Env Ext} {p : Pid} {es : List Env} {w w' : W}

theorem complete_pure {a : α} {s : Except ε α}
    (h : M.complete p (.pure a : Prog Op Res ε α) es w = some (s, w')) :
    es = [] ∧ s = .ok a ∧ w' = w := by
  cases es with
  | nil =>
    have heq := Prod.mk.inj (Option.some.inj h)
    exact ⟨rfl, heq.1.symm, heq.2.symm⟩
  | cons e es => cases h

theorem complete_throw {err : ε} {s : Except ε α}
    (h : M.complete p (.throw err : Prog Op Res ε α) es w = some (s, w')) :
    es = [] ∧ s = .error err ∧ w' = w := by
  cases es with
  | nil =>
    have heq := Prod.mk.inj (Option.some.inj h)
    exact ⟨rfl, heq.1.symm, heq.2.symm⟩
  | cons e es => cases h

theorem complete_op {o : Op} {k : Except ε (Res o) → Prog Op Res ε α} {s : Except ε α}
    (h : M.complete p (.op o k) es w = some (s, w')) :
    ∃ e rest r w₁, es = e :: rest ∧ M.exec p o e w = some (r, w₁) ∧
      M.complete p (k r) rest w₁ = some (s, w') := by
  cases es with
  | nil => cases h
  | cons e rest =>
    obtain ⟨⟨r, w₁⟩, hx, hk⟩ := Option.bind_eq_some_iff.mp h
    exact ⟨e, rest, r, w₁, rfl, hx, hk⟩

theorem complete_ofExcept {a s : Except ε α}
    (h : M.complete p (.ofExcept a : Prog Op Res ε α) es w = some (s, w')) :
    es = [] ∧ s = a ∧ w' = w := by
  cases a with
  | ok a => exact complete_pure h
  | error err => exact complete_throw h

theorem complete_perform {o : Op} {s : Except ε (Res o)}
    (h : M.complete p (.perform o) es w = some (s, w')) :
    ∃ e, es = [e] ∧ M.exec p o e w = some (s, w') := by
  obtain ⟨e, rest, r, w₁, rfl, hx, hk⟩ := complete_op h
  obtain ⟨rfl, rfl, rfl⟩ := complete_ofExcept hk
  exact ⟨e, rfl, hx⟩

/-- A sequence runs its second part where the first has returned, or it ends with the error of the
first. -/
theorem complete_do {prog : Prog Op Res ε α} {f : α → Prog Op Res ε β} {s : Except ε β}
    (h : M.complete p (prog >>= f) es w = some (s, w')) :
    (∃ es₁ es₂ a w₁, es = es₁ ++ es₂ ∧ M.complete p prog es₁ w = some (.ok a, w₁) ∧
      M.complete p (f a) es₂ w₁ = some (s, w')) ∨
    ∃ err, s = .error err ∧ M.complete p prog es w = some (.error err, w') := by
  rw [Prog.bind_eq] at h
  induction prog generalizing es w with
  | pure a => exact .inl ⟨[], es, a, w, rfl, rfl, h⟩
  | throw err =>
    obtain ⟨rfl, rfl, rfl⟩ := complete_throw h
    exact .inr ⟨err, rfl, rfl⟩
  | op o k ih =>
    obtain ⟨e, rest, r, w₁, rfl, hx, hk⟩ := complete_op h
    have hop : ∀ {es : List Env} {s' : Except ε α} {v : W},
        M.complete p (k r) es w₁ = some (s', v) →
          M.complete p (.op o k) (e :: es) w = some (s', v) := by
      intro es s' v hrest
      rw [Machine.complete, hx]
      exact hrest
    rcases ih r hk with ⟨es₁, es₂, a, w₂, rfl, hfirst, hsecond⟩ | ⟨err, rfl, herr⟩
    · exact .inl ⟨e :: es₁, es₂, a, w₂, rfl, hop hfirst, hsecond⟩
    · exact .inr ⟨err, rfl, hop herr⟩

theorem complete_do_ok {prog : Prog Op Res ε α} {f : α → Prog Op Res ε β} {s : Except ε β}
    (hok : ∀ err v, M.complete p prog es w ≠ some (.error err, v))
    (h : M.complete p (prog >>= f) es w = some (s, w')) :
    ∃ es₁ es₂ a w₁, es = es₁ ++ es₂ ∧ M.complete p prog es₁ w = some (.ok a, w₁) ∧
      M.complete p (f a) es₂ w₁ = some (s, w') := by
  rcases complete_do h with hparts | ⟨err, -, herr⟩
  · exact hparts
  · exact absurd herr (hok err w')

/-- The handler runs where the body has thrown. -/
theorem complete_catch {prog : Prog Op Res ε α} {handler : ε → Prog Op Res ε α} {s : Except ε α}
    (h : M.complete p (tryCatch prog handler) es w = some (s, w')) :
    (∃ a, s = .ok a ∧ M.complete p prog es w = some (.ok a, w')) ∨
    ∃ es₁ es₂ err w₁, es = es₁ ++ es₂ ∧ M.complete p prog es₁ w = some (.error err, w₁) ∧
      M.complete p (handler err) es₂ w₁ = some (s, w') := by
  rw [Prog.tryCatch_eq] at h
  induction prog generalizing es w with
  | pure a =>
    obtain ⟨rfl, rfl, rfl⟩ := complete_pure h
    exact .inl ⟨a, rfl, rfl⟩
  | throw err => exact .inr ⟨[], es, err, w, rfl, rfl, h⟩
  | op o k ih =>
    obtain ⟨e, rest, r, w₁, rfl, hx, hk⟩ := complete_op h
    have hop : ∀ {es : List Env} {s' : Except ε α} {v : W},
        M.complete p (k r) es w₁ = some (s', v) →
          M.complete p (.op o k) (e :: es) w = some (s', v) := by
      intro es s' v hrest
      rw [Machine.complete, hx]
      exact hrest
    rcases ih r hk with ⟨a, rfl, hfirst⟩ | ⟨es₁, es₂, err, w₂, rfl, hfirst, hsecond⟩
    · exact .inl ⟨a, rfl, hop hfirst⟩
    · exact .inr ⟨e :: es₁, es₂, err, w₂, rfl, hop hfirst, hsecond⟩

/-- What each operation of the program keeps. -/
theorem complete_keeps {P : Op → Prop} {R : (o : Op) → Res o → Prop} {Q : α → Prop}
    {F : W → Prop} {prog : Prog Op Res ε α} (hc : prog.Calls P R Q)
    (hR : ∀ o e v a v', P o → M.exec p o e v = some (.ok a, v') → R o a)
    (hstep : ∀ o e v r v', P o → M.exec p o e v = some (r, v') → F v → F v') {s : Except ε α}
    (h : M.complete p prog es w = some (s, w')) (hF : F w) : F w' := by
  induction prog generalizing es w with
  | pure a =>
    obtain ⟨rfl, rfl, rfl⟩ := complete_pure h
    exact hF
  | throw err =>
    obtain ⟨rfl, rfl, rfl⟩ := complete_throw h
    exact hF
  | op o k ih =>
    obtain ⟨e, rest, r, w₁, rfl, hx, hk⟩ := complete_op h
    have hF₁ := hstep o e w r w₁ hc.1 hx hF
    cases r with
    | ok a => exact ih (.ok a) (hc.2.2 a (hR o e w a w₁ hc.1 hx)) hk hF₁
    | error err => exact ih (.error err) (hc.2.1 err) hk hF₁

/-- What each operation of the program and its death keep, a run by itself keeps, wherever it
ends. -/
theorem runAlone_calls {P : Op → Prop} {Q : α → Prop} {F : W → Prop} {prog : Prog Op Res ε α}
    (hc : prog.Calls P (fun _ _ => True) Q)
    (hstep : ∀ o e v r v', P o → M.exec p o e v = some (r, v') → F v → F v')
    (hcrash : ∀ v, F v → F (M.crash p v)) (es : List Env) (hF : F w) :
    F (M.runAlone p prog es w).2 := by
  induction prog generalizing es w with
  | pure a => exact hF
  | throw err => exact hF
  | op o k ih =>
    cases es with
    | nil => exact hcrash w hF
    | cons e es =>
      unfold Machine.runAlone
      split
      · exact hcrash w hF
      · next a hx =>
        have hF' := hstep o e w a.1 a.2 hc.1 hx hF
        cases hr : a.1 with
        | ok b => exact ih (.ok b) (hc.2.2 b trivial) es hF'
        | error err => exact ih (.error err) (hc.2.1 err) es hF'

end Parts

end Interleaving
