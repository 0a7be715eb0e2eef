import OrderService.Interleaving.Program

/-! Programs that, by themselves, can come to an end with a result. -/
namespace Interleaving
variable {Pid Op : Type} {Res : Op → Type} {ε W Env Ext α β : Type}
  {M : Machine Pid Op Res ε W Env Ext} {p : Pid}

/-- With some answers of the environment the program returns `a` and leaves the last world. -/
inductive Machine.Finishes (M : Machine Pid Op Res ε W Env Ext) (p : Pid) :
    Prog Op Res ε α → W → α → W → Prop
  | pure (a : α) (w : W) : Finishes M p (.pure a) w a w
  | op {o : Op} {k : Except ε (Res o) → Prog Op Res ε α} {e : Env} {r : Except ε (Res o)}
      {w w₁ w₂ : W} {a : α} (hx : M.exec p o e w = some (r, w₁))
      (h : Finishes M p (k r) w₁ a w₂) : Finishes M p (.op o k) w a w₂

theorem Machine.Finishes.bind {prog : Prog Op Res ε α} {f : α → Prog Op Res ε β} {a : α} {b : β}
    {w w₁ w₂ : W} (h : M.Finishes p prog w a w₁) (hf : M.Finishes p (f a) w₁ b w₂) :
    M.Finishes p (prog >>= f) w b w₂ := by
  induction h with
  | pure a w => exact hf
  | op hx _ ih => exact .op hx (ih hf)

theorem Machine.Finishes.caught {prog : Prog Op Res ε α} {handler : ε → Prog Op Res ε α} {a : α}
    {w w₁ : W} (h : M.Finishes p prog w a w₁) :
    M.Finishes p (MonadExcept.tryCatch prog handler) w a w₁ := by
  rw [Prog.tryCatch_eq]
  induction h with
  | pure a w => exact .pure a w
  | op hx _ ih => exact .op hx ih

theorem Machine.finishes_perform {o : Op} {e : Env} {r : Res o} {w w₁ : W}
    (hx : M.exec p o e w = some (.ok r, w₁)) : M.Finishes p (.perform o) w r w₁ :=
  .op hx (.pure r w₁)

/-- Such an end is one of the runs by itself. -/
theorem Machine.Finishes.runAlone {prog : Prog Op Res ε α} {a : α} {w w₁ : W}
    (h : M.Finishes p prog w a w₁) : ∃ es, M.runAlone p prog es w = (.returned a, w₁) := by
  induction h with
  | pure a w => exact ⟨[], rfl⟩
  | @op o k e r w w₁ w₂ a hx _ ih =>
    obtain ⟨es, hes⟩ := ih
    refine ⟨e :: es, ?_⟩
    rw [Machine.runAlone_answered hx]
    exact hes

/-- In a system the process can come to such an end while the others stand still. -/
theorem Machine.Finishes.reaches [DecidableEq Pid] {prog : Prog Op Res ε α} {a : α} {w w₁ : W}
    (h : M.Finishes p prog w a w₁) {s : Sys Pid Op Res ε W α} (hw : s.world = w)
    (hp : s.procs p = some prog) : ∃ t, M.Reaches (fun _ _ _ _ => True) s t ∧ t.world = w₁ ∧
      t.procs p = some (.pure a) ∧ ∀ q, q ≠ p → t.procs q = s.procs q := by
  induction h generalizing s with
  | pure a w => exact ⟨s, .start, hw, hp, fun _ _ => rfl⟩
  | @op o k e r w w₁ w₂ a hx _ ih =>
    have hstep : M.step (.act p e) s = some ⟨w₁, Function.update s.procs p (some (k r))⟩ := by
      simp only [Machine.step, hp, hw, hx, Option.map_some]
    have hmeets : Meets (fun _ _ _ _ => True) s (.act p e : Label Pid Env Ext) := by
      simp only [Meets, hp]
    obtain ⟨t, hreach, hworld, hend, hothers⟩ :=
      ih (s := ⟨w₁, Function.update s.procs p (some (k r))⟩) rfl (Function.update_self ..)
    refine ⟨t, (Reaches.step (.act p e) .start hmeets hstep).trans hreach, hworld, hend, ?_⟩
    intro q hq
    rw [hothers q hq]
    exact Function.update_of_ne hq _ _

end Interleaving
