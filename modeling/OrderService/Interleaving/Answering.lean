import OrderService.Interleaving.Program

/-! Programs by themselves in an environment whose answer is a function of the operation. Such a run
needs no list of answers: it ends with the program. -/
namespace Interleaving

variable {Pid Op : Type} {Res : Op → Type} {ε W Env Ext α β : Type}

def Machine.runFor (M : Machine Pid Op Res ε W Env Ext) (answer : Op → Env) (p : Pid) :
    Prog Op Res ε α → W → Outcome ε α × W
  | .pure a, w => (.returned a, w)
  | .throw e, w => (.threw e, w)
  | .op o k, w =>
    match M.exec p o (answer o) w with
    | none => (.crashed, M.crash p w)
    | some a => M.runFor answer p (k a.1) a.2

section Rules
variable {M : Machine Pid Op Res ε W Env Ext} {answer : Op → Env} {p : Pid} {w w' : W}

section Steps
variable {o : Op} {k : Except ε (Res o) → Prog Op Res ε α}

theorem runFor_answered {a : Except ε (Res o) × W} (hx : M.exec p o (answer o) w = some a) :
    M.runFor answer p (.op o k) w = M.runFor answer p (k a.1) a.2 := by
  simp only [Machine.runFor, hx]

theorem runFor_waits (hx : M.exec p o (answer o) w = none) :
    M.runFor answer p (.op o k) w = (.crashed, M.crash p w) := by
  simp only [Machine.runFor, hx]

end Steps

/-- It is the run with the answers that the environment gives one after the other. -/
theorem runFor_eq_runAlone (M : Machine Pid Op Res ε W Env Ext) (answer : Op → Env) (p : Pid)
    (prog : Prog Op Res ε α) (w : W) : ∃ es, M.runAlone p prog es w = M.runFor answer p prog w := by
  induction prog generalizing w with
  | pure a => exact ⟨[], rfl⟩
  | throw e => exact ⟨[], rfl⟩
  | op o k ih =>
    cases hx : M.exec p o (answer o) w with
    | none =>
      refine ⟨[answer o], ?_⟩
      rw [Machine.runAlone_waits hx, runFor_waits hx]
    | some a =>
      obtain ⟨es, hes⟩ := ih a.1 a.2
      refine ⟨answer o :: es, ?_⟩
      rw [Machine.runAlone_answered hx, runFor_answered hx]
      exact hes

theorem runFor_do {prog : Prog Op Res ε α} {f : α → Prog Op Res ε β} {a : α}
    (h : M.runFor answer p prog w = (.returned a, w')) :
    M.runFor answer p (prog >>= f) w = M.runFor answer p (f a) w' := by
  rw [Prog.bind_eq]
  induction prog generalizing w with
  | pure b =>
    cases h
    rfl
  | throw e => cases h
  | op o k ih =>
    cases hx : M.exec p o (answer o) w with
    | none =>
      rw [runFor_waits hx] at h
      cases h
    | some b =>
      rw [runFor_answered hx] at h
      exact (runFor_answered hx).trans (ih b.1 h)

theorem runFor_catch {prog : Prog Op Res ε α} {handler : ε → Prog Op Res ε α} {a : α}
    (h : M.runFor answer p prog w = (.returned a, w')) :
    M.runFor answer p (tryCatch prog handler) w = (.returned a, w') := by
  rw [Prog.tryCatch_eq]
  induction prog generalizing w with
  | pure b => exact h
  | throw e => cases h
  | op o k ih =>
    cases hx : M.exec p o (answer o) w with
    | none =>
      rw [runFor_waits hx] at h
      cases h
    | some b =>
      rw [runFor_answered hx] at h
      exact (runFor_answered hx).trans (ih b.1 h)

theorem runFor_perform {o : Op} {a : Res o} (hx : M.exec p o (answer o) w = some (.ok a, w')) :
    M.runFor answer p (.perform o : Prog Op Res ε (Res o)) w = (.returned a, w') := by
  exact runFor_answered hx

end Rules

end Interleaving
