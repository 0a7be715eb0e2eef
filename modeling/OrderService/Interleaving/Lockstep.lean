import OrderService.Interleaving.Paced

/-! Two runs of one program by itself, in worlds that differ where it does not look. -/
namespace Interleaving

variable {Pid Op : Type} {Res : Op → Type} {ε W Env Ext α : Type}

/-- Every operation that the program comes to, also one that has to wait, meets `ok`. -/
def Attempts (M : Machine Pid Op Res ε W Env Ext) (ok : Pid → Op → Env → W → Prop) (p : Pid) :
    Prog Op Res ε α → List Env → W → Prop
  | .pure _, _, _ => True
  | .throw _, _, _ => True
  | .op _ _, [], _ => True
  | .op o k, e :: es, w => ok p o e w ∧
    match M.exec p o e w with
    | none => True
    | some a => Attempts M ok p (k a.1) es a.2

section Runs
variable {M : Machine Pid Op Res ε W Env Ext} {ok : Pid → Op → Env → W → Prop} {p : Pid}
  {R : W → W → Prop}

instance decidableAttempts [∀ p o e w, Decidable (ok p o e w)] :
    (prog : Prog Op Res ε α) → (es : List Env) → (w : W) → Decidable (Attempts M ok p prog es w)
  | .pure _, _, _ => .isTrue trivial
  | .throw _, _, _ => .isTrue trivial
  | .op _ _, [], _ => .isTrue trivial
  | .op o k, e :: es, w =>
    match hx : M.exec p o e w with
    | none => decidable_of_iff (ok p o e w) (by simp only [Attempts, hx, and_true])
    | some a =>
      have : Decidable (Attempts M ok p (k a.1) es a.2) := decidableAttempts (k a.1) es a.2
      decidable_of_iff (ok p o e w ∧ Attempts M ok p (k a.1) es a.2)
        (by simp only [Attempts, hx])

theorem Attempts.mono {ok' : Pid → Op → Env → W → Prop} (hok : ∀ o e w, ok p o e w → ok' p o e w)
    {prog : Prog Op Res ε α} {es : List Env} {w : W} (h : Attempts M ok p prog es w) :
    Attempts M ok' p prog es w := by
  induction prog generalizing es w with
  | pure a => trivial
  | throw e => trivial
  | op o k ih =>
    cases es with
    | nil => trivial
    | cons e es =>
      unfold Attempts at h ⊢
      obtain ⟨hfirst, hrest⟩ := h
      refine ⟨hok o e w hfirst, ?_⟩
      cases hx : M.exec p o e w with
      | none => trivial
      | some a =>
        rw [hx] at hrest
        exact ih a.1 hrest

/-- Where an operation meets `ok`, related worlds answer it alike, or both let it wait. -/
structure Lockstep (M : Machine Pid Op Res ε W Env Ext) (ok : Pid → Op → Env → W → Prop) (p : Pid)
    (R : W → W → Prop) : Prop where
  exec : ∀ o e w v, R w v → ok p o e w →
    Option.Rel (fun a b => a.1 = b.1 ∧ R a.2 b.2) (M.exec p o e w) (M.exec p o e v)
  crash : ∀ w v, R w v → R (M.crash p w) (M.crash p v)
  ext : ∀ x w v, R w v → R (M.ext x w) (M.ext x v)

theorem Lockstep.moves (h : Lockstep M ok p R) (xs : List Ext) {w v : W} (hw : R w v) :
    R (M.moves xs w) (M.moves xs v) := by
  induction xs generalizing w v with
  | nil => exact hw
  | cons x xs ih => exact ih (h.ext x w v hw)

theorem Lockstep.paced (h : Lockstep M ok p R) :
    Lockstep M.paced (fun p o e w => ok p o e.2 (M.moves e.1 w)) p R where
  exec o e _ _ hw hok := h.exec o e.2 _ _ (h.moves e.1 hw) hok
  crash := h.crash
  ext := h.ext

/-- Both runs come to the same end. -/
theorem Lockstep.runAlone (h : Lockstep M ok p R) {prog : Prog Op Res ε α} {es : List Env}
    {w v : W} (hw : R w v) (hmeets : Attempts M ok p prog es w) :
    (M.runAlone p prog es w).1 = (M.runAlone p prog es v).1 ∧
      R (M.runAlone p prog es w).2 (M.runAlone p prog es v).2 := by
  induction prog generalizing es w v with
  | pure a => exact ⟨rfl, hw⟩
  | throw e => exact ⟨rfl, hw⟩
  | op o k ih =>
    cases es with
    | nil => exact ⟨rfl, h.crash w v hw⟩
    | cons e es =>
      unfold Attempts at hmeets
      obtain ⟨hok, hrest⟩ := hmeets
      have hstep := h.exec o e w v hw hok
      simp only [Machine.runAlone]
      cases hx : M.exec p o e w with
      | none =>
        rw [hx] at hstep
        cases hy : M.exec p o e v with
        | none => exact ⟨rfl, h.crash w v hw⟩
        | some b =>
          rw [hy] at hstep
          cases hstep
      | some a =>
        rw [hx] at hstep hrest
        cases hy : M.exec p o e v with
        | none =>
          rw [hy] at hstep
          cases hstep
        | some b =>
          rw [hy] at hstep
          cases hstep with
          | some hab =>
            obtain ⟨r, w₁⟩ := a
            obtain ⟨r', v₁⟩ := b
            obtain ⟨hreply, hrel⟩ := hab
            dsimp only at hreply hrel hrest ⊢
            subst hreply
            exact ih r hrel hrest

end Runs

end Interleaving
