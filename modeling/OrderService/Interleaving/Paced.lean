import OrderService.Interleaving.RelyGuarantee

/-! Runs in which the environment also moves while a program is under way: before each operation,
any number of times. -/
namespace Interleaving

variable {Pid Op : Type} {Res : Op → Type} {ε W Env Ext α : Type}

def Machine.moves (M : Machine Pid Op Res ε W Env Ext) (xs : List Ext) (w : W) : W :=
  xs.foldl (fun v x => M.ext x v) w

/-- The answer to an operation comes with the moves of the environment before it. -/
def Machine.paced (M : Machine Pid Op Res ε W Env Ext) :
    Machine Pid Op Res ε W (List Ext × Env) Ext where
  exec p o e w := M.exec p o e.2 (M.moves e.1 w)
  crash := M.crash
  ext := M.ext

section Pacing
variable {M : Machine Pid Op Res ε W Env Ext} {ok : Pid → Op → Env → W → Prop} {S : Spec Pid W}
  {p : Pid}

/-- The moves of the environment break neither the invariant nor what is relied on. -/
structure Spec.Admits (S : Spec Pid W) (M : Machine Pid Op Res ε W Env Ext) : Prop where
  refl : ∀ p w, S.rely p w w
  trans : ∀ p w w' w'', S.rely p w w' → S.rely p w' w'' → S.rely p w w''
  ext : ∀ x w, S.inv w → S.inv (M.ext x w) ∧ ∀ q, S.rely q w (M.ext x w)

theorem Spec.Fits.admits (h : S.Fits M) : S.Admits M := ⟨h.refl, h.trans, h.ext⟩

theorem Spec.Admits.moves (hadmits : S.Admits M) (xs : List Ext) {w : W} (hinv : S.inv w) :
    S.inv (M.moves xs w) ∧ ∀ q, S.rely q w (M.moves xs w) := by
  induction xs generalizing w with
  | nil => exact ⟨hinv, fun q => hadmits.refl q w⟩
  | cons x xs ih =>
    obtain ⟨hinv₁, hrely₁⟩ := hadmits.ext x w hinv
    obtain ⟨hinv₂, hrely₂⟩ := ih hinv₁
    exact ⟨hinv₂, fun q => hadmits.trans q _ _ _ (hrely₁ q) (hrely₂ q)⟩

/-- What a program keeps whatever the others do, it keeps while the environment moves. -/
theorem wp_paced (hadmits : S.Admits M) {prog : Prog Op Res ε α} {Q : Except ε α → W → Prop} {w : W}
    (h : wp M ok S p prog Q w) :
    wp M.paced (fun p o e w => ok p o e.2 (M.moves e.1 w)) S p prog Q w := by
  induction prog generalizing w with
  | pure a => exact h
  | throw e => exact h
  | op o k ih =>
    intro w₁ hr hi e r w₂ hok hx
    obtain ⟨hmoved, hrely⟩ := hadmits.moves e.1 hi
    have hr' : S.rely p w (M.moves e.1 w₁) := hadmits.trans p _ _ _ hr (hrely p)
    obtain ⟨hinv, hguarantee, hk⟩ := h _ hr' hmoved e.2 r w₂ hok hx
    exact ⟨hinv, fun q hq => hadmits.trans q _ _ _ (hrely q) (hguarantee q hq), ih r hk⟩

/-- What every operation, the death of the program and the environment keep holds at the end. -/
theorem Machine.paced_keeps {J : W → Prop}
    (hexec : ∀ o e w r w', J w → M.exec p o e w = some (r, w') → J w')
    (hcrash : ∀ w, J w → J (M.crash p w)) (hext : ∀ x w, J w → J (M.ext x w))
    (prog : Prog Op Res ε α) (es : List (List Ext × Env)) {w : W} (hJ : J w) :
    J (M.paced.runAlone p prog es w).2 := by
  refine Machine.runAlone_keeps (M := M.paced) (fun o e v r v' hv hx => ?_) hcrash prog es hJ
  have hmoved : J (M.moves e.1 v) := by
    unfold Machine.moves
    exact List.foldlRecOn e.1 _ hv fun u hu x _ => hext x u hu
  exact hexec o e.2 _ r v' hmoved hx

end Pacing

end Interleaving
