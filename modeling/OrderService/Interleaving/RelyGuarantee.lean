import OrderService.Interleaving.Program

/-! Weakest preconditions of one program while the others run. `rely p` is what the steps of
everybody but `p` can do to the world; it is the guarantee of all the others. -/
namespace Interleaving

structure Spec (Pid W : Type) where
  inv : W → Prop
  rely : Pid → W → W → Prop

variable {Pid Op : Type} {Res : Op → Type} {ε W Env Ext α β : Type}

/-- From `w`, after any steps of the others before each operation, every operation of the
program keeps the invariant and what the others rely on, and the result satisfies `Q`. -/
def wp (M : Machine Pid Op Res ε W Env Ext) (ok : Pid → Op → Env → W → Prop) (S : Spec Pid W)
    (p : Pid) : Prog Op Res ε α → (Except ε α → W → Prop) → W → Prop
  | .pure a, Q, w => Q (.ok a) w
  | .throw e, Q, w => Q (.error e) w
  | .op o k, Q, w => ∀ w₁, S.rely p w w₁ → S.inv w₁ → ∀ e r w₂, ok p o e w₁ →
      M.exec p o e w₁ = some (r, w₂) →
      S.inv w₂ ∧ (∀ q, q ≠ p → S.rely q w₁ w₂) ∧ wp M ok S p (k r) Q w₂

/-- A postcondition that the steps of the others cannot falsify. -/
def Spec.Stable (S : Spec Pid W) (p : Pid) (Q : Except ε α → W → Prop) : Prop :=
  ∀ r w w', S.rely p w w' → S.inv w' → Q r w → Q r w'

section Rules
variable {M : Machine Pid Op Res ε W Env Ext} {ok : Pid → Op → Env → W → Prop} {S : Spec Pid W}
  {p : Pid}

theorem wp_mono {prog : Prog Op Res ε α} {Q Q' : Except ε α → W → Prop}
    (hQ : ∀ r w, Q r w → Q' r w) {w : W} (h : wp M ok S p prog Q w) : wp M ok S p prog Q' w := by
  induction prog generalizing w with
  | pure a => exact hQ _ _ h
  | throw e => exact hQ _ _ h
  | op o k ih =>
    intro w₁ hr hi e r w₂ ho hx
    obtain ⟨hinv, hrely, hk⟩ := h w₁ hr hi e r w₂ ho hx
    exact ⟨hinv, hrely, ih r hk⟩

theorem wp_and {prog : Prog Op Res ε α} {Q Q' : Except ε α → W → Prop} {w : W}
    (h : wp M ok S p prog Q w) (h' : wp M ok S p prog Q' w) :
    wp M ok S p prog (fun r w' => Q r w' ∧ Q' r w') w := by
  induction prog generalizing w with
  | pure a => exact ⟨h, h'⟩
  | throw e => exact ⟨h, h'⟩
  | op o k ih =>
    intro w₁ hr hi e r w₂ ho hx
    obtain ⟨hinv, hrely, hk⟩ := h w₁ hr hi e r w₂ ho hx
    exact ⟨hinv, hrely, ih r hk (h' w₁ hr hi e r w₂ ho hx).2.2⟩

theorem wp_bind (prog : Prog Op Res ε α) (f : α → Prog Op Res ε β)
    (Q : Except ε β → W → Prop) (w : W) :
    wp M ok S p (prog.bind f) Q w ↔ wp M ok S p prog (fun r w' => match r with
      | .ok a => wp M ok S p (f a) Q w'
      | .error e => Q (.error e) w') w := by
  induction prog generalizing w with
  | pure a => rfl
  | throw e => rfl
  | op o k ih => simp only [Prog.bind, wp, ih]

theorem wp_tryCatch (prog : Prog Op Res ε α) (h : ε → Prog Op Res ε α)
    (Q : Except ε α → W → Prop) (w : W) :
    wp M ok S p (prog.tryCatch h) Q w ↔ wp M ok S p prog (fun r w' => match r with
      | .ok a => Q (.ok a) w'
      | .error e => wp M ok S p (h e) Q w') w := by
  induction prog generalizing w with
  | pure a => rfl
  | throw e => rfl
  | op o k ih => simp only [Prog.tryCatch, wp, ih]

theorem wp_ofExcept (a : Except ε α) (Q : Except ε α → W → Prop) (w : W) :
    wp M ok S p (.ofExcept a) Q w ↔ Q a w := by
  cases a <;> rfl

theorem wp_perform {o : Op} {Q : Except ε (Res o) → W → Prop} {w : W}
    (h : ∀ w₁, S.rely p w w₁ → S.inv w₁ → ∀ e r w₂, ok p o e w₁ →
      M.exec p o e w₁ = some (r, w₂) → S.inv w₂ ∧ (∀ q, q ≠ p → S.rely q w₁ w₂) ∧ Q r w₂) :
    wp M ok S p (.perform o) Q w := by
  intro w₁ hr hi e r w₂ ho hx
  obtain ⟨hinv, hrely, hQ⟩ := h w₁ hr hi e r w₂ ho hx
  exact ⟨hinv, hrely, (wp_ofExcept r Q w₂).mpr hQ⟩

/-- What holds of a program now holds after any steps of the others. -/
theorem wp_stable (htrans : ∀ w w' w'', S.rely p w w' → S.rely p w' w'' → S.rely p w w'')
    {prog : Prog Op Res ε α} {Q : Except ε α → W → Prop} (hQ : S.Stable p Q) {w w' : W}
    (hr : S.rely p w w') (hi : S.inv w') (h : wp M ok S p prog Q w) : wp M ok S p prog Q w' := by
  cases prog with
  | pure a => exact hQ _ _ _ hr hi h
  | throw e => exact hQ _ _ _ hr hi h
  | op o k =>
    intro w₁ hr₁
    exact h w₁ (htrans _ _ _ hr hr₁)

end Rules

/-- What a specification must know about the machine: the rely relations compose, and neither
a dying process nor the environment breaks the invariant or a rely relation. -/
structure Spec.Fits (S : Spec Pid W) (M : Machine Pid Op Res ε W Env Ext) : Prop where
  refl : ∀ p w, S.rely p w w
  trans : ∀ p w w' w'', S.rely p w w' → S.rely p w' w'' → S.rely p w w''
  crash : ∀ p w, S.inv w → S.inv (M.crash p w) ∧ ∀ q, q ≠ p → S.rely q w (M.crash p w)
  ext : ∀ x w, S.inv w → S.inv (M.ext x w) ∧ ∀ q, S.rely q w (M.ext x w)

/-- The invariant holds and every process satisfies what is left of its specification. -/
def Sound (M : Machine Pid Op Res ε W Env Ext) (ok : Pid → Op → Env → W → Prop) (S : Spec Pid W)
    (Q : Pid → Except ε α → W → Prop) (s : Sys Pid Op Res ε W α) : Prop :=
  S.inv s.world ∧ ∀ p prog, s.procs p = some prog → wp M ok S p prog (Q p) s.world

section Soundness
variable [DecidableEq Pid] {M : Machine Pid Op Res ε W Env Ext} {ok : Pid → Op → Env → W → Prop}
  {S : Spec Pid W} {Q : Pid → Except ε α → W → Prop}

theorem sound_step (hfit : S.Fits M) (hQ : ∀ p, S.Stable p (Q p)) {s t : Sys Pid Op Res ε W α}
    (hs : Sound M ok S Q s) (l : Label Pid Env Ext) (hok : Machine.Meets ok s l)
    (hst : M.step l s = some t) : Sound M ok S Q t := by
  obtain ⟨hinv, hproc⟩ := hs
  -- The processes that did not move only see a step they rely on.
  have hothers : ∀ w', S.inv w' → (∀ q prog, s.procs q = some prog → S.rely q s.world w' →
      wp M ok S q prog (Q q) w') := fun w' hi q prog hq hr =>
    wp_stable (hfit.trans q) (hQ q) hr hi (hproc q prog hq)
  cases l with
  | act p e =>
    simp only [Machine.step] at hst
    split at hst
    case h_2 => cases hst
    case h_1 o k hp =>
      obtain ⟨⟨r, w'⟩, hx, rfl⟩ := Option.map_eq_some_iff.mp hst
      have hmeets : ok p o e s.world := by simpa only [Machine.Meets, hp] using hok
      obtain ⟨hi', hrely, hk⟩ := hproc p _ hp s.world (hfit.refl p _) hinv e r w' hmeets hx
      refine ⟨hi', fun q prog hq => ?_⟩
      by_cases hqp : q = p
      · subst hqp
        simp only [Function.update_self, Option.some.injEq] at hq
        exact hq ▸ hk
      · simp only [Function.update_of_ne hqp] at hq
        exact hothers w' hi' q prog hq (hrely q hqp)
  | crash p =>
    obtain ⟨_, _, rfl⟩ := Option.map_eq_some_iff.mp hst
    obtain ⟨hi', hrely⟩ := hfit.crash p s.world hinv
    refine ⟨hi', fun q prog hq => ?_⟩
    by_cases hqp : q = p
    · subst hqp
      simp only [Function.update_self, reduceCtorEq] at hq
    · simp only [Function.update_of_ne hqp] at hq
      exact hothers _ hi' q prog hq (hrely q hqp)
  | ext x =>
    cases hst
    obtain ⟨hi', hrely⟩ := hfit.ext x s.world hinv
    exact ⟨hi', fun q prog hq => hothers _ hi' q prog hq (hrely q)⟩

/-- Programs that are each correct while the others run are correct in every interleaving. -/
theorem sound_reaches (hfit : S.Fits M) (hQ : ∀ p, S.Stable p (Q p)) {s t : Sys Pid Op Res ε W α}
    (hs : Sound M ok S Q s) (h : M.Reaches ok s t) : Sound M ok S Q t := by
  induction h with
  | start => exact hs
  | step l _ hm hst ih => exact sound_step hfit hQ ih l hm hst

end Soundness

variable {M : Machine Pid Op Res ε W Env Ext} {ok : Pid → Op → Env → W → Prop} {S : Spec Pid W}

section Calls

/-- Every operation that the program can come to satisfies `P`, and its result satisfies `Q`, as
long as the replies satisfy `R`. -/
def Prog.Calls (P : Op → Prop) (R : (o : Op) → Res o → Prop) (Q : α → Prop) :
    Prog Op Res ε α → Prop
  | .pure a => Q a
  | .throw _ => True
  | .op o k => P o ∧ (∀ e, (k (.error e)).Calls P R Q) ∧ ∀ r, R o r → (k (.ok r)).Calls P R Q

variable {P : Op → Prop} {R : (o : Op) → Res o → Prop} {Q : α → Prop} {T : β → Prop}

theorem Prog.calls_do {prog : Prog Op Res ε α} {f : α → Prog Op Res ε β}
    (hp : prog.Calls P R Q) (hf : ∀ a, Q a → (f a).Calls P R T) : (prog >>= f).Calls P R T := by
  rw [Prog.bind_eq]
  induction prog with
  | pure a => exact hf a hp
  | throw e => trivial
  | op o k ih => exact ⟨hp.1, fun e => ih _ (hp.2.1 e), fun r hr => ih _ (hp.2.2 r hr)⟩

theorem Prog.calls_discard {prog : Prog Op Res ε α} {b : β} (hp : prog.Calls P R Q) (hT : T b) :
    (prog >>= fun _ => pure b).Calls P R T :=
  calls_do hp fun _ _ => hT

theorem Prog.calls_catch {prog : Prog Op Res ε α} {h : ε → Prog Op Res ε α}
    (hp : prog.Calls P R Q) (hh : ∀ e, (h e).Calls P R Q) :
    (MonadExcept.tryCatch prog h).Calls P R Q := by
  rw [Prog.tryCatch_eq]
  induction prog with
  | pure a => exact hp
  | throw e => exact hh e
  | op o k ih => exact ⟨hp.1, fun e => ih _ (hp.2.1 e), fun r hr => ih _ (hp.2.2 r hr)⟩

theorem Prog.calls_pure {a : α} (h : Q a) : (Pure.pure a : Prog Op Res ε α).Calls P R Q := h

theorem Prog.calls_ofExcept {a : Except ε α} (h : ∀ b, a = .ok b → Q b) :
    (ofExcept a : Prog Op Res ε α).Calls P R Q := by
  cases a with
  | ok b => exact h b rfl
  | error e => trivial

/-- A reply is at hand only where `R` allows it. -/
theorem Prog.calls_perform {o : Op} {Q : Res o → Prop} (ho : P o) (hQ : ∀ r, R o r → Q r) :
    (perform o : Prog Op Res ε (Res o)).Calls P R Q :=
  ⟨ho, fun _ => trivial, hQ⟩

theorem Prog.Calls.mono {prog : Prog Op Res ε α} {Q' : α → Prop} (h : prog.Calls P R Q)
    (hQ : ∀ a, Q a → Q' a) : prog.Calls P R Q' := by
  induction prog with
  | pure a => exact hQ a h
  | throw e => trivial
  | op o k ih => exact ⟨h.1, fun e => ih _ (h.2.1 e), fun r hr => ih _ (h.2.2 r hr)⟩

theorem Prog.Calls.weaken {prog : Prog Op Res ε α} {P' : Op → Prop} (h : prog.Calls P R Q)
    (hP : ∀ o, P o → P' o) : prog.Calls P' R Q := by
  induction prog with
  | pure a => exact h
  | throw e => trivial
  | op o k ih => exact ⟨hP o h.1, fun e => ih _ (h.2.1 e), fun r hr => ih _ (h.2.2 r hr)⟩

end Calls

section Sequencing

/-- A postcondition that asks nothing of an error. -/
def OnOk (P : α → W → Prop) : Except ε α → W → Prop
  | .ok a, w => P a w
  | .error _, _ => True

/-- A postcondition under which an error is possible only where `E` holds. -/
def OrFail (E : Prop) (P : α → W → Prop) : Except ε α → W → Prop
  | .ok a, w => P a w
  | .error _, _ => E

variable {p : Pid}

theorem wp_do {prog : Prog Op Res ε α} {f : α → Prog Op Res ε β} {Q : Except ε β → W → Prop}
    {w : W} (h : wp M ok S p prog (fun r w' => match r with
      | .ok a => wp M ok S p (f a) Q w'
      | .error e => Q (.error e) w') w) :
    wp M ok S p (prog >>= f) Q w :=
  (wp_bind prog f Q w).mpr h

theorem wp_seq {prog : Prog Op Res ε α} {f : α → Prog Op Res ε β} {P : β → W → Prop} {w : W}
    (h : wp M ok S p prog (OnOk fun a w' => wp M ok S p (f a) (OnOk P) w') w) :
    wp M ok S p (prog >>= f) (OnOk P) w := by
  apply wp_do
  apply wp_mono _ h
  intro r w' hr
  cases r with
  | ok a => exact hr
  | error e => trivial

theorem wp_seq_fail {E : Prop} {prog : Prog Op Res ε α} {f : α → Prog Op Res ε β}
    {Q : Except ε β → W → Prop} {w : W} (hQ : E → ∀ e w', Q (.error e) w')
    (h : wp M ok S p prog (OrFail E fun a w' => wp M ok S p (f a) Q w') w) :
    wp M ok S p (prog >>= f) Q w := by
  apply wp_do
  apply wp_mono _ h
  intro r w' hr
  cases r with
  | ok a => exact hr
  | error e => exact hQ hr e w'

theorem wp_catch {prog : Prog Op Res ε α} {handler : ε → Prog Op Res ε α}
    {Q : Except ε α → W → Prop} {w : W} (h : wp M ok S p prog (fun r w' => match r with
      | .ok a => Q (.ok a) w'
      | .error e => wp M ok S p (handler e) Q w') w) :
    wp M ok S p (tryCatch prog handler) Q w :=
  (wp_tryCatch prog handler Q w).mpr h

/-- The handler may assume nothing but its error. -/
theorem wp_catch_ok {prog : Prog Op Res ε α} {handler : ε → Prog Op Res ε α}
    {P : α → W → Prop} {w : W} (h : wp M ok S p prog (OnOk P) w)
    (hh : ∀ e w', wp M ok S p (handler e) (OnOk P) w') :
    wp M ok S p (tryCatch prog handler) (OnOk P) w := by
  apply wp_catch
  apply wp_mono _ h
  intro r w' hr
  cases r with
  | ok a => exact hr
  | error e => exact hh e w'

theorem wp_throw {e : ε} {P : α → W → Prop} {w : W} :
    wp M ok S p (throw e : Prog Op Res ε α) (OnOk P) w := trivial

theorem wp_pure {a : α} {P : α → W → Prop} {w : W} (h : P a w) :
    wp M ok S p (pure a) (OnOk P) w := h

theorem wp_fromExcept {r : Except ε α} {P : α → W → Prop} {w : W} (h : ∀ a, r = .ok a → P a w) :
    wp M ok S p (.ofExcept r) (OnOk P) w := by
  cases r with
  | ok a => exact h a rfl
  | error e => trivial

end Sequencing

section Alone

/-- The specification of a program that runs by itself and keeps `I`. -/
def soloSpec (I : W → Prop) (p : Pid) : Spec Pid W := ⟨I, fun q w w' => q = p → w' = w⟩

/-- What every operation of a program keeps, the program keeps while it runs by itself. -/
theorem wp_solo {F : W → Prop} {P : Op → Prop} {p : Pid} {prog : Prog Op Res ε α}
    (hc : prog.Calls P (fun _ _ => True) fun _ => True)
    (hstep : ∀ o e w r w', P o → ok p o e w → M.exec p o e w = some (r, w') → F w → F w')
    {w : W} (hF : F w) :
    wp M ok (soloSpec (fun _ => True) p) p prog (fun _ w' => F w') w := by
  induction prog generalizing w with
  | pure a => exact hF
  | throw e => exact hF
  | op o k ih =>
    intro w₁ hr _ e r w₂ hok hx
    have hF₂ : F w₂ := hstep o e w₁ r w₂ hc.1 hok hx ((hr rfl).symm ▸ hF)
    refine ⟨trivial, fun q hq heq => absurd heq hq, ih r ?_ hF₂⟩
    cases r with
    | error err => exact hc.2.1 err
    | ok a => exact hc.2.2 a trivial

/-- Along the run of a program by itself, every operation meets `ok`, and it does not die in a
state outside `alive`. -/
def RunMeets (M : Machine Pid Op Res ε W Env Ext) (ok : Pid → Op → Env → W → Prop)
    (alive : W → Prop) (p : Pid) : Prog Op Res ε α → List Env → W → Prop
  | .pure _, _, _ => True
  | .throw _, _, _ => True
  | .op _ _, [], w => alive w
  | .op o k, e :: es, w =>
    match M.exec p o e w with
    | none => alive w
    | some a => ok p o e w ∧ RunMeets M ok alive p (k a.1) es a.2

instance decidableRunMeets [∀ p o e w, Decidable (ok p o e w)] {alive : W → Prop}
    [DecidablePred alive] {p : Pid} : (prog : Prog Op Res ε α) → (es : List Env) → (w : W) →
    Decidable (RunMeets M ok alive p prog es w)
  | .pure _, _, _ => .isTrue trivial
  | .throw _, _, _ => .isTrue trivial
  | .op _ _, [], w => inferInstanceAs (Decidable (alive w))
  | .op o k, e :: es, w =>
    match hx : M.exec p o e w with
    | none => decidable_of_iff (alive w) (by simp only [RunMeets, hx])
    | some a =>
      have : Decidable (RunMeets M ok alive p (k a.1) es a.2) := decidableRunMeets (k a.1) es a.2
      decidable_of_iff (ok p o e w ∧ RunMeets M ok alive p (k a.1) es a.2)
        (by simp only [RunMeets, hx])

theorem runMeets_true {p : Pid} (prog : Prog Op Res ε α) (es : List Env) (w : W) :
    RunMeets M (fun _ _ _ _ => True) (fun _ => True) p prog es w := by
  induction prog generalizing es w with
  | pure a => trivial
  | throw e => trivial
  | op o k ih =>
    cases es with
    | nil => trivial
    | cons e es =>
      unfold RunMeets
      split
      · trivial
      · exact ⟨trivial, ih _ es _⟩

/-- Along a run whose answers are all admissible every operation meets its condition. -/
theorem runMeets_of_answers {p : Pid} (prog : Prog Op Res ε α) {es : List Env}
    (h : ∀ e ∈ es, ∀ o w, ok p o e w) (w : W) :
    RunMeets M ok (fun _ => True) p prog es w := by
  induction prog generalizing es w with
  | pure a => trivial
  | throw e => trivial
  | op o k ih =>
    cases es with
    | nil => trivial
    | cons e es =>
      unfold RunMeets
      split
      · trivial
      · exact ⟨h e List.mem_cons_self o w, ih _ (fun e' he' => h e' (List.mem_cons_of_mem e he')) _⟩

/-- What a run by itself leaves: the result that its specification promises, or a state in
which it was allowed to die. -/
theorem runAlone_sound {p : Pid} {prog : Prog Op Res ε α} {alive : W → Prop}
    {Q : Except ε α → W → Prop} {es : List Env} {w : W} (hrefl : ∀ w, S.rely p w w)
    (hinv : S.inv w) (h : wp M ok S p prog Q w) (hrun : RunMeets M ok alive p prog es w) :
    match M.runAlone p prog es w with
    | (.returned a, w') => S.inv w' ∧ Q (.ok a) w'
    | (.threw e, w') => S.inv w' ∧ Q (.error e) w'
    | (.crashed, w') => ∃ v, S.inv v ∧ alive v ∧ w' = M.crash p v := by
  induction prog generalizing es w with
  | pure a => exact ⟨hinv, h⟩
  | throw e => exact ⟨hinv, h⟩
  | op o k ih =>
    cases es with
    | nil => exact ⟨w, hinv, hrun, rfl⟩
    | cons e es =>
      simp only [RunMeets] at hrun
      simp only [Machine.runAlone]
      cases hx : M.exec p o e w with
      | none => exact ⟨w, hinv, by simpa only [hx] using hrun, rfl⟩
      | some a =>
        obtain ⟨r, w'⟩ := a
        simp only [hx] at hrun
        obtain ⟨hinv', _, hk⟩ := h w (hrefl w) hinv e r w' hrun.1 hx
        exact ih r hinv' hk hrun.2

end Alone

end Interleaving
