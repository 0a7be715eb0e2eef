import OrderService.Interleaving.RelyGuarantee

/-! Programs over the operations of one machine as programs over those of another, and programs
whose operations follow a protocol. -/
namespace Interleaving

variable {Op Op' : Type} {Res : Op → Type} {Res' : Op' → Type} {ε α β γ : Type}

/-- What comes after a program, whether it returns or throws. -/
def Prog.andThen : Prog Op Res ε α → (Except ε α → Prog Op Res ε β) → Prog Op Res ε β
  | .pure a, k => k (.ok a)
  | .throw e, k => k (.error e)
  | .op o next, k => .op o fun r => (next r).andThen k

/-- Every operation is carried out by a program. -/
def Prog.translate (f : (o : Op) → Prog Op' Res' ε (Res o)) : Prog Op Res ε α → Prog Op' Res' ε α
  | .pure a => .pure a
  | .throw e => .throw e
  | .op o k => (f o).andThen fun r => (k r).translate f

section Equations

theorem Prog.andThen_assoc (prog : Prog Op Res ε α) (k : Except ε α → Prog Op Res ε β)
    (f : β → Prog Op Res ε γ) : prog.andThen k >>= f = prog.andThen fun r => k r >>= f := by
  induction prog with
  | pure a => rfl
  | throw e => rfl
  | op o next ih => exact congrArg (Prog.op o) (funext ih)

theorem Prog.andThen_ofExcept (prog : Prog Op Res ε α) : prog.andThen Prog.ofExcept = prog := by
  induction prog with
  | pure a => rfl
  | throw e => rfl
  | op o next ih => exact congrArg (Prog.op o) (funext ih)

theorem Prog.tryCatch_andThen (prog : Prog Op Res ε α) (handler : ε → Prog Op Res ε α) :
    prog.tryCatch handler = prog.andThen fun
      | .ok a => .pure a
      | .error e => handler e := by
  induction prog with
  | pure a => rfl
  | throw e => rfl
  | op o next ih => exact congrArg (Prog.op o) (funext ih)

variable (f : (o : Op) → Prog Op' Res' ε (Res o))

theorem Prog.translate_do (prog : Prog Op Res ε α) (g : α → Prog Op Res ε β) :
    (prog >>= g).translate f = prog.translate f >>= fun a => (g a).translate f := by
  induction prog with
  | pure a => rfl
  | throw e => rfl
  | op o k ih =>
    have hk : (fun r => (k r >>= g).translate f)
        = fun r => (k r).translate f >>= fun a => (g a).translate f := funext ih
    exact (congrArg (f o).andThen hk).trans (andThen_assoc _ _ _).symm

theorem Prog.translate_perform (o : Op) : (Prog.perform o).translate f = f o := by
  have hof : (fun r => (Prog.ofExcept r : Prog Op Res ε (Res o)).translate f) = Prog.ofExcept := by
    funext r
    cases r <;> rfl
  exact (congrArg (f o).andThen hof).trans (andThen_ofExcept _)

end Equations

section Calls
variable {P : Op → Prop} {R : (o : Op) → Res o → Prop} {Q : α → Prop} {T : β → Prop}

theorem Prog.calls_andThen {prog : Prog Op Res ε α} {k : Except ε α → Prog Op Res ε β}
    (hp : prog.Calls P R Q) (herror : ∀ e, (k (.error e)).Calls P R T)
    (hok : ∀ a, Q a → (k (.ok a)).Calls P R T) : (prog.andThen k).Calls P R T := by
  induction prog with
  | pure a => exact hok a hp
  | throw e => exact herror e
  | op o next ih => exact ⟨hp.1, fun e => ih _ (hp.2.1 e), fun r hr => ih _ (hp.2.2 r hr)⟩

theorem Prog.calls_translate {P : Op' → Prop} {R : (o : Op') → Res' o → Prop}
    {f : (o : Op) → Prog Op' Res' ε (Res o)} (hf : ∀ o, (f o).Calls P R fun _ => True)
    (prog : Prog Op Res ε α) : (prog.translate f).Calls P R fun _ => True := by
  induction prog with
  | pure a => trivial
  | throw e => trivial
  | op o k ih => exact calls_andThen (hf o) (fun e => ih (.error e)) fun r _ => ih (.ok r)

end Calls

/-- In which states an operation is allowed, and the state after its reply. -/
structure Protocol (Op : Type) (Res : Op → Type) (ε σ : Type) where
  allows : σ → Op → Prop
  after : σ → (o : Op) → Except ε (Res o) → σ

/-- From the state on every operation is allowed, whatever the replies; the program ends in `ends`
only. -/
def Prog.Follows {σ : Type} (T : Protocol Op Res ε σ) (ends : σ → Prop) :
    σ → Prog Op Res ε α → Prop
  | s, .pure _ => ends s
  | s, .throw _ => ends s
  | s, .op o k => T.allows s o ∧ ∀ r, (k r).Follows T ends (T.after s o r)

section Follows
variable {σ : Type} {T : Protocol Op Res ε σ} {ends : σ → Prop}

theorem Prog.follows_andThen {mid : σ → Prop} {prog : Prog Op Res ε α}
    {k : Except ε α → Prog Op Res ε β} {s : σ} (hp : prog.Follows T mid s)
    (hk : ∀ s' r, mid s' → (k r).Follows T ends s') : (prog.andThen k).Follows T ends s := by
  induction prog generalizing s with
  | pure a => exact hk s _ hp
  | throw e => exact hk s _ hp
  | op o next ih => exact ⟨hp.1, fun r => ih r (hp.2 r)⟩

theorem Prog.follows_perform {o : Op} {s : σ} (ho : T.allows s o)
    (hafter : ∀ r, ends (T.after s o r)) :
    (Prog.perform o : Prog Op Res ε (Res o)).Follows T ends s := by
  refine ⟨ho, fun r => ?_⟩
  cases r with
  | ok a => exact hafter _
  | error e => exact hafter _

/-- If every operation is translated to a program that ends where it began, so is every program. -/
theorem Prog.follows_translate {T : Protocol Op' Res' ε σ} {f : (o : Op) → Prog Op' Res' ε (Res o)}
    (hf : ∀ o s, ends s → (f o).Follows T ends s) (prog : Prog Op Res ε α) {s : σ} (hs : ends s) :
    (prog.translate f).Follows T ends s := by
  induction prog generalizing s with
  | pure a => exact hs
  | throw e => exact hs
  | op o k ih => exact follows_andThen (hf o s hs) fun s' r hs' => ih r hs'

variable {Pid W Env Ext : Type} [DecidableEq Pid] {M : Machine Pid Op Res ε W Env Ext}
  {ok : Pid → Op → Env → W → Prop} {s t : Sys Pid Op Res ε W α}

/-- Where the world shows of each process the state that it is in, programs that follow the protocol
go on to do so. -/
theorem Machine.Reaches.follows (state : Pid → W → σ)
    (hstart : ∀ p prog, s.procs p = some prog → prog.Follows T ends (state p s.world))
    (hexec : ∀ p o e w r w', T.allows (state p w) o → M.exec p o e w = some (r, w') →
      state p w' = T.after (state p w) o r ∧ ∀ q, q ≠ p → state q w' = state q w)
    (hcrash : ∀ p w q, q ≠ p → state q (M.crash p w) = state q w)
    (hext : ∀ x w q, state q (M.ext x w) = state q w) (h : M.Reaches ok s t) (p : Pid)
    (prog : Prog Op Res ε α) (hp : t.procs p = some prog) :
    prog.Follows T ends (state p t.world) := by
  induction h generalizing p prog with
  | start => exact hstart p prog hp
  | @step u v l _ _ hst ih =>
    cases l with
    | act q e =>
      simp only [Machine.step] at hst
      split at hst
      case h_2 => cases hst
      case h_1 o k hq =>
        obtain ⟨⟨r, w'⟩, hx, rfl⟩ := Option.map_eq_some_iff.mp hst
        have hfollows := ih q _ hq
        obtain ⟨hown, hothers⟩ := hexec q o e u.world r w' hfollows.1 hx
        by_cases hpq : p = q
        · subst hpq
          simp only [Function.update_self, Option.some.injEq] at hp
          rw [← hp]
          show (k r).Follows T ends (state p w')
          rw [hown]
          exact hfollows.2 r
        · simp only [Function.update_of_ne hpq] at hp
          show prog.Follows T ends (state p w')
          rw [hothers p hpq]
          exact ih p prog hp
    | crash q =>
      obtain ⟨_, _, rfl⟩ := Option.map_eq_some_iff.mp hst
      by_cases hpq : p = q
      · simp only [hpq, Function.update_self, reduceCtorEq] at hp
      · simp only [Function.update_of_ne hpq] at hp
        show prog.Follows T ends (state p (M.crash q u.world))
        rw [hcrash q u.world p hpq]
        exact ih p prog hp
    | ext x =>
      cases hst
      show prog.Follows T ends (state p (M.ext x u.world))
      rw [hext x u.world p]
      exact ih p prog hp

end Follows

end Interleaving
