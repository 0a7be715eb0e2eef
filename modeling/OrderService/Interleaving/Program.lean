import Mathlib.Logic.Function.Basic
import Mathlib.Data.List.Basic

/-! Programs that perform one operation at a time, and machines that interleave any
number of them. A rejected operation replies with an error that the program may catch. -/
namespace Interleaving

inductive Prog (Op : Type) (Res : Op → Type) (ε α : Type) : Type where
  | pure (a : α)
  | throw (e : ε)
  | op (o : Op) (k : Except ε (Res o) → Prog Op Res ε α)

namespace Prog
variable {Op : Type} {Res : Op → Type} {ε α β γ : Type}

def bind : Prog Op Res ε α → (α → Prog Op Res ε β) → Prog Op Res ε β
  | .pure a, f => f a
  | .throw e, _ => .throw e
  | .op o k, f => .op o (fun r => (k r).bind f)

/-- Errors of the body go to the handler; errors of the handler are not caught again. -/
def tryCatch : Prog Op Res ε α → (ε → Prog Op Res ε α) → Prog Op Res ε α
  | .pure a, _ => .pure a
  | .throw e, h => h e
  | .op o k, h => .op o (fun r => (k r).tryCatch h)

instance : Monad (Prog Op Res ε) where
  pure := .pure
  bind := .bind

instance : MonadExceptOf ε (Prog Op Res ε) where
  throw := .throw
  tryCatch := .tryCatch

def ofExcept : Except ε α → Prog Op Res ε α
  | .ok a => .pure a
  | .error e => .throw e

def perform (o : Op) : Prog Op Res ε (Res o) := .op o ofExcept

theorem bind_eq (p : Prog Op Res ε α) (f : α → Prog Op Res ε β) : p >>= f = p.bind f := rfl

theorem do_assoc (p : Prog Op Res ε α) (f : α → Prog Op Res ε β) (g : β → Prog Op Res ε γ) :
    (p >>= f) >>= g = p >>= fun a => f a >>= g := by
  simp only [bind_eq]
  induction p with
  | pure a => rfl
  | throw e => rfl
  | op o k ih => exact congrArg (Prog.op o) (funext ih)

theorem tryCatch_eq (p : Prog Op Res ε α) (h : ε → Prog Op Res ε α) :
    MonadExcept.tryCatch p h = p.tryCatch h := rfl

end Prog

/-- What a finished or interrupted program leaves: a result, an error nobody caught, or
nothing because its process died. -/
inductive Outcome (ε α : Type) where
  | returned (a : α)
  | threw (e : ε)
  | crashed

def Outcome.isReturned {ε α : Type} : Outcome ε α → Bool
  | .returned _ => true
  | _ => false

def Outcome.isCrashed {ε α : Type} : Outcome ε α → Bool
  | .crashed => true
  | _ => false

/-- The world that programs share. `exec` answers one operation of one process; `none` means
that the process has to wait. -/
structure Machine (Pid Op : Type) (Res : Op → Type) (ε W Env Ext : Type) where
  exec : Pid → (o : Op) → Env → W → Option (Except ε (Res o) × W)
  crash : Pid → W → W
  ext : Ext → W → W

/-- One event of an interleaving: a process takes its next step with an answer of the
environment, a process dies, or the environment moves by itself. -/
inductive Label (Pid Env Ext : Type) where
  | act (p : Pid) (e : Env)
  | crash (p : Pid)
  | ext (x : Ext)

/-- The shared world and what every process still has to do; `none` is a process that died. -/
structure Sys (Pid Op : Type) (Res : Op → Type) (ε W α : Type) where
  world : W
  procs : Pid → Option (Prog Op Res ε α)

namespace Machine
variable {Pid Op : Type} {Res : Op → Type} {ε W Env Ext α : Type} [DecidableEq Pid]

def step (M : Machine Pid Op Res ε W Env Ext) :
    Label Pid Env Ext → Sys Pid Op Res ε W α → Option (Sys Pid Op Res ε W α)
  | .act p e, s =>
    match s.procs p with
    | some (.op o k) =>
      (M.exec p o e s.world).map fun a => ⟨a.2, Function.update s.procs p (some (k a.1))⟩
    | _ => none
  | .crash p, s => (s.procs p).map fun _ => ⟨M.crash p s.world, Function.update s.procs p none⟩
  | .ext x, s => some ⟨M.ext x s.world, s.procs⟩

/-- The side condition `ok` of an operation, read off the process that performs it. -/
def Meets (ok : Pid → Op → Env → W → Prop) (s : Sys Pid Op Res ε W α) :
    Label Pid Env Ext → Prop
  | .act p e =>
    match s.procs p with
    | some (.op o _) => ok p o e s.world
    | _ => True
  | _ => True

def accepts (check : Pid → Op → Env → W → Bool) (s : Sys Pid Op Res ε W α) :
    Label Pid Env Ext → Bool
  | .act p e =>
    match s.procs p with
    | some (.op o _) => check p o e s.world
    | _ => true
  | _ => true

/-- `t` is reached from `s` by some interleaving all of whose operations meet `ok`. -/
inductive Reaches (M : Machine Pid Op Res ε W Env Ext) (ok : Pid → Op → Env → W → Prop)
    (s : Sys Pid Op Res ε W α) : Sys Pid Op Res ε W α → Prop
  | start : Reaches M ok s s
  | step {t u : Sys Pid Op Res ε W α} (l : Label Pid Env Ext) : Reaches M ok s t → Meets ok t l →
      M.step l t = some u → Reaches M ok s u

/-- Runs a schedule, as long as `check` accepts every operation where it happens. -/
def run (M : Machine Pid Op Res ε W Env Ext) (check : Pid → Op → Env → W → Bool) :
    List (Label Pid Env Ext) → Sys Pid Op Res ε W α → Option (Sys Pid Op Res ε W α)
  | [], s => some s
  | l :: ls, s => if accepts check s l then (M.step l s).bind (M.run check ls) else none

theorem Reaches.trans {M : Machine Pid Op Res ε W Env Ext} {ok : Pid → Op → Env → W → Prop}
    {s t u : Sys Pid Op Res ε W α} (hst : M.Reaches ok s t) (htu : M.Reaches ok t u) :
    M.Reaches ok s u := by
  induction htu with
  | start => exact hst
  | step l _ hm hs ih => exact .step l ih hm hs

omit [DecidableEq Pid] in
theorem meets_of_accepts {ok : Pid → Op → Env → W → Prop} {check : Pid → Op → Env → W → Bool}
    (hcheck : ∀ p o e w, check p o e w = true → ok p o e w) {s : Sys Pid Op Res ε W α}
    {l : Label Pid Env Ext} (h : accepts check s l = true) : Meets ok s l := by
  cases l with
  | act p e =>
    simp only [accepts] at h
    simp only [Meets]
    split at h
    · next o k hp => simpa only [hp] using hcheck p o e s.world h
    · trivial
  | crash p => trivial
  | ext x => trivial

/-- A schedule that runs to its end is an interleaving. -/
theorem reaches_of_run {M : Machine Pid Op Res ε W Env Ext} {ok : Pid → Op → Env → W → Prop}
    {check : Pid → Op → Env → W → Bool} (hcheck : ∀ p o e w, check p o e w = true → ok p o e w)
    (ls : List (Label Pid Env Ext)) {s t : Sys Pid Op Res ε W α}
    (h : M.run check ls s = some t) : M.Reaches ok s t := by
  induction ls generalizing s with
  | nil =>
    cases h
    exact .start
  | cons l ls ih =>
    simp only [run] at h
    split_ifs at h with haccept
    obtain ⟨u, hu, ht⟩ := Option.bind_eq_some_iff.mp h
    have hsu : M.Reaches ok s u := .step l .start (meets_of_accepts hcheck haccept) hu
    exact hsu.trans (ih ht)

/-- A program alone in the world, given the environment's answers in order. It dies where
the answers end. -/
def runAlone (M : Machine Pid Op Res ε W Env Ext) (p : Pid) :
    Prog Op Res ε α → List Env → W → Outcome ε α × W
  | .pure a, _, w => (.returned a, w)
  | .throw e, _, w => (.threw e, w)
  | .op _ _, [], w => (.crashed, M.crash p w)
  | .op o k, e :: es, w =>
    match M.exec p o e w with
    | none => (.crashed, M.crash p w)
    | some a => M.runAlone p (k a.1) es a.2

section Alone
variable {M : Machine Pid Op Res ε W Env Ext} {p : Pid} {o : Op} {e : Env} {es : List Env} {w : W}
  {k : Except ε (Res o) → Prog Op Res ε α}

omit [DecidableEq Pid] in
theorem runAlone_answered {a : Except ε (Res o) × W} (hx : M.exec p o e w = some a) :
    M.runAlone p (.op o k) (e :: es) w = M.runAlone p (k a.1) es a.2 := by
  simp only [runAlone, hx]

omit [DecidableEq Pid] in
theorem runAlone_waits (hx : M.exec p o e w = none) :
    M.runAlone p (.op o k) (e :: es) w = (.crashed, M.crash p w) := by
  simp only [runAlone, hx]

end Alone

section Keeping
variable {M : Machine Pid Op Res ε W Env Ext} {J : W → Prop}

/-- What every operation, every death and the environment keep holds in every interleaving. -/
theorem Reaches.keeps {ok : Pid → Op → Env → W → Prop} {s t : Sys Pid Op Res ε W α}
    (hexec : ∀ p o e w r w', J w → M.exec p o e w = some (r, w') → J w')
    (hcrash : ∀ p w, J w → J (M.crash p w)) (hext : ∀ x w, J w → J (M.ext x w))
    (hJ : J s.world) (h : M.Reaches ok s t) : J t.world := by
  induction h with
  | start => exact hJ
  | step l _ _ hst ih =>
    cases l with
    | act p e =>
      simp only [Machine.step] at hst
      split at hst
      case h_1 o k _ =>
        obtain ⟨⟨r, w'⟩, hx, rfl⟩ := Option.map_eq_some_iff.mp hst
        exact hexec p o e _ r w' ih hx
      case h_2 => cases hst
    | crash p =>
      obtain ⟨_, _, rfl⟩ := Option.map_eq_some_iff.mp hst
      exact hcrash p _ ih
    | ext x =>
      cases hst
      exact hext x _ ih

omit [DecidableEq Pid] in
/-- The same for a program by itself. -/
theorem runAlone_keeps {p : Pid} (hexec : ∀ o e w r w', J w → M.exec p o e w = some (r, w') → J w')
    (hcrash : ∀ w, J w → J (M.crash p w)) (prog : Prog Op Res ε α) (es : List Env) {w : W}
    (hJ : J w) : J (M.runAlone p prog es w).2 := by
  induction prog generalizing es w with
  | pure a => exact hJ
  | throw e => exact hJ
  | op o k ih =>
    cases es with
    | nil => exact hcrash w hJ
    | cons e es =>
      unfold runAlone
      split
      · exact hcrash w hJ
      · next a hx => exact ih a.1 es (hexec o e w a.1 a.2 hJ hx)

end Keeping

omit [DecidableEq Pid] in
/-- What becomes of the result changes nothing in the world. -/
theorem runAlone_map {M : Machine Pid Op Res ε W Env Ext} {p : Pid} {β : Type} (f : α → β)
    (prog : Prog Op Res ε α) (es : List Env) (w : W) :
    (M.runAlone p (prog >>= fun a => pure (f a)) es w).2 = (M.runAlone p prog es w).2 := by
  rw [Prog.bind_eq]
  induction prog generalizing es w with
  | pure a => rfl
  | throw e => rfl
  | op o k ih =>
    cases es with
    | nil => rfl
    | cons e es =>
      simp only [Prog.bind, runAlone]
      cases M.exec p o e w with
      | none => rfl
      | some a => exact ih a.1 es a.2

end Machine

end Interleaving
