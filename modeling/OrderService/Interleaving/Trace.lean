import OrderService.Interleaving.RelyGuarantee

/-! The operations that a program can come to perform, those that it performs in a run, and runs
of one program after the other as interleavings. -/
namespace Interleaving

variable {Pid Op : Type} {Res : Op → Type} {ε W Env Ext α : Type} {P : Op → Prop}
  {R : (o : Op) → Res o → Prop} {Q : α → Prop}

/-- Fewer replies to reckon with. -/
theorem Prog.Calls.told {prog : Prog Op Res ε α} {R' : (o : Op) → Res o → Prop}
    (h : prog.Calls P R Q) (hR : ∀ o r, R' o r → R o r) : prog.Calls P R' Q := by
  induction prog with
  | pure a => exact h
  | throw e => trivial
  | op o k ih => exact ⟨h.1, fun e => ih _ (h.2.1 e), fun r hr => ih _ (h.2.2 r (hR o r hr))⟩

/-- The program can come to perform the operation, if the replies satisfy `R`. -/
def Prog.Performs (R : (o : Op) → Res o → Prop) (x : Op) : Prog Op Res ε α → Prop
  | .pure _ => False
  | .throw _ => False
  | .op o k => x = o ∨ (∃ e, (k (.error e)).Performs R x) ∨ ∃ r, R o r ∧ (k (.ok r)).Performs R x

theorem Prog.Calls.performs {prog : Prog Op Res ε α} (h : prog.Calls P R Q) {x : Op}
    (hx : prog.Performs R x) : P x := by
  induction prog with
  | pure a => exact absurd hx id
  | throw e => exact absurd hx id
  | op o k ih =>
    rcases hx with rfl | ⟨e, hx⟩ | ⟨r, hr, hx⟩
    · exact h.1
    · exact ih _ (h.2.1 e) hx
    · exact ih _ (h.2.2 r hr) hx

/-- The operations of a program that runs by itself, up to the one that is not answered. -/
def Machine.trace (M : Machine Pid Op Res ε W Env Ext) (p : Pid) :
    Prog Op Res ε α → List Env → W → List Op
  | .pure _, _, _ => []
  | .throw _, _, _ => []
  | .op o _, [], _ => [o]
  | .op o k, e :: es, w =>
    o :: match M.exec p o e w with
      | none => []
      | some a => M.trace p (k a.1) es a.2

/-- What a run performs the program can come to perform. -/
theorem performs_of_mem_trace {M : Machine Pid Op Res ε W Env Ext} {p : Pid}
    {prog : Prog Op Res ε α} {es : List Env} {w : W} {x : Op}
    (hR : ∀ e ∈ es, ∀ o w a w', M.exec p o e w = some (.ok a, w') → R o a)
    (hx : x ∈ M.trace p prog es w) : prog.Performs R x := by
  induction prog generalizing es w with
  | pure a => cases hx
  | throw e => cases hx
  | op o k ih =>
    cases es with
    | nil => exact .inl (List.mem_singleton.mp hx)
    | cons e es =>
      simp only [Machine.trace, List.mem_cons] at hx
      rcases hx with rfl | hx
      · exact .inl rfl
      have hrest : ∀ e' ∈ es, ∀ o w a w', M.exec p o e' w = some (.ok a, w') → R o a :=
        fun e' he' => hR e' (List.mem_cons_of_mem e he')
      cases hexec : M.exec p o e w with
      | none => simp [hexec] at hx
      | some a =>
        rw [hexec] at hx
        obtain ⟨r, w'⟩ := a
        cases r with
        | error err => exact .inr (.inl ⟨err, ih _ hrest hx⟩)
        | ok a =>
          exact .inr (.inr ⟨a, hR e List.mem_cons_self o w a w' hexec, ih _ hrest hx⟩)

section Systems
variable [DecidableEq Pid] {M : Machine Pid Op Res ε W Env Ext} {ok : Pid → Op → Env → W → Prop}
  {s t : Sys Pid Op Res ε W α}

/-- What the operations that the programs can come to keep, as long as the replies that they are
given on the way tell what `R` says. -/
theorem Machine.Reaches.keeps_told {P : Pid → Op → Prop} {R : (o : Op) → Res o → Prop}
    {Q : α → Prop} {J : W → Prop}
    (hcalls : ∀ p prog, s.procs p = some prog → prog.Calls (P p) R Q)
    (hR : ∀ u u' p o e a, M.Reaches ok s u → M.Reaches ok u u' → M.Reaches ok u' t →
      M.exec p o e u.world = some (.ok a, u'.world) → R o a)
    (hexec : ∀ p o e w r w', P p o → ok p o e w → J w → M.exec p o e w = some (r, w') → J w')
    (hcrash : ∀ p w, J w → J (M.crash p w)) (hext : ∀ x w, J w → J (M.ext x w))
    (hJ : J s.world) (h : M.Reaches ok s t) : J t.world := by
  have halong : ∀ v, M.Reaches ok s v → M.Reaches ok v t →
      J v.world ∧ ∀ p prog, v.procs p = some prog → prog.Calls (P p) R Q := by
    intro v hv
    induction hv with
    | start => exact fun _ => ⟨hJ, hcalls⟩
    | @step u v l hu hm hst ih =>
      intro hvt
      have huv : M.Reaches ok u v := .step l .start hm hst
      obtain ⟨hworld, hprocs⟩ := ih (huv.trans hvt)
      cases l with
      | act p e =>
        simp only [Machine.step] at hst
        split at hst
        case h_2 => cases hst
        case h_1 o k hp =>
          obtain ⟨⟨r, w'⟩, hx, rfl⟩ := Option.map_eq_some_iff.mp hst
          obtain ⟨ho, herror, hreply⟩ := hprocs p _ hp
          have hmeets : ok p o e u.world := by simpa only [Machine.Meets, hp] using hm
          refine ⟨hexec p o e _ r w' ho hmeets hworld hx, fun q prog hq => ?_⟩
          by_cases hqp : q = p
          · subst hqp
            simp only [Function.update_self, Option.some.injEq] at hq
            subst hq
            cases r with
            | ok a => exact hreply a (hR u _ q o e a hu huv hvt hx)
            | error err => exact herror err
          · simp only [Function.update_of_ne hqp] at hq
            exact hprocs q prog hq
      | crash p =>
        obtain ⟨_, _, rfl⟩ := Option.map_eq_some_iff.mp hst
        refine ⟨hcrash p _ hworld, fun q prog hq => ?_⟩
        by_cases hqp : q = p
        · subst hqp
          simp only [Function.update_self, reduceCtorEq] at hq
        · simp only [Function.update_of_ne hqp] at hq
          exact hprocs q prog hq
      | ext x =>
        cases hst
        exact ⟨hext x _ hworld, hprocs⟩
  exact (halong t h .start).1

omit [DecidableEq Pid] in
theorem Machine.meets_true (s : Sys Pid Op Res ε W α) (l : Label Pid Env Ext) :
    Machine.Meets (fun _ _ _ _ => True) s l := by
  cases l with
  | act p e =>
    simp only [Machine.Meets]
    split <;> trivial
  | crash p => trivial
  | ext x => trivial

/-- The invariant and the programs, each with its own operations and results: the operations keep
the invariant, and the invariant gives what the programs are told. -/
theorem Machine.Reaches.told {P : Pid → Op → Prop} {R : (o : Op) → Res o → Prop}
    {Q : Pid → α → Prop} {J : W → Prop}
    (hcalls : ∀ p prog, s.procs p = some prog → prog.Calls (P p) R (Q p))
    (hexec : ∀ p o e w r w', P p o → ok p o e w → J w → M.exec p o e w = some (r, w') →
      J w' ∧ ∀ a, r = .ok a → R o a)
    (hcrash : ∀ p w, J w → J (M.crash p w)) (hext : ∀ x w, J w → J (M.ext x w))
    (hJ : J s.world) (h : M.Reaches ok s t) :
    J t.world ∧ ∀ p prog, t.procs p = some prog → prog.Calls (P p) R (Q p) := by
  induction h with
  | start => exact ⟨hJ, hcalls⟩
  | @step u v l _ hm hst ih =>
    obtain ⟨hworld, hprocs⟩ := ih
    cases l with
    | act p e =>
      simp only [Machine.step] at hst
      split at hst
      case h_2 => cases hst
      case h_1 o k hp =>
        obtain ⟨⟨r, w'⟩, hx, rfl⟩ := Option.map_eq_some_iff.mp hst
        obtain ⟨ho, herror, hreply⟩ := hprocs p _ hp
        have hmeets : ok p o e u.world := by simpa only [Machine.Meets, hp] using hm
        obtain ⟨hkept, htold⟩ := hexec p o e _ r w' ho hmeets hworld hx
        refine ⟨hkept, fun q prog hq => ?_⟩
        by_cases hqp : q = p
        · subst hqp
          simp only [Function.update_self, Option.some.injEq] at hq
          subst hq
          cases r with
          | ok a => exact hreply a (htold a rfl)
          | error err => exact herror err
        · simp only [Function.update_of_ne hqp] at hq
          exact hprocs q prog hq
    | crash p =>
      obtain ⟨_, _, rfl⟩ := Option.map_eq_some_iff.mp hst
      refine ⟨hcrash p _ hworld, fun q prog hq => ?_⟩
      by_cases hqp : q = p
      · subst hqp
        simp only [Function.update_self, reduceCtorEq] at hq
      · simp only [Function.update_of_ne hqp] at hq
        exact hprocs q prog hq
    | ext x =>
      cases hst
      exact ⟨hext x _ hworld, hprocs⟩

/-- What a program has still to do after some of its operations. -/
inductive Prog.Leads : Prog Op Res ε α → Prog Op Res ε α → Prop
  | refl (prog : Prog Op Res ε α) : Leads prog prog
  | next {prog : Prog Op Res ε α} {o : Op} {k : Except ε (Res o) → Prog Op Res ε α}
      (r : Except ε (Res o)) : Leads prog (.op o k) → Leads prog (k r)

theorem Machine.Reaches.leads (h : M.Reaches ok s t) {p : Pid} {prog : Prog Op Res ε α}
    (hp : t.procs p = some prog) : ∃ whole, s.procs p = some whole ∧ whole.Leads prog := by
  induction h generalizing prog with
  | start => exact ⟨prog, hp, .refl prog⟩
  | @step u v l _ _ hst ih =>
    cases l with
    | act q e =>
      simp only [Machine.step] at hst
      split at hst
      case h_2 => cases hst
      case h_1 o k hq =>
        obtain ⟨⟨r, w'⟩, -, rfl⟩ := Option.map_eq_some_iff.mp hst
        by_cases hpq : p = q
        · subst hpq
          obtain ⟨whole, hwhole, hleads⟩ := ih hq
          simp only [Function.update_self, Option.some.injEq] at hp
          exact ⟨whole, hwhole, hp ▸ hleads.next r⟩
        · simp only [Function.update_of_ne hpq] at hp
          exact ih hp
    | crash q =>
      obtain ⟨_, _, rfl⟩ := Option.map_eq_some_iff.mp hst
      by_cases hpq : p = q
      · subst hpq
        simp only [Function.update_self, reduceCtorEq] at hp
      · simp only [Function.update_of_ne hpq] at hp
        exact ih hp
    | ext x =>
      cases hst
      exact ih hp

/-- What the operations that the programs can come to keep holds in every interleaving. -/
theorem Machine.Reaches.keeps_calls {P : Pid → Op → Prop} {J : W → Prop}
    (hcalls : ∀ p prog, s.procs p = some prog →
      prog.Calls (P p) (fun _ _ => True) fun _ => True)
    (hexec : ∀ p o e w r w', P p o → ok p o e w → J w → M.exec p o e w = some (r, w') → J w')
    (hcrash : ∀ p w, J w → J (M.crash p w)) (hext : ∀ x w, J w → J (M.ext x w))
    (hJ : J s.world) (h : M.Reaches ok s t) : J t.world :=
  keeps_told hcalls (fun _ _ _ _ _ _ _ _ _ _ => trivial) hexec hcrash hext hJ h

theorem Prog.calls_any (prog : Prog Op Res ε α) :
    prog.Calls (fun _ => True) (fun _ _ => True) fun _ => True := by
  induction prog with
  | pure a => trivial
  | throw e => trivial
  | op o k ih => exact ⟨trivial, fun e => ih (.error e), fun r _ => ih (.ok r)⟩

/-- What every operation keeps where it meets its condition, a run keeps. -/
theorem Machine.Reaches.keeps_under {J : W → Prop} (h : M.Reaches ok s t)
    (hexec : ∀ p o e w r w', ok p o e w → J w → M.exec p o e w = some (r, w') → J w')
    (hcrash : ∀ p w, J w → J (M.crash p w)) (hext : ∀ x w, J w → J (M.ext x w))
    (hJ : J s.world) : J t.world :=
  keeps_calls (P := fun _ _ => True) (fun _ prog _ => prog.calls_any)
    (fun p o e w r w' _ => hexec p o e w r w') hcrash hext hJ h

/-- A run meets what its own condition and what holds all along it give. -/
theorem Machine.Reaches.along {J : W → Prop} {ok' : Pid → Op → Env → W → Prop}
    (h : M.Reaches ok s t) (hJ : ∀ u, M.Reaches ok s u → J u.world)
    (hok : ∀ p o e w, ok p o e w → J w → ok' p o e w) : M.Reaches ok' s t := by
  induction h with
  | start => exact .start
  | @step u v l hu hm hst ih =>
    refine .step l ih ?_ hst
    cases l with
    | act p e =>
      simp only [Machine.Meets] at hm ⊢
      split at hm
      · exact hok p _ e u.world hm (hJ u hu)
      · trivial
    | crash p => trivial
    | ext x => trivial

/-- A run meets what its own condition and an invariant of it give. -/
theorem Machine.Reaches.strengthen {J : W → Prop} {ok' : Pid → Op → Env → W → Prop}
    (h : M.Reaches ok s t)
    (hexec : ∀ p o e w r w', ok p o e w → J w → M.exec p o e w = some (r, w') → J w')
    (hcrash : ∀ p w, J w → J (M.crash p w)) (hext : ∀ x w, J w → J (M.ext x w))
    (hJ : J s.world) (hok : ∀ p o e w, ok p o e w → J w → ok' p o e w) : M.Reaches ok' s t :=
  h.along (fun _ hu => hu.keeps_under hexec hcrash hext hJ) hok

/-- On the way from `s` to `t`, `p` performed the operation in the world `w`, and the environment
answered `e`. -/
def Machine.Happened (M : Machine Pid Op Res ε W Env Ext) (ok : Pid → Op → Env → W → Prop)
    (s t : Sys Pid Op Res ε W α) (p : Pid) (o : Op) (e : Env) (w : W) : Prop :=
  ∃ u v k, M.Reaches ok s u ∧ u.world = w ∧ u.procs p = some (.op o k) ∧
    M.step (.act p e) u = some v ∧ M.Reaches ok v t

/-- The process that moves. -/
def Label.process : Label Pid Env Ext → Option Pid
  | .act p _ => some p
  | .crash p => some p
  | .ext _ => none

/-- A step leaves the processes where they are that do not move. -/
theorem Machine.step_other {l : Label Pid Env Ext} {q : Pid} (hq : l.process ≠ some q)
    (h : M.step l s = some t) : t.procs q = s.procs q := by
  cases l with
  | act p e =>
    have hqp : q ≠ p := fun heq => hq (congrArg some heq.symm)
    simp only [Machine.step] at h
    split at h
    · obtain ⟨a, -, rfl⟩ := Option.map_eq_some_iff.mp h
      exact Function.update_of_ne hqp _ _
    · cases h
  | crash p =>
    have hqp : q ≠ p := fun heq => hq (congrArg some heq.symm)
    obtain ⟨_, -, rfl⟩ := Option.map_eq_some_iff.mp h
    exact Function.update_of_ne hqp _ _
  | ext x =>
    cases h
    rfl

/-- So does a run. -/
theorem Machine.run_other {check : Pid → Op → Env → W → Bool} {q : Pid}
    (ls : List (Label Pid Env Ext)) (hq : ∀ l ∈ ls, l.process ≠ some q)
    (h : M.run check ls s = some t) : t.procs q = s.procs q := by
  induction ls generalizing s with
  | nil =>
    cases h
    rfl
  | cons l ls ih =>
    simp only [Machine.run] at h
    split_ifs at h
    obtain ⟨u, hstep, hrest⟩ := Option.bind_eq_some_iff.mp h
    have hlast := ih (fun l' hl' => hq l' (List.mem_cons_of_mem l hl')) hrest
    exact hlast.trans (Machine.step_other (hq l List.mem_cons_self) hstep)

/-- Every operation of a run happened in it. -/
theorem Machine.Reaches.happened (h : M.Reaches ok s t) :
    M.Reaches (fun p o e w => ok p o e w ∧ M.Happened ok s t p o e w) s t := by
  have halong : ∀ v, M.Reaches ok s v → M.Reaches ok v t →
      M.Reaches (fun p o e w => ok p o e w ∧ M.Happened ok s t p o e w) s v := by
    intro v hv
    induction hv with
    | start => exact fun _ => .start
    | @step u v l hu hm hst ih =>
      intro hvt
      have huv : M.Reaches ok u v := .step l .start hm hst
      refine .step l (ih (huv.trans hvt)) ?_ hst
      cases l with
      | act p e =>
        cases hp : u.procs p with
        | none => simp [Machine.Meets, hp]
        | some prog =>
          cases prog with
          | pure a => simp [Machine.Meets, hp]
          | throw err => simp [Machine.Meets, hp]
          | op o k =>
            simp only [Machine.Meets, hp] at hm ⊢
            exact ⟨hm, u, v, k, hu, rfl, hp, hst, hvt⟩
      | crash p => trivial
      | ext x => trivial
  exact halong t h .start

/-- A program that runs by itself to its end is an interleaving. -/
theorem reaches_of_runAlone {p : Pid} {prog : Prog Op Res ε α} {es : List Env} {a : α} {w' : W}
    (hp : s.procs p = some prog) (h : M.runAlone p prog es s.world = (.returned a, w')) :
    M.Reaches (fun _ _ _ _ => True) s ⟨w', Function.update s.procs p (some (.pure a))⟩ := by
  induction prog generalizing s es with
  | pure b =>
    simp only [Machine.runAlone, Prod.mk.injEq, Outcome.returned.injEq] at h
    obtain ⟨rfl, rfl⟩ := h
    rw [← hp, Function.update_eq_self]
    exact .start
  | throw e => simp [Machine.runAlone] at h
  | op o k ih =>
    cases es with
    | nil => simp [Machine.runAlone] at h
    | cons e es =>
      simp only [Machine.runAlone] at h
      cases hx : M.exec p o e s.world with
      | none => simp [hx] at h
      | some r =>
        rw [hx] at h
        have hstep : M.step (.act p e) s
            = some ⟨r.2, Function.update s.procs p (some (k r.1))⟩ := by
          simp only [Machine.step, hp, hx, Option.map_some]
        have hmeets : Machine.Meets (fun _ _ _ _ => True) s (.act p e : Label Pid Env Ext) := by
          simp only [Machine.Meets, hp]
        have hrest := ih r.1 (s := ⟨r.2, Function.update s.procs p (some (k r.1))⟩)
          (Function.update_self ..) h
        rw [Function.update_idem] at hrest
        exact (Machine.Reaches.step _ .start hmeets hstep).trans hrest

/-- The process that a label moves. -/
def Label.mover {Env Ext : Type} : Label Pid Env Ext → Option Pid
  | .act p _ => some p
  | .crash p => some p
  | .ext _ => none

section Others
variable {S : Spec Pid W} {Post : Pid → Except ε α → W → Prop}

/-- Whoever does not move sees a step that it relies on. -/
theorem Sound.step_rely (hfit : S.Fits M) (hs : Sound M ok S Post s) {l : Label Pid Env Ext}
    (hok : Machine.Meets ok s l) (hst : M.step l s = some t) {q : Pid}
    (hq : l.mover ≠ some q) : S.rely q s.world t.world := by
  obtain ⟨hinv, hproc⟩ := hs
  cases l with
  | act p e =>
    have hqp : q ≠ p := fun h => hq (congrArg some h.symm)
    simp only [Machine.step] at hst
    split at hst
    case h_2 => cases hst
    case h_1 o k hp =>
      obtain ⟨⟨r, w'⟩, hx, rfl⟩ := Option.map_eq_some_iff.mp hst
      have hmeets : ok p o e s.world := by simpa only [Machine.Meets, hp] using hok
      exact (hproc p _ hp s.world (hfit.refl p _) hinv e r w' hmeets hx).2.1 q hqp
  | crash p =>
    have hqp : q ≠ p := fun h => hq (congrArg some h.symm)
    obtain ⟨_, _, rfl⟩ := Option.map_eq_some_iff.mp hst
    exact (hfit.crash p s.world hinv).2 q hqp
  | ext x =>
    cases hst
    exact (hfit.ext x s.world hinv).2 q

/-- What a process leaves when it dies stays, if the others cannot change it. -/
theorem Sound.dead {A : Pid → W → Prop} (hfit : S.Fits M) (hPost : ∀ p, S.Stable p (Post p))
    (hstable : ∀ p w w', S.rely p w w' → A p w → A p w') (hcrash : ∀ p w, A p (M.crash p w))
    (hs : Sound M ok S Post s) (hdead : ∀ p, s.procs p = none → A p s.world)
    (h : M.Reaches ok s t) {p : Pid} (hp : t.procs p = none) : A p t.world := by
  induction h generalizing p with
  | start => exact hdead p hp
  | @step v u l hv hm hst ih =>
    by_cases hmove : l.mover = some p
    · cases l with
      | act q e =>
        cases hmove
        simp only [Machine.step] at hst
        split at hst
        case h_2 => cases hst
        case h_1 o k hq =>
          obtain ⟨a, _, rfl⟩ := Option.map_eq_some_iff.mp hst
          simp only [Function.update_self, reduceCtorEq] at hp
      | crash q =>
        cases hmove
        obtain ⟨_, _, rfl⟩ := Option.map_eq_some_iff.mp hst
        exact hcrash p v.world
      | ext x => cases hmove
    · have hsame : u.procs p = v.procs p := by
        cases l with
        | act q e =>
          have hpq : p ≠ q := fun h => hmove (congrArg some h.symm)
          simp only [Machine.step] at hst
          split at hst
          case h_2 => cases hst
          case h_1 o k hq =>
            obtain ⟨a, _, rfl⟩ := Option.map_eq_some_iff.mp hst
            exact Function.update_of_ne hpq _ _
        | crash q =>
          have hpq : p ≠ q := fun h => hmove (congrArg some h.symm)
          obtain ⟨_, _, rfl⟩ := Option.map_eq_some_iff.mp hst
          exact Function.update_of_ne hpq _ _
        | ext x =>
          cases hst
          rfl
      have hsound := sound_reaches hfit hPost hs hv
      exact hstable p _ _ (hsound.step_rely hfit hm hst hmove) (ih (hsame ▸ hp))

end Others

end Systems

end Interleaving
