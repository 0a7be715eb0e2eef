import OrderService.Interleaving.RelyGuarantee

/-! Machines that keep a log of what happens, the newest entry first, and what programs can know of
the log while the others write to it. -/
namespace Interleaving

variable {Pid Op : Type} {Res : Op → Type} {ε W Env Ext α β : Type}

/-- What happened in a world: an operation of a process, and whether it was answered without an
error; or, without one, a death or a move of the environment. -/
structure Happening (Pid Op W : Type) where
  act : Option (Pid × Op)
  done : Bool
  world : W

structure Recorded (Pid Op W : Type) where
  world : W
  log : List (Happening Pid Op W) := []

def Recorded.next (r : Recorded Pid Op W) (act : Option (Pid × Op)) (done : Bool) (world : W) :
    Recorded Pid Op W :=
  ⟨world, ⟨act, done, r.world⟩ :: r.log⟩

/-- The same machine with a log. -/
def Machine.recorded (M : Machine Pid Op Res ε W Env Ext) :
    Machine Pid Op Res ε (Recorded Pid Op W) Env Ext where
  exec p o e r := (M.exec p o e r.world).map fun a => (a.1, r.next (some (p, o)) a.1.isOk a.2)
  crash p r := r.next none true (M.crash p r.world)
  ext x r := r.next none true (M.ext x r.world)

section Since

variable {P : α → Bool} {later earlier log : List α} {a : α}

/-- The entries that are newer than the newest one that satisfies `P`. -/
def since (P : α → Bool) (log : List α) : List α := log.takeWhile fun a => !P a

/-- Newer entries that do not satisfy `P` are all among them. -/
theorem since_append (h : ∀ a ∈ later, P a = false) :
    since P (later ++ earlier) = later ++ since P earlier :=
  List.takeWhile_append_of_pos fun a ha => by rw [h a ha]; rfl

theorem since_cons_of_false (h : P a = false) : since P (a :: log) = a :: since P log := by
  simp [since, h]

theorem since_cons_of_true (h : P a = true) : since P (a :: log) = [] := by
  simp [since, h]

theorem since_eq (hlater : ∀ a ∈ later, P a = false) (h : P a = true) :
    since P (later ++ a :: earlier) = later := by
  rw [since_append hlater, since_cons_of_true h, List.append_nil]

theorem since_prefix (P : α → Bool) (log : List α) : ∃ earlier, log = since P log ++ earlier :=
  ⟨log.dropWhile fun a => !P a, (List.takeWhile_append_dropWhile ..).symm⟩

/-- An entry that satisfies `P` ends them. -/
theorem since_split (h : ∃ a ∈ log, P a = true) :
    ∃ a earlier, log = since P log ++ a :: earlier ∧ P a = true := by
  induction log with
  | nil =>
    obtain ⟨a, ha, _⟩ := h
    cases ha
  | cons b log ih =>
    cases hb : P b with
    | true => exact ⟨b, log, by rw [since_cons_of_true hb]; rfl, hb⟩
    | false =>
      have hold : ∃ a ∈ log, P a = true := by
        obtain ⟨a, ha, hPa⟩ := h
        rcases List.mem_cons.mp ha with rfl | ha
        · rw [hb] at hPa
          cases hPa
        · exact ⟨a, ha, hPa⟩
      obtain ⟨a, earlier, hlog, hPa⟩ := ih hold
      refine ⟨a, earlier, ?_, hPa⟩
      rw [since_cons_of_false hb, List.cons_append, ← hlog]

theorem find?_append_of_false (h : ∀ a ∈ later, P a = false) :
    (later ++ earlier).find? P = earlier.find? P := by
  rw [List.find?_append, List.find?_eq_none.mpr fun a ha => by simp [h a ha], Option.none_or]

/-- Of two entries in their order, the newer one is new or both are old. -/
theorem mem_or_sublist {b : α} (h : [a, b].Sublist (later ++ earlier)) :
    a ∈ later ∨ [a, b].Sublist earlier := by
  obtain ⟨l₁, l₂, hsplit, h₁, h₂⟩ := List.sublist_append_iff.mp h
  cases l₁ with
  | nil =>
    rw [List.nil_append] at hsplit
    exact .inr (hsplit ▸ h₂)
  | cons c l₁ =>
    obtain ⟨rfl, _⟩ := List.cons.inj hsplit
    exact .inl (h₁.subset List.mem_cons_self)

end Since

section Logs

/-- The others add entries, none of them an operation of `p`. -/
def Later (p : Pid) (r r' : Recorded Pid Op W) : Prop :=
  ∃ new, r'.log = new ++ r.log ∧ ∀ h ∈ new, ∀ o, h.act ≠ some (p, o)

def recordedSpec (I : Recorded Pid Op W → Prop) : Spec Pid (Recorded Pid Op W) := ⟨I, Later⟩

variable {M : Machine Pid Op Res ε W Env Ext} {I : Recorded Pid Op W → Prop} {p : Pid}
  {ok : Pid → Op → Env → Recorded Pid Op W → Prop} {r r' : Recorded Pid Op W}

theorem Later.refl : Later p r r := ⟨[], rfl, fun _ h => by cases h⟩

theorem Later.trans {r'' : Recorded Pid Op W} (h : Later p r r') (h' : Later p r' r'') :
    Later p r r'' := by
  obtain ⟨new, hnew, hother⟩ := h
  obtain ⟨new', hnew', hother'⟩ := h'
  refine ⟨new' ++ new, by rw [hnew', hnew, List.append_assoc], fun x hx => ?_⟩
  rcases List.mem_append.mp hx with hx | hx
  · exact hother' x hx
  · exact hother x hx

theorem later_next {act : Option (Pid × Op)} {done : Bool} {world : W}
    (h : ∀ o, act ≠ some (p, o)) : Later p r (r.next act done world) :=
  ⟨[⟨act, done, r.world⟩], rfl, fun _ hx => List.mem_singleton.mp hx ▸ h⟩

/-- What the log of a recorded machine is part of stays so, if deaths and the environment keep
it. -/
theorem recordedSpec_fits
    (hcrash : ∀ p r, I r → I (r.next none true (M.crash p r.world)))
    (hext : ∀ x r, I r → I (r.next none true (M.ext x r.world))) :
    (recordedSpec I).Fits M.recorded where
  refl _ _ := .refl
  trans _ _ _ _ := .trans
  crash p r h := ⟨hcrash p r h, fun _ _ => later_next fun _ => nofun⟩
  ext x r h := ⟨hext x r h, fun _ => later_next fun _ => nofun⟩

/-- One operation: its entry is the newest one when it is answered. -/
theorem wp_recorded {o : Op} {Q : Except ε (Res o) → Recorded Pid Op W → Prop}
    (h : ∀ r₁, Later p r r₁ → I r₁ → ∀ e a w, ok p o e r₁ → M.exec p o e r₁.world = some (a, w) →
      I (r₁.next (some (p, o)) a.isOk w) ∧ Q a (r₁.next (some (p, o)) a.isOk w)) :
    wp M.recorded ok (recordedSpec I) p (.perform o) Q r := by
  apply wp_perform
  intro r₁ hr hi e a r₂ hok hx
  obtain ⟨⟨b, w⟩, hexec, hpair⟩ := Option.map_eq_some_iff.mp hx
  obtain ⟨rfl, rfl⟩ := Prod.mk.inj hpair
  obtain ⟨hI, hQ⟩ := h r₁ hr hi e b w hok hexec
  refine ⟨hI, fun q hq => later_next fun o' heq => ?_, hQ⟩
  exact hq (congrArg (fun x => x.1) (Option.some.inj heq)).symm

/-- A program all of whose operations keep the invariant and what its process knows. -/
theorem wp_calls_recorded {P : Op → Prop} {A : Recorded Pid Op W → Prop} {Q : α → Prop}
    {prog : Prog Op Res ε α} (hstable : ∀ r r', Later p r r' → A r → A r')
    (hkeeps : ∀ o e r a w, P o → ok p o e r → M.exec p o e r.world = some (a, w) → I r → A r →
      I (r.next (some (p, o)) a.isOk w) ∧ A (r.next (some (p, o)) a.isOk w))
    (hcalls : prog.Calls P (fun _ _ => True) Q) (hA : A r) :
    wp M.recorded ok (recordedSpec I) p prog (fun a r => A r ∧ OnOk (fun a _ => Q a) a r) r := by
  induction prog generalizing r with
  | pure a => exact ⟨hA, hcalls⟩
  | throw e => exact ⟨hA, trivial⟩
  | op o k ih =>
    obtain ⟨ho, herror, hreply⟩ := hcalls
    intro r₁ hr hi e a r₂ hok hx
    obtain ⟨⟨b, w⟩, hexec, hpair⟩ := Option.map_eq_some_iff.mp hx
    obtain ⟨rfl, rfl⟩ := Prod.mk.inj hpair
    obtain ⟨hI, hA'⟩ := hkeeps o e r₁ b w ho hok hexec hi (hstable r r₁ hr hA)
    refine ⟨hI, fun q hq => later_next fun o' heq => ?_, ?_⟩
    · exact hq (congrArg (fun x => x.1) (Option.some.inj heq)).symm
    · cases b with
      | ok b => exact ih _ (hreply b trivial) hA'
      | error err => exact ih _ (herror err) hA'

end Logs

end Interleaving
