import OrderService.Interleaving.ReadCommitted

/-! Tables that only grow. A write fits tables when it may be applied to them; what fits goes on
to fit while the tables grow, and keeps them sound. So a log that was built on what its
transaction read still fits when it is committed, whatever was committed in between. -/
namespace ReadCommitted

structure Growth {Db Write Key : Type} (E : Engine Db Write Key) where
  le : Db → Db → Prop
  fits : Write → Db → Prop
  sound : Db → Prop
  le_refl : ∀ db, le db db
  le_trans : ∀ {db db' db''}, le db db' → le db' db'' → le db db''
  apply_mono : ∀ {db db'} x, le db db' → le (E.apply x db) (E.apply x db')
  fits_mono : ∀ {db db' x}, le db db' → fits x db → fits x db'
  grows : ∀ {db x}, fits x db → le db (E.apply x db)
  sound_apply : ∀ {db x}, sound db → fits x db → sound (E.apply x db)

namespace Growth
variable {Pid Db Write Key : Type} {E : Engine Db Write Key} (G : Growth E)

/-- Each write fits the tables that the earlier ones leave. -/
def Fitting : List Write → Db → Prop
  | [], _ => True
  | x :: xs, db => G.fits x db ∧ Fitting xs (E.apply x db)

/-- The commits lead from `db₀` to `db` by writes that fit. -/
structure Run (db₀ db : Db) (history : List (Pid × List Write)) : Prop where
  fitting : G.Fitting (history.flatMap Prod.snd) db₀
  reached : db = E.applyAll (history.flatMap Prod.snd) db₀

/-- A fact that goes on to hold while the tables grow. -/
def Lasting (K : Db → Prop) : Prop := ∀ db db', G.le db db' → K db → K db'

variable {G} {db db' db₀ : Db} {xs ys : List Write}

theorem fitting_append : G.Fitting (xs ++ ys) db ↔ G.Fitting xs db ∧
    G.Fitting ys (E.applyAll xs db) := by
  induction xs generalizing db with
  | nil => simp [Fitting]
  | cons x xs ih => simp only [List.cons_append, Fitting, ih, applyAll_cons, and_assoc]

theorem Fitting.mono (h : G.Fitting xs db) (hle : G.le db db') : G.Fitting xs db' := by
  induction xs generalizing db db' with
  | nil => trivial
  | cons x xs ih => exact ⟨G.fits_mono hle h.1, ih h.2 (G.apply_mono x hle)⟩

theorem applyAll_mono (hle : G.le db db') : G.le (E.applyAll xs db) (E.applyAll xs db') := by
  induction xs generalizing db db' with
  | nil => exact hle
  | cons x xs ih => exact ih (G.apply_mono x hle)

theorem Fitting.le (h : G.Fitting xs db) : G.le db (E.applyAll xs db) := by
  induction xs generalizing db with
  | nil => exact G.le_refl db
  | cons x xs ih => exact G.le_trans (G.grows h.1) (ih h.2)

theorem Fitting.sound (h : G.Fitting xs db) (hs : G.sound db) : G.sound (E.applyAll xs db) := by
  induction xs generalizing db with
  | nil => exact hs
  | cons x xs ih => exact ih h.2 (G.sound_apply hs h.1)

/-- Writes that fit wherever a lasting fact holds fit one after the other. -/
theorem fitting_of_lasting {K : Db → Prop} (hK : G.Lasting K)
    (hfits : ∀ x ∈ xs, ∀ db, K db → G.fits x db) (h : K db) : G.Fitting xs db := by
  induction xs generalizing db with
  | nil => trivial
  | cons x xs ih =>
    have hx := hfits x List.mem_cons_self db h
    exact ⟨hx, ih (fun y hy => hfits y (List.mem_cons_of_mem x hy)) (hK _ _ (G.grows hx) h)⟩

variable {history bs : List (Pid × List Write)}

theorem Run.start : G.Run db₀ db₀ ([] : List (Pid × List Write)) := ⟨trivial, rfl⟩

theorem Run.sound (h : G.Run db₀ db history) (hs : G.sound db₀) : G.sound db := by
  rw [h.reached]
  exact h.fitting.sound hs

/-- A commit of a log that fits. -/
theorem Run.commit (h : G.Run db₀ db history) (hxs : G.Fitting xs db) (p : Pid) :
    G.Run db₀ (E.applyAll xs db) (history ++ [(p, xs)]) := by
  have hall : (history ++ [(p, xs)]).flatMap Prod.snd = history.flatMap Prod.snd ++ xs := by
    simp
  refine ⟨?_, by rw [hall, applyAll_append, ← h.reached]⟩
  rw [hall, fitting_append, ← h.reached]
  exact ⟨h.fitting, hxs⟩

/-- Between two moments of a run the tables have grown. -/
theorem Run.later (h : G.Run db₀ db history) (h' : G.Run db₀ db' (history ++ bs)) :
    G.le db db' := by
  have hall : (history ++ bs).flatMap Prod.snd
      = history.flatMap Prod.snd ++ bs.flatMap Prod.snd := List.flatMap_append
  have hfit := h'.fitting
  rw [hall, fitting_append, ← h.reached] at hfit
  rw [h'.reached, hall, applyAll_append, ← h.reached]
  exact hfit.2.le

end Growth

end ReadCommitted
