import OrderService.Interleaving.ReadCommitted

/-! Committed tables that only move on by a preorder, though a single write need not be monotone:
what was true of them and is preserved by the preorder is still true after any commits. -/
namespace ReadCommitted

/-- The commits lead from `db₀` to `db`, and since each of them the tables moved on by `le`. -/
structure Onward {Pid Db Write Key : Type} (E : Engine Db Write Key) (le : Db → Db → Prop)
    (db₀ db : Db) (history : List (Pid × List Write)) : Prop where
  reached : db = E.applyAll (history.flatMap Prod.snd) db₀
  onward : ∀ hs bs, history = hs ++ bs → le (E.applyAll (hs.flatMap Prod.snd) db₀) db

/-- `K` held after one of the commits, or before the first. -/
def Past {Pid Db Write Key : Type} (E : Engine Db Write Key) (db₀ : Db) (K : Db → Prop)
    (history : List (Pid × List Write)) : Prop :=
  ∃ hs bs, history = hs ++ bs ∧ K (E.applyAll (hs.flatMap Prod.snd) db₀)

namespace Onward
variable {Pid Db Write Key : Type} {E : Engine Db Write Key} {le : Db → Db → Prop}
  {db₀ db : Db} {history : List (Pid × List Write)}

theorem start (hrefl : le db₀ db₀) : Onward E le db₀ db₀ ([] : List (Pid × List Write)) := by
  refine ⟨rfl, fun hs bs h => ?_⟩
  have hnone : hs = [] := (List.nil_eq_append_iff.mp h).1
  rw [hnone]
  exact hrefl

/-- A commit after which the tables have moved on. -/
theorem commit (hrefl : ∀ d, le d d) (htrans : ∀ {a b c}, le a b → le b c → le a c)
    (h : Onward E le db₀ db history) {log : List Write} (hlog : le db (E.applyAll log db))
    (p : Pid) : Onward E le db₀ (E.applyAll log db) (history ++ [(p, log)]) := by
  have hreached : E.applyAll log db
      = E.applyAll ((history ++ [(p, log)]).flatMap Prod.snd) db₀ := by
    rw [List.flatMap_append, applyAll_append, ← h.reached]
    simp
  refine ⟨hreached, fun hs bs hsplit => ?_⟩
  -- The moment is the one after the commit, or it lies before it.
  rcases List.append_eq_append_iff.mp hsplit with ⟨cs, hhs, hcs⟩ | ⟨cs, hhistory, _⟩
  · cases cs with
    | nil =>
      have hhs : hs = history := by simpa using hhs
      rw [hhs, ← h.reached]
      exact hlog
    | cons c cs =>
      have hall : hs = history ++ [(p, log)] := by
        obtain ⟨hc, hnil⟩ : c = (p, log) ∧ cs ++ bs = [] := by simpa using hcs.symm
        rw [hhs, hc, (List.append_eq_nil_iff.mp hnil).1]
      rw [hall, ← hreached]
      exact hrefl _
  · exact htrans (h.onward hs cs hhistory) hlog

/-- What held once still holds, if the preorder preserves it. -/
theorem of_past (h : Onward E le db₀ db history) {K : Db → Prop}
    (hK : ∀ {d d'}, le d d' → K d → K d') (hpast : Past E db₀ K history) : K db := by
  obtain ⟨hs, bs, hsplit, hheld⟩ := hpast
  exact hK (h.onward hs bs hsplit) hheld

/-- What holds now will have held. -/
theorem past (h : Onward E le db₀ db history) {K : Db → Prop} (hK : K db) :
    Past E db₀ K history := by
  refine ⟨history, [], by simp, ?_⟩
  rw [← h.reached]
  exact hK

end Onward

theorem Past.later {Pid Db Write Key : Type} {E : Engine Db Write Key} {db₀ : Db} {K : Db → Prop}
    {history bs : List (Pid × List Write)} (h : Past E db₀ K history) :
    Past E db₀ K (history ++ bs) := by
  obtain ⟨hs, cs, hsplit, hheld⟩ := h
  exact ⟨hs, cs ++ bs, by rw [hsplit, List.append_assoc], hheld⟩

end ReadCommitted
