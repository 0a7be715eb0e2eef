import Mathlib.Data.List.Basic

/-! Traces that grow at their end. A trace is lawful when each of its events was allowed by the
events before it, so that one new event asks for one new check. -/
namespace Interleaving

variable {Event : Type} {Allowed : List Event → Event → Prop} {trace before after : List Event}
  {ev : Event}

def Lawful (Allowed : List Event → Event → Prop) (trace : List Event) : Prop :=
  ∀ before ev after, trace = before ++ ev :: after → Allowed before ev

theorem lawful_nil : Lawful Allowed [] := by
  intro before ev after h
  simp at h

/-- A new event is the last one, or the split lies in the older part. -/
theorem append_singleton_split {ev' : Event} (h : trace ++ [ev'] = before ++ ev :: after) :
    (before = trace ∧ ev = ev' ∧ after = []) ∨
      ∃ rest, after = rest ++ [ev'] ∧ trace = before ++ ev :: rest := by
  rcases List.eq_nil_or_concat after with rfl | ⟨rest, last, rfl⟩
  · have hparts := List.append_inj' h rfl
    exact .inl ⟨hparts.1.symm, (List.cons.inj hparts.2).1.symm, rfl⟩
  · have hassoc : before ++ ev :: (rest ++ [last]) = (before ++ ev :: rest) ++ [last] := by simp
    rw [List.concat_eq_append, hassoc] at h
    have hparts := List.append_inj' h rfl
    refine .inr ⟨rest, ?_, hparts.1⟩
    rw [List.concat_eq_append, (List.cons.inj hparts.2).1]

theorem lawful_append : Lawful Allowed (trace ++ [ev]) ↔ Lawful Allowed trace ∧ Allowed trace ev := by
  constructor
  · intro h
    refine ⟨fun before ev' after hsplit => ?_, h trace ev [] rfl⟩
    exact h before ev' (after ++ [ev]) (by rw [hsplit]; simp)
  · rintro ⟨hold, hnew⟩ before ev' after hsplit
    rcases append_singleton_split hsplit with ⟨rfl, rfl, _⟩ | ⟨rest, _, holder⟩
    · exact hnew
    · exact hold before ev' rest holder

theorem Lawful.earlier (h : Lawful Allowed (before ++ after)) : Lawful Allowed before := by
  intro early ev' rest hsplit
  apply h early ev' (rest ++ after)
  rw [hsplit, List.append_assoc, List.cons_append]

/-- What was allowed when it happened. -/
theorem Lawful.split (h : Lawful Allowed (before ++ ev :: after)) : Allowed before ev :=
  h before ev after rfl

/-- Of two different events one comes first. -/
theorem mem_before_or {ev' : Event} (h : ev ∈ trace) (h' : ev' ∈ trace) (hne : ev ≠ ev') :
    (∃ before after, trace = before ++ ev' :: after ∧ ev ∈ before) ∨
      ∃ before after, trace = before ++ ev :: after ∧ ev' ∈ before := by
  obtain ⟨before, after, rfl⟩ := List.append_of_mem h'
  rcases List.mem_append.mp h with hbefore | hafter
  · exact .inl ⟨before, after, rfl, hbefore⟩
  · have hlater : ev ∈ after := (List.mem_cons.mp hafter).resolve_left hne
    obtain ⟨mid, rest, rfl⟩ := List.append_of_mem hlater
    exact .inr ⟨before ++ ev' :: mid, rest, by simp, by simp⟩

end Interleaving
