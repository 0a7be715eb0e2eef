import Mathlib.Data.List.Basic

/-! Lists from which some entries were taken away, and the lookups that do not notice it. -/
namespace Interleaving

/-- The second list is the first one without some of the entries that satisfy `D`. -/
inductive Trimmed {α : Type} (D : α → Prop) : List α → List α → Prop
  | nil : Trimmed D [] []
  | keep (a : α) {l l' : List α} : Trimmed D l l' → Trimmed D (a :: l) (a :: l')
  | drop {a : α} {l l' : List α} : D a → Trimmed D l l' → Trimmed D (a :: l) l'

namespace Trimmed
variable {α : Type} {D : α → Prop} {l l' r r' : List α} {p : α → Bool}

theorem refl (D : α → Prop) (l : List α) : Trimmed D l l := by
  induction l with
  | nil => exact .nil
  | cons a l ih => exact .keep a ih

theorem subset (h : Trimmed D l l') : l' ⊆ l := by
  induction h with
  | nil => exact List.Subset.refl _
  | keep a _ ih => exact List.cons_subset_cons a ih
  | drop _ _ ih => exact List.subset_cons_of_subset _ ih

theorem append (h : Trimmed D l l') (h' : Trimmed D r r') : Trimmed D (l ++ r) (l' ++ r') := by
  induction h with
  | nil => exact h'
  | keep a _ ih => exact .keep a ih
  | drop ha _ ih => exact .drop ha ih

/-- A change that leaves alone what may be missing. -/
theorem map {f : α → α} (h : Trimmed D l l') (hf : ∀ a, D a → f a = a) :
    Trimmed D (l.map f) (l'.map f) := by
  induction h with
  | nil => exact .nil
  | keep a _ ih => exact .keep (f a) ih
  | drop ha _ ih => exact .drop ((hf _ ha).symm ▸ ha) ih

theorem filter (h : Trimmed D l l') (p : α → Bool) :
    Trimmed D (l.filter p) (l'.filter p) := by
  induction h with
  | nil => exact .nil
  | keep a _ ih =>
    rw [List.filter_cons, List.filter_cons]
    split_ifs
    · exact .keep a ih
    · exact ih
  | drop ha _ ih =>
    rw [List.filter_cons]
    split_ifs
    · exact .drop ha ih
    · exact ih

theorem mono {D' : α → Prop} (h : Trimmed D l l') (hD : ∀ a, D a → D' a) : Trimmed D' l l' := by
  induction h with
  | nil => exact .nil
  | keep a _ ih => exact .keep a ih
  | drop ha _ ih => exact .drop (hD _ ha) ih

/-- More may be taken away. -/
theorem shrink {keep : α → Bool} (h : Trimmed D l l') (hkeep : ∀ a ∈ l', keep a = false → D a) :
    Trimmed D l (l'.filter keep) := by
  induction h with
  | nil => exact .nil
  | @keep a l l' _ ih =>
    have hrest := ih fun b hb => hkeep b (List.mem_cons_of_mem a hb)
    rw [List.filter_cons]
    split_ifs with ha
    · exact .keep a hrest
    · exact .drop (hkeep a List.mem_cons_self (Bool.eq_false_iff.mpr ha)) hrest
  | drop ha _ ih => exact .drop ha (ih hkeep)

/-- Nothing that is looked for may be missing. -/
theorem filter_eq (h : Trimmed D l l') (hp : ∀ a ∈ l.filter p, ¬D a) :
    l'.filter p = l.filter p := by
  induction h with
  | nil => rfl
  | keep a _ ih =>
    rw [List.filter_cons] at hp
    rw [List.filter_cons, List.filter_cons]
    split_ifs at hp ⊢
    · rw [ih fun b hb => hp b (List.mem_cons_of_mem a hb)]
    · exact ih hp
  | drop ha _ ih =>
    rw [List.filter_cons] at hp
    rw [List.filter_cons]
    split_ifs at hp ⊢
    · exact absurd ha (hp _ List.mem_cons_self)
    · exact ih hp

theorem find?_eq (h : Trimmed D l l') (hp : ∀ a ∈ l.filter p, ¬D a) : l'.find? p = l.find? p := by
  rw [← List.head?_filter, ← List.head?_filter, h.filter_eq hp]

theorem any_eq (h : Trimmed D l l') (hp : ∀ a ∈ l.filter p, ¬D a) : l'.any p = l.any p := by
  rw [← List.isSome_find?, ← List.isSome_find?, h.find?_eq hp]

end Trimmed

end Interleaving
