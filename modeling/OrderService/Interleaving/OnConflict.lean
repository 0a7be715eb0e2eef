/-! Rows that are inserted one after the other and ignored where they clash with a stored one. -/
namespace Interleaving
variable {Row : Type} {clash : Row → Row → Bool} {stored rows : List Row} {row : Row}

/-- `INSERT … ON CONFLICT DO NOTHING`. -/
def insertIgnoring (clash : Row → Row → Bool) : List Row → List Row → List Row
  | stored, [] => stored
  | stored, row :: rows =>
    insertIgnoring clash (if stored.any (clash row) then stored else stored ++ [row]) rows

/-- What is stored stays as it is. -/
theorem mem_insertIgnoring (h : row ∈ stored) : row ∈ insertIgnoring clash stored rows := by
  induction rows generalizing stored with
  | nil => exact h
  | cons next rows ih =>
    apply ih
    split
    · exact h
    · exact List.mem_append_left _ h

/-- Nothing else is stored than what was there and what came. -/
theorem mem_of_insertIgnoring (h : row ∈ insertIgnoring clash stored rows) :
    row ∈ stored ∨ row ∈ rows := by
  induction rows generalizing stored with
  | nil => exact .inl h
  | cons next rows ih =>
    rcases ih h with hmem | hmem
    · split at hmem
      · exact .inl hmem
      · rcases List.mem_append.mp hmem with hmem | hmem
        · exact .inl hmem
        · rw [List.mem_singleton.mp hmem]
          exact .inr List.mem_cons_self
    · exact .inr (List.mem_cons_of_mem next hmem)

variable [DecidableEq Row]

/-- Each row, when its turn comes, clashes with nothing but itself. -/
def fitsIn (clash : Row → Row → Bool) : List Row → List Row → Bool
  | _, [] => true
  | stored, row :: rows =>
    (stored.all fun old => !clash row old || old = row) &&
      fitsIn clash (if stored.any (clash row) then stored else stored ++ [row]) rows

/-- No row that fits is lost. -/
theorem mem_insertIgnoring_of_fits (hfits : fitsIn clash stored rows = true) (h : row ∈ rows) :
    row ∈ insertIgnoring clash stored rows := by
  induction rows generalizing stored with
  | nil => cases h
  | cons next rows ih =>
    obtain ⟨hself, hrest⟩ := Bool.and_eq_true_iff.mp hfits
    unfold insertIgnoring
    rcases List.mem_cons.mp h with rfl | hmem
    · apply mem_insertIgnoring
      split
      · next hclash =>
        obtain ⟨old, hold, hmeets⟩ := List.any_eq_true.mp hclash
        have hsame : old = row := by
          have hor := List.all_eq_true.mp hself old hold
          simpa [hmeets] using hor
        exact hsame ▸ hold
      · exact List.mem_append_right _ (List.mem_singleton.mpr rfl)
    · exact ih hrest hmem

end Interleaving
