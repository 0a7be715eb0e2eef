import OrderService.ArchivalYears
import OrderService.Interleaving.Ending
import OrderService.Interleaving.Paced

/-! A run of the worker comes to its end whatever its clock shows: every round but the last of a
table takes rows of former years away, and nobody adds any. -/
namespace OrderService
open ReadCommitted Interleaving

section Runtime

/-- The answers of a run whose `opts.now` need not follow the clock of the database. -/
structure SweepEnv extends ArchivalEnv where
  now : Time := 0
  deriving Inhabited

def sweepExec (p : Nat) :
    (o : ArchivalOp) → SweepEnv → Clusters → Option (Except Err o.Res × Clusters)
  | .clock, e, w => some (.ok e.now, { w with clock := w.clock + e.elapsed })
  | .selectBatch table limit, e, w => archivalExec p (.selectBatch table limit) e.toArchivalEnv w
  | .insertIgnoring rows, e, w => archivalExec p (.insertIgnoring rows) e.toArchivalEnv w
  | .deleteIds table ids, e, w => archivalExec p (.deleteIds table ids) e.toArchivalEnv w

def sweepMachine : Machine Nat ArchivalOp ArchivalOp.Res Err Clusters SweepEnv (List Write) where
  exec := sweepExec
  crash _ w := w
  ext log w := { w with hot := engine.applyAll log w.hot }

end Runtime

section Statement

/-- A statement succeeds, in this year of the database; until then the other operations have added
no row of a former one, and have left the ids unique. -/
def WithinYear (year : Time) (_ : Nat) (_ : ArchivalOp) (e : List (List Write) × SweepEnv)
    (w : Clusters) : Prop :=
  e.2.fail = false ∧ dateTruncYear (w.clock + e.2.elapsed) = year ∧ Current year e.1.flatten ∧
    (sweepMachine.moves e.1 w).hot.UniqueIds

instance (year : Time) (p : Nat) (o : ArchivalOp) (e : List (List Write) × SweepEnv) (w : Clusters) :
    Decidable (WithinYear year p o e w) :=
  inferInstanceAs (Decidable (_ ∧ _))

/-- How many rows of a table were in the hot cluster and are there no longer. -/
def Clusters.removed (w w' : Clusters) (table : ArchivalTable) : Nat :=
  ((w.hot.keys table).filter fun k => k ∉ w'.hot.keys table).length

/-- How many operations a run needs at most: four for each row of a former year, two to leave each
table, and two readings of the clock. -/
def Clusters.rounds (w : Clusters) (year : Time) : Nat :=
  (archivalTables.map fun table => 4 * (w.hot.prior year table).length + 2).sum + 2

/-- What a run from `w` that ended in `w'` says of itself, and what it left alone. -/
structure Accounted (year : Time) (w w' : Clusters) (result : ArchiveRunResult) : Prop where
  moved : ∀ table n, (table, n) ∈ result.moved → n = w.removed w' table
  unlisted : ∀ table, table ∉ result.moved.map Prod.fst → w.removed w' table = 0
  total : result.totalMoved = (archivalTables.map (w.removed w')).sum
  kept : ∀ table, ∀ k ∈ w.hot.keys table, year ≤ k.2 → k ∈ w'.hot.keys table
  deleted : ∀ row ∈ w'.deleted, row ∈ w.deleted ∨ row.tsColumn < year
  archived : ∀ row ∈ w'.archive, row ∈ w.archive ∨ row.tsColumn < year
  complete : result.timedOut = false →
    ∀ table ∈ archivalTables, ∀ row ∈ w'.hot.rows table, year ≤ row.tsColumn

end Statement

section Takes

variable {year : Time} {w w₁ w₂ : Clusters} {c c₁ c₂ : ArchivalTable → Nat}

/-- From `w` to `w'` the worker took `c table` rows of former years from each table, and touched no
other row. -/
structure Takes (year : Time) (c : ArchivalTable → Nat) (w w' : Clusters) : Prop where
  prior : ∀ table, (w'.hot.prior year table).Sublist (w.hot.prior year table)
  count : ∀ table, (w'.hot.prior year table).length + c table = (w.hot.prior year table).length
  kept : ∀ table, ∀ k ∈ w.hot.keys table, year ≤ k.2 → k ∈ w'.hot.keys table
  deleted : ∀ row ∈ w'.deleted, row ∈ w.deleted ∨ row.tsColumn < year
  archived : ∀ row ∈ w'.archive, row ∈ w.archive ∨ row.tsColumn < year

def only (table : ArchivalTable) (n : Nat) (other : ArchivalTable) : Nat :=
  if other = table then n else 0

theorem only_self (table : ArchivalTable) (n : Nat) : only table n table = n := if_pos rfl

theorem only_of_ne {table other : ArchivalTable} (h : other ≠ table) (n : Nat) :
    only table n other = 0 := if_neg h

theorem Takes.trans (h₁ : Takes year c₁ w w₁) (h₂ : Takes year c₂ w₁ w₂) :
    Takes year (fun table => c₁ table + c₂ table) w w₂ where
  prior table := (h₂.prior table).trans (h₁.prior table)
  count table := by
    have hfirst := h₁.count table
    have hsecond := h₂.count table
    omega
  kept table k hk hyear := h₂.kept table k (h₁.kept table k hk hyear) hyear
  deleted row hrow := by
    rcases h₂.deleted row hrow with hold | hprior
    · exact h₁.deleted row hold
    · exact .inr hprior
  archived row hrow := by
    rcases h₂.archived row hrow with hold | hprior
    · exact h₁.archived row hold
    · exact .inr hprior

/-- Where nothing is taken from a table, its rows of former years stay. -/
theorem Takes.same (h : Takes year c w w₁) {table : ArchivalTable} (hnone : c table = 0) :
    w₁.hot.prior year table = w.hot.prior year table := by
  have hcount := h.count table
  rw [hnone, Nat.add_zero] at hcount
  exact (h.prior table).eq_of_length hcount

theorem Takes.congr (h : Takes year c w w₁) (hhot : w₂.hot = w₁.hot)
    (hdeleted : w₂.deleted = w₁.deleted) (harchive : w₂.archive = w₁.archive) :
    Takes year c w w₂ where
  prior table := by
    rw [hhot]
    exact h.prior table
  count table := by
    rw [hhot]
    exact h.count table
  kept table k hk hyear := by
    rw [hhot]
    exact h.kept table k hk hyear
  deleted row hrow := h.deleted row (hdeleted ▸ hrow)
  archived row hrow := h.archived row (harchive ▸ hrow)

/-- The count of what was taken is the count of what is gone. -/
theorem Takes.removed (h : Takes year c w w₁) (hunique : w.hot.UniqueIds) (table : ArchivalTable) :
    w.removed w₁ table = c table := by
  have hnodup : (w.hot.prior year table).Nodup := ((hunique.keys table).of_map _).filter _
  -- Only keys of former years can be gone.
  have hgone : (w.hot.keys table).filter (fun k => k ∉ w₁.hot.keys table)
      = (w.hot.prior year table).filter fun k => k ∉ w₁.hot.prior year table := by
    unfold Db.prior
    rw [List.filter_filter]
    apply List.filter_congr
    intro k hk
    by_cases hyear : year ≤ k.2
    · have hthere := h.kept table k hk hyear
      simp [hthere, Nat.not_lt.mpr hyear]
    · have hprior : k.2 < year := Nat.not_le.mp hyear
      simp [List.mem_filter, hprior]
  have hthere : ((w.hot.prior year table).filter fun k => k ∈ w₁.hot.prior year table).length
      = (w₁.hot.prior year table).length := by
    apply List.Perm.length_eq
    rw [List.perm_ext_iff_of_nodup (hnodup.filter _) (hnodup.sublist (h.prior table))]
    intro k
    simp only [List.mem_filter, decide_eq_true_eq]
    exact ⟨fun hk => hk.2, fun hk => ⟨(h.prior table).subset hk, hk⟩⟩
  have hsplit := List.length_eq_length_filter_add (l := w.hot.prior year table)
    fun k => decide (k ∈ w₁.hot.prior year table)
  have hcount := h.count table
  unfold Clusters.removed
  rw [hgone]
  simp only [decide_not]
  omega

theorem takes_deleteIds {table : ArchivalTable} {rows : List ArchivalRow}
    (hbatch : Batch year table rows w.hot) (hunique : w.hot.UniqueIds) (clock : Time) :
    Takes year (only table rows.length) w { w with
      clock := clock
      hot := w.hot.deleteIds (rows.map ArchivalRow.id) table
      deleted := w.deleted ++
        (w.hot.rows table).filter fun r => r.id ∈ rows.map ArchivalRow.id } where
  prior other := by
    unfold Db.prior
    rw [keys_deleteIds]
    split_ifs
    · exact List.filter_sublist.filter _
    · exact List.Sublist.refl _
  count other := by
    unfold only
    split_ifs with heq
    · rw [heq]
      exact hbatch.count hunique
    · unfold Db.prior
      rw [keys_deleteIds, if_neg heq, Nat.add_zero]
  kept other k hk hyear := by
    rw [keys_deleteIds]
    split_ifs with heq
    · rw [heq] at hk
      refine List.mem_filter.mpr ⟨heq ▸ hk, decide_eq_true ?_⟩
      exact hbatch.spares hunique hk hyear
    · exact hk
  deleted row hrow := by
    rcases List.mem_append.mp hrow with hold | hgone
    · exact .inl hold
    · right
      obtain ⟨hmem, hid⟩ := List.mem_filter.mp hgone
      by_contra hlate
      have hkey : row.key ∈ w.hot.keys table := List.mem_map_of_mem hmem
      exact hbatch.spares hunique hkey (Nat.not_lt.mp hlate) (of_decide_eq_true hid)
  archived row hrow := .inl hrow

end Takes

section Steps

variable {year : Time} {w : Clusters} {p n : Nat} {table : ArchivalTable}
  {rows : List ArchivalRow}

theorem sweep_moves (logs : List (List Write)) (w : Clusters) :
    sweepMachine.moves logs w = { w with hot := engine.applyAll logs.flatten w.hot } := by
  induction logs generalizing w with
  | nil => rfl
  | cons log logs ih =>
    rw [List.flatten_cons, applyAll_append]
    exact ih (sweepMachine.ext log w)

/-- The other operations take nothing from the rows of former years. -/
theorem takes_moves {logs : List (List Write)} (h : Current year logs.flatten) (w : Clusters) :
    Takes year (fun _ => 0) w (sweepMachine.moves logs w) := by
  rw [sweep_moves]
  constructor
  · intro table
    rw [(keys_applyAll h).1]
  · intro table
    rw [(keys_applyAll h).1, Nat.add_zero]
  · intro table k hk _
    exact (keys_applyAll h).2 hk
  · exact fun row hrow => .inl hrow
  · exact fun row hrow => .inl hrow

theorem Batch.takes {w' : Clusters} (h : Batch year table rows w.hot)
    (htakes : Takes year (fun _ => 0) w w') : Batch year table rows w'.hot where
  ids := h.ids
  prior row hrow := by
    rw [htakes.same rfl]
    exact h.prior row hrow

theorem ends_clock {Q : Nat → Except Err Time → Clusters → Prop} (hn : 0 < n)
    (h : ∀ now w', Takes year (fun _ => 0) w w' → Q (n - 1) (.ok now) w') :
    Ends sweepMachine.paced (WithinYear year) p (awaitArchival .clock) Q n w := by
  refine ends_perform hn fun e r w' hgiven hx => ?_
  obtain ⟨_, _, hcurrent, _⟩ := hgiven
  cases hx
  exact h _ _ ((takes_moves hcurrent w).congr rfl rfl rfl)

theorem ends_selectBatch {limit : Nat} {Q : Nat → Except Err (List ArchivalRow) → Clusters → Prop}
    (hn : 0 < n)
    (h : ∀ rows w', Takes year (fun _ => 0) w w' → Batch year table rows w'.hot →
      (rows.length = 0 → limit = 0 ∨ w'.hot.prior year table = []) → Q (n - 1) (.ok rows) w') :
    Ends sweepMachine.paced (WithinYear year) p (awaitArchival (.selectBatch table limit)) Q n w := by
  refine ends_perform hn fun e r w' hgiven hx => ?_
  obtain ⟨hsucceeds, hyear, hcurrent, hunique⟩ := hgiven
  have hclock : (sweepMachine.moves e.1 w).clock = w.clock := by rw [sweep_moves]
  replace hx : archivalExec p (.selectBatch table limit) e.2.toArchivalEnv
      (sweepMachine.moves e.1 w) = some (r, w') := hx
  simp only [archivalExec, hsucceeds, Bool.false_eq_true, if_false] at hx
  obtain ⟨hr, hw⟩ := Prod.mk.inj (Option.some.inj hx)
  subst hr
  subst hw
  have hbatch : Batch (dateTruncYear ((sweepMachine.moves e.1 w).clock + e.2.elapsed)) table
      ((sweepMachine.moves e.1 w).hot.priorYears table
        ((sweepMachine.moves e.1 w).clock + e.2.elapsed) limit) (sweepMachine.moves e.1 w).hot :=
    batch_priorYears hunique
  rw [hclock, hyear] at hbatch
  rw [hclock]
  refine h _ _ ((takes_moves hcurrent w).congr rfl rfl rfl) hbatch fun hempty => ?_
  rcases priorYears_empty hempty with hlimit | hyoung
  · exact .inl hlimit
  · right
    rw [List.eq_nil_iff_forall_not_mem]
    intro k hk
    obtain ⟨hkey, hprior⟩ := mem_prior.mp hk
    obtain ⟨row, hrow, rfl⟩ := List.mem_map.mp hkey
    have hlate := hyoung row hrow
    rw [hyear] at hlate
    exact Nat.not_lt.mpr hlate hprior

theorem ends_insertIgnoring {Q : Nat → Except Err Unit → Clusters → Prop} (hn : 0 < n)
    (hbatch : Batch year table rows w.hot)
    (h : ∀ w', Takes year (fun _ => 0) w w' → Q (n - 1) (.ok ()) w') :
    Ends sweepMachine.paced (WithinYear year) p (awaitArchival (.insertIgnoring rows)) Q n w := by
  refine ends_perform hn fun e r w' hgiven hx => ?_
  obtain ⟨hsucceeds, _, hcurrent, _⟩ := hgiven
  have hmoved := takes_moves hcurrent w
  replace hx : archivalExec p (.insertIgnoring rows) e.2.toArchivalEnv
      (sweepMachine.moves e.1 w) = some (r, w') := hx
  simp only [archivalExec, Clusters.written, hsucceeds, Bool.false_eq_true, if_false] at hx
  obtain ⟨hr, hw⟩ := Prod.mk.inj (Option.some.inj hx)
  subst hr
  subst hw
  refine h _ ⟨hmoved.prior, hmoved.count, hmoved.kept, hmoved.deleted, fun row hrow => ?_⟩
  rcases mem_of_insertIgnoring hrow with hold | hnew
  · exact hmoved.archived row hold
  · exact .inr (mem_prior.mp (hbatch.prior row hnew)).2

theorem ends_deleteIds {Q : Nat → Except Err Unit → Clusters → Prop} (hn : 0 < n)
    (hbatch : Batch year table rows w.hot)
    (h : ∀ w', Takes year (only table rows.length) w w' → Q (n - 1) (.ok ()) w') :
    Ends sweepMachine.paced (WithinYear year) p
      (awaitArchival (.deleteIds table (rows.map ArchivalRow.id))) Q n w := by
  refine ends_perform hn fun e r w' hgiven hx => ?_
  obtain ⟨hsucceeds, _, hcurrent, hunique⟩ := hgiven
  have hmoved := takes_moves hcurrent w
  have hthere := hbatch.takes hmoved
  replace hx : archivalExec p (.deleteIds table (rows.map ArchivalRow.id)) e.2.toArchivalEnv
      (sweepMachine.moves e.1 w) = some (r, w') := hx
  simp only [archivalExec, Clusters.written, hsucceeds, Bool.false_eq_true, if_false] at hx
  obtain ⟨hr, hw⟩ := Prod.mk.inj (Option.some.inj hx)
  subst hr
  subst hw
  apply h
  have hdelete : Takes year (only table rows.length) (sweepMachine.moves e.1 w) { sweepMachine.moves e.1 w with
      clock := (sweepMachine.moves e.1 w).clock + e.2.elapsed
      hot := (sweepMachine.moves e.1 w).hot.deleteIds (rows.map ArchivalRow.id) table
      deleted := (sweepMachine.moves e.1 w).deleted ++ ((sweepMachine.moves e.1 w).hot.rows table).filter
        fun r => r.id ∈ rows.map ArchivalRow.id } := takes_deleteIds hthere hunique _
  have htotal := hmoved.trans hdelete
  simpa only [Nat.zero_add] using htotal

end Steps

section Sweeping

variable {year : Time} {w : Clusters} {p n batchSize maxRuntimeMs startedAt rest : Nat}
  {table : ArchivalTable}

/-- Every round but the last takes rows of former years from the table; so it is left after one
round more than it has such rows, and within four operations for each of them. -/
theorem ends_sweepTable (hbatch : 1 ≤ batchSize) (fuel moved : Nat)
    (hfuel : (w.hot.prior year table).length < fuel)
    (hn : 4 * (w.hot.prior year table).length + 2 + rest ≤ n) :
    Ends sweepMachine.paced (WithinYear year) p
      (sweepTable batchSize maxRuntimeMs startedAt table fuel moved)
      (fun m r w' => ∃ k timedOut, r = .ok (moved + k, timedOut) ∧ rest ≤ m ∧
        Takes year (only table k) w w' ∧
        (timedOut = false → w'.hot.prior year table = [])) n w := by
  induction fuel generalizing moved w n with
  | zero => omega
  | succ fuel ih =>
    have hnone : only table 0 = fun _ => 0 := by
      funext other
      simp [only]
    apply ends_do
    refine ends_clock (by omega) fun now w₁ h₁ => ?_
    dsimp only
    split_ifs
    · refine ⟨0, true, rfl, by omega, ?_, fun h => by cases h⟩
      rw [hnone]
      exact h₁
    apply ends_do
    refine ends_selectBatch (by omega) fun rows w₂ h₂ hrows hleft => ?_
    have h₁₂ := h₁.trans h₂
    dsimp only
    split_ifs with hempty
    · refine ⟨0, false, rfl, by omega, ?_, fun _ => ?_⟩
      · rw [hnone]
        exact h₁₂
      · exact (hleft hempty).resolve_left (by omega)
    have hold : rows.length ≤ (w.hot.prior year table).length := by
      rw [← h₁₂.same rfl]
      exact hrows.length_le
    apply ends_do
    refine ends_insertIgnoring (by omega) hrows fun w₃ h₃ => ?_
    apply ends_do
    refine ends_deleteIds (by omega) (hrows.takes h₃) fun w₄ h₄ => ?_
    -- The batch is gone, so fewer rounds are left to go.
    have hround : Takes year (only table rows.length) w w₄ := by
      have htotal := (h₁₂.trans h₃).trans h₄
      simpa only [Nat.zero_add, Nat.add_zero] using htotal
    have hcount := hround.count table
    rw [only_self] at hcount
    apply (ih (moved + rows.length) (by omega) (by omega)).mono
    rintro m r w₅ ⟨k, timedOut, hr, hm, h₅, hswept⟩
    refine ⟨rows.length + k, timedOut, ?_, hm, ?_, hswept⟩
    · rw [hr, Nat.add_assoc]
    · have htotal := hround.trans h₅
      have hsum : (fun other => only table rows.length other + only table k other)
          = only table (rows.length + k) := by
        funext other
        unfold only
        split_ifs <;> rfl
      rwa [hsum] at htotal

/-- The tables that were entered are listed with what was taken from them; from the others nothing
was. -/
theorem ends_sweepTables (hbatch : 1 ≤ batchSize) {fuel : Nat} (tables : List ArchivalTable)
    (moved : List (ArchivalTable × Nat)) (hnodup : tables.Nodup)
    (hfuel : ∀ table ∈ tables, (w.hot.prior year table).length < fuel)
    (hn : (tables.map fun table => 4 * (w.hot.prior year table).length + 2).sum + rest ≤ n) :
    Ends sweepMachine.paced (WithinYear year) p
      (sweepTables batchSize maxRuntimeMs startedAt fuel tables moved)
      (fun m r w' => ∃ k c timedOut,
        r = .ok (moved ++ (tables.take k).map (fun table => (table, c table)), timedOut) ∧
        rest ≤ m ∧ Takes year c w w' ∧ (∀ table, table ∉ tables.take k → c table = 0) ∧
        (timedOut = false → ∀ table ∈ tables, w'.hot.prior year table = [])) n w := by
  induction tables generalizing moved w n with
  | nil =>
    refine ⟨0, fun _ => 0, false, by simp, by simpa using hn, ?_, fun _ _ => rfl, fun _ _ h => ?_⟩
    · exact ⟨fun _ => .refl _, fun _ => rfl, fun _ _ h _ => h, fun _ h => .inl h, fun _ h => .inl h⟩
    · cases h
  | cons table tables ih =>
    obtain ⟨hfresh, hrest⟩ := List.nodup_cons.mp hnodup
    rw [List.map_cons, List.sum_cons, Nat.add_assoc] at hn
    apply ends_do
    apply (ends_sweepTable hbatch fuel 0 (hfuel table List.mem_cons_self) hn).mono
    rintro m r w₁ ⟨k, timedOut, rfl, hm, h₁, hswept⟩
    dsimp only
    cases timedOut with
    | true =>
      refine ⟨1, only table k, true, by simp [only], by omega, h₁, fun other hother => ?_, fun h => ?_⟩
      · exact only_of_ne (fun heq => hother (by simp [heq])) k
      · cases h
    | false =>
      -- The tables to come are as they were.
      have hsame : ∀ other ∈ tables, w₁.hot.prior year other = w.hot.prior year other := by
        intro other hother
        have hne : other ≠ table := fun heq => hfresh (heq ▸ hother)
        exact h₁.same (only_of_ne hne k)
      have hsum : (tables.map fun other => 4 * (w₁.hot.prior year other).length + 2)
          = tables.map fun other => 4 * (w.hot.prior year other).length + 2 := by
        apply List.map_congr_left
        intro other hother
        rw [hsame other hother]
      have hfuel₁ : ∀ other ∈ tables, (w₁.hot.prior year other).length < fuel := by
        intro other hother
        rw [hsame other hother]
        exact hfuel other (List.mem_cons_of_mem table hother)
      rw [← hsum] at hm
      rw [if_neg (by simp)]
      apply (ih (moved ++ [(table, 0 + k)]) hrest hfuel₁ hm).mono
      rintro m₂ r w₂ ⟨j, c, timedOut, rfl, hm₂, h₂, hnone, hall⟩
      have hzero : c table = 0 := hnone table fun hmem => hfresh (List.mem_of_mem_take hmem)
      refine ⟨j + 1, fun other => only table k other + c other, timedOut, ?_, hm₂, h₁.trans h₂,
        fun other hother => ?_, fun hfalse other hother => ?_⟩
      · rw [List.take_succ_cons, List.map_cons, List.append_assoc, List.singleton_append]
        dsimp only
        have hhead : only table k table + c table = 0 + k := by
          rw [hzero, only_self, Nat.zero_add, Nat.add_zero]
        have htail : (tables.take j).map (fun other => (other, c other))
            = (tables.take j).map fun other => (other, only table k other + c other) := by
          apply List.map_congr_left
          intro other hother
          have hne : other ≠ table := fun heq => hfresh (heq ▸ List.mem_of_mem_take hother)
          rw [only_of_ne hne, Nat.zero_add]
        rw [hhead, htail]
      · rw [List.take_succ_cons, List.mem_cons, not_or] at hother
        dsimp only
        rw [only_of_ne hother.1, Nat.zero_add]
        exact hnone other hother.2
      · rcases List.mem_cons.mp hother with rfl | hother
        · rw [h₂.same hzero]
          exact hswept rfl
        · exact hall hfalse other hother

end Sweeping

section Claims

variable {year : Time} {w w' : Clusters} {c : ArchivalTable → Nat}

theorem sum_map_zero (tables : List ArchivalTable) (h : ∀ table ∈ tables, c table = 0) :
    (tables.map c).sum = 0 := by
  rw [List.sum_eq_zero_iff_forall_eq_nat]
  intro n hn
  obtain ⟨table, htable, rfl⟩ := List.mem_map.mp hn
  exact h table htable

/-- What the sweep of the tables leaves, the result tells. -/
theorem accounted_of_takes {region : String} {k : Nat} {timedOut : Bool} (hunique : w.hot.UniqueIds)
    (htakes : Takes year c w w') (hnone : ∀ table, table ∉ archivalTables.take k → c table = 0)
    (hall : timedOut = false → ∀ table ∈ archivalTables, w'.hot.prior year table = []) :
    Accounted year w w' ⟨region, (archivalTables.take k).map fun table => (table, c table),
      (((archivalTables.take k).map fun table => (table, c table)).map Prod.snd).sum, timedOut⟩ where
  moved table n hn := by
    obtain ⟨other, _, heq⟩ := List.mem_map.mp hn
    obtain ⟨rfl, rfl⟩ := Prod.mk.inj heq
    exact (htakes.removed hunique other).symm
  unlisted table htable := by
    rw [htakes.removed hunique]
    apply hnone
    rw [List.map_map] at htable
    intro hmem
    exact htable (List.mem_map.mpr ⟨table, hmem, rfl⟩)
  total := by
    have hremoved : w.removed w' = c := funext fun table => htakes.removed hunique table
    have hdrop : ((archivalTables.drop k).map c).sum = 0 := by
      apply sum_map_zero
      intro table hdropped
      apply hnone
      intro htaken
      have hnodup : archivalTables.Nodup := by decide
      rw [← List.take_append_drop k archivalTables] at hnodup
      exact (List.disjoint_of_nodup_append hnodup) htaken hdropped
    have hsplit : (archivalTables.map c).sum = ((archivalTables.take k).map c).sum := by
      conv_lhs => rw [← List.take_append_drop k archivalTables, List.map_append, List.sum_append]
      rw [hdrop, Nat.add_zero]
    rw [hremoved, hsplit, List.map_map]
    rfl
  kept := htakes.kept
  deleted := htakes.deleted
  archived := htakes.archived
  complete hfalse table htable row hrow := by
    by_contra hlate
    have hmem : row.key ∈ w'.hot.prior year table :=
      mem_prior.mpr ⟨List.mem_map_of_mem hrow, Nat.not_le.mp hlate⟩
    rw [hall hfalse table htable] at hmem
    cases hmem

variable {settings : ArchivalSettings} {fuel : Nat} {region : String} {opts : ArchiveRunOptions}
  {p : Nat} {es : List (List (List Write) × SweepEnv)}

/-- A run whose statements succeed within one year of the database comes to its end, whatever its
clock shows, and does what its result says: it counts the rows that are gone, all of them of former
years, and without a time-out it leaves none behind. -/
theorem archiveRegion_sweeps (hunique : w.hot.UniqueIds)
    (hbatch : 1 ≤ opts.batchSize.getD settings.batchSize)
    (hfuel : ∀ table ∈ archivalTables, (w.hot.prior (dateTruncYear w.clock) table).length < fuel)
    (hes : w.rounds (dateTruncYear w.clock) ≤ es.length)
    (hgiven : RunMeets sweepMachine.paced (WithinYear (dateTruncYear w.clock)) (fun _ => True) p
      (archiveRegion settings fuel region opts) es w) :
    ∃ result w', sweepMachine.paced.runAlone p (archiveRegion settings fuel region opts) es w
        = (.returned result, w') ∧ Accounted (dateTruncYear w.clock) w w' result := by
  have hends : Ends sweepMachine.paced (WithinYear (dateTruncYear w.clock)) p
      (archiveRegion settings fuel region opts)
      (fun _ r w' => ∃ result, r = .ok result ∧ Accounted (dateTruncYear w.clock) w w' result)
      (w.rounds (dateTruncYear w.clock)) w := by
    apply ends_do
    refine ends_clock (Nat.succ_pos _) fun startedAt w₁ h₁ => ?_
    dsimp only
    apply ends_do
    have hsame : ∀ table, w₁.hot.prior (dateTruncYear w.clock) table
        = w.hot.prior (dateTruncYear w.clock) table := fun table => h₁.same rfl
    have hfuel₁ : ∀ table ∈ archivalTables,
        (w₁.hot.prior (dateTruncYear w.clock) table).length < fuel := by
      intro table htable
      rw [hsame]
      exact hfuel table htable
    have hleft : (archivalTables.map fun table =>
        4 * (w₁.hot.prior (dateTruncYear w.clock) table).length + 2).sum + 1
          ≤ w.rounds (dateTruncYear w.clock) - 1 := by
      simp only [hsame]
      exact Nat.le_refl _
    apply (ends_sweepTables hbatch archivalTables [] (by decide) hfuel₁ hleft).mono
    rintro m r w₂ ⟨k, c, timedOut, rfl, hm, h₂, hnone, hall⟩
    dsimp only
    apply ends_do
    refine ends_clock hm fun stopped w₃ h₃ => ?_
    have htotal : Takes (dateTruncYear w.clock) c w w₃ := by
      have h := (h₁.trans h₂).trans h₃
      simpa only [Nat.zero_add, Nat.add_zero] using h
    refine ⟨_, rfl, accounted_of_takes hunique htotal hnone fun hfalse table htable => ?_⟩
    rw [h₃.same rfl]
    exact hall hfalse table htable
  have hanswered : ∀ o e w, sweepMachine.paced.exec p o e w ≠ none := by
    intro o e w hx
    cases o with
    | clock => cases hx
    | selectBatch table limit =>
      simp only [Machine.paced, sweepMachine, sweepExec, archivalExec] at hx
      split_ifs at hx
    | insertIgnoring rows => cases hx
    | deleteIds table ids => cases hx
  obtain ⟨m, hrun⟩ := ends_sound hanswered hends hes hgiven
  cases hend : sweepMachine.paced.runAlone p (archiveRegion settings fuel region opts) es w with
  | mk outcome w' =>
    rw [hend] at hrun
    cases outcome with
    | returned result =>
      obtain ⟨_, heq, hresult⟩ := hrun
      obtain rfl := Except.ok.inj heq
      exact ⟨result, w', rfl, hresult⟩
    | threw err =>
      obtain ⟨_, heq, _⟩ := hrun
      cases heq
    | crashed => exact hrun.elim

/-- While the last order of 2025 and its earning are swept, an order of 2026 is placed. -/
theorem lastOrderOf2025_swept : ∃ result w',
    sweepMachine.paced.runAlone 0 (archiveRegion archivalSettings 2 "eg" {})
      (([[.insertOrder { OrderEntity.sample "order-2" .placed with
        id := 2, createdAt := newYear 56 + 1 }]], {}) :: List.replicate 21 ([], {}))
      (lastOrderOf2025 (newYear 56 - 1)) = (.returned result, w') ∧
    Accounted (dateTruncYear (lastOrderOf2025 (newYear 56 - 1)).clock)
      (lastOrderOf2025 (newYear 56 - 1)) w' result :=
  archiveRegion_sweeps (by decide) (by decide) (by decide +kernel) (by decide +kernel)
    (by decide +kernel)

end Claims

end OrderService
