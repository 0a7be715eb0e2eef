import Mathlib.Data.List.Dedup
import OrderService.Interleaving.Answering
import OrderService.Services.BranchText

/-! `getBranchesByIds` gives for each branch what `getBranch` gives for it, whatever its entry is
worth and in whatever order the lookups and the writes come back. -/
namespace OrderService.BranchText
open Interleaving

section Statement

/-- Nothing fails; core answers with its current rows. -/
def answering (core : CoreRows) (batch : List Nat → List CoreRow) : Op → Env
  | .requestBranch id => { row := core.row id }
  | .requestBranches ids => { rows := batch ids }
  | _ => {}

/-- The batch endpoint answers with exactly the rows of the requested ids, in some order. -/
def AnswersBatch (core : CoreRows) (batch : List Nat → List CoreRow) : Prop :=
  ∀ ids row, row ∈ batch ids ↔ row.id ∈ ids ∧ core.row row.id = some row

/-- Each entry is absent, cannot be parsed, or is core's current row. -/
def Usual (core : CoreRows) (c : Cache) : Prop :=
  ∀ id, parsed (c id) = none ∨ ∃ row, core.row id = some row ∧ c id = some row.json.stringify

end Statement

section Entries

variable {core : CoreRows} {c : Cache}

theorem parsed_row (row : CoreRow) : parsed (some row.json.stringify) = some row.json := by
  have hwell : row.json.WellFormed := row.wellFormed
  unfold parsed
  rw [Option.bind_some, if_neg (stringify_ne_empty hwell)]
  exact parse_stringify hwell

theorem Usual.hit (h : Usual core c) {id : Nat} {branch : Json} (hhit : parsed (c id) = some branch) :
    ∃ row, core.row id = some row ∧ c id = some row.json.stringify ∧ branch = row.json := by
  rcases h id with hmiss | ⟨row, hrow, hentry⟩
  · rw [hmiss] at hhit
    cases hhit
  · rw [hentry, parsed_row] at hhit
    exact ⟨row, hrow, hentry, (Option.some.inj hhit).symm⟩

/-- Writing current rows one after the other, in any order: each id gets its own. -/
theorem foldl_update_rows {α : Type} (f : CoreRow → α) (rows : List CoreRow)
    (hrows : ∀ row ∈ rows, core.row row.id = some row) (m : Nat → Option α) (id : Nat) :
    rows.foldl (fun (m : Nat → Option α) b => Function.update m b.id (some (f b))) m id
      = if id ∈ rows.map CoreRow.id then (core.row id).map f else m id := by
  induction rows generalizing m with
  | nil => rfl
  | cons row rows ih =>
    have hrest : ∀ r ∈ rows, core.row r.id = some r := fun r hr => hrows r (List.mem_cons_of_mem row hr)
    rw [List.foldl_cons, ih hrest, List.map_cons]
    by_cases hlater : id ∈ rows.map CoreRow.id
    · rw [if_pos hlater, if_pos (List.mem_cons_of_mem _ hlater)]
    rw [if_neg hlater]
    by_cases hid : id = row.id
    · have hrow : core.row id = some row := by
        rw [hid]
        exact hrows row List.mem_cons_self
      have hhere : id ∈ row.id :: rows.map CoreRow.id := by
        rw [hid]
        exact List.mem_cons_self
      rw [if_pos hhere, hrow, hid, Function.update_self, Option.map_some]
    · have hnot : id ∉ row.id :: rows.map CoreRow.id := by
        rw [List.mem_cons, not_or]
        exact ⟨hid, hlater⟩
      rw [if_neg hnot, Function.update_of_ne hid]

end Entries

section Runs

variable {core : CoreRows} {batch : List Nat → List CoreRow} {c : Cache} {p : Pid}

theorem runFor_get (id : Nat) :
    machine.runFor (answering core batch) p (perform (.get id)) c = (.returned (c id), c) :=
  runFor_perform rfl

theorem runFor_store (row : CoreRow) (id : Nat) :
    machine.runFor (answering core batch) p (store row id) c
      = (.returned (), Function.update c id (some row.json.stringify)) :=
  runFor_catch (runFor_perform rfl)

/-- What `getBranch` gives for a branch that exists. -/
theorem getBranch_runs (husual : Usual core c) {id : Nat} {row : CoreRow} (hrow : core.row id = some row) :
    ∃ c', machine.runFor (answering core batch) p (getBranch id) c = (.returned row.json, c') := by
  unfold getBranch
  rw [runFor_do (runFor_get id)]
  cases hparsed : parsed (c id) with
  | some branch =>
    obtain ⟨row', hrow', _, hbranch⟩ := husual.hit hparsed
    have hsame : row' = row := Option.some.inj (hrow'.symm.trans hrow)
    exact ⟨c, by rw [hbranch, hsame]; rfl⟩
  | none =>
    have hrequest : machine.runFor (answering core batch) p (perform (.requestBranch id)) c
        = (.returned row, c) := by
      apply runFor_perform
      simp only [machine, exec, answering, hrow, Bool.false_eq_true, if_false]
    dsimp only
    rw [runFor_do hrequest, runFor_do (runFor_store row id)]
    exact ⟨_, rfl⟩

theorem lookupBranches_runs (ids : List Nat) (result : BranchMap) (misses : List Nat) :
    machine.runFor (answering core batch) p (lookupBranches ids result misses) c
      = (.returned (fun id => if id ∈ ids then (parsed (c id)).or (result id) else result id,
          misses ++ ids.filter fun id => (parsed (c id)).isNone), c) := by
  induction ids generalizing result misses with
  | nil => simp [lookupBranches]; rfl
  | cons first ids ih =>
    unfold lookupBranches
    rw [runFor_do (runFor_get first)]
    cases hparsed : parsed (c first) with
    | some branch =>
      dsimp only
      rw [ih]
      have hmisses : (first :: ids).filter (fun id => (parsed (c id)).isNone)
          = ids.filter fun id => (parsed (c id)).isNone := by
        rw [List.filter_cons, hparsed, Option.isNone_some, if_neg Bool.false_ne_true]
      have hmap : (fun id => if id ∈ ids then
            (parsed (c id)).or (Function.update result first (some branch) id)
          else Function.update result first (some branch) id)
          = fun id => if id ∈ first :: ids then (parsed (c id)).or (result id) else result id := by
        funext id
        by_cases hid : id = first
        · subst hid
          rw [Function.update_self, hparsed, Option.some_or, Option.some_or, ite_self,
            if_pos List.mem_cons_self]
        · rw [Function.update_of_ne hid]
          simp only [List.mem_cons, hid, false_or]
      rw [hmisses, hmap]
    | none =>
      dsimp only
      rw [ih]
      have hmisses : (first :: ids).filter (fun id => (parsed (c id)).isNone)
          = first :: ids.filter fun id => (parsed (c id)).isNone := by
        rw [List.filter_cons, hparsed, Option.isNone_none, if_pos rfl]
      have hmap : (fun id => if id ∈ ids then (parsed (c id)).or (result id) else result id)
          = fun id => if id ∈ first :: ids then (parsed (c id)).or (result id) else result id := by
        funext id
        by_cases hid : id = first
        · subst hid
          rw [hparsed, Option.none_or, ite_self, ite_self]
        · simp only [List.mem_cons, hid, false_or]
      rw [hmisses, hmap, List.append_assoc, List.singleton_append]

theorem storeBranches_runs (rows : List CoreRow) :
    machine.runFor (answering core batch) p (storeBranches rows) c
      = (.returned (), rows.foldl (fun (c : Cache) b =>
          Function.update c b.id (some b.json.stringify)) c) := by
  induction rows generalizing c with
  | nil => rfl
  | cons row rows ih =>
    unfold storeBranches
    rw [runFor_do (runFor_store row row.id), ih]
    rfl

end Runs

section Result

variable {core : CoreRows} {batch : List Nat → List CoreRow} {c : Cache}

variable {looked ids : List Nat} {data : List CoreRow}

/-- The rows that core answers with are those of the misses. -/
theorem mem_data (hdata : ∀ row, row ∈ data ↔
      row.id ∈ looked.filter (fun id => (parsed (c id)).isNone) ∧ core.row row.id = some row)
    (hlooked : ∀ id, id ∈ looked ↔ id ∈ ids) (id : Nat) :
    id ∈ data.map CoreRow.id ↔ id ∈ ids ∧ parsed (c id) = none ∧ (core.row id).isSome := by
  constructor
  · intro hid
    obtain ⟨row, hrow, rfl⟩ := List.mem_map.mp hid
    obtain ⟨hmiss, hcurrent⟩ := (hdata row).mp hrow
    obtain ⟨hmem, hnone⟩ := List.mem_filter.mp hmiss
    exact ⟨(hlooked row.id).mp hmem, Option.isNone_iff_eq_none.mp hnone, by rw [hcurrent]; rfl⟩
  · intro h
    obtain ⟨hid, hnone, hsome⟩ := h
    obtain ⟨row, hrow⟩ := Option.isSome_iff_exists.mp hsome
    have hrowId : row.id = id := core.id_row id row hrow
    refine List.mem_map.mpr ⟨row, (hdata row).mpr ⟨?_, ?_⟩, hrowId⟩
    · rw [hrowId]
      exact List.mem_filter.mpr ⟨(hlooked id).mpr hid, Option.isNone_iff_eq_none.mpr hnone⟩
    · rw [hrowId]
      exact hrow

/-- The hits and these rows make up the result. -/
theorem result_eq (husual : Usual core c) (hdata : ∀ row, row ∈ data ↔
      row.id ∈ looked.filter (fun id => (parsed (c id)).isNone) ∧ core.row row.id = some row)
    (hlooked : ∀ id, id ∈ looked ↔ id ∈ ids) :
    data.foldl addRow (fun id => if id ∈ looked then (parsed (c id)).or none else none)
      = fun id => if id ∈ ids then (core.row id).map CoreRow.json else none := by
  funext id
  have hcurrent : ∀ row ∈ data, core.row row.id = some row := fun row hrow => ((hdata row).mp hrow).2
  have hfold := foldl_update_rows CoreRow.json data hcurrent
    (fun id => if id ∈ looked then (parsed (c id)).or none else none) id
  refine hfold.trans ?_
  simp only [mem_data hdata hlooked, hlooked, Option.or_none]
  by_cases hid : id ∈ ids
  · simp only [if_pos hid]
    cases hparsed : parsed (c id) with
    | some branch =>
      obtain ⟨row, hrow, _, hbranch⟩ := husual.hit hparsed
      rw [if_neg (by simp), hrow, hbranch, Option.map_some]
    | none =>
      cases hrow : core.row id with
      | some row => rw [if_pos ⟨hid, rfl, rfl⟩]
      | none => rw [if_neg (by simp), Option.map_none]
  · rw [if_neg (fun h => hid h.1), if_neg hid, if_neg hid]

/-- Afterwards the entry of each requested branch that exists is its row. -/
theorem cache_eq (husual : Usual core c) (hdata : ∀ row, row ∈ data ↔
      row.id ∈ looked.filter (fun id => (parsed (c id)).isNone) ∧ core.row row.id = some row)
    (hlooked : ∀ id, id ∈ looked ↔ id ∈ ids) {rows : List CoreRow} (hrows : rows.Perm data) :
    rows.foldl (fun (c : Cache) b => Function.update c b.id (some b.json.stringify)) c
      = fun id => if id ∈ ids then
          ((core.row id).map fun row => row.json.stringify).or (c id) else c id := by
  funext id
  have hcurrent : ∀ row ∈ rows, core.row row.id = some row := fun row hrow =>
    ((hdata row).mp (hrows.mem_iff.mp hrow)).2
  rw [foldl_update_rows (fun row => row.json.stringify) rows hcurrent c id]
  have hmem : id ∈ rows.map CoreRow.id ↔ id ∈ data.map CoreRow.id :=
    (hrows.map CoreRow.id).mem_iff
  simp only [hmem, mem_data hdata hlooked]
  by_cases hid : id ∈ ids
  · rw [if_pos hid]
    cases hparsed : parsed (c id) with
    | some branch =>
      obtain ⟨row, hrow, hentry, _⟩ := husual.hit hparsed
      rw [if_neg (by simp), hrow, hentry]
      rfl
    | none =>
      cases hrow : core.row id with
      | some row => rw [if_pos ⟨hid, rfl, rfl⟩, Option.map_some, Option.some_or]
      | none => rw [if_neg (by simp), Option.map_none, Option.none_or]
  · rw [if_neg (fun h => hid h.1), if_neg hid]

theorem getBranchesByIds_runs (hbatch : AnswersBatch core batch) (husual : Usual core c) (p : Pid)
    (order : Completion) (ids : List Nat) :
    machine.runFor (answering core batch) p (getBranchesByIds order ids) c
      = (.returned (fun id => if id ∈ ids then (core.row id).map CoreRow.json else none),
          fun id => if id ∈ ids then
            ((core.row id).map fun row => row.json.stringify).or (c id) else c id) := by
  have hlooked : ∀ id, id ∈ order.gets ids.dedup ↔ id ∈ ids := by
    intro id
    rw [(order.gets_perm ids.dedup).mem_iff, List.mem_dedup]
  unfold getBranchesByIds
  split_ifs with hnil
  · rw [List.length_eq_zero_iff] at hnil
    subst hnil
    simp only [List.not_mem_nil, if_false]
    rfl
  rw [runFor_do (lookupBranches_runs (order.gets ids.dedup) (fun _ => none) [])]
  simp only [List.nil_append]
  split_ifs with hall
  · -- Without misses core is not asked.
    have hnone : ∀ row, row ∈ ([] : List CoreRow) ↔
        row.id ∈ (order.gets ids.dedup).filter (fun id => (parsed (c id)).isNone) ∧
          core.row row.id = some row := by
      intro row
      rw [List.length_eq_zero_iff.mp hall]
      simp only [List.not_mem_nil, false_and]
    rw [← result_eq husual hnone hlooked, ← cache_eq husual hnone hlooked (.refl _)]
    rfl
  · have hdata := hbatch ((order.gets ids.dedup).filter fun id => (parsed (c id)).isNone)
    have hrequest : machine.runFor (answering core batch) p (perform (.requestBranches
        ((order.gets ids.dedup).filter fun id => (parsed (c id)).isNone))) c
        = (.returned (batch ((order.gets ids.dedup).filter fun id => (parsed (c id)).isNone)), c) :=
      runFor_perform rfl
    rw [runFor_do hrequest, runFor_do (storeBranches_runs _),
      cache_eq husual hdata hlooked (order.sets_perm _), ← result_eq husual hdata hlooked]
    rfl

/-- `getBranchesByIds` returns for each requested branch that exists what `getBranch` returns for
it, and nothing else; and it leaves core's current row under the key of each of them. -/
theorem branchesByIds_eq_getBranch (hbatch : AnswersBatch core batch) (husual : Usual core c)
    (p : Pid) (order : Completion) (ids : List Nat) :
    ∃ result c', machine.runFor (answering core batch) p (getBranchesByIds order ids) c
        = (.returned result, c') ∧
      (∀ id ∈ ids, ∀ row, core.row id = some row →
        (∃ branch c₁, machine.runFor (answering core batch) p (getBranch id) c
          = (.returned branch, c₁) ∧ result id = some branch) ∧
        c' id = some row.json.stringify) ∧
      (∀ id, (result id).isSome → id ∈ ids ∧ (core.row id).isSome) ∧
      ∀ id, id ∉ ids ∨ core.row id = none → c' id = c id := by
  refine ⟨_, _, getBranchesByIds_runs hbatch husual p order ids, fun id hid row hrow => ?_,
    fun id hsome => ?_, fun id hother => ?_⟩
  · obtain ⟨c₁, hsingle⟩ := getBranch_runs husual hrow
    refine ⟨⟨row.json, c₁, hsingle, ?_⟩, ?_⟩
    · rw [if_pos hid, hrow, Option.map_some]
    · rw [if_pos hid, hrow, Option.map_some, Option.some_or]
  · split_ifs at hsome with hid
    · rw [Option.isSome_map] at hsome
      exact ⟨hid, hsome⟩
    · cases hsome
  · split_ifs with hid
    · rw [hother.resolve_left (fun hnot => hnot hid), Option.map_none, Option.none_or]
    · rfl

/-- The batch endpoint may answer in the order of the request. -/
theorem answersBatch_filterMap (core : CoreRows) :
    AnswersBatch core fun ids => ids.filterMap core.row := by
  intro ids row
  rw [List.mem_filterMap]
  constructor
  · intro h
    obtain ⟨id, hid, hrow⟩ := h
    rw [core.id_row id row hrow]
    exact ⟨hid, hrow⟩
  · intro h
    exact ⟨row.id, h.1, h.2⟩

def branchFields (id name : String) : List (String × Json) :=
  [("id", .num id), ("name", .str name)]

theorem branchFields_wellFormed {id : String} (name : String)
    (hchars : id.toList.all numberChar = true) (hnumber : jsonNumber id.toList = true) :
    (Json.obj (branchFields id name)).WellFormed := by
  have hkeys : ((branchFields id name).map Prod.fst).Pairwise
      fun a b => a ≠ b ∧ keyBefore a b = true := by
    show ["id", "name"].Pairwise fun a b => a ≠ b ∧ keyBefore a b = true
    decide +kernel
  exact ⟨hkeys, ⟨hchars, hnumber⟩, trivial, trivial⟩

theorem maadi_wellFormed : (Json.obj (branchFields "1" "Maadi")).WellFormed :=
  branchFields_wellFormed "Maadi" (by decide) (by decide)

theorem zamalek_wellFormed : (Json.obj (branchFields "2" "Zamalek")).WellFormed :=
  branchFields_wellFormed "Zamalek" (by decide) (by decide)

def maadi : CoreRow := ⟨1, branchFields "1" "Maadi", rfl, maadi_wellFormed⟩

def zamalek : CoreRow := ⟨2, branchFields "2" "Zamalek", rfl, zamalek_wellFormed⟩

/-- Branches 1 and 2 exist. -/
def twoBranches : CoreRows where
  row id := if id = 1 then some maadi else if id = 2 then some zamalek else none
  id_row id r h := by
    split_ifs at h with hone htwo
    · rw [← Option.some.inj h, hone]
      rfl
    · rw [← Option.some.inj h, htwo]
      rfl

/-- The entry of 2 is torn. -/
def tornEntry : Cache := fun id => if id = 2 then some "\x7b\"name\":" else none

/-- Lookups and writes in the order in which they were sent. -/
def inOrder : Completion := ⟨id, fun _ => .refl _, id, fun _ => .refl _⟩

theorem branchesByIds_eq_getBranch_torn :
    ∃ result c', machine.runFor
        (answering twoBranches fun ids => ids.filterMap twoBranches.row) 0
        (getBranchesByIds inOrder [2, 1, 2, 3]) tornEntry = (.returned result, c') ∧
      (∀ id ∈ [2, 1, 2, 3], ∀ row, twoBranches.row id = some row →
        (∃ branch c₁, machine.runFor (answering twoBranches fun ids => ids.filterMap twoBranches.row) 0
          (getBranch id) tornEntry = (.returned branch, c₁) ∧ result id = some branch) ∧
        c' id = some row.json.stringify) ∧
      (∀ id, (result id).isSome → id ∈ [2, 1, 2, 3] ∧ (twoBranches.row id).isSome) ∧
      ∀ id, id ∉ [2, 1, 2, 3] ∨ twoBranches.row id = none → c' id = tornEntry id := by
  apply branchesByIds_eq_getBranch (answersBatch_filterMap twoBranches)
  intro id
  left
  unfold tornEntry
  split_ifs
  · decide +kernel
  · rfl

end Result

end OrderService.BranchText
