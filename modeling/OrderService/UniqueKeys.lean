import OrderService.FreshWrite
import OrderService.Interleaving.UniqueIndex
import OrderService.SerialIds

/-! The unique index on the idempotency keys of the transactions. -/
namespace OrderService
open ReadCommitted Interleaving

section Index
variable {V : Type} {U : UniqueIndex engine V} {p : Pid}

/-- No operation puts a value into the index twice that does not find it there. -/
theorem unique_exec {o : Op} {e : Env} {w w' : World} {r : Except Err o.Res}
    (hguards : ∀ c q, o = .sql c q →
      U.Admits (q.eval w.seqs w.clock (w.tables p c)).writes (w.tables p c))
    (hl : Locked engine w.store) (h : U.Unique w.store) (hx : exec p o e w = some (r, w')) :
    U.Unique w'.store := by
  have hs := exec_store hx
  cases o with
  | sql c q =>
    cases c with
    | pool =>
      rcases hs with hs | ⟨a, hs⟩
      · rwa [hs]
      · exact h.autocommit hl (hguards .pool q rfl) hs
    | trx =>
      rcases hs with hs | ⟨a, hs⟩
      · rwa [hs]
      · exact h.query (hguards .trx q rfl) hs
  | start =>
    rcases hs with hs | hs <;> rw [hs]
    · exact h
    · exact h.start
  | commit =>
    rcases hs with hs | hs | hs
    · rw [hs]
      exact h.rollback
    · rwa [hs]
    · exact h.commit hl hs
  | rollback =>
    have hs : w'.store = w.store.rollback p := hs
    rw [hs]
    exact h.rollback
  | _ =>
    have hs : w'.store = w.store := hs
    rwa [hs]

/-- In every interleaving the committed values are different. -/
theorem unique_reaches (hguards : ∀ seqs clock (q : Sql), U.Guards (q.eval seqs clock))
    {α : Type} {ok : Pid → Op → Env → World → Prop} {s t : Sys Pid Op Op.Res Err World α}
    (hs : s.world.AtRest) (hvalues : (U.values s.world.store.db).Nodup)
    (ht : machine.Reaches ok s t) : (U.values t.world.store.db).Nodup := by
  have hinit : U.Unique s.world.store := by
    refine ⟨hvalues, fun p => ?_⟩
    have hnone : U.pending s.world.store p = [] :=
      UniqueIndex.pending_of_log (w := []) (by rw [hs.txn p]; rfl)
    rw [hnone, List.append_nil]
    exact hvalues
  have hall : Locked engine t.world.store ∧ U.Unique t.world.store := by
    refine Machine.Reaches.keeps ?_ ?_ ?_ ⟨hs.locked, hinit⟩ ht
      (J := fun w => Locked engine w.store ∧ U.Unique w.store)
    · exact fun p o e w r w' hw hx => ⟨exec_locked hw.1 hx,
        unique_exec (fun c q _ => hguards w.seqs w.clock q (w.tables p c)) hw.1 hw.2 hx⟩
    · exact fun p w hw => ⟨rollback_locked hw.1, hw.2.rollback⟩
    · intro x w hw
      cases x <;> exact hw
  exact hall.2.committed

end Index

section Idempotency

/-- The key of a transaction that the write inserts. -/
def Write.idempotencyKeys : Write → List String
  | .insertTransaction row => row.idempotencyKey.toList
  | _ => []

def idempotencyIndex : UniqueIndex engine String where
  values db := db.transactions.filterMap fun t => t.idempotencyKey
  entries := Write.idempotencyKeys
  values_apply x db := by
    cases x with
    | insertTransaction row =>
      refine List.filterMap_append.trans ?_
      cases hkey : row.idempotencyKey <;> simp [Write.idempotencyKeys, hkey]
    | setTransactionStatus id status now | markRefunded id now =>
      refine Eq.trans ?_ (List.append_nil _).symm
      change (db.transactions.map _).filterMap _ = _
      rw [List.filterMap_map]
      refine List.filterMap_congr fun t _ => ?_
      simp only [Function.comp_apply]
      split <;> rfl
    | _ => exact (List.append_nil _).symm
  key := .idempotency
  locked x v hv := by
    cases x with
    | insertTransaction row =>
      have hkey : row.idempotencyKey = some v := Option.mem_toList.mp hv
      simp [engine, Write.key, hkey]
    | _ => cases hv

/-- `ON CONFLICT (idempotency_key) DO NOTHING`. -/
theorem idempotencyIndex_guards (seqs : Seqs) (clock : Time) (q : Sql) :
    idempotencyIndex.Guards (q.eval seqs clock) := by
  intro db
  by_cases hq : ∃ data now, q = .createTransaction data now
  · obtain ⟨data, now, rfl⟩ := hq
    have hkeys : (data.toEntity seqs.transactions now).idempotencyKey
        = orNullText data.idempotencyKey := rfl
    cases hkey : orNullText data.idempotencyKey with
    | none =>
      simp [Sql.eval, hkey, writing, idempotencyIndex, Write.idempotencyKeys, hkeys]
    | some k =>
      cases hfound : db.idempotent k with
      | some t => simp [Sql.eval, hkey, hfound, reading]
      | none =>
        have hfree : k ∉ idempotencyIndex.values db := by
          intro hmem
          obtain ⟨t, ht, htk⟩ := List.mem_filterMap.mp hmem
          have hno := List.find?_eq_none.mp hfound t ht
          simp [htk] at hno
        simpa [Sql.eval, hkey, hfound, writing, idempotencyIndex, Write.idempotencyKeys, hkeys]
          using hfree
  · have hnone : (q.eval seqs clock db).writes.flatMap idempotencyIndex.entries = [] := by
      rw [List.flatMap_eq_nil_iff]
      intro x hx
      cases x with
      | insertTransaction row =>
        exact absurd (createTransaction_of_mayWrite (Sql.mayWrite_of_mem hx)) hq
      | _ => rfl
    rw [hnone]
    exact ⟨List.nodup_nil, fun v hv => by cases hv⟩

/-- In every interleaving the idempotency keys are different. -/
theorem idempotencyKeys_nodup {α : Type} {ok : Pid → Op → Env → World → Prop}
    {s t : Sys Pid Op Op.Res Err World α} (hs : s.world.AtRest)
    (hkeys : (s.world.store.db.transactions.filterMap fun t => t.idempotencyKey).Nodup)
    (ht : machine.Reaches ok s t) :
    (t.world.store.db.transactions.filterMap fun t => t.idempotencyKey).Nodup :=
  unique_reaches (U := idempotencyIndex) idempotencyIndex_guards hs hkeys ht

/-- At most one element of a list has the key, if no two have the same. -/
theorem countP_le_one_of_key {α β : Type} {key : α → Option β} {l : List α}
    (hl : (l.filterMap key).Nodup) {P : α → Bool} {k : β}
    (hP : ∀ a ∈ l, P a = true → key a = some k) : l.countP P ≤ 1 := by
  induction l with
  | nil => simp
  | cons a l ih =>
    have hrest : ∀ b ∈ l, P b = true → key b = some k := fun b hb =>
      hP b (List.mem_cons_of_mem a hb)
    have htail : (l.filterMap key).Nodup := by
      cases hkey : key a with
      | none => simpa [List.filterMap_cons, hkey] using hl
      | some v => exact (by simpa [List.filterMap_cons, hkey] using hl : _ ∧ _).2
    by_cases ha : P a = true
    · -- The others have another key than this one.
      have hkey := hP a List.mem_cons_self ha
      have hnone : l.countP P = 0 := by
        rw [List.countP_eq_zero]
        intro b hb hPb
        have hk : k ∈ l.filterMap key := List.mem_filterMap.mpr ⟨b, hb, hrest b hb hPb⟩
        have hnew : k ∉ l.filterMap key ∧ (l.filterMap key).Nodup := by
          simpa only [List.filterMap_cons, hkey, List.nodup_cons] using hl
        exact hnew.1 hk
      rw [List.countP_cons_of_pos ha, hnone]
    · rw [List.countP_cons_of_neg ha]
      exact ih htail hrest

end Idempotency

end OrderService
