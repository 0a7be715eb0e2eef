import Mathlib.Logic.Function.Basic
import Mathlib.Data.List.Basic

/-! A database under read committed isolation. A transaction keeps its writes in a log that
only it can see; the rows it writes, and those it selects for update, stay locked until it
ends; a statement sees the committed rows and the transaction's own writes. -/
namespace ReadCommitted

/-- How one row write changes the tables, and the row or unique key it locks. -/
structure Engine (Db Write Key : Type) where
  apply : Write → Db → Db
  key : Write → Option Key

inductive Txn (Write : Type) where
  | idle
  | active (log : List Write)
  | closed

/-- What a statement does when it runs on given tables. -/
structure Answer (Write Key ρ : Type) where
  reply : ρ
  writes : List Write
  forUpdate : List Key

/-- The committed tables, the commits that led to them, and the open transactions. -/
structure Store (Pid Db Write Key : Type) where
  db : Db
  history : List (Pid × List Write)
  txn : Pid → Txn Write
  locks : List (Key × Pid)

section Operations
variable {Pid Db Write Key ρ : Type}

def Txn.log : Txn Write → List Write
  | .active l => l
  | _ => []

def Engine.applyAll (E : Engine Db Write Key) (ws : List Write) (db : Db) : Db :=
  ws.foldl (fun d w => E.apply w d) db

def Engine.keys (E : Engine Db Write Key) (a : Answer Write Key ρ) : List Key :=
  a.forUpdate ++ a.writes.filterMap E.key

namespace Store
variable (E : Engine Db Write Key) (s : Store Pid Db Write Key) (p : Pid)

def view : Db := E.applyAll (s.txn p).log s.db

variable [DecidableEq Pid]

def start : Store Pid Db Write Key :=
  { s with txn := Function.update s.txn p (.active []) }

/-- Ends the transaction of `p` without its writes; on a completed one it does nothing. -/
def rollback : Store Pid Db Write Key :=
  { s with
    txn := Function.update s.txn p .closed
    locks := s.locks.filter (fun l => l.2 ≠ p) }

/-- `none` when `p` has no open transaction. -/
def commit : Option (Store Pid Db Write Key) :=
  match s.txn p with
  | .active log => some
      { db := E.applyAll log s.db
        history := s.history ++ [(p, log)]
        txn := Function.update s.txn p .closed
        locks := s.locks.filter (fun l => l.2 ≠ p) }
  | _ => none

variable [DecidableEq Key]

def heldByOther (k : Key) : Bool := s.locks.any (fun l => l.1 = k && l.2 ≠ p)

/-- A statement of the open transaction of `p`. The outer `none` waits for a lock, the inner
one is the rejection of a query without an open transaction. -/
def query (ask : Db → Answer Write Key ρ) : Option (Option ρ × Store Pid Db Write Key) :=
  match s.txn p with
  | .active log =>
    if (E.keys (ask (s.view E p))).any (s.heldByOther p) then none
    else some (some (ask (s.view E p)).reply,
      { s with
        txn := Function.update s.txn p (.active (log ++ (ask (s.view E p)).writes))
        locks := s.locks ++ (E.keys (ask (s.view E p))).map (·, p) })
  | _ => some (none, s)

/-- A statement outside a transaction of `p`, committed at once. -/
def autocommit (ask : Db → Answer Write Key ρ) : Option (ρ × Store Pid Db Write Key) :=
  if (E.keys (ask s.db)).any (fun k => s.locks.any (fun l => l.1 = k)) then none
  else some ((ask s.db).reply,
    { s with
      db := E.applyAll (ask s.db).writes s.db
      history := if (ask s.db).writes.isEmpty then s.history
        else s.history ++ [(p, (ask s.db).writes)] })

end Store
end Operations

section Locking
variable {Pid Db Write Key ρ : Type} {E : Engine Db Write Key}
  {s s' : Store Pid Db Write Key} {p q : Pid}

/-- A transaction holds the lock of everything in its log, and nobody else holds it. -/
structure Locked (E : Engine Db Write Key) (s : Store Pid Db Write Key) : Prop where
  log_locked : ∀ p, ∀ w ∈ (s.txn p).log, ∀ k, E.key w = some k → (k, p) ∈ s.locks
  exclusive : ∀ k p q, (k, p) ∈ s.locks → (k, q) ∈ s.locks → p = q

/-- What the others can do to the store while `p` waits: they commit writes to rows that `p`
has not locked, and leave the transaction and the locks of `p` alone. -/
structure Rely (E : Engine Db Write Key) (p : Pid) (s s' : Store Pid Db Write Key) : Prop where
  txn : s'.txn p = s.txn p
  locks : ∀ k, (k, p) ∈ s'.locks ↔ (k, p) ∈ s.locks
  commits : ∃ bs : List (Pid × List Write), s'.history = s.history ++ bs ∧
    s'.db = E.applyAll (bs.flatMap Prod.snd) s.db ∧ (∀ b ∈ bs, b.1 ≠ p) ∧
    ∀ b ∈ bs, ∀ w ∈ b.2, ∀ k, E.key w = some k → (k, p) ∉ s.locks

@[simp] theorem applyAll_nil (db : Db) : E.applyAll [] db = db := rfl

@[simp] theorem applyAll_append (ws ws' : List Write) (db : Db) :
    E.applyAll (ws ++ ws') db = E.applyAll ws' (E.applyAll ws db) :=
  List.foldl_append

@[simp] theorem applyAll_cons (w : Write) (ws : List Write) (db : Db) :
    E.applyAll (w :: ws) db = E.applyAll ws (E.apply w db) := rfl

theorem Rely.refl (p : Pid) (s : Store Pid Db Write Key) : Rely E p s s :=
  ⟨rfl, fun _ => Iff.rfl, [], by simp, rfl, by simp, by simp⟩

theorem Rely.of_eq_store (h : s' = s) : Rely E p s s' := by
  subst h
  exact .refl p s'

theorem Rely.trans {s'' : Store Pid Db Write Key} (h : Rely E p s s') (h' : Rely E p s' s'') :
    Rely E p s s'' := by
  obtain ⟨bs, hh, hd, hp, hk⟩ := h.commits
  obtain ⟨bs', hh', hd', hp', hk'⟩ := h'.commits
  refine ⟨h'.txn.trans h.txn, fun k => (h'.locks k).trans (h.locks k), bs ++ bs', ?_, ?_, ?_, ?_⟩
  · rw [hh', hh, List.append_assoc]
  · rw [hd', hd, List.flatMap_append, applyAll_append]
  · intro b hb
    rcases List.mem_append.mp hb with hb | hb
    · exact hp b hb
    · exact hp' b hb
  · intro b hb w hw k hwk hin
    rcases List.mem_append.mp hb with hb | hb
    · exact hk b hb w hw k hwk hin
    · exact hk' b hb w hw k hwk ((h.locks k).mpr hin)

/-- `obs` reads one row or unique key: a write to another one does not change it. -/
def Reads {O : Type} (E : Engine Db Write Key) (obs : Db → O) (k : Key) : Prop :=
  ∀ w db, E.key w ≠ some k → obs (E.apply w db) = obs db

theorem Reads.applyAll {O : Type} {obs : Db → O} {k : Key} (h : Reads E obs k)
    (ws : List Write) (hws : ∀ w ∈ ws, E.key w ≠ some k) (db : Db) :
    obs (E.applyAll ws db) = obs db := by
  induction ws generalizing db with
  | nil => rfl
  | cons w ws ih =>
    rw [applyAll_cons, ih (fun w' hw' => hws w' (List.mem_cons_of_mem _ hw')),
      h w db (hws w List.mem_cons_self)]

/-- A locked row keeps its committed value whatever the others do. -/
theorem Rely.reads_eq {O : Type} {obs : Db → O} {k : Key} (h : Rely E p s s')
    (hobs : Reads E obs k) (hk : (k, p) ∈ s.locks) : obs s'.db = obs s.db := by
  obtain ⟨bs, _, hd, _, hfree⟩ := h.commits
  rw [hd]
  apply hobs.applyAll
  intro w hw hwk
  obtain ⟨b, hb, hwb⟩ := List.mem_flatMap.mp hw
  exact hfree b hb w hwb k hwk hk

section Steps
variable [DecidableEq Pid]

theorem commit_cases (h : s.commit E p = some s') :
    ∃ log, s.txn p = .active log ∧ s' =
      { db := E.applyAll log s.db
        history := s.history ++ [(p, log)]
        txn := Function.update s.txn p .closed
        locks := s.locks.filter (fun l => l.2 ≠ p) } := by
  unfold Store.commit at h
  split at h
  case h_1 log hlog => exact ⟨log, hlog, (Option.some.inj h).symm⟩
  case h_2 => cases h

theorem commit_locked (hl : Locked E s) (h : s.commit E p = some s') : Locked E s' := by
  obtain ⟨log, _, rfl⟩ := commit_cases h
  refine ⟨fun q w hw k hk => ?_, fun k a b ha hb => ?_⟩
  · by_cases hqp : q = p
    · subst hqp
      simp [Txn.log] at hw
    · simp only [Function.update_of_ne hqp] at hw
      exact List.mem_filter.mpr ⟨hl.log_locked q w hw k hk, by simpa using hqp⟩
  · exact hl.exclusive k a b (List.mem_filter.mp ha).1 (List.mem_filter.mp hb).1

theorem commit_rely (hl : Locked E s) (h : s.commit E p = some s') (hqp : q ≠ p) :
    Rely E q s s' := by
  obtain ⟨log, hlog, rfl⟩ := commit_cases h
  refine ⟨Function.update_of_ne hqp _ _, fun k => ?_, [(p, log)], rfl, by simp, ?_, ?_⟩
  · simpa using fun _ => hqp
  · simpa using hqp.symm
  · intro b hb w hw k hk hkq
    rw [List.mem_singleton] at hb
    subst hb
    exact hqp (hl.exclusive k q p hkq (hl.log_locked p w (by rw [hlog]; exact hw) k hk))

theorem rollback_locked (hl : Locked E s) : Locked E (s.rollback p) := by
  refine ⟨fun q w hw k hk => ?_, fun k a b ha hb => ?_⟩
  · by_cases hqp : q = p
    · subst hqp
      simp [Store.rollback, Txn.log] at hw
    · simp only [Store.rollback, Function.update_of_ne hqp] at hw
      exact List.mem_filter.mpr ⟨hl.log_locked q w hw k hk, by simpa using hqp⟩
  · exact hl.exclusive k a b (List.mem_filter.mp ha).1 (List.mem_filter.mp hb).1

theorem rollback_rely (hqp : q ≠ p) : Rely E q s (s.rollback p) := by
  refine ⟨Function.update_of_ne hqp _ _, fun k => ?_, [], by simp [Store.rollback], rfl, by simp,
    by simp⟩
  simpa [Store.rollback] using fun _ => hqp

theorem start_locked (hl : Locked E s) : Locked E (s.start p) := by
  refine ⟨fun q w hw k hk => ?_, hl.exclusive⟩
  by_cases hqp : q = p
  · subst hqp
    simp [Store.start, Txn.log] at hw
  · simp only [Store.start, Function.update_of_ne hqp] at hw
    exact hl.log_locked q w hw k hk

theorem start_rely (hqp : q ≠ p) : Rely E q s (s.start p) :=
  ⟨Function.update_of_ne hqp _ _, fun _ => Iff.rfl, [], by simp [Store.start], rfl, by simp,
    by simp⟩

variable [DecidableEq Key]

theorem not_heldByOther {k : Key} (h : s.heldByOther p k = false) (hq : (k, q) ∈ s.locks) :
    q = p := by
  by_contra hne
  simp only [Store.heldByOther, List.any_eq_false, Bool.and_eq_true, decide_eq_true_eq,
    not_and, not_not, Prod.forall] at h
  exact hne (h k q hq rfl)

/-- The two ways a statement of a transaction goes on: rejected, or logged with its locks. -/
theorem query_cases {ask : Db → Answer Write Key ρ} {r : Option ρ}
    (h : s.query E p ask = some (r, s')) :
    (r = none ∧ s' = s ∧ ∀ log, s.txn p ≠ .active log) ∨
    ∃ log, s.txn p = .active log ∧ r = some (ask (s.view E p)).reply ∧
      (∀ k ∈ E.keys (ask (s.view E p)), s.heldByOther p k = false) ∧
      s' = { s with
        txn := Function.update s.txn p (.active (log ++ (ask (s.view E p)).writes))
        locks := s.locks ++ (E.keys (ask (s.view E p))).map (·, p) } := by
  unfold Store.query at h
  split at h
  case h_1 log hlog =>
    split_ifs at h with hheld
    simp only [Option.some.injEq, Prod.mk.injEq] at h
    refine .inr ⟨log, hlog, h.1.symm, fun k hk => ?_, h.2.symm⟩
    simp only [List.any_eq_true, not_exists, not_and, Bool.not_eq_true] at hheld
    exact hheld k hk
  case h_2 hno =>
    simp only [Option.some.injEq, Prod.mk.injEq] at h
    exact .inl ⟨h.1.symm, h.2.symm, fun log hlog => hno log hlog⟩

omit [DecidableEq Pid] in
theorem autocommit_cases {ask : Db → Answer Write Key ρ} {r : ρ}
    (h : s.autocommit E p ask = some (r, s')) :
    r = (ask s.db).reply ∧ (∀ k ∈ E.keys (ask s.db), ∀ q, (k, q) ∉ s.locks) ∧
      s' = { s with
        db := E.applyAll (ask s.db).writes s.db
        history := if (ask s.db).writes.isEmpty then s.history
          else s.history ++ [(p, (ask s.db).writes)] } := by
  unfold Store.autocommit at h
  split at h
  case isTrue => cases h
  case isFalse hheld =>
    simp only [Option.some.injEq, Prod.mk.injEq] at h
    refine ⟨h.1.symm, fun k hk q hq => hheld ?_, h.2.symm⟩
    exact List.any_eq_true.mpr ⟨k, hk, List.any_eq_true.mpr ⟨(k, q), hq, by simp⟩⟩

theorem query_locked (hl : Locked E s) {ask : Db → Answer Write Key ρ} {r : Option ρ}
    (h : s.query E p ask = some (r, s')) : Locked E s' := by
  rcases query_cases h with ⟨_, rfl, _⟩ | ⟨log, hlog, _, hheld, rfl⟩
  · exact hl
  refine ⟨fun q w hw k hk => ?_, fun k a b ha hb => ?_⟩
  · by_cases hqp : q = p
    · subst hqp
      simp only [Function.update_self, Txn.log, List.mem_append] at hw
      rcases hw with hw | hw
      · exact List.mem_append_left _ (hl.log_locked q w (by rw [hlog]; exact hw) k hk)
      · refine List.mem_append_right _ (List.mem_map.mpr ⟨k, ?_, rfl⟩)
        exact List.mem_append_right _ (List.mem_filterMap.mpr ⟨w, hw, hk⟩)
    · simp only [Function.update_of_ne hqp] at hw
      exact List.mem_append_left _ (hl.log_locked q w hw k hk)
  · -- A new lock was free, so only `p` can hold it twice.
    have hnew : ∀ c, (k, c) ∈ (E.keys (ask (s.view E p))).map (·, p) →
        c = p ∧ s.heldByOther p k = false := by
      intro c hc
      obtain ⟨k', hk', he⟩ := List.mem_map.mp hc
      cases he
      exact ⟨rfl, hheld k hk'⟩
    rcases List.mem_append.mp ha with ha | ha <;> rcases List.mem_append.mp hb with hb | hb
    · exact hl.exclusive k a b ha hb
    · obtain ⟨hbp, hfree⟩ := hnew b hb
      exact (not_heldByOther hfree ha).trans hbp.symm
    · obtain ⟨hap, hfree⟩ := hnew a ha
      exact hap.trans (not_heldByOther hfree hb).symm
    · exact (hnew a ha).1.trans (hnew b hb).1.symm

theorem query_rely {ask : Db → Answer Write Key ρ} {r : Option ρ}
    (h : s.query E p ask = some (r, s')) (hqp : q ≠ p) : Rely E q s s' := by
  rcases query_cases h with ⟨_, rfl, _⟩ | ⟨log, _, _, _, rfl⟩
  · exact .refl q s'
  refine ⟨Function.update_of_ne hqp _ _, fun k => ?_, [], by simp, rfl, by simp, by simp⟩
  simp only [List.mem_append, List.mem_map, Prod.mk.injEq, or_iff_left_iff_imp]
  rintro ⟨_, _, _, hpq⟩
  exact absurd hpq.symm hqp

omit [DecidableEq Pid] in
theorem autocommit_locked (hl : Locked E s) {ask : Db → Answer Write Key ρ} {r : ρ}
    (h : s.autocommit E p ask = some (r, s')) : Locked E s' := by
  obtain ⟨_, _, rfl⟩ := autocommit_cases h
  exact ⟨hl.log_locked, hl.exclusive⟩

omit [DecidableEq Pid] in
theorem autocommit_rely {ask : Db → Answer Write Key ρ} {r : ρ}
    (h : s.autocommit E p ask = some (r, s')) (hqp : q ≠ p) : Rely E q s s' := by
  obtain ⟨_, hfree, rfl⟩ := autocommit_cases h
  refine ⟨rfl, fun _ => Iff.rfl, ?_⟩
  by_cases hw : (ask s.db).writes = []
  · exact ⟨[], by simp [hw], by simp [hw], by simp, by simp⟩
  refine ⟨[(p, (ask s.db).writes)], by simp [hw], by simp, ?_, ?_⟩
  · simpa using hqp.symm
  · intro b hb w hwb k hk
    rw [List.mem_singleton] at hb
    subst hb
    exact hfree k (List.mem_append_right _ (List.mem_filterMap.mpr ⟨w, hwb, hk⟩)) q

end Steps
end Locking

end ReadCommitted
