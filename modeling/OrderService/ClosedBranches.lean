import OrderService.DeliveredSettled
import OrderService.Interleaving.Trace
import OrderService.LifecycleInTurn
import OrderService.Services.CoreDataCache

/-! Orders for a branch after core has closed it: what the handler of the event leaves in the cache
decides whether the checks of a placement turn them away. -/
namespace OrderService
open Interleaving

section Statement

abbrev CoreDataSys : Type :=
  Sys Pid CoreDataOp CoreDataOp.Res Err CoreDataWorld CoreDataReply

/-- What `placeOrder` asks of the row of a branch. -/
def Branch.takesOrders (branch : Branch) : Bool :=
  branch.isActive && branch.acceptOrders && branch.restaurantStatus = "active"

/-- When the reject flag ends that stands now; one that is set again stands for seven days. -/
def CoreDataWorld.flagEnd (w : CoreDataWorld) (branchId : Nat) : Option Time :=
  ((w.flag branchId).filter fun till => w.world.clock < till).map
    (min (endsAt w.world.clock branchRejectFlagTtl))

variable (branchId : Nat)

/-- Until the branch is open again: its flag stands, no `branch.updated` of it is handled, and core
gives no row of it that takes orders. -/
def Quiet (flagEnd : Option Time) (_ : Pid) (o : CoreDataOp) (e : CoreDataEnv)
    (w : CoreDataWorld) : Prop :=
  (∀ till, flagEnd = some till → w.world.clock < till) ∧
    match o with
    | .requestBranch id => id = branchId → e.answers.branch.takesOrders = false
    | .requestBranches _ => ∀ row ∈ e.branches, row.id = branchId → row.takesOrders = false
    | .delFlag id => id ≠ branchId
    | _ => True

/-- What is done with the cache: no row of the branch that takes orders is stored. -/
def KeepsShut : CoreDataOp → Prop
  | .set (.branch id) row _ => id = branchId → row.takesOrders = false
  | _ => True

/-- What is read: no row of the branch that takes orders. -/
def ToldShut : (o : CoreDataOp) → o.Res → Prop
  | .get (.branch id), found => id = branchId → ∀ row, found = some row → row.takesOrders = false
  | .requestBranch id, row => id = branchId → row.takesOrders = false
  | .requestBranches _, rows => ∀ row ∈ rows, row.id = branchId → row.takesOrders = false
  | _, _ => True

/-- No row that takes orders is cached for the branch, and no call that has read one before is still
to store it. -/
structure RowsShut (s : CoreDataSys) : Prop where
  cached : ∀ row, s.world.lookup (.branch branchId) = some row → row.takesOrders = false
  underway : ∀ q prog, s.procs q = some prog →
    prog.Calls (KeepsShut branchId) (ToldShut branchId) fun _ => True

def Shut (s : CoreDataSys) : Prop := s.world.rejecting branchId = true ∨ RowsShut branchId s

/-- The core event after which the branch takes no orders has done its work. -/
def CoreDataCall.Closes (restaurantOf : Nat → Nat) (s : CoreDataSys) : CoreDataCall → Prop
  | .branchDeactivated id => id = branchId
  | .restaurantSuspended restaurantId => restaurantOf branchId = restaurantId ∧ Shut branchId s
  | _ => False

/-- The operations of a placement up to its check of the flag. -/
def CoreDataOp.IsCheck : CoreDataOp → Prop
  | .get key => key = .branch branchId
  | .requestBranch id => id = branchId
  | .set key _ _ => key = .branch branchId
  | .getFlag id => id = branchId
  | _ => False

/-- The placement has not come past its checks, and never returns an order. -/
def TurnedAway (p : Pid) (t : CoreDataSys) : Prop :=
  (∀ a, t.procs p ≠ some (.pure a)) ∧
    ∀ o k, t.procs p = some (.op o k) → o.IsCheck branchId

end Statement

section Programs
variable {α : Type} {P : CoreDataOp → Prop} {R : (o : CoreDataOp) → o.Res → Prop}

/-- A cached branch is as what was read tells. -/
theorem calls_getCachedBranch {branchId : Nat} {Q : Branch → Prop}
    (hget : P (.get (.branch branchId))) (hrequest : P (.requestBranch branchId))
    (hset : ∀ row, R (.requestBranch branchId) row → P (.set (.branch branchId) row branchCacheTtl))
    (hcached : ∀ row, R (.get (.branch branchId)) (some row) → Q row)
    (hfresh : ∀ row, R (.requestBranch branchId) row → Q row) :
    (getCachedBranch branchId).Calls P R Q := by
  unfold getCachedBranch
  refine Prog.calls_do (Prog.calls_perform hget fun r hr => hr) fun cached hcache => ?_
  cases cached with
  | some row => exact hcached row hcache
  | none =>
    refine Prog.calls_do (Prog.calls_perform hrequest fun r hr => hr) fun row hrow => ?_
    refine Prog.calls_do (Prog.calls_catch (Prog.calls_perform (hset row hrow) fun _ _ => trivial)
      fun _ => trivial) fun _ _ => ?_
    exact hfresh row hrow

/-- What holds of the cached reads holds of a service that makes them. -/
theorem calls_withBranchCache (hsvc : ∀ o, P (.svc o)) (hflag : ∀ id, P (.getFlag id))
    (hbranch : ∀ id, (getCachedBranch id).Calls P R fun _ => True) (prog : Svc α) :
    (withBranchCache prog).Calls P R fun _ => True := by
  have hop : ∀ o : Op, (cachedOp o).Calls P R fun _ => True := by
    intro o
    unfold cachedOp
    split
    · exact hbranch _
    · exact Prog.calls_perform (hflag _) fun _ _ => trivial
    · exact Prog.calls_perform (hsvc _) fun _ _ => trivial
  exact Prog.calls_translate hop prog

theorem calls_lookupBranches (hget : ∀ id, P (.get (.branch id))) (ids : List Nat) :
    (lookupBranches ids).Calls P R fun _ => True := by
  induction ids with
  | nil => trivial
  | cons id ids ih =>
    refine Prog.calls_do (Prog.calls_perform (hget id) fun _ _ => trivial) fun cached _ => ?_
    exact Prog.calls_do ih fun found _ => trivial

theorem calls_storeBranches {rows : List Branch}
    (hset : ∀ row ∈ rows, P (.set (.branch row.id) row branchCacheTtl)) :
    (storeBranches rows).Calls P R fun _ => True := by
  induction rows with
  | nil => trivial
  | cons row rows ih =>
    have hrow : P (.set (.branch row.id) row branchCacheTtl) := hset row List.mem_cons_self
    refine Prog.calls_do (Prog.calls_catch (Prog.calls_perform hrow fun _ _ => trivial)
      fun _ => trivial) fun _ _ => ?_
    exact ih fun other hother => hset other (List.mem_cons_of_mem row hother)

theorem calls_getBranchesByIds (hget : ∀ id, P (.get (.branch id)))
    (hrequest : ∀ ids, P (.requestBranches ids))
    (hset : ∀ ids rows, R (.requestBranches ids) rows →
      ∀ row ∈ rows, P (.set (.branch row.id) row branchCacheTtl)) (ids : List Nat) :
    (getBranchesByIds ids).Calls P R fun _ => True := by
  unfold getBranchesByIds
  refine Prog.calls_do (calls_lookupBranches hget _) fun found _ => ?_
  dsimp only
  split_ifs
  · trivial
  refine Prog.calls_do (Prog.calls_perform (hrequest _) fun r hr => hr) fun rows hrows => ?_
  exact Prog.calls_do (calls_storeBranches (hset _ rows hrows)) fun _ _ => trivial

end Programs

section Calls
variable {P : CoreDataOp → Prop} {R : (o : CoreDataOp) → o.Res → Prop}

/-- An operation that neither stores a row nor sets a flag. -/
def CoreDataOp.Plain : CoreDataOp → Prop
  | .set .. => False
  | .setFlag .. => False
  | _ => True

/-- What the calls do besides: they store what they have read, and set flags for seven days. -/
theorem calls_coreData (hplain : ∀ o : CoreDataOp, o.Plain → P o)
    (hflag : ∀ id, P (.setFlag id branchRejectFlagTtl))
    (hset : ∀ id row, R (.requestBranch id) row → P (.set (.branch id) row branchCacheTtl))
    (hsets : ∀ ids rows, R (.requestBranches ids) rows →
      ∀ row ∈ rows, P (.set (.branch row.id) row branchCacheTtl))
    (hmacSha256 : String → String → String) (cfg : Config) (c : CoreDataCall) :
    (c.prog hmacSha256 cfg).Calls P R fun _ => True := by
  have hdone : ∀ {prog : CoreDataSvc Unit}, prog.Calls P R (fun _ => True) →
      (prog >>= fun _ => pure CoreDataReply.handled).Calls P R fun _ => True := fun h =>
    Prog.calls_do h fun _ _ => trivial
  have hdel : ∀ key, (Prog.perform (CoreDataOp.del key) : CoreDataSvc Unit).Calls P R fun _ => True :=
    fun key => Prog.calls_perform (hplain (.del key) trivial) fun _ _ => trivial
  cases c with
  | call c =>
    refine Prog.calls_do (calls_withBranchCache (fun _ => hplain _ trivial)
      (fun _ => hplain _ trivial) (fun id => ?_) _) fun _ _ => trivial
    exact calls_getCachedBranch (hplain _ trivial) (hplain _ trivial) (hset id)
      (fun _ _ => trivial) fun _ _ => trivial
  | readBranches ids =>
    exact Prog.calls_do (calls_getBranchesByIds (fun _ => hplain _ trivial)
      (fun _ => hplain _ trivial) hsets ids) fun _ _ => trivial
  | branchUpdated id =>
    apply hdone
    unfold handleBranchUpdated
    split_ifs
    · trivial
    · exact Prog.calls_do (hdel _) fun _ _ =>
        Prog.calls_perform (hplain (.delFlag id) trivial) fun _ _ => trivial
  | branchDeactivated id =>
    apply hdone
    unfold handleBranchDeactivated
    split_ifs
    · trivial
    · exact Prog.calls_do (hdel _) fun _ _ => Prog.calls_perform (hflag id) fun _ _ => trivial
  | restaurantSuspended id =>
    apply hdone
    unfold handleRestaurantSuspended
    split_ifs
    · trivial
    · exact hdel _

/-- A call stores a row that takes orders only where it has read one. -/
theorem calls_keepsShut (hmacSha256 : String → String → String) (cfg : Config) (branchId : Nat)
    (c : CoreDataCall) : (c.prog hmacSha256 cfg).Calls (KeepsShut branchId)
      (ToldShut branchId) fun _ => True := by
  refine calls_coreData ?_ (fun _ => trivial) ?_ ?_ hmacSha256 cfg c
  · intro o ho
    cases o with
    | set key row ttl => cases ho
    | _ => trivial
  · intro id row hrow
    exact hrow
  · intro ids rows hrows row hrow
    exact hrows row hrow

/-- A flag that is set is set for seven days. -/
def FlagLasts : CoreDataOp → Prop
  | .setFlag _ ttlSeconds => ttlSeconds = branchRejectFlagTtl
  | _ => True

theorem calls_flagLasts (hmacSha256 : String → String → String) (cfg : Config) (c : CoreDataCall) :
    (c.prog hmacSha256 cfg).Calls FlagLasts (fun _ _ => True) fun _ => True := by
  refine calls_coreData ?_ (fun _ => rfl) (fun _ _ _ => trivial) (fun _ _ _ _ _ => trivial)
    hmacSha256 cfg c
  intro o ho
  cases o with
  | setFlag id ttl => cases ho
  | _ => trivial

theorem takesOrders_of_open {branch : Branch} (h : ¬(!branch.isActive || !branch.acceptOrders ||
    branch.restaurantStatus ≠ "active") = true) : branch.takesOrders = true := by
  unfold Branch.takesOrders
  simpa using h

/-- A placement whose reads find the branch closed, or its flag, is turned away. -/
theorem calls_placeOrder {branchId : Nat}
    (hclosed : (∀ found, R (.getFlag branchId) found → found = some .flag) ∨
      (∀ row, R (.get (.branch branchId)) (some row) → row.takesOrders = false) ∧
        ∀ row, R (.requestBranch branchId) row → row.takesOrders = false)
    (hget : P (.get (.branch branchId))) (hrequest : P (.requestBranch branchId))
    (hset : ∀ row, R (.requestBranch branchId) row → P (.set (.branch branchId) row branchCacheTtl))
    (hflag : P (.getFlag branchId)) (hmacSha256 : String → String → String) (cfg : Config)
    (actor : ActorContext) (region : Option String) {dto : CreateOrderRequest}
    (hdto : dto.branchId = branchId) :
    (CoreDataCall.prog hmacSha256 cfg (.call (.placeOrder actor region dto))).Calls P R
      fun _ => False := by
  have hchecks : (withBranchCache (placeOrder cfg actor region dto)).Calls P R fun _ => False := by
    unfold placeOrder getBranch
    rw [withBranchCache, Prog.translate_do, Prog.translate_perform, hdto]
    rcases hclosed with hstanding | ⟨hcached, hfresh⟩
    · refine Prog.calls_do (calls_getCachedBranch hget hrequest hset (fun _ _ => trivial)
        fun _ _ => trivial) fun branch _ => ?_
      split_ifs
      · trivial
      · unfold cache
        rw [Prog.translate_do, Prog.translate_perform]
        refine Prog.calls_do (Prog.calls_perform hflag hstanding) fun flag hfound => ?_
        rw [if_pos hfound]
        trivial
    · refine Prog.calls_do (calls_getCachedBranch hget hrequest hset hcached hfresh)
        fun branch hshut => ?_
      split_ifs with hopen
      · trivial
      · rw [takesOrders_of_open hopen] at hshut
        cases hshut
  have hcall : (withBranchCache (Call.prog hmacSha256 cfg (.placeOrder actor region dto))).Calls
      P R fun _ => False := by
    unfold Call.prog
    rw [withBranchCache, Prog.translate_do]
    exact Prog.calls_do hchecks fun _ h => h.elim
  exact Prog.calls_do hcall fun _ h => h.elim

end Calls

section Steps
variable {branchId : Nat} {p : Pid} {o : CoreDataOp} {e : CoreDataEnv} {w w' : CoreDataWorld}
  {r : Except Err o.Res}

/-- An operation of a service touches neither the core data nor the flags, one that fails changes
nothing, and any other runs. -/
theorem execCoreData_cases (hx : execCoreData p o e w = some (r, w')) :
    w'.world.clock = w.world.clock ∧
      ((∃ so, o = .svc so) ∧ w'.entry = w.entry ∧ w'.flag = w.flag ∨
        w' = w ∧ (∀ a, r ≠ .ok a) ∨
        e.answers.fail = false ∧ ∃ a, r = .ok a ∧ o.run w e = some (a, w')) := by
  cases o with
  | svc so =>
    obtain ⟨⟨r', w₁⟩, ha, heq⟩ := Option.map_eq_some_iff.mp hx
    cases heq
    exact ⟨(exec_clock ha).1, .inl ⟨⟨so, rfl⟩, rfl, rfl⟩⟩
  | _ =>
    simp only [execCoreData] at hx
    cases hfail : e.answers.fail with
    | true =>
      rw [hfail, if_pos rfl] at hx
      cases hx
      exact ⟨rfl, .inr (.inl ⟨rfl, fun a h => by cases h⟩)⟩
    | false =>
      rw [hfail, if_neg Bool.false_ne_true] at hx
      obtain ⟨a, ha, heq⟩ := Option.map_eq_some_iff.mp hx
      cases heq
      have hclock : a.2.world.clock = w.world.clock := by
        cases ha
        rfl
      exact ⟨hclock, .inr (.inr ⟨rfl, a.1, rfl, ha⟩)⟩

/-- The flag of the branch stands until `till` at least. -/
def FlagStands (branchId : Nat) (since till : Time) (w : CoreDataWorld) : Prop :=
  since ≤ w.world.clock ∧ ∃ t, w.flag branchId = some t ∧ till ≤ t

theorem flagStands_exec {since till : Time} (htill : till ≤ endsAt since branchRejectFlagTtl)
    (hquiet : Quiet branchId (some till) p o e w) (hlasts : FlagLasts o)
    (hw : FlagStands branchId since till w) (hx : execCoreData p o e w = some (r, w')) :
    FlagStands branchId since till w' := by
  obtain ⟨hsince, t, hflag, ht⟩ := hw
  obtain ⟨hclock, ⟨-, -, hsame⟩ | ⟨hsame, -⟩ | ⟨-, a, -, hrun⟩⟩ := execCoreData_cases hx
  · exact ⟨hclock ▸ hsince, t, hsame ▸ hflag, ht⟩
  · exact hsame ▸ ⟨hsince, t, hflag, ht⟩
  · refine ⟨hclock ▸ hsince, ?_⟩
    cases o with
    | svc so => cases hrun
    | setFlag id ttl =>
      cases hrun
      by_cases hid : id = branchId
      · subst hid
        have httl : ttl = branchRejectFlagTtl := hlasts
        refine ⟨_, Function.update_self _ _ _, htill.trans ?_⟩
        rw [httl]
        exact Nat.add_le_add_right hsince _
      · exact ⟨t, (Function.update_of_ne (Ne.symm hid) _ _).trans hflag, ht⟩
    | delFlag id =>
      cases hrun
      have hid : id ≠ branchId := hquiet.2
      exact ⟨t, (Function.update_of_ne (Ne.symm hid) _ _).trans hflag, ht⟩
    | _ =>
      cases hrun
      exact ⟨t, hflag, ht⟩

/-- The rows of the branch in the cache take no orders. -/
def CachedShut (branchId : Nat) (w : CoreDataWorld) : Prop :=
  ∀ row, w.lookup (.branch branchId) = some row → row.takesOrders = false

theorem lookup_eq_some {key : CoreKey} {row : Branch} :
    w.lookup key = some row ↔ ∃ till, w.entry key = some ⟨row, till⟩ ∧ w.world.clock < till := by
  unfold CoreDataWorld.lookup
  rw [Option.map_eq_some_iff]
  constructor
  · intro h
    obtain ⟨⟨row', till⟩, hfilter, heq⟩ := h
    obtain ⟨hentry, hlive⟩ := Option.filter_eq_some_iff.mp hfilter
    cases heq
    exact ⟨till, hentry, of_decide_eq_true hlive⟩
  · intro h
    obtain ⟨till, hentry, hlive⟩ := h
    exact ⟨⟨row, till⟩, Option.filter_eq_some_iff.mpr ⟨hentry, decide_eq_true hlive⟩, rfl⟩

/-- An entry that has not changed takes no orders later either. -/
theorem CachedShut.later (h : CachedShut branchId w)
    (hentry : w'.entry (.branch branchId) = w.entry (.branch branchId))
    (hclock : w.world.clock ≤ w'.world.clock) : CachedShut branchId w' := by
  intro row hrow
  obtain ⟨till, hfound, hlive⟩ := lookup_eq_some.mp hrow
  rw [hentry] at hfound
  exact h row (lookup_eq_some.mpr ⟨till, hfound, Nat.lt_of_le_of_lt hclock hlive⟩)

theorem cachedShut_exec (hkeeps : KeepsShut branchId o) (hw : CachedShut branchId w)
    (hx : execCoreData p o e w = some (r, w')) : CachedShut branchId w' := by
  obtain ⟨hclock, ⟨-, hsame, -⟩ | ⟨hsame, -⟩ | ⟨-, a, -, hrun⟩⟩ := execCoreData_cases hx
  · exact hw.later (by rw [hsame]) hclock.ge
  · exact hsame ▸ hw
  · cases o with
    | svc so => cases hrun
    | set key row ttl =>
      cases hrun
      by_cases hkey : key = .branch branchId
      · subst hkey
        intro row' hrow'
        obtain ⟨till, hfound, -⟩ := lookup_eq_some.mp hrow'
        simp only [Function.update_self, Option.some.injEq, CoreEntry.mk.injEq] at hfound
        rw [← hfound.1]
        exact hkeeps rfl
      · exact hw.later (Function.update_of_ne (Ne.symm hkey) _ _) hclock.ge
    | del key =>
      cases hrun
      by_cases hkey : key = .branch branchId
      · subst hkey
        intro row' hrow'
        obtain ⟨till, hfound, -⟩ := lookup_eq_some.mp hrow'
        simp only [Function.update_self, reduceCtorEq] at hfound
      · exact hw.later (Function.update_of_ne (Ne.symm hkey) _ _) hclock.ge
    | _ =>
      cases hrun
      exact hw

/-- What the cache and core tell of a branch whose rows take no orders. -/
theorem toldShut_exec {flagEnd : Option Time} (hquiet : Quiet branchId flagEnd p o e w)
    (hw : CachedShut branchId w) {a : o.Res}
    (hx : execCoreData p o e w = some (.ok a, w')) : ToldShut branchId o a := by
  obtain ⟨-, ⟨⟨so, rfl⟩, -⟩ | ⟨-, hno⟩ | ⟨-, a', ha, hrun⟩⟩ := execCoreData_cases hx
  · trivial
  · exact absurd rfl (hno a)
  · cases ha
    cases o with
    | svc so => trivial
    | get key =>
      cases hrun
      cases key with
      | branch id =>
        intro hid row hrow
        subst hid
        exact hw row hrow
      | restaurant id => trivial
    | requestBranch id =>
      cases hrun
      exact hquiet.2
    | requestBranches ids =>
      cases hrun
      exact hquiet.2
    | _ => trivial

/-- A read of the flag finds it. -/
def ToldFlag (branchId : Nat) : (o : CoreDataOp) → o.Res → Prop
  | .getFlag id, found => id = branchId → found = some .flag
  | _, _ => True

theorem toldFlag_exec {since till : Time} (hquiet : Quiet branchId (some till) p o e w)
    (hw : FlagStands branchId since till w) {a : o.Res}
    (hx : execCoreData p o e w = some (.ok a, w')) : ToldFlag branchId o a := by
  obtain ⟨-, ⟨⟨so, rfl⟩, -⟩ | ⟨-, hno⟩ | ⟨-, a', ha, hrun⟩⟩ := execCoreData_cases hx
  · trivial
  · exact absurd rfl (hno a)
  · cases ha
    cases o with
    | getFlag id =>
      cases hrun
      intro hid
      subst hid
      obtain ⟨-, t, hflag, ht⟩ := hw
      have hlive : w.world.clock < t := Nat.lt_of_lt_of_le (hquiet.1 till rfl) ht
      have hrejecting : w.rejecting id = true := by
        unfold CoreDataWorld.rejecting
        rw [hflag]
        exact decide_eq_true hlive
      exact if_pos hrejecting
    | _ => trivial

end Steps

section Result
variable {hmacSha256 : String → String → String} {cfg : Config} {branchId : Nat} {s t : CoreDataSys}
  {p : Pid} {actor : ActorContext} {region : Option String} {dto : CreateOrderRequest}

/-- A placement that has still all to do stays in its checks, if what the calls do keeps `J` and
`J` gives what makes the checks fail. -/
theorem turnedAway_told {flagEnd : Option Time} {P : CoreDataOp → Prop}
    {R : (o : CoreDataOp) → o.Res → Prop} {J : CoreDataWorld → Prop}
    {prog : CoreDataSvc CoreDataReply} (hlate : s.procs p = some prog)
    (hplace : prog.Calls (fun o => o.IsCheck branchId ∧ P o) R fun _ => False)
    (hothers : ∀ q prog, s.procs q = some prog → prog.Calls P R fun _ => True)
    (hexec : ∀ q o e w r w', P o → Quiet branchId flagEnd q o e w → J w →
      coreDataMachine.exec q o e w = some (r, w') → J w' ∧ ∀ a, r = .ok a → R o a)
    (hcrash : ∀ q w, J w → J (coreDataMachine.crash q w))
    (hext : ∀ x w, J w → J (coreDataMachine.ext x w)) (hJ : J s.world)
    (ht : coreDataMachine.Reaches (Quiet branchId flagEnd) s t) : TurnedAway branchId p t := by
  have hcalls : ∀ q prog', s.procs q = some prog' →
      prog'.Calls (fun o => P o ∧ (q = p → o.IsCheck branchId)) R fun _ => q ≠ p := by
    intro q prog' hq
    by_cases hqp : q = p
    · rw [hqp, hlate] at hq
      cases hq
      exact (hplace.weaken fun o ho => ⟨ho.2, fun _ => ho.1⟩).mono fun _ h => h.elim
    · exact ((hothers q prog' hq).weaken fun o ho => ⟨ho, fun h => absurd h hqp⟩).mono
        fun _ _ => hqp
  obtain ⟨-, hprocs⟩ := ht.told hcalls
    (fun q o e w r w' ho hquiet hw hx => hexec q o e w r w' ho.1 hquiet hw hx) hcrash hext hJ
  exact ⟨fun a ha => (hprocs p _ ha) rfl, fun o k hp => (hprocs p _ hp).1.2 rfl⟩

/-- The flag turns every placement away that comes later. -/
theorem turnedAway_flag {till : Time} (htill : till ≤ endsAt s.world.world.clock branchRejectFlagTtl)
    (hflag : FlagStands branchId s.world.world.clock till s.world)
    (hprogs : ∀ q prog, s.procs q = some prog →
      prog.Calls FlagLasts (fun _ _ => True) fun _ => True)
    (hdto : dto.branchId = branchId)
    (hlate : s.procs p
      = some (CoreDataCall.prog hmacSha256 cfg (.call (.placeOrder actor region dto))))
    (ht : coreDataMachine.Reaches (Quiet branchId (some till)) s t) : TurnedAway branchId p t := by
  refine turnedAway_told (P := FlagLasts) (R := ToldFlag branchId) hlate ?_ ?_ ?_ ?_ ?_ hflag ht
  · refine calls_placeOrder (.inl fun found h => h rfl) ?_ ?_ ?_ ?_ hmacSha256 cfg actor region hdto
    · exact ⟨rfl, trivial⟩
    · exact ⟨rfl, trivial⟩
    · exact fun _ _ => ⟨rfl, trivial⟩
    · exact ⟨rfl, trivial⟩
  · exact fun q prog hq => (hprogs q prog hq).told fun _ _ _ => trivial
  · intro q o e w r w' ho hquiet hw hx
    refine ⟨flagStands_exec htill hquiet ho hw hx, fun a ha => ?_⟩
    subst ha
    exact toldFlag_exec hquiet hw hx
  · exact fun q w hw => hw
  · exact fun x w hw => ⟨hw.1.trans (ext_clock x w.world), hw.2⟩

/-- Without a row that takes orders every placement is turned away that comes later. -/
theorem turnedAway_rows {flagEnd : Option Time} (hshut : RowsShut branchId s)
    (hdto : dto.branchId = branchId)
    (hlate : s.procs p
      = some (CoreDataCall.prog hmacSha256 cfg (.call (.placeOrder actor region dto))))
    (ht : coreDataMachine.Reaches (Quiet branchId flagEnd) s t) : TurnedAway branchId p t := by
  refine turnedAway_told (P := KeepsShut branchId) (R := ToldShut branchId)
    (J := CachedShut branchId) hlate ?_ hshut.underway ?_ ?_ ?_ hshut.cached ht
  · refine calls_placeOrder (.inr ⟨fun row h => h rfl row rfl, fun row h => h rfl⟩) ?_ ?_ ?_ ?_
      hmacSha256 cfg actor region hdto
    · exact ⟨rfl, trivial⟩
    · exact ⟨rfl, trivial⟩
    · exact fun row hrow => ⟨rfl, hrow⟩
    · exact ⟨rfl, trivial⟩
  · intro q o e w r w' ho hquiet hw hx
    refine ⟨cachedShut_exec ho hw hx, fun a ha => ?_⟩
    subst ha
    exact toldShut_exec hquiet hw hx
  · exact fun q w hw => hw.later rfl (le_refl _)
  · exact fun x w hw => hw.later rfl (ext_clock x w.world)

variable {calls : Pid → Option CoreDataCall} {w : CoreDataWorld} {s₀ : CoreDataSys}

/-- In a run of calls each of them sets flags for seven days only. -/
theorem flagLasts_reached (hreach : coreDataMachine.Reaches (fun _ _ _ _ => True)
      (servingCoreData hmacSha256 cfg calls w) s) (q : Pid) (prog : CoreDataSvc CoreDataReply)
    (hq : s.procs q = some prog) : prog.Calls FlagLasts (fun _ _ => True) fun _ => True := by
  have hstart : ∀ q prog, (servingCoreData hmacSha256 cfg calls w).procs q = some prog →
      prog.Calls FlagLasts (fun _ _ => True) fun _ => True := by
    intro q prog hq
    obtain ⟨c, -, rfl⟩ := Option.map_eq_some_iff.mp hq
    exact calls_flagLasts hmacSha256 cfg c
  refine (Machine.Reaches.told (P := fun _ => FlagLasts) (Q := fun _ _ => True)
    (J := fun _ => True) hstart ?_ ?_ ?_ trivial hreach).2 q prog hq
  · exact fun _ _ _ _ _ _ _ _ _ _ => ⟨trivial, fun _ _ => trivial⟩
  · exact fun _ _ _ => trivial
  · exact fun _ _ _ => trivial

/-- A handling of `branch.deactivated` that is not over: before its first operation, or before the
one that sets the flag. -/
theorem stage_of_leads {id : Nat} {o : CoreDataOp}
    {k : Except Err o.Res → CoreDataSvc CoreDataReply}
    (h : ((CoreDataCall.branchDeactivated id).prog hmacSha256 cfg).Leads (.op o k)) :
    .op o k = (CoreDataCall.branchDeactivated id).prog hmacSha256 cfg ∨
      .op o k = (Prog.perform (CoreDataOp.setFlag id branchRejectFlagTtl) >>= fun _ =>
        pure .handled : CoreDataSvc CoreDataReply) := by
  have hstage : ∀ prog : CoreDataSvc CoreDataReply,
      ((CoreDataCall.branchDeactivated id).prog hmacSha256 cfg).Leads prog →
        prog = (CoreDataCall.branchDeactivated id).prog hmacSha256 cfg ∨
        prog = (Prog.perform (CoreDataOp.setFlag id branchRejectFlagTtl) >>= fun _ =>
          pure .handled : CoreDataSvc CoreDataReply) ∨
        ∃ r : Except Err CoreDataReply, prog = Prog.ofExcept r := by
    intro prog hprog
    induction hprog with
    | refl => exact .inl rfl
    | next r _ ih =>
      rcases ih with hstart | hflag | ⟨r', hover⟩
      · simp only [CoreDataCall.prog, handleBranchDeactivated] at hstart
        split_ifs at hstart
        · cases hstart
        · cases hstart
          cases r with
          | error err => exact .inr (.inr ⟨.error err, rfl⟩)
          | ok a => exact .inr (.inl rfl)
      · cases hflag
        cases r with
        | error err => exact .inr (.inr ⟨.error err, rfl⟩)
        | ok a => exact .inr (.inr ⟨.ok .handled, rfl⟩)
      · cases r' <;> cases hover
  rcases hstage _ h with hstart | hflag | ⟨r', hover⟩
  · exact .inl hstart
  · exact .inr hflag
  · cases r' <;> cases hover

theorem endsAt_live (clock : Time) : clock < endsAt clock branchRejectFlagTtl := by
  have hpos : 0 < branchRejectFlagTtl * 1000 := by decide
  unfold endsAt
  generalize branchRejectFlagTtl * 1000 = d at hpos
  exact Nat.lt_add_of_pos_right hpos

theorem rejecting_setFlag {id ttl : Nat} {w w' : CoreDataWorld} {e : CoreDataEnv} {a : Unit}
    (hlive : w.world.clock < endsAt w.world.clock ttl)
    (hrun : (CoreDataOp.setFlag id ttl).run w e = some (a, w')) : w'.rejecting id = true := by
  have hw' : w' = { w with
      flag := Function.update w.flag id (some (endsAt w.world.clock ttl)) } :=
    (congrArg Prod.snd (Option.some.inj hrun)).symm
  have hflag : w'.flag id = some (endsAt w.world.clock ttl) := by
    rw [hw']
    exact Function.update_self _ _ _
  have hclock : w'.world.clock = w.world.clock := by rw [hw']
  unfold CoreDataWorld.rejecting
  rw [hflag, hclock]
  exact decide_eq_true hlive

/-- When the handling of `branch.deactivated` returns, the flag of the branch stands. -/
theorem rejecting_of_deactivated (hreach : coreDataMachine.Reaches (fun _ _ _ _ => True)
      (servingCoreData hmacSha256 cfg calls w) s₀) {q : Pid} {e : CoreDataEnv}
    (hcall : calls q = some (.branchDeactivated branchId))
    (hstep : coreDataMachine.step (.act q e) s₀ = some s) {a : CoreDataReply}
    (hret : s.procs q = some (.pure a)) : s.world.rejecting branchId = true := by
  simp only [Machine.step] at hstep
  split at hstep
  case h_2 => cases hstep
  case h_1 o k hq =>
    obtain ⟨⟨r, w'⟩, hx, rfl⟩ := Option.map_eq_some_iff.mp hstep
    obtain ⟨whole, hwhole, hleads⟩ := hreach.leads hq
    have hstart : whole = (CoreDataCall.branchDeactivated branchId).prog hmacSha256 cfg := by
      have hmap : (calls q).map (CoreDataCall.prog hmacSha256 cfg) = some whole := hwhole
      rw [hcall] at hmap
      exact (Option.some.inj hmap).symm
    rw [hstart] at hleads
    simp only [Function.update_self, Option.some.injEq] at hret
    rcases stage_of_leads hleads with hfirst | hlast
    · -- after the first operation the flag is still to be set
      simp only [CoreDataCall.prog, handleBranchDeactivated] at hfirst
      split_ifs at hfirst
      · cases hfirst
      · cases hfirst
        cases r <;> cases hret
    · cases hlast
      cases r with
      | error err => cases hret
      | ok u =>
        have hset : execCoreData q (.setFlag branchId branchRejectFlagTtl) e s₀.world
            = some (.ok u, w') := hx
        obtain ⟨-, ⟨⟨so, ho⟩, -⟩ | ⟨-, hno⟩ | ⟨-, a', -, hrun⟩⟩ := execCoreData_cases hset
        · cases ho
        · exact absurd rfl (hno u)
        · exact rejecting_setFlag (endsAt_live _) hrun

theorem flagStands_of_rejecting {w : CoreDataWorld} (h : w.rejecting branchId = true) :
    ∃ till, w.flagEnd branchId = some till ∧ till ≤ endsAt w.world.clock branchRejectFlagTtl ∧
      FlagStands branchId w.world.clock till w := by
  unfold CoreDataWorld.rejecting at h
  obtain ⟨t, hflag, hlive⟩ := (Option.any_eq_true _ _).mp h
  refine ⟨min (endsAt w.world.clock branchRejectFlagTtl) t, ?_, min_le_left _ _, le_refl _, t, hflag,
    min_le_right _ _⟩
  have hfilter : (some t).filter (fun till => w.world.clock < till) = some t :=
    Option.filter_eq_some_iff.mpr ⟨rfl, hlive⟩
  unfold CoreDataWorld.flagEnd
  rw [hflag, hfilter, Option.map_some]

/-- Core closes a branch, and its event has been handled: until the branch is open again every
placement that comes later is turned away. After `branch.deactivated` the flag sees to that; after
`restaurant.suspended` it takes a flag, or a cache without a row that takes orders. -/
theorem closed_branch_rejects (restaurantOf : Nat → Nat)
    (hreach : coreDataMachine.Reaches (fun _ _ _ _ => True)
      (servingCoreData hmacSha256 cfg calls w) s₀) {q : Pid} {ev : CoreDataCall}
    (hcall : calls q = some ev) {e : CoreDataEnv}
    (hstep : coreDataMachine.step (.act q e) s₀ = some s) {a : CoreDataReply}
    (hret : s.procs q = some (.pure a)) (hcloses : ev.Closes branchId restaurantOf s)
    (hdto : dto.branchId = branchId)
    (hlate : s.procs p
      = some (CoreDataCall.prog hmacSha256 cfg (.call (.placeOrder actor region dto))))
    (ht : coreDataMachine.Reaches (Quiet branchId (s.world.flagEnd branchId)) s t) :
    TurnedAway branchId p t := by
  have hs : coreDataMachine.Reaches (fun _ _ _ _ => True)
      (servingCoreData hmacSha256 cfg calls w) s := .step (.act q e) hreach (Machine.meets_true _ _) hstep
  have hrejecting : s.world.rejecting branchId = true → TurnedAway branchId p t := by
    intro h
    obtain ⟨till, hend, htill, hstands⟩ := flagStands_of_rejecting h
    rw [hend] at ht
    exact turnedAway_flag htill hstands (flagLasts_reached hs) hdto hlate ht
  cases ev with
  | branchDeactivated id =>
    have hid : id = branchId := hcloses
    rw [hid] at hcall
    exact hrejecting (rejecting_of_deactivated hreach hcall hstep hret)
  | restaurantSuspended restaurantId =>
    rcases hcloses.2 with hflag | hrows
    · exact hrejecting hflag
    · exact turnedAway_rows hrows hdto hlate ht
  | _ => exact hcloses.elim

end Result

section Samples

/-- Branch 1 is cached as open, for an hour. -/
def openCached : CoreDataWorld where
  world := emptyShard
  entry := Function.update (fun _ => none) (.branch 1) (some ⟨kosharyAnswers.branch, 3600000⟩)

def closedBranch : Branch := { kosharyAnswers.branch with isActive := false }

/-- The event about branch 1 or restaurant 1, and the placement of a cash order for branch 1. -/
def eventAndOrder (ev : CoreDataCall) : Pid → Option CoreDataCall
  | 0 => some ev
  | 1 => some (.call placeCashOrder)
  | _ => none

def beforeEvent (ev : CoreDataCall) : CoreDataSys :=
  servingCoreData (fun _ _ => "") sampleConfig (eventAndOrder ev) openCached

def hasReturned (s : CoreDataSys) (p : Pid) : Bool :=
  match s.procs p with
  | some (.pure _) => true
  | _ => false

theorem of_hasReturned {s : CoreDataSys} {p : Pid} (h : hasReturned s p = true) :
    ∃ a, s.procs p = some (.pure a) := by
  unfold hasReturned at h
  split at h
  · next a ha => exact ⟨a, ha⟩
  · cases h

/-- A step with which the branch stays closed. -/
def staysClosed (flagEnd : Option Time) (_ : Pid) (o : CoreDataOp) (e : CoreDataEnv)
    (w : CoreDataWorld) : Bool :=
  flagEnd.all (fun till => w.world.clock < till) &&
    match o with
    | .requestBranch _ => !e.answers.branch.takesOrders
    | .requestBranches _ => e.branches.all fun row => !row.takesOrders
    | .delFlag _ => false
    | _ => true

theorem quiet_of_staysClosed {branchId : Nat} {flagEnd : Option Time} (p : Pid) (o : CoreDataOp)
    (e : CoreDataEnv) (w : CoreDataWorld) (h : staysClosed flagEnd p o e w = true) :
    Quiet branchId flagEnd p o e w := by
  obtain ⟨hflag, hop⟩ := Bool.and_eq_true_iff.mp h
  constructor
  · intro till hend
    rw [hend] at hflag
    exact of_decide_eq_true hflag
  · cases o with
    | requestBranch id => exact fun _ => by simpa using hop
    | requestBranches ids => exact fun row hrow _ => by simpa using List.all_eq_true.mp hop row hrow
    | delFlag id => cases hop
    | _ => trivial

/-- The event is handled, with `handled` operations before the last one, and then the order is
placed. -/
def orderAfter (ev : CoreDataCall) (handled steps : Nat) (answers : Env) :
    Option (CoreDataSys × CoreDataSys × CoreDataSys) :=
  (coreDataMachine.run (fun _ _ _ _ => true) ((List.replicate handled {}).map (.act 0))
    (beforeEvent ev)).bind fun s₀ =>
      (coreDataMachine.step (.act 0 {}) s₀).bind fun s =>
        (coreDataMachine.run (staysClosed (s.world.flagEnd 1))
          ((List.replicate steps ⟨answers, []⟩).map (.act 1)) s).map fun t => (s₀, s, t)

theorem of_orderAfter {ev : CoreDataCall} {handled steps : Nat} {answers : Env}
    {s₀ s t : CoreDataSys} (h : orderAfter ev handled steps answers = some (s₀, s, t)) :
    coreDataMachine.Reaches (fun _ _ _ _ => True) (beforeEvent ev) s₀ ∧
      coreDataMachine.step (.act 0 {}) s₀ = some s ∧
      s.procs 1 = some (CoreDataCall.prog (fun _ _ => "") sampleConfig (.call placeCashOrder)) ∧
      coreDataMachine.Reaches (Quiet 1 (s.world.flagEnd 1)) s t := by
  obtain ⟨u₀, hfirst, hrest⟩ := Option.bind_eq_some_iff.mp h
  obtain ⟨u, hstep, hmap⟩ := Option.bind_eq_some_iff.mp hrest
  obtain ⟨v, ht, heq⟩ := Option.map_eq_some_iff.mp hmap
  cases heq
  have hother : ∀ l ∈ (List.replicate handled ({} : CoreDataEnv)).map (Label.act (0 : Pid)),
      (l : Label Pid CoreDataEnv Ext).process ≠ some 1 := by
    intro l hl
    obtain ⟨e, -, rfl⟩ := List.mem_map.mp hl
    exact fun h => by cases h
  have hlate : s.procs 1 = (beforeEvent ev).procs 1 :=
    (Machine.step_other (fun h => by cases h) hstep).trans (Machine.run_other _ hother hfirst)
  exact ⟨Machine.reaches_of_run (fun _ _ _ _ _ => trivial) _ hfirst, hstep, hlate,
    Machine.reaches_of_run quiet_of_staysClosed _ ht⟩

/-- Branch 1 is deactivated, and an order placed there later finds it closed in core. -/
theorem closed_branch_rejects_deactivated :
    ∃ s t, s.procs 1
        = some (CoreDataCall.prog (fun _ _ => "") sampleConfig (.call placeCashOrder)) ∧
      coreDataMachine.Reaches (Quiet 1 (s.world.flagEnd 1)) s t ∧
      (t.world.lookup (.branch 1)).map Branch.takesOrders = some false ∧ TurnedAway 1 1 t := by
  have hrun : (orderAfter (.branchDeactivated 1) 1 3 { branch := closedBranch }).any (fun a =>
      hasReturned a.2.1 0 &&
        (a.2.2.world.lookup (.branch 1)).map Branch.takesOrders = some false) = true := by
    decide +kernel
  obtain ⟨⟨s₀, s, t⟩, hafter, hholds⟩ := (Option.any_eq_true _ _).mp hrun
  obtain ⟨hreach, hstep, hlate, ht⟩ := of_orderAfter hafter
  obtain ⟨hhandled, hstored⟩ := Bool.and_eq_true_iff.mp hholds
  obtain ⟨a, ha⟩ := of_hasReturned hhandled
  have hcall : eventAndOrder (.branchDeactivated 1) 0 = some (.branchDeactivated 1) := rfl
  have hcloses : (CoreDataCall.branchDeactivated 1).Closes 1 (fun _ => 1) s := rfl
  exact ⟨s, t, hlate, ht, of_decide_eq_true hstored,
    closed_branch_rejects (fun _ => 1) hreach hcall hstep ha hcloses rfl hlate ht⟩

/-- Restaurant 1 is suspended and its event handled; its branch is still cached as open, and an
order is placed there. -/
theorem suspended_restaurant_takes_orders :
    ∃ s₀ s t, coreDataMachine.Reaches (fun _ _ _ _ => True)
        (beforeEvent (.restaurantSuspended 1)) s₀ ∧
      coreDataMachine.step (.act 0 {}) s₀ = some s ∧ (∃ a, s.procs 0 = some (.pure a)) ∧
      s.procs 1 = some (CoreDataCall.prog (fun _ _ => "") sampleConfig (.call placeCashOrder)) ∧
      coreDataMachine.Reaches (Quiet 1 (s.world.flagEnd 1)) s t ∧
      t.world.world.store.db.orders.map OrderEntity.branchId = [1] ∧ ¬TurnedAway 1 1 t := by
  have hrun : (orderAfter (.restaurantSuspended 1) 0 15 kosharyAnswers).any (fun a =>
      hasReturned a.2.1 0 && (hasReturned a.2.2 1 &&
        a.2.2.world.world.store.db.orders.map OrderEntity.branchId = [1])) = true := by
    decide +kernel
  obtain ⟨⟨s₀, s, t⟩, hafter, hholds⟩ := (Option.any_eq_true _ _).mp hrun
  obtain ⟨hreach, hstep, hlate, ht⟩ := of_orderAfter hafter
  obtain ⟨hhandled, hplaced⟩ := Bool.and_eq_true_iff.mp hholds
  obtain ⟨hreturned, horders⟩ := Bool.and_eq_true_iff.mp hplaced
  refine ⟨s₀, s, t, hreach, hstep, of_hasReturned hhandled, hlate, ht,
    of_decide_eq_true horders, fun haway => ?_⟩
  obtain ⟨a, ha⟩ := of_hasReturned hreturned
  exact haway.1 a ha

end Samples

end OrderService
