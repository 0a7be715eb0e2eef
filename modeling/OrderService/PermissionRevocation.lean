import OrderService.Interleaving.Trace
import OrderService.Services.PermissionCache

/-! Permissions after a revocation: the event of a change is handled by one process, and each of
them answers from a cache of its own. -/
namespace OrderService
open Interleaving

section Statement

/-- The event is about the role, or about all of them. -/
def RbacWorld.Concerns (w : RbacWorld) (n : Nat) (role : String) : Prop :=
  w.events[n]? = some none ∨ w.events[n]? = some (some role)

/-- When an event is acked no process whose cache was not cleared for it still answers with a list
from before it; and no list is stored on a process on which an event after it has been handled, or
on any process once such an event is acked. -/
def Revokes (node : Pid → Nat) (p : Pid) (o : RbacOp) (_ : RbacEnv) (w : RbacWorld) : Prop :=
  match o with
  | .ack n => ∀ d role entry, (n, d) ∉ w.cleared → w.Concerns n role →
    w.cache d role = some entry → w.live entry = true → n < entry.list.asOf
  | .set role list => ∀ n, w.Concerns n role → (n ∈ w.acked ∨ (n, node p) ∈ w.cleared) →
    n < list.asOf
  | _ => True

end Statement

section Spec
variable {node : Pid → Nat} {w w' : RbacWorld} {p : Pid}

structure RbacInv (w : RbacWorld) : Prop where
  acked : ∀ n ∈ w.acked, n < w.events.length
  cleared : ∀ n d, (n, d) ∈ w.cleared → n < w.events.length
  clean : ∀ n d role entry, (n, d) ∈ w.cleared → w.Concerns n role →
    w.cache d role = some entry → n < entry.list.asOf
  fresh : ∀ n d role entry, n ∈ w.acked → w.Concerns n role → w.cache d role = some entry →
    w.live entry = true → n < entry.list.asOf

structure RbacRely (w w' : RbacWorld) : Prop where
  events : w.events <+: w'.events
  acked : ∀ n ∈ w.acked, n ∈ w'.acked

def rbacSpec : Spec Pid RbacWorld := ⟨RbacInv, fun _ => RbacRely⟩

theorem rbacRely_refl (w : RbacWorld) : RbacRely w w := ⟨List.prefix_refl _, fun _ h => h⟩

theorem events_later {n : Nat} {role : Option String} (hr : RbacRely w w')
    (h : w.events[n]? = some role) : w'.events[n]? = some role := by
  obtain ⟨more, hmore⟩ := hr.events
  rw [← hmore, List.getElem?_append_left (List.getElem?_eq_some_iff.mp h).1]
  exact h

theorem RbacWorld.Concerns.later {n : Nat} {role : String} (hr : RbacRely w w')
    (h : w.Concerns n role) : w'.Concerns n role :=
  h.imp (events_later hr) (events_later hr)

/-- What an event that was there before is about has not changed. -/
theorem RbacWorld.Concerns.before {n : Nat} {role : String} {events : List (Option String)}
    (h : RbacWorld.Concerns { w with events := w.events ++ events } n role)
    (hn : n < w.events.length) : w.Concerns n role := by
  unfold RbacWorld.Concerns at h ⊢
  rwa [List.getElem?_append_left hn] at h

theorem invalidated_le {role : Option String} {cache : String → Option CachedPermissions}
    {r : String} {entry : CachedPermissions} (h : invalidated role cache r = some entry) :
    cache r = some entry := by
  unfold invalidated at h
  split at h
  · cases h
  · next r' =>
    split_ifs at h
    by_cases hr : r = r'
    · rw [hr, Function.update_self] at h
      cases h
    · rwa [Function.update_of_ne hr] at h

/-- Handling an event takes the lists out that it is about. -/
theorem invalidated_concerned {n : Nat} {role : Option String} {r : String}
    (cache : String → Option CachedPermissions) (hevent : w.events[n]? = some role)
    (hconcerns : w.Concerns n r) : invalidated role cache r = none := by
  unfold invalidated
  rcases hconcerns with hall | hone
  · rw [hevent] at hall
    cases hall
    rfl
  · rw [hevent] at hone
    cases hone
    show (if r = "" then fun _ => none else Function.update cache r none) r = none
    split_ifs
    · rfl
    · exact Function.update_self _ _ _

theorem rbacSpec_fits : rbacSpec.Fits (rbacMachine node) where
  refl _ w := rbacRely_refl w
  trans _ w w' w'' h h' := ⟨h.events.trans h'.events, fun n hn => h'.acked n (h.acked n hn)⟩
  crash _ w hi := ⟨hi, fun _ _ => rbacRely_refl w⟩
  ext x w hi := by
    cases x with
    | tick d =>
      refine ⟨⟨hi.acked, hi.cleared, hi.clean, fun n d' role entry hn hc he hlive => ?_⟩,
        fun _ => ⟨List.prefix_refl _, fun _ h => h⟩⟩
      have hbefore : w.live entry = true := by
        unfold RbacWorld.live at hlive ⊢
        have hlt := of_decide_eq_true hlive
        apply decide_eq_true
        exact Nat.lt_of_le_of_lt (Nat.sub_le_sub_right (Nat.le_add_right _ _) _) hlt
      exact hi.fresh n d' role entry hn hc he hbefore
    | permissionsChanged role core =>
      have hlonger : ∀ n, n < w.events.length → n < (w.events ++ [role]).length := by
        intro n hn
        rw [List.length_append]
        exact Nat.lt_add_right _ hn
      refine ⟨⟨fun n hn => hlonger n (hi.acked n hn), fun n d hn => hlonger n (hi.cleared n d hn),
        fun n d r entry hn hc he => ?_, fun n d r entry hn hc he hlive => ?_⟩,
        fun _ => ⟨List.prefix_append _ _, fun _ h => h⟩⟩
      · exact hi.clean n d r entry hn (hc.before (hi.cleared n d hn)) he
      · exact hi.fresh n d r entry hn (hc.before (hi.acked n hn)) he hlive
    | forget eventId =>
      exact ⟨⟨hi.acked, hi.cleared, hi.clean, hi.fresh⟩,
        fun _ => ⟨List.prefix_refl _, fun _ h => h⟩⟩
    | restart d =>
      have hbefore : ∀ d' role entry, Function.update w.cache d (fun _ => none) d' role = some entry →
          w.cache d' role = some entry := by
        intro d' role entry he
        by_cases hd : d' = d
        · rw [hd, Function.update_self] at he
          cases he
        · rwa [Function.update_of_ne hd] at he
      exact ⟨⟨hi.acked, hi.cleared,
        fun n d' role entry hn hc he => hi.clean n d' role entry hn hc (hbefore d' role entry he),
        fun n d' role entry hn hc he => hi.fresh n d' role entry hn hc (hbefore d' role entry he)⟩,
        fun _ => ⟨List.prefix_refl _, fun _ h => h⟩⟩

end Spec

section Tasks
variable {node : Pid → Nat} {w : RbacWorld} {p : Pid}

abbrev wpRbac {α : Type} (node : Pid → Nat) (p : Pid) (prog : RbacSvc α)
    (Q : Except Err α → RbacWorld → Prop) (w : RbacWorld) : Prop :=
  wp (rbacMachine node) (Revokes node) rbacSpec p prog Q w

theorem wp_invalidateRole {n : Nat} {role : Option String} (hevent : w.events[n]? = some role) :
    wpRbac node p (Prog.perform (RbacOp.invalidate n role))
      (OnOk fun _ w' => w'.events[n]? = some role) w := by
  apply wp_perform
  intro w₁ hr hi e r w₂ _ hx
  have hevent₁ := events_later hr hevent
  cases hx
  have hbefore : ∀ d r entry, Function.update w₁.cache (node p)
      (invalidated role (w₁.cache (node p))) d r = some entry → w₁.cache d r = some entry := by
    intro d r entry he
    by_cases hd : d = node p
    · rw [hd, Function.update_self] at he
      rw [hd]
      exact invalidated_le he
    · rwa [Function.update_of_ne hd] at he
  refine ⟨⟨hi.acked, fun m d hm => ?_, fun m d r entry hm hc he => ?_,
    fun m d r entry hm hc he => hi.fresh m d r entry hm hc (hbefore d r entry he)⟩,
    fun _ _ => ⟨List.prefix_refl _, fun _ h => h⟩, hevent₁⟩
  · rcases List.mem_cons.mp hm with hnew | hold
    · rw [(Prod.mk.inj hnew).1]
      exact (List.getElem?_eq_some_iff.mp hevent₁).1
    · exact hi.cleared m d hold
  · rcases List.mem_cons.mp hm with hnew | hold
    · obtain ⟨hmn, hd⟩ := Prod.mk.inj hnew
      rw [hmn] at hc
      have hnone : invalidated role (w₁.cache (node p)) r = none :=
        invalidated_concerned _ hevent₁ hc
      have hentry : Function.update w₁.cache (node p)
          (invalidated role (w₁.cache (node p))) d r = some entry := he
      rw [hd, Function.update_self, hnone] at hentry
      cases hentry
    · exact hi.clean m d r entry hold hc (hbefore d r entry he)

theorem wp_ackChanged {n : Nat} {role : Option String} (hevent : w.events[n]? = some role) :
    wpRbac node p (Prog.perform (RbacOp.ack n)) (fun _ _ => True) w := by
  apply wp_perform
  intro w₁ hr hi e r w₂ hok hx
  have hbound : n < w₁.events.length := (List.getElem?_eq_some_iff.mp (events_later hr hevent)).1
  cases hx
  refine ⟨⟨fun m hm => ?_, hi.cleared, hi.clean, fun m d r entry hm hc he hlive => ?_⟩,
    fun _ _ => ⟨List.prefix_refl _, fun m hm => List.mem_cons_of_mem n hm⟩, trivial⟩
  · rcases List.mem_cons.mp hm with hnew | hold
    · rw [hnew]
      exact hbound
    · exact hi.acked m hold
  · rcases List.mem_cons.mp hm with hnew | hold
    · rw [hnew] at hc ⊢
      by_cases hcleared : (n, d) ∈ w₁.cleared
      · exact hi.clean n d r entry hcleared hc he
      · exact hok d r entry hcleared hc he hlive
    · exact hi.fresh m d r entry hold hc he hlive

theorem wp_consumePermissionsChanged :
    wpRbac node p consumePermissionsChanged (fun _ _ => True) w := by
  unfold consumePermissionsChanged
  apply wp_do
  apply wp_perform
  intro w₁ _ hi e r w₂ _ hx
  simp only [rbacMachine, execRbac] at hx
  split_ifs at hx
  obtain ⟨role, hevent, heq⟩ := Option.map_eq_some_iff.mp hx
  cases heq
  refine ⟨hi, fun _ _ => rbacRely_refl w₁, ?_⟩
  show wpRbac node p _ _ w₁
  apply wp_do
  apply wp_perform
  intro w₃ hr hi e' r w₄ _ hx
  have hevent₃ := events_later hr hevent
  simp only [rbacMachine, execRbac] at hx
  split_ifs at hx
  · cases hx
    exact ⟨hi, fun _ _ => rbacRely_refl w₃, trivial⟩
  · -- the mark was there: the event is only acked
    cases hx
    exact ⟨hi, fun _ _ => rbacRely_refl w₃, wp_ackChanged hevent₃⟩
  · cases hx
    refine ⟨⟨hi.acked, hi.cleared, hi.clean, hi.fresh⟩,
      fun _ _ => ⟨List.prefix_refl _, fun _ h => h⟩, ?_⟩
    show wpRbac node p _ _ _
    apply wp_do
    refine wp_mono ?_ (wp_invalidateRole hevent₃)
    intro r w' hr
    cases r with
    | error err => trivial
    | ok u => exact wp_ackChanged hr

theorem set_entry {cache : Nat → String → Option CachedPermissions} {d d' : Nat} {role r : String}
    {new entry : CachedPermissions}
    (h : Function.update cache d (Function.update (cache d) role (some new)) d' r = some entry) :
    d' = d ∧ r = role ∧ entry = new ∨ cache d' r = some entry := by
  by_cases hd : d' = d
  · subst hd
    rw [Function.update_self] at h
    by_cases hr : r = role
    · rw [hr, Function.update_self] at h
      exact .inl ⟨rfl, hr, (Option.some.inj h).symm⟩
    · rw [Function.update_of_ne hr] at h
      exact .inr h
  · rw [Function.update_of_ne hd] at h
    exact .inr h

/-- A list may be stored as long as no event after it has been handled there, or acked. -/
theorem wp_setPermissions {role : String} {list : PermissionList} :
    wpRbac node p (Prog.perform (RbacOp.set role list)) (fun _ _ => True) w := by
  apply wp_perform
  intro w₁ _ hi e r w₂ hok hx
  cases hx
  refine ⟨⟨hi.acked, hi.cleared, fun m d r entry hm hc he => ?_,
    fun m d r entry hm hc he hlive => ?_⟩, fun _ _ => ⟨List.prefix_refl _, fun _ h => h⟩, trivial⟩
  · rcases set_entry he with ⟨hd, hr, hnew⟩ | hold
    · rw [hr] at hc
      rw [hd] at hm
      rw [hnew]
      exact hok m hc (.inr hm)
    · exact hi.clean m d r entry hm hc hold
  · rcases set_entry he with ⟨-, hr, hnew⟩ | hold
    · rw [hr] at hc
      rw [hnew]
      exact hok m hc (.inl hm)
    · exact hi.fresh m d r entry hm hc hold hlive

/-- From where the events in `A` are acked, the lists that are returned are from after them. -/
theorem wp_getPermissions {A : Nat → Prop} {role : String}
    (hA : ∀ n, A n → n ∈ w.acked ∧ w.Concerns n role) :
    wpRbac node p (getPermissions role) (OnOk fun list _ => ∀ n, A n → n < list.asOf) w := by
  unfold getPermissions
  apply wp_seq
  apply wp_perform
  intro w₁ hr hi e r w₂ _ hx
  have hA₁ : ∀ n, A n → n ∈ w₁.acked ∧ w₁.Concerns n role := fun n hn =>
    ⟨hr.acked n (hA n hn).1, (hA n hn).2.later hr⟩
  cases hx
  refine ⟨hi, fun _ _ => rbacRely_refl w₁, ?_⟩
  show wpRbac node p _ _ w₁
  cases hcached : ((w₁.cache (node p) role).filter w₁.live).map CachedPermissions.list with
  | some list =>
    obtain ⟨entry, hfilter, hlist⟩ := Option.map_eq_some_iff.mp hcached
    obtain ⟨hentry, hlive⟩ := Option.filter_eq_some_iff.mp hfilter
    refine wp_pure fun n hn => ?_
    rw [← hlist]
    exact hi.fresh n (node p) role entry (hA₁ n hn).1 (hA₁ n hn).2 hentry hlive
  | none =>
    apply wp_seq
    apply wp_perform
    intro w₃ hr₃ hi₃ e' r w₄ _ hx
    simp only [rbacMachine, execRbac] at hx
    split_ifs at hx
    · cases hx
      exact ⟨hi₃, fun _ _ => rbacRely_refl w₃, trivial⟩
    cases hx
    refine ⟨hi₃, fun _ _ => rbacRely_refl w₃, ?_⟩
    have hlist : ∀ n, A n → n < w₃.events.length := fun n hn =>
      hi₃.acked n (hr₃.acked n (hA₁ n hn).1)
    apply wp_seq
    refine wp_mono ?_ wp_setPermissions
    intro r w' _
    cases r with
    | error err => trivial
    | ok u => exact hlist

end Tasks

section Result
variable {node : Pid → Nat} {tasks : Pid → Option RbacTask} {w : RbacWorld} {t u : RbacSys}

/-- The result of a look-up that starts when the events in `A` are acked. -/
def Since (A : Nat → Prop) : RbacReply → RbacWorld → Prop
  | .permissions list, _ => ∀ n, A n → n < list.asOf
  | .handled, _ => True

theorem wp_task {A : Nat → Prop} {task : RbacTask} {p : Pid}
    (hA : ∀ n role, A n → task = .lookup role → n ∈ w.acked ∧ w.Concerns n role) :
    wpRbac node p task.prog (OnOk (Since A)) w := by
  cases task with
  | consume =>
    apply wp_seq
    refine wp_mono ?_ wp_consumePermissionsChanged
    intro r w' _
    cases r <;> trivial
  | lookup role =>
    apply wp_seq
    refine wp_mono ?_ (wp_getPermissions fun n hn => hA n role hn rfl)
    intro r w' hr
    cases r with
    | error err => trivial
    | ok list => exact hr

theorem since_stable (A : Pid → Nat → Prop) (p : Pid) :
    rbacSpec.Stable p (OnOk (Since (A p)) : Except Err RbacReply → RbacWorld → Prop) := by
  intro r w w' _ _ h
  cases r with
  | error err => trivial
  | ok reply => cases reply <;> exact h

/-- Once the event of a change of permissions is acked, no process answers a look-up that starts
later with a list from before the event, as long as no process is left with such a list at the ack
and none is stored after it. -/
theorem revoked_permissions_not_served (hacked : w.acked = []) (hcleared : w.cleared = [])
    (hreach : (rbacMachine node).Reaches (Revokes node) (servingRbac tasks w) t) {n : Nat}
    {role : String} (hn : n ∈ t.world.acked) (hconcerns : t.world.Concerns n role) {p : Pid}
    (hlate : t.procs p = some (RbacTask.lookup role).prog)
    (hu : (rbacMachine node).Reaches (Revokes node) t u) {list : PermissionList}
    (hreturned : u.procs p = some (.pure (.permissions list))) : n < list.asOf := by
  have hstart : Sound (rbacMachine node) (Revokes node) rbacSpec
      (fun _ => OnOk (Since fun _ => False)) (servingRbac tasks w) := by
    refine ⟨⟨?_, ?_, ?_, ?_⟩, fun q prog hq => ?_⟩
    · intro m hm
      rw [show (servingRbac tasks w).world.acked = [] from hacked] at hm
      cases hm
    · intro m d hm
      rw [show (servingRbac tasks w).world.cleared = [] from hcleared] at hm
      cases hm
    · intro m d r entry hm
      rw [show (servingRbac tasks w).world.cleared = [] from hcleared] at hm
      cases hm
    · intro m d r entry hm
      rw [show (servingRbac tasks w).world.acked = [] from hacked] at hm
      cases hm
    · obtain ⟨task, -, rfl⟩ := Option.map_eq_some_iff.mp hq
      exact wp_task fun m r hm => hm.elim
  obtain ⟨hinv, hprocs⟩ := sound_reaches rbacSpec_fits (since_stable fun _ _ => False) hstart hreach
  -- from the start of the look-up on, its result is to be from after the event
  let A (q : Pid) (m : Nat) : Prop := q = p ∧ m = n
  have hlater : Sound (rbacMachine node) (Revokes node) rbacSpec (fun q => OnOk (Since (A q))) t := by
    refine ⟨hinv, fun q prog hq => ?_⟩
    by_cases hqp : q = p
    · subst hqp
      rw [hlate] at hq
      cases hq
      refine wp_task fun m r hm hr => ?_
      cases hr
      rw [hm.2]
      exact ⟨hn, hconcerns⟩
    · refine wp_mono ?_ (hprocs q prog hq)
      intro r w' _
      cases r with
      | error err => trivial
      | ok reply =>
        cases reply with
        | handled => trivial
        | permissions list => exact fun m hm => absurd hm.1 hqp
  have hdone : Since (A p) (.permissions list) u.world :=
    (sound_reaches rbacSpec_fits (since_stable A) hlater hu).2 p _ hreturned
  exact hdone n ⟨rfl, rfl⟩

end Result

section Samples

/-- Tasks 0 and 2 run on the API server, task 1 on the worker. -/
def nodeOf (p : Pid) : Nat := if p = 1 then 1 else 0

/-- Two look-ups of one role, and the consumer. -/
def lookUpTwice : Pid → Option RbacTask
  | 0 => some (.lookup "branch_manager")
  | 1 => some .consume
  | 2 => some (.lookup "branch_manager")
  | _ => none

def managersMay : RbacWorld where
  core role := if role = "branch_manager" then ["orders:update"] else []

/-- The first look-up runs to its end. -/
def firstLookup : List (Label Pid RbacEnv RbacExt) := List.replicate 3 (.act 0 {})

/-- Core takes the permission from the role, and the worker handles the event. -/
def revokedByWorker : List (Label Pid RbacEnv RbacExt) :=
  .ext (.permissionsChanged (some "branch_manager") fun _ => []) :: List.replicate 4 (.act 1 {})

def rbacStart : RbacSys := servingRbac lookUpTwice managersMay

/-- The list that a look-up has returned. -/
def returnedList (s : RbacSys) (p : Pid) : Option PermissionList :=
  match s.procs p with
  | some (.pure (.permissions list)) => some list
  | _ => none

theorem of_returnedList {s : RbacSys} {p : Pid} {list : PermissionList}
    (h : returnedList s p = some list) : s.procs p = some (.pure (.permissions list)) := by
  unfold returnedList at h
  split at h
  · next found hfound => rw [hfound, Option.some.inj h]
  · cases h

/-- The last look-up begins after `before`, and runs for some steps. -/
def lookupAfter (before : List (Label Pid RbacEnv RbacExt)) (steps : Nat)
    (check check' : Pid → RbacOp → RbacEnv → RbacWorld → Bool) : Option (RbacSys × RbacSys) :=
  ((rbacMachine nodeOf).run check before rbacStart).bind fun t =>
    ((rbacMachine nodeOf).run check' (List.replicate steps (.act 2 {})) t).map fun u => (t, u)

/-- An operation that puts nothing into a cache. -/
def storesNothing (_ : Pid) (o : RbacOp) (_ : RbacEnv) (_ : RbacWorld) : Bool :=
  match o with
  | .set .. => false
  | _ => true

/-- As long as nothing is cached anywhere, every ack meets its condition. -/
theorem revokes_of_empty {t : RbacSys}
    (h : (rbacMachine nodeOf).Reaches (fun p o e w => storesNothing p o e w = true) rbacStart t) :
    (rbacMachine nodeOf).Reaches (Revokes nodeOf) rbacStart t := by
  have hupdate : ∀ (cache : Nat → String → Option CachedPermissions) d
      (c : String → Option CachedPermissions), (∀ d role, cache d role = none) →
      (∀ role, c role = none) → ∀ d' role, Function.update cache d c d' role = none := by
    intro cache d c hcache hc d' role
    by_cases hd : d' = d
    · rw [hd, Function.update_self]
      exact hc role
    · rw [Function.update_of_ne hd]
      exact hcache d' role
  refine Machine.Reaches.strengthen (J := fun w => ∀ d role, w.cache d role = none) h ?_
    (fun _ _ hw => hw) ?_ (fun _ _ => rfl) ?_
  · intro p o e w r w' hstores hw hx
    cases o with
    | set role list => cases hstores
    | invalidate n role =>
      cases hx
      refine hupdate _ _ _ hw fun r => ?_
      cases hentry : invalidated role (w.cache (nodeOf p)) r with
      | none => rfl
      | some entry =>
        have hthere : w.cache (nodeOf p) r = some entry := invalidated_le hentry
        exact hthere.symm.trans (hw (nodeOf p) r)
    | deliver =>
      simp only [rbacMachine, execRbac] at hx
      split_ifs at hx
      obtain ⟨role, -, heq⟩ := Option.map_eq_some_iff.mp hx
      cases heq
      exact hw
    | trySet n =>
      simp only [rbacMachine, execRbac] at hx
      split_ifs at hx <;> cases hx <;> exact hw
    | getRolePermissions role =>
      simp only [rbacMachine, execRbac] at hx
      split_ifs at hx <;> cases hx <;> exact hw
    | _ =>
      cases hx
      exact hw
  · intro x w hw
    cases x with
    | restart d => exact hupdate _ _ _ hw fun _ => rfl
    | _ => exact hw
  · intro p o e w hstores hw
    cases o with
    | ack n =>
      intro d role entry _ _ he
      rw [hw d role] at he
      cases he
    | set role list => cases hstores
    | _ => trivial

/-- A list that is stored is from after all events that have been handled. -/
def storesLatest (_ : Pid) (o : RbacOp) (_ : RbacEnv) (w : RbacWorld) : Bool :=
  match o with
  | .set _ list => w.acked.all (fun n => n < list.asOf) && w.cleared.all fun c => c.1 < list.asOf
  | .ack _ => false
  | _ => true

theorem revokes_of_storesLatest (p : Pid) (o : RbacOp) (e : RbacEnv) (w : RbacWorld)
    (h : storesLatest p o e w = true) : Revokes nodeOf p o e w := by
  cases o with
  | ack n => cases h
  | set role list =>
    obtain ⟨hacked, hcleared⟩ := Bool.and_eq_true_iff.mp h
    intro n _ hn
    rcases hn with hn | hn
    · exact of_decide_eq_true (List.all_eq_true.mp hacked n hn)
    · exact of_decide_eq_true (List.all_eq_true.mp hcleared (n, nodeOf p) hn)
  | _ => trivial

/-- The first look-up comes after the revocation, and finds the permission gone. -/
theorem revoked_permissions_not_served_fetched :
    ∃ t u, (rbacMachine nodeOf).Reaches (Revokes nodeOf) rbacStart t ∧ 0 ∈ t.world.acked ∧
      (rbacMachine nodeOf).Reaches (Revokes nodeOf) t u ∧
      ∃ list, u.procs 2 = some (.pure (.permissions list)) ∧ list.permissions = [] ∧
        0 < list.asOf := by
  have hrun : (lookupAfter revokedByWorker 3 storesNothing storesLatest).any (fun a =>
      a.1.world.acked = [0] && (a.1.world.events = [some "branch_manager"] &&
        (returnedList a.2 2).map PermissionList.permissions = some [])) = true := by
    decide +kernel
  obtain ⟨⟨t, u⟩, hafter, hholds⟩ := (Option.any_eq_true _ _).mp hrun
  obtain ⟨t', ht, hmap⟩ := Option.bind_eq_some_iff.mp hafter
  obtain ⟨u', hu, heq⟩ := Option.map_eq_some_iff.mp hmap
  cases heq
  obtain ⟨hacked, hrest⟩ := Bool.and_eq_true_iff.mp hholds
  obtain ⟨hevents, hlists⟩ := Bool.and_eq_true_iff.mp hrest
  obtain ⟨list, hlist, hgone⟩ := Option.map_eq_some_iff.mp (of_decide_eq_true hlists)
  have hone : 0 ∈ t.world.acked := by
    rw [show t.world.acked = [0] from of_decide_eq_true hacked]
    exact List.mem_singleton_self 0
  have hconcerns : t.world.Concerns 0 "branch_manager" := by
    right
    rw [show t.world.events = [some "branch_manager"] from of_decide_eq_true hevents]
    rfl
  have hreach : (rbacMachine nodeOf).Reaches (Revokes nodeOf) rbacStart t :=
    revokes_of_empty (Machine.reaches_of_run (fun _ _ _ _ h => h) _ ht)
  have hlater : (rbacMachine nodeOf).Reaches (Revokes nodeOf) t u :=
    Machine.reaches_of_run revokes_of_storesLatest _ hu
  have hlate : t.procs 2 = some (RbacTask.lookup "branch_manager").prog :=
    Machine.run_other _ (by decide) ht
  exact ⟨t, u, hreach, hone, hlater, list, of_returnedList hlist, hgone,
    revoked_permissions_not_served rfl rfl hreach hone hconcerns hlate hlater
      (of_returnedList hlist)⟩

/-- Every look-up finds the list on its process, and the event is acked by the other one. -/
theorem revoked_permission_served :
    ∃ t u, (rbacMachine nodeOf).Reaches (fun _ _ _ _ => True) rbacStart t ∧ 0 ∈ t.world.acked ∧
      t.world.Concerns 0 "branch_manager" ∧
      t.procs 2 = some (RbacTask.lookup "branch_manager").prog ∧
      (rbacMachine nodeOf).Reaches (fun _ _ _ _ => True) t u ∧
      ∃ list, u.procs 2 = some (.pure (.permissions list)) ∧
        list.permissions = ["orders:update"] ∧ list.asOf = 0 := by
  have hrun : (lookupAfter (firstLookup ++ revokedByWorker) 1 (fun _ _ _ _ => true)
      fun _ _ _ _ => true).any (fun a => a.1.world.acked = [0] &&
        (a.1.world.events = [some "branch_manager"] &&
          ((returnedList a.2 2).map PermissionList.permissions = some ["orders:update"] &&
            (returnedList a.2 2).map PermissionList.asOf = some 0))) = true := by
    decide +kernel
  obtain ⟨⟨t, u⟩, hafter, hholds⟩ := (Option.any_eq_true _ _).mp hrun
  obtain ⟨t', ht, hmap⟩ := Option.bind_eq_some_iff.mp hafter
  obtain ⟨u', hu, heq⟩ := Option.map_eq_some_iff.mp hmap
  cases heq
  obtain ⟨hacked, hrest⟩ := Bool.and_eq_true_iff.mp hholds
  obtain ⟨hevents, hlists⟩ := Bool.and_eq_true_iff.mp hrest
  obtain ⟨hpermissions, hasOf⟩ := Bool.and_eq_true_iff.mp hlists
  obtain ⟨list, hlist, hold⟩ := Option.map_eq_some_iff.mp (of_decide_eq_true hpermissions)
  have hzero : list.asOf = 0 := by
    have hmapped := of_decide_eq_true hasOf
    rw [hlist] at hmapped
    exact Option.some.inj hmapped
  refine ⟨t, u, Machine.reaches_of_run (fun _ _ _ _ _ => trivial) _ ht, ?_, .inr ?_, ?_,
    Machine.reaches_of_run (fun _ _ _ _ _ => trivial) _ hu, list, of_returnedList hlist, hold, hzero⟩
  · rw [show t.world.acked = [0] from of_decide_eq_true hacked]
    exact List.mem_singleton_self 0
  · rw [show t.world.events = [some "branch_manager"] from of_decide_eq_true hevents]
    rfl
  · exact Machine.run_other _ (by decide) ht

end Samples

end OrderService
