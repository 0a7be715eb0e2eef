import OrderService.Services.Idempotency

/-! How often a handler runs for the requests with one method, URL and key. -/
namespace OrderService
open Interleaving

section History

/-- The request that read the entry as absent; an empty entry is no entry. -/
def HttpEvent.missed (key : String) : HttpEvent → Option Pid
  | .read p k found => if k = key ∧ found.filter (· ≠ "") = none then some p else none
  | _ => none

def HttpEvent.writer (key : String) : HttpEvent → Option Pid
  | .wrote p k _ => if k = key then some p else none
  | _ => none

/-- When a handler ran for a request whose reply goes to the entry. -/
def HttpEvent.ranFor (key : String) : HttpEvent → Option Nat
  | .ran _ req _ time => if req.cacheKey? = some key then some time else none
  | _ => none

def missers (log : List HttpEvent) (key : String) : List Pid := log.filterMap (HttpEvent.missed key)

def writers (log : List HttpEvent) (key : String) : List Pid := log.filterMap (HttpEvent.writer key)

def runTimes (log : List HttpEvent) (key : String) : List Nat :=
  log.filterMap (HttpEvent.ranFor key)

/-- The requests that read the entry as absent and have not written it. -/
def inFlight (log : List HttpEvent) (key : String) : List Pid :=
  (missers log key).filter fun p => !(writers log key).contains p

/-- The runs of the handler for one method, URL and key, the latest first. -/
def executions (log : List HttpEvent) (method originalUrl key : String) : List Nat :=
  log.filterMap fun
    | .ran _ req _ time =>
      if req.method = method ∧ req.originalUrl = originalUrl ∧ req.key? = some key then some time
      else none
    | _ => none

def ttlMs : Nat := idempotencyTtl * 1000

/-- No two of the times lie within one TTL; the latest is the first. -/
def OncePerTtl (times : List Nat) : Prop :=
  times.Pairwise fun later earlier => earlier + ttlMs < later

instance : DecidablePred OncePerTtl := fun times =>
  inferInstanceAs (Decidable (times.Pairwise fun later earlier => earlier + ttlMs < later))

/-- Redis answers. -/
def RedisUp (_ : Pid) (_ : HttpOp) (e : HttpEnv) (_ : HttpWorld) : Prop := e.up = true

/-- Redis answers, and an entry is not looked up while a request that read it as absent still has
to write it. -/
def LookupsSettled (_ : Pid) (o : HttpOp) (e : HttpEnv) (w : HttpWorld) : Prop :=
  e.up = true ∧ match o with
    | .get key => inFlight w.log key = []
    | _ => True

/-- Before the first of the requests. -/
def BeforeRequests (options : IdempotencyOptions) (s : Sys Pid HttpOp HttpOp.Res Err HttpWorld Sent) :
    Prop :=
  s.world.log = [] ∧ ∀ p prog, s.procs p = some prog → ∃ req, prog = idempotency options req

end History

section Log
variable {p : Pid} {key k : String}

theorem mem_inFlight {log : List HttpEvent} :
    p ∈ inFlight log key ↔ p ∈ missers log key ∧ p ∉ writers log key := by
  simp [inFlight]

theorem missers_read (log : List HttpEvent) (found : Option String) :
    missers (.read p k found :: log) key
      = if k = key ∧ found.filter (· ≠ "") = none then p :: missers log key
        else missers log key := by
  simp only [missers, List.filterMap_cons, HttpEvent.missed]
  split_ifs <;> rfl

theorem writers_wrote (log : List HttpEvent) (text : String) :
    writers (.wrote p k text :: log) key
      = if k = key then p :: writers log key else writers log key := by
  simp only [writers, List.filterMap_cons, HttpEvent.writer]
  split_ifs <;> rfl

theorem runTimes_ran (log : List HttpEvent) (req : Request) (reply : JsonReply) (time : Nat) :
    runTimes (.ran p req reply time :: log) key
      = if req.cacheKey? = some key then time :: runTimes log key else runTimes log key := by
  simp only [runTimes, List.filterMap_cons, HttpEvent.ranFor]
  split_ifs <;> rfl

@[simp] theorem writers_read (log : List HttpEvent) (found : Option String) :
    writers (.read p k found :: log) key = writers log key := rfl

@[simp] theorem runTimes_read (log : List HttpEvent) (found : Option String) :
    runTimes (.read p k found :: log) key = runTimes log key := rfl

@[simp] theorem missers_wrote (log : List HttpEvent) (text : String) :
    missers (.wrote p k text :: log) key = missers log key := rfl

@[simp] theorem runTimes_wrote (log : List HttpEvent) (text : String) :
    runTimes (.wrote p k text :: log) key = runTimes log key := rfl

@[simp] theorem missers_ran (log : List HttpEvent) (req : Request) (reply : JsonReply) (time : Nat) :
    missers (.ran p req reply time :: log) key = missers log key := rfl

@[simp] theorem writers_ran (log : List HttpEvent) (req : Request) (reply : JsonReply) (time : Nat) :
    writers (.ran p req reply time :: log) key = writers log key := rfl

end Log

section Invariant

/-- At most one request is in flight for an entry; the runs of its handler are a TTL apart; and as
long as none is in flight, every run is covered by the entry. -/
structure HandledOnce (w : HttpWorld) : Prop where
  single : ∀ key p q, p ∈ inFlight w.log key → q ∈ inFlight w.log key → p = q
  apart : ∀ key, OncePerTtl (runTimes w.log key)
  past : ∀ key, ∀ time ∈ runTimes w.log key, time ≤ w.clock
  covered : ∀ key, inFlight w.log key = [] → ∀ time ∈ runTimes w.log key,
    ∃ entry, w.entries key = some entry ∧ entry.text ≠ "" ∧ time + ttlMs ≤ entry.expiresAt

/-- The others leave the events of a request alone, and run no handler for the entry that it has
read as absent. -/
structure Untouched (p : Pid) (w w' : HttpWorld) : Prop where
  clock : w.clock ≤ w'.clock
  missers : ∀ key, p ∈ missers w'.log key ↔ p ∈ missers w.log key
  writers : ∀ key, p ∈ writers w'.log key ↔ p ∈ writers w.log key
  runs : ∀ key, p ∈ inFlight w.log key → runTimes w'.log key = runTimes w.log key

theorem Untouched.inFlight {p : Pid} {w w' : HttpWorld} (h : Untouched p w w') {key : String} :
    p ∈ inFlight w'.log key ↔ p ∈ inFlight w.log key := by
  rw [mem_inFlight, mem_inFlight, h.missers, h.writers]

theorem Untouched.refl (p : Pid) (w : HttpWorld) : Untouched p w w :=
  ⟨le_rfl, fun _ => Iff.rfl, fun _ => Iff.rfl, fun _ _ => rfl⟩

theorem Untouched.trans {p : Pid} {w w' w'' : HttpWorld} (h : Untouched p w w')
    (h' : Untouched p w' w'') : Untouched p w w'' where
  clock := h.clock.trans h'.clock
  missers key := (h'.missers key).trans (h.missers key)
  writers key := (h'.writers key).trans (h.writers key)
  runs key hkey := (h'.runs key (h.inFlight.mpr hkey)).trans (h.runs key hkey)

def handledOnceSpec : Spec Pid HttpWorld := ⟨HandledOnce, Untouched⟩

theorem HandledOnce.tick {w : HttpWorld} (h : HandledOnce w) (d : Nat) :
    HandledOnce { w with clock := w.clock + d } where
  single := h.single
  apart := h.apart
  past key time htime := (h.past key time htime).trans (Nat.le_add_right _ _)
  covered := h.covered

theorem handledOnceSpec_fits : handledOnceSpec.Fits httpMachine where
  refl := Untouched.refl
  trans _ _ _ _ := Untouched.trans
  crash _ w h := ⟨h, fun q _ => Untouched.refl q w⟩
  ext d _ h := ⟨h.tick d, fun _ =>
    ⟨Nat.le_add_right _ _, fun _ => Iff.rfl, fun _ => Iff.rfl, fun _ _ => rfl⟩⟩

end Invariant

section Steps
variable {w : HttpWorld} {p : Pid} {key : String}

/-- What a lookup finds is there until it expires. -/
theorem HandledOnce.expired (h : HandledOnce w) (hidle : inFlight w.log key = [])
    (hmiss : (w.lookup key).filter (· ≠ "") = none) :
    ∀ time ∈ runTimes w.log key, time + ttlMs < w.clock := by
  intro time htime
  obtain ⟨entry, hentry, htext, hlasts⟩ := h.covered key hidle time htime
  simp only [HttpWorld.lookup, hentry] at hmiss
  split_ifs at hmiss with hlive
  · simp [htext] at hmiss
  · omega

/-- A lookup that finds an entry changes nothing. -/
theorem HandledOnce.hit (h : HandledOnce w) (found : Option String)
    (hhit : found.filter (· ≠ "") ≠ none) :
    HandledOnce { w with log := .read p key found :: w.log } ∧
      ∀ q, Untouched q w { w with log := .read p key found :: w.log } := by
  have hmissers : ∀ k, missers (.read p key found :: w.log) k = missers w.log k := by
    intro k
    rw [missers_read, if_neg fun hk => hhit hk.2]
  have hflight : ∀ k, inFlight (.read p key found :: w.log) k = inFlight w.log k := by
    intro k
    simp only [inFlight, hmissers, writers_read]
  refine ⟨⟨fun k => ?_, h.apart, h.past, fun k => ?_⟩, fun q => ⟨le_rfl, fun k => ?_,
    fun _ => Iff.rfl, fun _ _ => rfl⟩⟩
  · simpa only [hflight] using h.single k
  · rw [hflight]
    exact h.covered k
  · rw [hmissers]

/-- A lookup that finds nothing puts the request in flight. -/
theorem HandledOnce.miss (h : HandledOnce w) (found : Option String)
    (hmiss : found.filter (· ≠ "") = none) (hidle : inFlight w.log key = [])
    (hfresh : p ∉ writers w.log key) :
    HandledOnce { w with log := .read p key found :: w.log } ∧
      (∀ q, q ≠ p → Untouched q w { w with log := .read p key found :: w.log }) ∧
      p ∈ inFlight (.read p key found :: w.log) key := by
  have hmissers : ∀ k, missers (.read p key found :: w.log) k
      = if key = k then p :: missers w.log k else missers w.log k := by
    intro k
    rw [missers_read]
    simp only [hmiss, and_true]
  have hflight : ∀ k, inFlight (.read p key found :: w.log) k
      = if key = k then [p] else inFlight w.log k := by
    intro k
    simp only [inFlight, hmissers, writers_read]
    split_ifs with hk
    · subst hk
      have hfilter : (missers w.log key).filter (fun q => !(writers w.log key).contains q) = [] :=
        hidle
      rw [List.filter_cons_of_pos (by simpa using hfresh), hfilter]
    · rfl
  refine ⟨⟨fun k q r hq hr => ?_, h.apart, h.past, fun k hk => ?_⟩, fun q hqp => ?_, ?_⟩
  · rw [hflight] at hq hr
    split_ifs at hq hr
    · rw [List.mem_singleton.mp hq, List.mem_singleton.mp hr]
    · exact h.single k q r hq hr
  · rw [hflight] at hk
    split_ifs at hk
    exact h.covered k hk
  · refine ⟨le_rfl, fun k => ?_, fun _ => Iff.rfl, fun _ _ => rfl⟩
    rw [hmissers]
    split_ifs
    · simp [hqp]
    · rfl
  · rw [hflight, if_pos rfl]
    exact List.mem_singleton.mpr rfl

/-- A request in flight runs its handler when every earlier run has expired. -/
theorem HandledOnce.run (h : HandledOnce w) {req : Request} (hkey : req.cacheKey? = some key)
    (hflight : p ∈ inFlight w.log key)
    (hexpired : ∀ time ∈ runTimes w.log key, time + ttlMs < w.clock) (reply : JsonReply) :
    HandledOnce { w with log := .ran p req reply w.clock :: w.log } ∧
      ∀ q, q ≠ p → Untouched q w { w with log := .ran p req reply w.clock :: w.log } := by
  have hruns : ∀ k, runTimes (.ran p req reply w.clock :: w.log) k
      = if key = k then w.clock :: runTimes w.log k else runTimes w.log k := by
    intro k
    rw [runTimes_ran, hkey]
    simp only [Option.some.injEq]
  refine ⟨⟨h.single, fun k => ?_, fun k time htime => ?_, fun k hk => ?_⟩, fun q hqp => ?_⟩
  · rw [hruns]
    split_ifs with hk
    · subst hk
      exact List.pairwise_cons.mpr ⟨hexpired, h.apart key⟩
    · exact h.apart k
  · rw [hruns] at htime
    split_ifs at htime
    · rcases List.mem_cons.mp htime with rfl | htime
      · exact le_rfl
      · exact h.past k time htime
    · exact h.past k time htime
  · -- The request itself is in flight for its own entry.
    have hne : key ≠ k := by
      rintro rfl
      have hmem : p ∈ inFlight (.ran p req reply w.clock :: w.log) key := hflight
      rw [hk] at hmem
      cases hmem
    rw [hruns, if_neg hne]
    exact h.covered k hk
  · refine ⟨le_rfl, fun _ => Iff.rfl, fun _ => Iff.rfl, fun k hq => ?_⟩
    have hne : key ≠ k := by
      rintro rfl
      exact hqp (h.single key q p hq hflight)
    rw [hruns, if_neg hne]

/-- A handler whose reply is not kept is not counted. -/
theorem HandledOnce.unkept (h : HandledOnce w) {req : Request} (hkey : req.cacheKey? = none)
    (reply : JsonReply) :
    HandledOnce { w with log := .ran p req reply w.clock :: w.log } ∧
      ∀ q, Untouched q w { w with log := .ran p req reply w.clock :: w.log } := by
  have hruns : ∀ k, runTimes (.ran p req reply w.clock :: w.log) k = runTimes w.log k := by
    intro k
    rw [runTimes_ran, hkey, if_neg (by simp)]
  refine ⟨⟨h.single, fun k => ?_, fun k time htime => ?_, fun k hk => ?_⟩, fun q => ⟨le_rfl,
    fun _ => Iff.rfl, fun _ => Iff.rfl, fun k _ => hruns k⟩⟩
  · rw [hruns]
    exact h.apart k
  · rw [hruns] at htime
    exact h.past k time htime
  · rw [hruns]
    exact h.covered k hk

/-- A write covers every run so far. -/
theorem HandledOnce.write (h : HandledOnce w) {text : String} (htext : text ≠ "") :
    HandledOnce { w with
      entries := Function.update w.entries key (some ⟨text, w.clock + ttlMs⟩)
      log := .wrote p key text :: w.log } ∧
      ∀ q, q ≠ p → Untouched q w { w with
        entries := Function.update w.entries key (some ⟨text, w.clock + ttlMs⟩)
        log := .wrote p key text :: w.log } := by
  have hsub : ∀ k q, q ∈ inFlight (.wrote p key text :: w.log) k → q ∈ inFlight w.log k := by
    intro k q hq
    rw [mem_inFlight, missers_wrote, writers_wrote] at hq
    refine mem_inFlight.mpr ⟨hq.1, fun hw => hq.2 ?_⟩
    split_ifs
    · exact List.mem_cons_of_mem p hw
    · exact hw
  refine ⟨⟨fun k q r hq hr => h.single k q r (hsub k q hq) (hsub k r hr), h.apart, h.past,
    fun k hk time htime => ?_⟩, fun q hqp => ⟨le_rfl, fun _ => Iff.rfl, fun k => ?_,
    fun _ _ => rfl⟩⟩
  · by_cases hkk : key = k
    · subst hkk
      refine ⟨⟨text, w.clock + ttlMs⟩, Function.update_self .., htext, ?_⟩
      have := h.past key time htime
      exact Nat.add_le_add_right this ttlMs
    · -- The other entries and the requests in flight for them are as before.
      have hsame : inFlight (.wrote p key text :: w.log) k = inFlight w.log k := by
        simp only [inFlight, missers_wrote, writers_wrote, if_neg hkk]
      rw [hsame] at hk
      obtain ⟨entry, hentry, hrest⟩ := h.covered k hk time htime
      refine ⟨entry, ?_, hrest⟩
      rw [← hentry]
      exact Function.update_of_ne (Ne.symm hkk) _ _
  · rw [writers_wrote]
    split_ifs
    · simp [hqp]
    · rfl

end Steps

section Requests
variable {w : HttpWorld} {p : Pid} {key : String} {α : Type}

/-- What follows a step of the middleware may assume nothing about its result. -/
abbrev Runs (p : Pid) (prog : Middleware α) (w : HttpWorld) : Prop :=
  wp httpMachine LookupsSettled handledOnceSpec p prog (fun _ _ => True) w

theorem runs_do {β : Type} {prog : Middleware α} {f : α → Middleware β}
    (h : wp httpMachine LookupsSettled handledOnceSpec p prog
      (fun r w' => ∀ a, r = .ok a → Runs p (f a) w') w) : Runs p (prog >>= f) w := by
  apply wp_do
  apply wp_mono _ h
  intro r w' hr
  cases r with
  | ok a => exact hr a rfl
  | error err => trivial

/-- A request whose reply is not kept runs its handler as often as it likes. -/
theorem runs_next_unkept {req : Request} (hkey : req.cacheKey? = none) :
    Runs p (next req) w := by
  refine wp_perform fun w₁ _ hinv e r w₂ _ hx => ?_
  simp only [httpMachine, execHttp, Option.some.injEq, Prod.mk.injEq] at hx
  obtain ⟨rfl, rfl⟩ := hx
  obtain ⟨hinv', hrely⟩ := HandledOnce.unkept hinv hkey e.handled.reply
  exact ⟨hinv', fun q _ => hrely q, trivial⟩

/-- A request in flight, when every earlier run of the handler has expired. -/
theorem runs_handleAndKeep {req : Request} (hkey : req.cacheKey? = some key)
    (hflight : p ∈ inFlight w.log key)
    (hexpired : ∀ time ∈ runTimes w.log key, time + ttlMs < w.clock) :
    Runs p (handleAndKeep req key) w := by
  apply runs_do
  refine wp_perform fun w₁ hr₁ hinv₁ e r w₂ _ hx => ?_
  simp only [httpMachine, execHttp, Option.some.injEq, Prod.mk.injEq] at hx
  obtain ⟨rfl, rfl⟩ := hx
  -- The others have run no handler for the entry since the miss.
  have hexpired₁ : ∀ time ∈ runTimes w₁.log key, time + ttlMs < w₁.clock := by
    intro time htime
    rw [hr₁.runs key hflight] at htime
    exact (hexpired time htime).trans_le hr₁.clock
  obtain ⟨hinv₂, hrely₂⟩ :=
    HandledOnce.run hinv₁ hkey (hr₁.inFlight.mpr hflight) hexpired₁ e.handled.reply
  refine ⟨hinv₂, hrely₂, fun reply hreply => ?_⟩
  cases hreply
  apply runs_do
  apply wp_catch
  refine wp_perform fun w₃ _ hinv₃ e' r w₄ hok hx => ?_
  simp only [httpMachine, execHttp, hok.1, if_true, Option.some.injEq, Prod.mk.injEq] at hx
  obtain ⟨rfl, rfl⟩ := hx
  have htext : e.handled.reply.body.value.stringify ≠ "" :=
    stringify_ne_empty e.handled.reply.body.wellFormed
  obtain ⟨hinv₄, hrely₄⟩ := HandledOnce.write (p := p) hinv₃ htext
  exact ⟨hinv₄, hrely₄, fun _ _ => trivial⟩

theorem runs_replayCached {text : String} : Runs p (replayCached text) w := by
  unfold replayCached
  cases Json.parse text with
  | some body => trivial
  | none => trivial

/-- From the miss on nobody else runs a handler for the entry, until it is written. -/
theorem runs_answerOnce {req : Request} (hkey : req.cacheKey? = some key)
    (hfresh : p ∉ writers w.log key) : Runs p (answerOnce req key) w := by
  apply runs_do
  refine wp_perform fun w₁ hr₁ hinv₁ e r w₂ hok hx => ?_
  obtain ⟨hup, hidle⟩ := hok
  simp only [httpMachine, execHttp, hup, if_true, Option.some.injEq, Prod.mk.injEq] at hx
  obtain ⟨rfl, rfl⟩ := hx
  cases hfound : (w₁.lookup key).filter (· ≠ "") with
  | some text =>
    have hhit : (w₁.lookup key).filter (· ≠ "") ≠ none := by
      rw [hfound]
      exact Option.some_ne_none text
    obtain ⟨hinv₂, hrely₂⟩ := HandledOnce.hit (p := p) hinv₁ (w₁.lookup key) hhit
    refine ⟨hinv₂, fun q _ => hrely₂ q, fun cached hcached => ?_⟩
    cases hcached
    rw [hfound]
    exact runs_replayCached
  | none =>
    have hfresh₁ : p ∉ writers w₁.log key := fun h => hfresh ((hr₁.writers key).mp h)
    have hexpired := HandledOnce.expired hinv₁ hidle hfound
    obtain ⟨hinv₂, hrely₂, hflight₂⟩ :=
      HandledOnce.miss hinv₁ (w₁.lookup key) hfound hidle hfresh₁
    refine ⟨hinv₂, hrely₂, fun cached hcached => ?_⟩
    cases hcached
    rw [hfound]
    exact runs_handleAndKeep hkey hflight₂ hexpired

theorem runs_idempotency {req : Request} (hfresh : ∀ key, p ∉ writers w.log key) :
    Runs p (idempotency ⟨true⟩ req) w := by
  unfold idempotency
  by_cases hmethod : req.method ∈ cachedMethods
  · rw [if_neg (not_not.mpr hmethod)]
    cases hk : req.key? with
    | none => trivial
    | some key =>
      have hkey : req.cacheKey? = some (cacheKey req.method req.originalUrl key) := by
        rw [Request.cacheKey?, if_pos hmethod, hk, Option.map_some]
      refine wp_catch (wp_mono (fun r _ _ => ?_) (runs_answerOnce hkey (hfresh _)))
      cases r with
      | ok a => trivial
      | error err => trivial
  · have hkey : req.cacheKey? = none := by rw [Request.cacheKey?, if_neg hmethod]
    rw [if_pos hmethod]
    apply runs_do
    exact wp_mono (fun _ _ _ reply _ => (trivial : Runs p (pure reply.sent) _)) (runs_next_unkept hkey)

end Requests

section Result
variable {s t : Sys Pid HttpOp HttpOp.Res Err HttpWorld Sent}

theorem handledOnce_of_empty {w : HttpWorld} (hlog : w.log = []) : HandledOnce w where
  single key p q hp := by
    rw [hlog] at hp
    cases hp
  apart key := by
    rw [hlog]
    exact List.Pairwise.nil
  past key time htime := by
    rw [hlog] at htime
    cases htime
  covered key _ time htime := by
    rw [hlog] at htime
    cases htime

theorem handledOnce_of_reaches (hstart : BeforeRequests ⟨true⟩ s)
    (h : httpMachine.Reaches LookupsSettled s t) : HandledOnce t.world := by
  have hsound : Sound httpMachine LookupsSettled handledOnceSpec (fun _ _ _ => True) s := by
    refine ⟨handledOnce_of_empty hstart.1, fun p prog hp => ?_⟩
    obtain ⟨req, rfl⟩ := hstart.2 p prog hp
    refine runs_idempotency fun key => ?_
    rw [hstart.1]
    exact List.not_mem_nil
  exact (sound_reaches handledOnceSpec_fits (fun _ _ _ _ _ _ h => h) hsound h).1

theorem executions_sublist {method originalUrl key : String} (hmethod : method ∈ cachedMethods)
    (log : List HttpEvent) :
    (executions log method originalUrl key).Sublist
      (runTimes log (cacheKey method originalUrl key)) := by
  induction log with
  | nil => exact .slnil
  | cons event log ih =>
    cases event with
    | read p k found => exact ih
    | wrote p k text => exact ih
    | ran p req reply time =>
      rw [runTimes_ran]
      unfold executions at ih ⊢
      rw [List.filterMap_cons]
      by_cases hreq : req.method = method ∧ req.originalUrl = originalUrl ∧ req.key? = some key
      · obtain ⟨rfl, rfl, hkey⟩ := hreq
        have hcache : req.cacheKey? = some (cacheKey req.method req.originalUrl key) := by
          rw [Request.cacheKey?, if_pos hmethod, hkey, Option.map_some]
        simp only [hkey, hcache, and_self, if_true]
        exact ih.cons_cons time
      · simp only [hreq, if_false]
        split_ifs
        · exact ih.cons time
        · exact ih

/-- In every interleaving whose lookups find no request in flight, the handler runs at most once
within the TTL for a method that the middleware caches, a URL and a key. -/
theorem handler_runs_once (hstart : BeforeRequests ⟨true⟩ s)
    (h : httpMachine.Reaches LookupsSettled s t) (method originalUrl key : String)
    (hmethod : method ∈ cachedMethods) :
    OncePerTtl (executions t.world.log method originalUrl key) :=
  ((handledOnce_of_reaches hstart h).apart _).sublist (executions_sublist hmethod t.world.log)

def checkLookup (_ : Pid) (o : HttpOp) (e : HttpEnv) (w : HttpWorld) : Bool :=
  e.up && match o with
    | .get key => (inFlight w.log key).isEmpty
    | _ => true

theorem lookupsSettled_of_check (p : Pid) (o : HttpOp) (e : HttpEnv) (w : HttpWorld)
    (h : checkLookup p o e w = true) : LookupsSettled p o e w := by
  simp only [checkLookup, Bool.and_eq_true] at h
  refine ⟨h.1, ?_⟩
  cases o with
  | get key => exact List.isEmpty_iff.mp h.2
  | _ => trivial

/-- A placement of an order with the key `retry-1`. -/
def placementRequest : Request :=
  ⟨"POST", "/api/orders", .text "retry-1", 5, "eg", .obj []⟩

/-- The client sends the placement twice. -/
def placedTwice : Sys Pid HttpOp HttpOp.Res Err HttpWorld Sent :=
  ⟨{}, fun p => if p < 2 then some (idempotency ⟨true⟩ placementRequest) else none⟩

theorem placedTwice_before : BeforeRequests ⟨true⟩ placedTwice := by
  refine ⟨rfl, fun p prog hp => ⟨placementRequest, ?_⟩⟩
  simp only [placedTwice] at hp
  split_ifs at hp
  exact (Option.some.inj hp).symm

def serve (ps : List Pid) : List (Label Pid HttpEnv Nat) := ps.map fun p => .act p {}

/-- The second request comes when the first one has been answered and its reply kept. -/
theorem handler_runs_once_retry : ∃ t, httpMachine.run checkLookup (serve [0, 0, 0, 1]) placedTwice = some t ∧
    OncePerTtl (executions t.world.log "POST" "/api/orders" "retry-1") := by
  obtain ⟨t, ht⟩ := Option.isSome_iff_exists.mp (by decide +kernel :
    (httpMachine.run checkLookup (serve [0, 0, 0, 1]) placedTwice).isSome = true)
  exact ⟨t, ht, handler_runs_once placedTwice_before
    (Machine.reaches_of_run lookupsSettled_of_check _ ht) "POST" "/api/orders" "retry-1" (by decide)⟩

/-- Both requests look the entry up before the first has written it, and both run the handler. -/
theorem handler_runs_twice : ∃ t, httpMachine.Reaches RedisUp placedTwice t ∧
    ¬OncePerTtl (executions t.world.log "POST" "/api/orders" "retry-1") := by
  have hrun : ((httpMachine.run (fun _ _ e _ => e.up) (serve [0, 1, 0, 1, 0, 1]) placedTwice).map
      fun t => executions t.world.log "POST" "/api/orders" "retry-1") = some [0, 0] := by
    decide +kernel
  obtain ⟨t, ht, hexecutions⟩ := Option.map_eq_some_iff.mp hrun
  refine ⟨t, Machine.reaches_of_run (fun _ _ _ _ h => h) _ ht, ?_⟩
  rw [hexecutions]
  decide

end Result

end OrderService
