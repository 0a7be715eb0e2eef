import OrderService.IdempotencyOnce

/-! What a request is answered from the idempotency cache, and how that compares with the reply to
the request that was handled. -/
namespace OrderService
open Interleaving

section Statement

/-- The handler that request `p` ran last, with what it replied. -/
def HttpEvent.runBy (p : Pid) : HttpEvent → Option (Request × JsonReply)
  | .ran q req reply _ => if q = p then some (req, reply) else none
  | _ => none

def runOf (log : List HttpEvent) (p : Pid) : Option (Request × JsonReply) :=
  log.findSome? (HttpEvent.runBy p)

/-- The request whose reply an entry holds: the one that wrote it last. -/
def originalOf (log : List HttpEvent) (key : String) : Option (Request × JsonReply) :=
  (writers log key).head?.bind (runOf log)

/-- Request `q` found the entry when the log was `older`, and it has been answered. -/
structure AnsweredFromCache (t : Sys Pid HttpOp HttpOp.Res Err HttpWorld Sent) (q : Pid)
    (key : String) (older : List HttpEvent) (sent : Sent) : Prop where
  found : ∃ newer text, text ≠ "" ∧ t.world.log = newer ++ .read q key (some text) :: older
  answered : t.procs q = some (.pure sent)

/-- Every request answered from the cache gets the status and the body of the original. -/
def FaithfulReplays (t : Sys Pid HttpOp HttpOp.Res Err HttpWorld Sent) : Prop :=
  ∀ q key older sent, AnsweredFromCache t q key older sent →
    ∃ original reply, originalOf older key = some (original, reply) ∧
      original.cacheKey? = some key ∧ sent = reply.sent

end Statement

section Invariant

def HttpEvent.pid : HttpEvent → Pid
  | .read p _ _ => p
  | .ran p _ _ _ => p
  | .wrote p _ _ => p

/-- The text is the reply to the request that wrote the entry last. -/
def HoldsReply (log : List HttpEvent) (key text : String) : Prop :=
  ∃ original reply, originalOf log key = some (original, reply) ∧
    original.cacheKey? = some key ∧ text = reply.body.value.stringify

/-- Every entry is the reply to the request that wrote it last, and was so whenever it was read. -/
structure EntriesHoldReplies (w : HttpWorld) : Prop where
  entries : ∀ key entry, w.entries key = some entry → HoldsReply w.log key entry.text
  reads : ∀ newer older q key text, text ≠ "" →
    w.log = newer ++ .read q key (some text) :: older → HoldsReply older key text

/-- The others add their own events. -/
def Extends (p : Pid) (w w' : HttpWorld) : Prop :=
  ∃ newer, w'.log = newer ++ w.log ∧ ∀ event ∈ newer, event.pid ≠ p

theorem Extends.refl (p : Pid) (w : HttpWorld) : Extends p w w :=
  ⟨[], rfl, fun _ h => absurd h List.not_mem_nil⟩

theorem Extends.trans {p : Pid} {w w' w'' : HttpWorld} (h : Extends p w w')
    (h' : Extends p w' w'') : Extends p w w'' := by
  obtain ⟨newer, hlog, hnewer⟩ := h
  obtain ⟨newer', hlog', hnewer'⟩ := h'
  refine ⟨newer' ++ newer, by rw [hlog', hlog, List.append_assoc], fun event hevent => ?_⟩
  rcases List.mem_append.mp hevent with hevent | hevent
  · exact hnewer' event hevent
  · exact hnewer event hevent

def repliesSpec : Spec Pid HttpWorld := ⟨EntriesHoldReplies, Extends⟩

theorem repliesSpec_fits : repliesSpec.Fits httpMachine where
  refl := Extends.refl
  trans _ _ _ _ := Extends.trans
  crash _ w h := ⟨h, fun q _ => Extends.refl q w⟩
  ext _ _ h := ⟨⟨h.entries, h.reads⟩, fun _ => ⟨[], rfl, fun _ h => absurd h List.not_mem_nil⟩⟩

theorem extends_cons {p q : Pid} {w : HttpWorld} {event : HttpEvent} (hp : event.pid = p)
    (hqp : q ≠ p) (entries : String → Option CacheEntry) :
    Extends q w { w with entries := entries, log := event :: w.log } := by
  refine ⟨[event], rfl, fun other hother => ?_⟩
  rw [List.mem_singleton.mp hother, hp]
  exact Ne.symm hqp

end Invariant

section Steps
variable {w : HttpWorld} {p q : Pid} {key : String} {log : List HttpEvent}

theorem runOf_ran (req : Request) (reply : JsonReply) (time : Nat) :
    runOf (.ran p req reply time :: log) q = if p = q then some (req, reply) else runOf log q := by
  rw [runOf, List.findSome?_cons, HttpEvent.runBy]
  split_ifs <;> rfl

theorem runOf_append {newer : List HttpEvent} (h : ∀ event ∈ newer, event.pid ≠ p) :
    runOf (newer ++ log) p = runOf log p := by
  have hnone : newer.findSome? (HttpEvent.runBy p) = none := by
    rw [List.findSome?_eq_none_iff]
    intro event hevent
    cases event with
    | ran r req reply time =>
      have hr : r ≠ p := h _ hevent
      rw [HttpEvent.runBy, if_neg hr]
    | read r k found => rfl
    | wrote r k text => rfl
  rw [runOf, List.findSome?_append, hnone, Option.none_or, runOf]

theorem writers_pid (h : p ∈ writers log key) : ∃ event ∈ log, event.pid = p := by
  obtain ⟨event, hevent, hwriter⟩ := List.mem_filterMap.mp h
  refine ⟨event, hevent, ?_⟩
  cases event with
  | wrote r k text =>
    simp only [HttpEvent.writer] at hwriter
    split_ifs at hwriter
    exact Option.some.inj hwriter
  | read r k found => cases hwriter
  | ran r req reply time => cases hwriter

/-- The request has written no entry. -/
def WroteNone (p : Pid) (log : List HttpEvent) : Prop := ∀ key, p ∉ writers log key

theorem WroteNone.extends {w' : HttpWorld} (h : WroteNone p w.log) (hext : Extends p w w') :
    WroteNone p w'.log := by
  obtain ⟨newer, hlog, hnewer⟩ := hext
  intro key hmem
  rw [hlog, writers, List.filterMap_append, List.mem_append] at hmem
  rcases hmem with hmem | hmem
  · obtain ⟨event, hevent, hpid⟩ := writers_pid hmem
    exact hnewer event hevent hpid
  · exact h key hmem

/-- A lookup finds the reply to the request that wrote the entry last. -/
theorem EntriesHoldReplies.read (h : EntriesHoldReplies w) :
    EntriesHoldReplies { w with log := .read p key (w.lookup key) :: w.log } where
  entries := h.entries
  reads newer older q k text htext hlog := by
    cases newer with
    | cons event newer =>
      rw [List.cons_append, List.cons.injEq] at hlog
      exact h.reads newer older q k text htext hlog.2
    | nil =>
      simp only [List.nil_append, List.cons.injEq, HttpEvent.read.injEq] at hlog
      obtain ⟨⟨rfl, rfl, hfound⟩, rfl⟩ := hlog
      unfold HttpWorld.lookup at hfound
      cases hentry : w.entries key with
      | none => simp [hentry] at hfound
      | some entry =>
        simp only [hentry] at hfound
        split_ifs at hfound
        rw [← Option.some.inj hfound]
        exact h.entries key entry hentry

/-- A request that has not written anything runs its handler. -/
theorem EntriesHoldReplies.ran (h : EntriesHoldReplies w) (hnone : WroteNone p w.log)
    (req : Request) (reply : JsonReply) :
    EntriesHoldReplies { w with log := .ran p req reply w.clock :: w.log } where
  entries k entry hentry := by
    obtain ⟨original, kept, horiginal, hrest⟩ := h.entries k entry hentry
    refine ⟨original, kept, ?_, hrest⟩
    rw [originalOf, writers_ran]
    rw [originalOf] at horiginal
    cases hhead : (writers w.log k).head? with
    | none => rw [hhead] at horiginal; cases horiginal
    | some q =>
      have hqp : ¬p = q := by
        rintro rfl
        exact hnone k (List.mem_of_head? hhead)
      rw [hhead, Option.bind_some] at horiginal
      rw [Option.bind_some, runOf_ran, if_neg hqp, horiginal]
  reads newer older q k text htext hlog := by
    cases newer with
    | cons event newer =>
      rw [List.cons_append, List.cons.injEq] at hlog
      exact h.reads newer older q k text htext hlog.2
    | nil =>
      rw [List.nil_append, List.cons.injEq] at hlog
      cases hlog.1

/-- A request keeps the reply of its handler. -/
theorem EntriesHoldReplies.wrote (h : EntriesHoldReplies w) {req : Request} {reply : JsonReply}
    (hrun : runOf w.log p = some (req, reply)) (hkey : req.cacheKey? = some key) (expiresAt : Nat) :
    EntriesHoldReplies { w with
      entries := Function.update w.entries key (some ⟨reply.body.value.stringify, expiresAt⟩)
      log := .wrote p key reply.body.value.stringify :: w.log } where
  entries k entry hentry := by
    by_cases hkk : key = k
    · subst hkk
      change Function.update w.entries key _ key = some entry at hentry
      rw [Function.update_self] at hentry
      refine ⟨req, reply, ?_, hkey, by rw [← Option.some.inj hentry]⟩
      rw [originalOf, writers_wrote, if_pos rfl, List.head?_cons, Option.bind_some]
      exact hrun
    · change Function.update w.entries key _ k = some entry at hentry
      rw [Function.update_of_ne (Ne.symm hkk)] at hentry
      obtain ⟨original, kept, horiginal, hrest⟩ := h.entries k entry hentry
      refine ⟨original, kept, ?_, hrest⟩
      rw [originalOf, writers_wrote, if_neg hkk]
      exact horiginal
  reads newer older q k text htext hlog := by
    cases newer with
    | cons event newer =>
      rw [List.cons_append, List.cons.injEq] at hlog
      exact h.reads newer older q k text htext hlog.2
    | nil =>
      rw [List.nil_append, List.cons.injEq] at hlog
      cases hlog.1

end Steps

section Requests
variable {w : HttpWorld} {p : Pid} {key : String} {α : Type}

/-- No step has a condition. -/
abbrev AnyStep : Pid → HttpOp → HttpEnv → HttpWorld → Prop := fun _ _ _ _ => True

/-- What the request has read is no JSON text, if it has read anything. -/
def ReadsNothing (p : Pid) (log : List HttpEvent) : Prop :=
  ∀ key text, .read p key (some text) ∈ log → text ≠ "" → Json.parse text = none

/-- What the request has read is what it answers, with status 200. -/
def AnswersRead (p : Pid) (sent : Sent) (log : List HttpEvent) : Prop :=
  ∀ key text, .read p key (some text) ∈ log → text ≠ "" → ∀ body, Json.parse text = some body →
    sent = ⟨200, body⟩

theorem ReadsNothing.answersRead {sent : Sent} {log : List HttpEvent} (h : ReadsNothing p log) :
    AnswersRead p sent log := by
  intro key text hread htext body hbody
  rw [h key text hread htext] at hbody
  cases hbody

theorem Extends.mem_read {w' : HttpWorld} (h : Extends p w w') {found : Option String}
    (hread : .read p key found ∈ w'.log) : .read p key found ∈ w.log := by
  obtain ⟨newer, hlog, hnewer⟩ := h
  rw [hlog, List.mem_append] at hread
  rcases hread with hread | hread
  · exact absurd rfl (hnewer _ hread)
  · exact hread

theorem ReadsNothing.extends {w' : HttpWorld} (h : ReadsNothing p w.log) (hext : Extends p w w') :
    ReadsNothing p w'.log := fun key text hread => h key text (hext.mem_read hread)

theorem wp_next_replies {req : Request} (hnone : WroteNone p w.log) (hreads : ReadsNothing p w.log) :
    wp httpMachine AnyStep repliesSpec p (next req) (fun r w' => ∃ reply, r = .ok reply ∧
      runOf w'.log p = some (req, reply) ∧ ReadsNothing p w'.log) w := by
  refine wp_perform fun w₁ hr₁ hinv₁ e r w₂ _ hx => ?_
  simp only [httpMachine, execHttp, Option.some.injEq, Prod.mk.injEq] at hx
  obtain ⟨rfl, rfl⟩ := hx
  have hreads₁ : ReadsNothing p w₁.log := hreads.extends hr₁
  refine ⟨EntriesHoldReplies.ran hinv₁ (hnone.extends hr₁) req e.handled.reply,
    fun q hqp => extends_cons rfl hqp w₁.entries, e.handled.reply, rfl, ?_, fun k text hread => ?_⟩
  · rw [runOf_ran, if_pos rfl]
  · rcases List.mem_cons.mp hread with hread | hread
    · cases hread
    · exact hreads₁ k text hread

/-- A handler whose reply is not kept. -/
theorem wp_pass_replies {req : Request} (hnone : WroteNone p w.log) (hreads : ReadsNothing p w.log) :
    wp httpMachine AnyStep repliesSpec p (do let reply ← next req; pure reply.sent)
      (fun r w' => ∀ sent, r = .ok sent → AnswersRead p sent w'.log) w := by
  apply wp_do
  apply wp_mono _ (wp_next_replies hnone hreads)
  rintro r w' ⟨reply, rfl, _, hreads'⟩ sent _
  exact hreads'.answersRead

theorem wp_handleAndKeep_replies {req : Request} (hkey : req.cacheKey? = some key)
    (hnone : WroteNone p w.log) (hreads : ReadsNothing p w.log) :
    wp httpMachine AnyStep repliesSpec p (handleAndKeep req key)
      (fun r w' => ∃ sent, r = .ok sent ∧ AnswersRead p sent w'.log) w := by
  apply wp_do
  apply wp_mono _ (wp_next_replies hnone hreads)
  rintro r w' ⟨reply, rfl, hrun, hreads'⟩
  dsimp only
  apply wp_do
  apply wp_catch
  refine wp_perform fun w₁ hr₁ hinv₁ e r w₂ _ hx => ?_
  have hreads₁ : ReadsNothing p w₁.log := hreads'.extends hr₁
  simp only [httpMachine, execHttp] at hx
  split_ifs at hx with hup
  · simp only [Option.some.injEq, Prod.mk.injEq] at hx
    obtain ⟨rfl, rfl⟩ := hx
    have hrun₁ : runOf w₁.log p = some (req, reply) := by
      obtain ⟨newer, hlog, hnewer⟩ := hr₁
      rw [hlog, runOf_append hnewer, hrun]
    refine ⟨EntriesHoldReplies.wrote hinv₁ hrun₁ hkey _, fun q hqp => extends_cons rfl hqp _,
      reply.sent, rfl, ReadsNothing.answersRead fun k text hread => ?_⟩
    rcases List.mem_cons.mp hread with hread | hread
    · cases hread
    · exact hreads₁ k text hread
  · -- A failed write is ignored.
    simp only [Option.some.injEq, Prod.mk.injEq] at hx
    obtain ⟨rfl, rfl⟩ := hx
    exact ⟨hinv₁, fun q _ => Extends.refl q w₁, reply.sent, rfl, hreads₁.answersRead⟩

theorem wp_answerOnce_replies {req : Request} (hkey : req.cacheKey? = some key)
    (hfresh : ∀ event ∈ w.log, event.pid ≠ p) :
    wp httpMachine AnyStep repliesSpec p (answerOnce req key) (fun r w' => match r with
      | .ok sent => AnswersRead p sent w'.log
      | .error _ => ReadsNothing p w'.log ∧ WroteNone p w'.log) w := by
  have hnone : WroteNone p w.log := by
    intro k hmem
    obtain ⟨event, hevent, hpid⟩ := writers_pid hmem
    exact hfresh event hevent hpid
  have hreads : ReadsNothing p w.log := fun k text hread => absurd rfl (hfresh _ hread)
  apply wp_do
  refine wp_perform fun w₁ hr₁ hinv₁ e r w₂ _ hx => ?_
  have hnone₁ : WroteNone p w₁.log := hnone.extends hr₁
  have hreads₁ : ReadsNothing p w₁.log := hreads.extends hr₁
  simp only [httpMachine, execHttp] at hx
  split_ifs at hx with hup
  · simp only [Option.some.injEq, Prod.mk.injEq] at hx
    obtain ⟨rfl, rfl⟩ := hx
    refine ⟨EntriesHoldReplies.read hinv₁, fun q hqp => extends_cons rfl hqp w₁.entries, ?_⟩
    dsimp only
    cases hfound : (w₁.lookup key).filter (· ≠ "") with
    | some text =>
      have hlookup : w₁.lookup key = some text := (Option.filter_eq_some_iff.mp hfound).1
      -- The only entry that the request reads is the one it answers.
      have honly : ∀ k t, .read p k (some t) ∈ .read p key (w₁.lookup key) :: w₁.log →
          t ≠ "" → t = text ∨ Json.parse t = none := by
        intro k t hread ht
        rcases List.mem_cons.mp hread with hread | hread
        · simp only [HttpEvent.read.injEq, true_and] at hread
          rw [hlookup] at hread
          exact .inl (Option.some.inj hread.2)
        · exact .inr (hreads₁ k t hread ht)
      change wp httpMachine AnyStep repliesSpec p (replayCached text) _ _
      unfold replayCached
      cases hparse : Json.parse text with
      | some body =>
        change AnswersRead p ⟨200, body⟩ _
        intro k t hread ht other hother
        rcases honly k t hread ht with rfl | hbad
        · rw [hparse] at hother
          rw [← Option.some.inj hother]
        · rw [hbad] at hother
          cases hother
      | none =>
        change ReadsNothing p _ ∧ WroteNone p _
        refine ⟨fun k t hread ht => ?_, hnone₁⟩
        rcases honly k t hread ht with rfl | hbad
        · exact hparse
        · exact hbad
    | none =>
      have hreads₂ : ReadsNothing p (.read p key (w₁.lookup key) :: w₁.log) := by
        intro k t hread ht
        rcases List.mem_cons.mp hread with hread | hread
        · simp only [HttpEvent.read.injEq, true_and] at hread
          rw [← hread.2, Option.filter_some, if_pos (by simpa using ht)] at hfound
          cases hfound
        · exact hreads₁ k t hread ht
      change wp httpMachine AnyStep repliesSpec p (handleAndKeep req key) _ _
      refine wp_mono ?_ (wp_handleAndKeep_replies (w := { w₁ with
        log := .read p key (w₁.lookup key) :: w₁.log }) hkey hnone₁ hreads₂)
      rintro r w' ⟨sent, rfl, hsent⟩
      exact hsent
  · simp only [Option.some.injEq, Prod.mk.injEq] at hx
    obtain ⟨rfl, rfl⟩ := hx
    exact ⟨hinv₁, fun q _ => Extends.refl q w₁, hreads₁, hnone₁⟩

theorem wp_idempotency_replies {options : IdempotencyOptions} {req : Request}
    (hfresh : ∀ event ∈ w.log, event.pid ≠ p) :
    wp httpMachine AnyStep repliesSpec p (idempotency options req)
      (fun r w' => ∀ sent, r = .ok sent → AnswersRead p sent w'.log) w := by
  have hnone : WroteNone p w.log := by
    intro k hmem
    obtain ⟨event, hevent, hpid⟩ := writers_pid hmem
    exact hfresh event hevent hpid
  have hreads : ReadsNothing p w.log := fun k text hread => absurd rfl (hfresh _ hread)
  unfold idempotency
  by_cases hmethod : req.method ∈ cachedMethods
  · rw [if_neg (not_not.mpr hmethod)]
    cases hk : req.key? with
    | none =>
      dsimp only
      split_ifs
      · exact fun _ _ => hreads.answersRead
      · exact wp_pass_replies hnone hreads
    | some key =>
      have hkey : req.cacheKey? = some (cacheKey req.method req.originalUrl key) := by
        rw [Request.cacheKey?, if_pos hmethod, hk, Option.map_some]
      apply wp_catch
      apply wp_mono _ (wp_answerOnce_replies hkey hfresh)
      intro r w' hr
      cases r with
      | ok sent =>
        intro other hother
        cases hother
        exact hr
      | error err =>
        dsimp only
        split_ifs
        · exact fun _ _ => hr.1.answersRead
        · exact wp_pass_replies hr.2 hr.1
  · rw [if_pos hmethod]
    exact wp_pass_replies hnone hreads

end Requests

section Result
variable {options : IdempotencyOptions} {s t : Sys Pid HttpOp HttpOp.Res Err HttpWorld Sent}

theorem answersRead_stable (p : Pid) : repliesSpec.Stable p
    (fun (r : Except Err Sent) w => ∀ sent, r = .ok sent → AnswersRead p sent w.log) := by
  intro r w w' hext _ h sent hsent key text hread
  exact h sent hsent key text (hext.mem_read hread)

/-- A request answered from the cache gets status 200 and the body of the original. -/
theorem replay_sent (hstart : BeforeRequests options s) (hempty : ∀ key, s.world.entries key = none)
    (h : httpMachine.Reaches AnyStep s t) {q : Pid} {key : String} {older : List HttpEvent}
    {sent : Sent} (hcache : AnsweredFromCache t q key older sent) :
    ∃ original reply, originalOf older key = some (original, reply) ∧
      original.cacheKey? = some key ∧ sent = ⟨200, reply.body.value⟩ := by
  have hsound : Sound httpMachine AnyStep repliesSpec
      (fun p r w => ∀ sent, r = .ok sent → AnswersRead p sent w.log) s := by
    refine ⟨⟨fun key entry hentry => ?_, fun newer older q key text _ hlog => ?_⟩,
      fun p prog hp => ?_⟩
    · rw [hempty] at hentry
      cases hentry
    · rw [hstart.1] at hlog
      simp at hlog
    · obtain ⟨req, rfl⟩ := hstart.2 p prog hp
      apply wp_idempotency_replies
      rw [hstart.1]
      exact fun _ hevent => absurd hevent List.not_mem_nil
  obtain ⟨hinv, hprocs⟩ := sound_reaches repliesSpec_fits answersRead_stable hsound h
  obtain ⟨newer, text, htext, hlog⟩ := hcache.found
  obtain ⟨original, reply, horiginal, hkey, rfl⟩ := hinv.reads newer older q key text htext hlog
  have hread : .read q key (some reply.body.value.stringify) ∈ t.world.log := by
    rw [hlog]
    simp
  exact ⟨original, reply, horiginal, hkey, hprocs q _ hcache.answered sent rfl key _ hread htext _
    (parse_stringify reply.body.wellFormed)⟩

/-- In every interleaving, whatever the handlers reply: a request that is answered from the cache gets
the status and the body of the original if and only if the status of the original was 200. -/
theorem replay_faithful_iff (hstart : BeforeRequests options s)
    (hempty : ∀ key, s.world.entries key = none) (h : httpMachine.Reaches AnyStep s t) (q : Pid)
    (key : String) (older : List HttpEvent) (sent : Sent)
    (hcache : AnsweredFromCache t q key older sent) :
    ∃ original reply, originalOf older key = some (original, reply) ∧
      original.cacheKey? = some key ∧ (sent = reply.sent ↔ reply.status = 200) := by
  obtain ⟨original, reply, horiginal, hkey, rfl⟩ := replay_sent hstart hempty h hcache
  refine ⟨original, reply, horiginal, hkey, fun hsame => ?_, fun hstatus => ?_⟩
  · exact (congrArg Sent.status hsame).symm
  · rw [JsonReply.sent, hstatus]

def answered (prog : Option (Middleware Sent)) : Bool :=
  match prog with
  | some (.pure _) => true
  | _ => false

theorem answered_iff {prog : Option (Middleware Sent)} (h : answered prog = true) :
    ∃ sent, prog = some (.pure sent) := by
  unfold answered at h
  split at h
  · exact ⟨_, rfl⟩
  · cases h

def HttpEvent.hits (q : Pid) (key : String) : HttpEvent → Bool
  | .read p k (some text) => p = q && k = key && text ≠ ""
  | _ => false

theorem HttpEvent.hits_iff {q : Pid} {key : String} {event : HttpEvent}
    (h : event.hits q key = true) : ∃ text, text ≠ "" ∧ event = .read q key (some text) := by
  unfold HttpEvent.hits at h
  split at h
  · simp only [Bool.and_eq_true, decide_eq_true_eq] at h
    obtain ⟨⟨rfl, rfl⟩, htext⟩ := h
    exact ⟨_, htext, rfl⟩
  · cases h

/-- The second request is answered from the cache with the last event of the run. -/
theorem answeredFromCache_of_run (labels : List (Label Pid HttpEnv Nat)) (key : String)
    (status : Nat) (hrun : (httpMachine.run (fun _ _ _ _ => true) labels placedTwice).any (fun t =>
      (t.world.log.head?.map (HttpEvent.hits 1 key)).getD false && answered (t.procs 1) &&
        ((originalOf t.world.log.tail key).map fun o => o.2.status) = some status) = true) :
    ∃ t older sent original reply, httpMachine.Reaches AnyStep placedTwice t ∧
      AnsweredFromCache t 1 key older sent ∧ originalOf older key = some (original, reply) ∧
      reply.status = status := by
  obtain ⟨t, ht, hfacts⟩ := (Option.any_eq_true _ _).mp hrun
  simp only [Bool.and_eq_true, decide_eq_true_eq] at hfacts
  obtain ⟨⟨hhead, hanswered⟩, horiginal⟩ := hfacts
  obtain ⟨sent, hsent⟩ := answered_iff hanswered
  obtain ⟨o, ho, hstatus⟩ := Option.map_eq_some_iff.mp horiginal
  cases hlog : t.world.log with
  | nil =>
    rw [hlog] at hhead
    cases hhead
  | cons event older =>
    rw [hlog] at hhead ho
    obtain ⟨text, htext, rfl⟩ := HttpEvent.hits_iff hhead
    exact ⟨t, older, sent, o.1, o.2, Machine.reaches_of_run (fun _ _ _ _ _ => trivial) _ ht,
      ⟨⟨[], text, htext, hlog⟩, hsent⟩, ho, hstatus⟩

/-- The first request is handled and its reply kept, then the second one looks it up. -/
def thenReplayed (handled : Handled) : List (Label Pid HttpEnv Nat) :=
  [.act 0 {}, .act 0 ⟨true, handled⟩, .act 0 {}, .act 1 {}]

def placementKey : String := cacheKey "POST" "/api/orders" "retry-1"

theorem replay_faithful_ok : ∃ t older sent original reply,
    AnsweredFromCache t 1 placementKey older sent ∧
      originalOf older placementKey = some (original, reply) ∧ reply.status = 200 ∧
      sent = reply.sent := by
  obtain ⟨t, older, sent, original, reply, hreaches, hcache, horiginal, hstatus⟩ :=
    answeredFromCache_of_run (thenReplayed (.responds (sendSuccess none))) placementKey 200
      (by decide +kernel)
  obtain ⟨original', reply', horiginal', _, hiff⟩ :=
    replay_faithful_iff placedTwice_before (fun _ => rfl) hreaches 1 placementKey older sent hcache
  rw [horiginal] at horiginal'
  cases horiginal'
  exact ⟨t, older, sent, original, reply, hcache, horiginal, hstatus, hiff.mpr hstatus⟩

/-- Core refuses the stock of an order with 409, and the retry of the client is told 200. -/
theorem error_replayed_ok : ∃ t, httpMachine.Reaches AnyStep placedTwice t ∧
    ¬FaithfulReplays t := by
  obtain ⟨t, older, sent, original, reply, hreaches, hcache, horiginal, hstatus⟩ :=
    answeredFromCache_of_run
      (thenReplayed (.fails (.app ⟨"core-service 409: insufficient stock", 409⟩))) placementKey 409
      (by decide +kernel)
  refine ⟨t, hreaches, fun hfaithful => ?_⟩
  obtain ⟨original', reply', horiginal', _, hsame⟩ := hfaithful 1 placementKey older sent hcache
  obtain ⟨original'', reply'', horiginal'', _, hsent⟩ :=
    replay_sent placedTwice_before (fun _ => rfl) hreaches hcache
  rw [horiginal] at horiginal' horiginal''
  cases horiginal'
  cases horiginal''
  have h200 : sent.status = 200 := by rw [hsent]
  have h409 : sent.status = 409 := by rw [hsame, JsonReply.sent, hstatus]
  omega

end Result

end OrderService
