import OrderService.IdempotencyReplay
import OrderService.Interleaving.Trace

/-! Whose replies a request can be answered with from the idempotency cache. -/
namespace OrderService
open Interleaving

section Statement

/-- Any number of requests through the middleware, with an empty cache. -/
def serving (options : IdempotencyOptions) (requests : Pid → Option Request) :
    Sys Pid HttpOp HttpOp.Res Err HttpWorld Sent :=
  ⟨{}, fun p => (requests p).map (idempotency options)⟩

/-- The same user asks the same in the same region. -/
def SameCaller (a b : Request) : Prop := a.userId = b.userId ∧ a.region = b.region ∧ a.body = b.body

/-- A request is answered from the cache only with the reply to a request of the same caller. -/
def NoCrossTalk (requests : Pid → Option Request)
    (t : Sys Pid HttpOp HttpOp.Res Err HttpWorld Sent) : Prop :=
  ∀ q key older sent later, AnsweredFromCache t q key older sent → requests q = some later →
    ∃ original reply, originalOf older key = some (original, reply) ∧
      sent.body = reply.body.value ∧ SameCaller original later

end Statement

section Own

/-- What request `p` does concerns its own entry and its own handler. -/
def HttpOp.OwnedBy (requests : Pid → Option Request) (p : Pid) : HttpOp → Prop
  | .get key => ∃ req, requests p = some req ∧ req.cacheKey? = some key
  | .set .. => True
  | .next req => requests p = some req

def HttpEvent.Owned (requests : Pid → Option Request) : HttpEvent → Prop
  | .read p key _ => ∃ req, requests p = some req ∧ req.cacheKey? = some key
  | .ran p req _ _ => requests p = some req
  | .wrote .. => True

variable {options : IdempotencyOptions} {requests : Pid → Option Request} {p : Pid}

/-- A program whose steps concern the request alone. -/
abbrev OwnSteps (requests : Pid → Option Request) (p : Pid) (prog : Middleware Sent) : Prop :=
  prog.Calls (HttpOp.OwnedBy requests p) (fun _ _ => True) fun _ => True

theorem ownSteps_pass {req : Request} (hreq : requests p = some req) :
    OwnSteps requests p (do let reply ← next req; pure reply.sent) := by
  have hnext : (next req).Calls (HttpOp.OwnedBy requests p) (fun _ _ => True) fun _ => True :=
    Prog.calls_perform hreq fun _ _ => trivial
  exact Prog.calls_do hnext fun _ _ => trivial

theorem ownSteps_answerOnce {req : Request} {key : String} (hreq : requests p = some req)
    (hkey : req.cacheKey? = some key) : OwnSteps requests p (answerOnce req key) := by
  have hget : (cacheGet key).Calls (HttpOp.OwnedBy requests p) (fun _ _ => True) fun _ => True :=
    Prog.calls_perform ⟨req, hreq, hkey⟩ fun _ _ => trivial
  have hnext : (next req).Calls (HttpOp.OwnedBy requests p) (fun _ _ => True) fun _ => True :=
    Prog.calls_perform hreq fun _ _ => trivial
  apply Prog.calls_do hget
  intro cached _
  cases cached.filter (· ≠ "") with
  | some text =>
    dsimp only
    unfold replayCached
    cases Json.parse text with
    | some body => trivial
    | none => trivial
  | none =>
    apply Prog.calls_do hnext
    intro reply _
    have hset : (cacheSet key reply.body.value.stringify idempotencyTtl).Calls
        (HttpOp.OwnedBy requests p) (fun _ _ => True) fun _ => True :=
      Prog.calls_perform trivial fun _ _ => trivial
    exact Prog.calls_do (Prog.calls_catch hset fun _ => trivial) fun _ _ => trivial

theorem ownSteps_idempotency {req : Request} (hreq : requests p = some req) :
    OwnSteps requests p (idempotency options req) := by
  unfold idempotency
  by_cases hmethod : req.method ∈ cachedMethods
  · rw [if_neg (not_not.mpr hmethod)]
    cases hk : req.key? with
    | none =>
      dsimp only
      split_ifs
      · trivial
      · exact ownSteps_pass hreq
    | some key =>
      have hkey : req.cacheKey? = some (cacheKey req.method req.originalUrl key) := by
        rw [Request.cacheKey?, if_pos hmethod, hk, Option.map_some]
      apply Prog.calls_catch (ownSteps_answerOnce hreq hkey)
      intro err
      split_ifs
      · trivial
      · exact ownSteps_pass hreq
  · rw [if_pos hmethod]
    exact ownSteps_pass hreq

theorem owned_of_reaches {t : Sys Pid HttpOp HttpOp.Res Err HttpWorld Sent}
    (h : httpMachine.Reaches AnyStep (serving options requests) t) :
    ∀ event ∈ t.world.log, event.Owned requests := by
  refine Machine.Reaches.keeps_calls (P := HttpOp.OwnedBy requests)
    (J := fun w => ∀ event ∈ w.log, event.Owned requests) ?_ ?_ (fun _ _ h => h) (fun _ _ h => h)
    (fun _ hevent => absurd hevent List.not_mem_nil) h
  · intro p prog hp
    obtain ⟨req, hreq, rfl⟩ := Option.map_eq_some_iff.mp hp
    exact ownSteps_idempotency hreq
  · intro p o e w r w' ho _ hw hx
    simp only [httpMachine] at hx
    cases o with
    | get key =>
      simp only [execHttp] at hx
      split_ifs at hx
      · simp only [Option.some.injEq, Prod.mk.injEq] at hx
        obtain ⟨_, rfl⟩ := hx
        exact List.forall_mem_cons.mpr ⟨ho, hw⟩
      · simp only [Option.some.injEq, Prod.mk.injEq] at hx
        obtain ⟨_, rfl⟩ := hx
        exact hw
    | set key value ttlSeconds =>
      simp only [execHttp] at hx
      split_ifs at hx
      · simp only [Option.some.injEq, Prod.mk.injEq] at hx
        obtain ⟨_, rfl⟩ := hx
        exact List.forall_mem_cons.mpr ⟨trivial, hw⟩
      · simp only [Option.some.injEq, Prod.mk.injEq] at hx
        obtain ⟨_, rfl⟩ := hx
        exact hw
    | next req =>
      simp only [execHttp, Option.some.injEq, Prod.mk.injEq] at hx
      obtain ⟨_, rfl⟩ := hx
      exact List.forall_mem_cons.mpr ⟨ho, hw⟩

theorem originalOf_mem {log : List HttpEvent} {key : String} {original : Request}
    {reply : JsonReply} (h : originalOf log key = some (original, reply)) :
    ∃ p time, .ran p original reply time ∈ log := by
  obtain ⟨p, _, hrun⟩ := Option.bind_eq_some_iff.mp h
  obtain ⟨event, hevent, hby⟩ := List.exists_of_findSome?_eq_some hrun
  cases event with
  | ran r req other time =>
    simp only [HttpEvent.runBy] at hby
    split_ifs at hby
    cases hby
    exact ⟨r, time, hevent⟩
  | read r k found => cases hby
  | wrote r k text => cases hby

end Own

section OneByOne
variable {options : IdempotencyOptions} {req : Request} {key : String} {p : Pid} {w : HttpWorld}

theorem idempotency_kept (hkey : req.cacheKey? = some key) :
    ∃ handler, idempotency options req = tryCatch (answerOnce req key) handler := by
  rw [Request.cacheKey?] at hkey
  split_ifs at hkey with hmethod
  obtain ⟨k, hk, rfl⟩ := Option.map_eq_some_iff.mp hkey
  unfold idempotency
  rw [if_neg (not_not.mpr hmethod), hk]
  exact ⟨_, rfl⟩

/-- After the lookup a request by itself replays what it found, or handles the request. -/
theorem runAlone_answerOnce {handler : Err → Middleware Sent} (es : List HttpEnv) :
    ∃ rest : Middleware Sent,
      httpMachine.runAlone p (tryCatch (answerOnce req key) handler) ({} :: es) w
        = httpMachine.runAlone p (Prog.tryCatch rest handler) es
          { w with log := .read p key (w.lookup key) :: w.log } ∧
      (∀ text, (w.lookup key).filter (· ≠ "") = some text → rest = replayCached text) ∧
      ((w.lookup key).filter (· ≠ "") = none → rest = handleAndKeep req key) := by
  refine ⟨_, rfl, ?_, ?_⟩
  · intro text hfound
    dsimp only [Prog.ofExcept, Prog.bind]
    rw [hfound]
  · intro hmiss
    dsimp only [Prog.ofExcept, Prog.bind]
    rw [hmiss]

/-- A request by itself whose entry is absent is handled, and its reply is kept. -/
theorem runAlone_handled (hkey : req.cacheKey? = some key) (habsent : w.lookup key = none)
    (handled : Handled) :
    ∃ w', httpMachine.runAlone p (idempotency options req) [{}, ⟨true, handled⟩, {}] w
        = (.returned handled.reply.sent, w') ∧
      w'.log = .wrote p key handled.reply.body.value.stringify
        :: .ran p req handled.reply w.clock :: .read p key none :: w.log ∧
      w'.lookup key = some handled.reply.body.value.stringify := by
  obtain ⟨handler, hprog⟩ := idempotency_kept hkey
  obtain ⟨rest, hrun, _, hmiss⟩ := @runAlone_answerOnce req key p w handler
    [⟨true, handled⟩, {}]
  have hnone : (w.lookup key).filter (· ≠ "") = none := by rw [habsent]; rfl
  rw [hprog, hrun, hmiss hnone, habsent]
  refine ⟨_, rfl, rfl, ?_⟩
  have hlive : w.clock ≤ w.clock + idempotencyTtl * 1000 := Nat.le_add_right _ _
  simp only [HttpWorld.lookup, Function.update_self, if_pos hlive]

/-- A request by itself whose entry holds a reply is answered with it. -/
theorem runAlone_replayed (hkey : req.cacheKey? = some key) {body : JsonBody}
    (hfound : w.lookup key = some body.value.stringify) :
    httpMachine.runAlone p (idempotency options req) [{}] w
      = (.returned ⟨200, body.value⟩,
        { w with log := .read p key (some body.value.stringify) :: w.log }) := by
  obtain ⟨handler, hprog⟩ := idempotency_kept hkey
  obtain ⟨rest, hrun, hhit, _⟩ := @runAlone_answerOnce req key p w handler []
  have htext : body.value.stringify ≠ "" := stringify_ne_empty body.wellFormed
  have hkept : (some body.value.stringify).filter (· ≠ "") = some body.value.stringify := by
    rw [Option.filter_some, if_pos (by simpa using htext)]
  rw [← hfound] at hkept
  rw [hprog, hrun, hhit _ (hkept.trans hfound), hfound, replayCached,
    parse_stringify body.wellFormed]
  rfl

end OneByOne

section Result
variable {requests : Pid → Option Request}

/-- Two requests with one entry: the first is handled, the second is answered with its reply. -/
theorem answered_with_other (options : IdempotencyOptions) {p q : Pid} (hpq : p ≠ q)
    {a b : Request} (ha : requests p = some a) (hb : requests q = some b) {key : String}
    (hakey : a.cacheKey? = some key) (hbkey : b.cacheKey? = some key) :
    ∃ t older sent reply, httpMachine.Reaches AnyStep (serving options requests) t ∧
      AnsweredFromCache t q key older sent ∧ originalOf older key = some (a, reply) := by
  have hp : (serving options requests).procs p = some (idempotency options a) :=
    congrArg (Option.map (idempotency options)) ha
  have hq : (serving options requests).procs q = some (idempotency options b) :=
    congrArg (Option.map (idempotency options)) hb
  obtain ⟨w, hrun, hlog, hlookup⟩ := runAlone_handled (p := p) hakey
    (w := (serving options requests).world) rfl (.responds (sendSuccess none))
  have hfirst := reaches_of_runAlone hp hrun
  have hq' : Function.update (serving options requests).procs p
      (some (.pure (sendSuccess none).sent)) q = some (idempotency options b) :=
    (Function.update_of_ne (Ne.symm hpq) _ _).trans hq
  have hanswer : httpMachine.runAlone q (idempotency options b) [{}] w = _ :=
    runAlone_replayed hbkey hlookup
  have hsecond := reaches_of_runAlone (s := ⟨w, Function.update (serving options requests).procs p
    (some (.pure (sendSuccess none).sent))⟩) hq' hanswer
  refine ⟨_, w.log, _, sendSuccess none, hfirst.trans hsecond,
    ⟨⟨[], _, stringify_ne_empty (sendSuccess none).body.wellFormed, rfl⟩,
      Function.update_self ..⟩, ?_⟩
  rw [originalOf, hlog, writers_wrote, if_pos rfl, List.head?_cons, Option.bind_some, runOf,
    List.findSome?_cons_of_isNone rfl, ← runOf, runOf_ran, if_pos rfl]
  rfl

/-- In every interleaving a request is answered from the cache only with the reply to a request of
the same user, in the same region, with the same body, if and only if all requests that share
an entry agree in these. -/
theorem no_cross_talk_iff (options : IdempotencyOptions) (requests : Pid → Option Request) :
    (∀ t, httpMachine.Reaches AnyStep (serving options requests) t → NoCrossTalk requests t) ↔
      ∀ p q a b key, requests p = some a → requests q = some b → a.cacheKey? = some key →
        b.cacheKey? = some key → SameCaller a b := by
  constructor
  · intro h p q a b key ha hb hakey hbkey
    by_cases hpq : p = q
    · subst hpq
      rw [ha] at hb
      cases hb
      exact ⟨rfl, rfl, rfl⟩
    obtain ⟨t, older, sent, reply, hreaches, hcache, horiginal⟩ :=
      answered_with_other options hpq ha hb hakey hbkey
    obtain ⟨original, reply', horiginal', _, hsame⟩ := h t hreaches q key older sent b hcache hb
    rw [horiginal] at horiginal'
    cases horiginal'
    exact hsame
  · intro hagree t hreaches q key older sent later hcache hlater
    have hstart : BeforeRequests options (serving options requests) := by
      refine ⟨rfl, fun p prog hp => ?_⟩
      obtain ⟨req, _, rfl⟩ := Option.map_eq_some_iff.mp hp
      exact ⟨req, rfl⟩
    obtain ⟨original, reply, horiginal, hkey, rfl⟩ :=
      replay_sent hstart (fun _ => rfl) hreaches hcache
    have howned := owned_of_reaches hreaches
    obtain ⟨newer, text, _, hlog⟩ := hcache.found
    obtain ⟨p, time, hran⟩ := originalOf_mem horiginal
    have hp : requests p = some original := by
      refine howned (.ran p original reply time) ?_
      rw [hlog]
      exact List.mem_append_right _ (List.mem_cons_of_mem _ hran)
    obtain ⟨req, hreq, hreqkey⟩ : ∃ req, requests q = some req ∧ req.cacheKey? = some key := by
      refine howned (.read q key (some text)) ?_
      rw [hlog]
      exact List.mem_append_right _ List.mem_cons_self
    rw [hlater] at hreq
    cases hreq
    exact ⟨original, reply, horiginal, rfl, hagree p q original later key hp hlater hkey hreqkey⟩

/-- Customers 5 and 6 place an order with the same key. -/
def sharedKey : Pid → Option Request
  | 0 => some placementRequest
  | 1 => some { placementRequest with userId := 6 }
  | _ => none

/-- Customer 6 is told about the order of customer 5. -/
theorem cross_talk_between_users : ∃ t,
    httpMachine.Reaches AnyStep (serving ⟨true⟩ sharedKey) t ∧ ¬NoCrossTalk sharedKey t := by
  have hother : sharedKey 1 = some { placementRequest with userId := 6 } := rfl
  have hkey : placementRequest.cacheKey? = some placementKey := by decide +kernel
  obtain ⟨t, older, sent, reply, hreaches, hcache, horiginal⟩ :=
    answered_with_other ⟨true⟩ (p := 0) (q := 1) (by decide) rfl hother hkey (by decide +kernel)
  refine ⟨t, hreaches, fun htalk => ?_⟩
  obtain ⟨original, reply', horiginal', _, huser, _⟩ :=
    htalk 1 placementKey older sent _ hcache hother
  rw [horiginal] at horiginal'
  cases horiginal'
  exact absurd huser (by decide)

end Result

end OrderService
