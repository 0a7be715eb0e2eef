import Mathlib.Order.Nat
import OrderService.Services.RetryLoop

/-! Which call decides what `retry` comes to, and how long it pauses before that. -/
namespace OrderService
open Interleaving

section Statement
variable {ε τ δ : Type} [CommSemiring δ] [LinearOrder δ]

/-- The first call, from 0 on, that succeeds, fails for good, or is the last one. -/
structure Decides (opts : RetryOptions ε δ) (outcomes : Nat → Except ε τ) (k : Nat) : Prop where
  within : k < opts.attempts
  earlier : ∀ j < k, ∃ err, outcomes j = .error err ∧ opts.retries err = true
  final : k + 1 = opts.attempts ∨ ∀ err, outcomes k = .error err → opts.retries err = false

/-- The pause after call `k`: from the second on twice the last one, up to the largest. -/
def pause (opts : RetryOptions ε δ) : Nat → δ
  | 0 => opts.initialDelayMs
  | k + 1 => min opts.maxDelayMs (pause opts k + pause opts k)

/-- The first `k` calls, each with the pause after it. -/
def triesBefore (opts : RetryOptions ε δ) (k : Nat) : List (RetryOp δ) :=
  (List.range k).flatMap fun j => [.fn, .sleep (pause opts j)]

/-- What the caller is given for an outcome of the function. -/
def passOn : Except ε τ → Outcome ε τ
  | .ok value => .returned value
  | .error err => .threw err

end Statement

section Deciding
variable {ε τ δ : Type} {opts : RetryOptions ε δ} {outcomes : Nat → Except ε τ} {k k' : Nat}

theorem Decides.le (h : Decides opts outcomes k) (h' : Decides opts outcomes k') : k' ≤ k := by
  by_contra hlt
  obtain ⟨err, herr, hretries⟩ := h'.earlier k (by omega)
  have hwithin := h'.within
  rcases h.final with hlast | hgood
  · omega
  · rw [hgood err herr] at hretries
    cases hretries

theorem exists_decides (opts : RetryOptions ε δ) (outcomes : Nat → Except ε τ)
    (h : 1 ≤ opts.attempts) : ∃ k, Decides opts outcomes k := by
  classical
  have hsome : ∃ k, k + 1 = opts.attempts ∨
      ∀ err, outcomes k = .error err → opts.retries err = false :=
    ⟨opts.attempts - 1, .inl (by omega)⟩
  have hle : Nat.find hsome ≤ opts.attempts - 1 := Nat.find_min' hsome (.inl (by omega))
  refine ⟨Nat.find hsome, by omega, fun j hj => ?_, Nat.find_spec hsome⟩
  have hearlier := Nat.find_min hsome hj
  push Not at hearlier
  obtain ⟨_, err, herr, hretries⟩ := hearlier
  exact ⟨err, herr, by simpa using hretries⟩

end Deciding

section Loop
variable {ε τ δ : Type} [CommSemiring δ] [LinearOrder δ] {opts : RetryOptions ε δ}
  {outcomes : Nat → Except ε τ} {k : Nat}

theorem triesBefore_succ (opts : RetryOptions ε δ) (i : Nat) :
    triesBefore opts (i + 1) = triesBefore opts i ++ [.fn, .sleep (pause opts i)] := by
  unfold triesBefore
  rw [List.range_succ, List.flatMap_append, List.flatMap_singleton]

omit [CommSemiring δ] [LinearOrder δ] in
/-- After an outcome the run goes on with what the loop does of it. -/
theorem runFor_call (i : Nat) (awaited : List (RetryOp δ))
    (next : Except ε τ → Prog (RetryOp δ) (RetryOp.Res τ) ε τ) :
    (retryMachine outcomes).runFor (fun _ => ()) ()
        ((Prog.perform RetryOp.fn).andThen next) ⟨i, awaited⟩
      = (retryMachine outcomes).runFor (fun _ => ()) () (next (outcomes i))
          ⟨i + 1, awaited ++ [.fn]⟩ := by
  cases houtcome : outcomes i with
  | ok value => simp [Prog.perform, Prog.andThen, Machine.runFor, retryMachine, houtcome, Prog.ofExcept]
  | error err => simp [Prog.perform, Prog.andThen, Machine.runFor, retryMachine, houtcome, Prog.ofExcept]

/-- From any of its iterations on, the loop comes to the deciding call. -/
theorem retryFrom_run (hk : Decides opts outcomes k) {left i : Nat} (hleft : i + left = opts.attempts)
    (hi : i ≤ k) (lastErr : ε) :
    (retryMachine outcomes).runFor (fun _ => ()) ()
        (retryFrom opts left i (pause opts i) lastErr) ⟨i, triesBefore opts i⟩
      = (passOn (outcomes k), ⟨k + 1, triesBefore opts k ++ [.fn]⟩) := by
  have hwithin := hk.within
  induction left generalizing i lastErr with
  | zero => omega
  | succ left ih =>
    rw [retryFrom, runFor_call]
    by_cases hlast : i = k
    · -- The deciding call itself.
      subst hlast
      cases houtcome : outcomes i with
      | ok value => rfl
      | error err =>
        rcases hk.final with hend | hgood
        · simp [hend, passOn, Machine.runFor]
        · simp [hgood err houtcome, passOn, Machine.runFor]
    · obtain ⟨err, herr, hretries⟩ := hk.earlier i (by omega)
      have hmore : i + 1 ≠ opts.attempts := by omega
      have hpause : min (pause opts i * 2) opts.maxDelayMs = pause opts (i + 1) := by
        rw [pause, min_comm, mul_two]
      have hslept : (retryMachine outcomes).runFor (fun _ => ()) ()
          (Prog.perform (RetryOp.sleep (pause opts i)))
            ⟨i + 1, triesBefore opts i ++ [.fn]⟩
          = (.returned (), ⟨i + 1, triesBefore opts (i + 1)⟩) := by
        apply runFor_perform
        rw [triesBefore_succ]
        simp [retryMachine]
      rw [herr]
      simp only [hretries, hmore, hpause, Bool.not_true, Bool.false_eq_true, if_false]
      rw [runFor_do hslept]
      exact ih (by omega) (by omega) err

/-- `retry` follows its specification: exactly one call decides, and what `retry` does is to call
the function up to that call, pause between the calls, and pass on the outcome of the last. -/
theorem retry_follows_spec (opts : RetryOptions ε δ) (hattempts : 1 ≤ opts.attempts) (undefined : ε)
    (outcomes : Nat → Except ε τ) :
    ∃ k, Decides opts outcomes k ∧ (∀ k', Decides opts outcomes k' → k' = k) ∧
      runRetry opts undefined outcomes
        = (passOn (outcomes k), ⟨k + 1, triesBefore opts k ++ [.fn]⟩) := by
  obtain ⟨k, hk⟩ := exists_decides opts outcomes hattempts
  refine ⟨k, hk, fun k' hk' => ?_, ?_⟩
  · exact Nat.le_antisymm (hk.le hk') (hk'.le hk)
  · exact retryFrom_run hk (Nat.zero_add _) (Nat.zero_le k) undefined

/-- The third call succeeds, after core was unavailable and unreachable. -/
def thirdTime : Nat → Except Err Nat
  | 0 => .error (.app (coreUnavailableError 503))
  | 1 => .error .failed
  | n => .ok n

theorem retry_follows_spec_third : ∃ k, Decides clientRetryOptions thirdTime k ∧
    (∀ k', Decides clientRetryOptions thirdTime k' → k' = k) ∧
      runRetry clientRetryOptions .failed thirdTime
        = (passOn (thirdTime k), ⟨k + 1, triesBefore clientRetryOptions k ++ [.fn]⟩) :=
  retry_follows_spec clientRetryOptions (by decide) .failed thirdTime

example : (runRetry clientRetryOptions .failed thirdTime).2
    = ⟨3, [.fn, .sleep 50, .fn, .sleep 100, .fn]⟩ := by decide

end Loop

section Clients
variable {Op : Type} {Res : Op → Type} {ε τ δ : Type} [CommSemiring δ] [LinearOrder δ]

/-- The function is a program of its own, and the pauses are left out. -/
def pauseless (body : Prog Op Res ε τ) : (o : RetryOp δ) → Prog Op Res ε (RetryOp.Res τ o)
  | .fn => body
  | .sleep _ => .pure ()

omit [CommSemiring δ] [LinearOrder δ] in
theorem translate_call (body : Prog Op Res ε τ)
    (next : Except ε τ → Prog (RetryOp δ) (RetryOp.Res τ) ε τ) :
    ((Prog.perform RetryOp.fn).andThen next).translate (pauseless body)
      = body.andThen fun r => (next r).translate (pauseless body) := by
  have hnext : (fun r => ((Prog.ofExcept r : Prog (RetryOp δ) (RetryOp.Res τ) ε τ).andThen
      next).translate (pauseless body)) = fun r => (next r).translate (pauseless body) := by
    funext r
    cases r <;> rfl
  exact congrArg body.andThen hnext

theorem retryFrom_translate (body : Prog Op Res ε τ) (opts : RetryOptions ε δ) {further i : Nat}
    (hleft : i + further + 1 = opts.attempts) (delay : δ) (lastErr : ε) :
    (retryFrom opts (further + 1) i delay lastErr).translate (pauseless body)
      = body.retry opts.retries further := by
  induction further generalizing i delay lastErr with
  | zero =>
    have hlast : i + 1 = opts.attempts := hleft
    rw [retryFrom, translate_call, Prog.retry]
    conv_rhs => rw [← Prog.andThen_ofExcept body]
    congr 1
    funext r
    cases r with
    | ok value => rfl
    | error err => simp [hlast, Prog.translate, Prog.ofExcept]
  | succ further ih =>
    have hmore : i + 1 ≠ opts.attempts := by omega
    rw [retryFrom, translate_call, Prog.retry, Prog.tryCatch_andThen]
    congr 1
    funext r
    cases r with
    | ok value => rfl
    | error err =>
      cases hretries : opts.retries err with
      | false => simp [hretries, Prog.translate]
      | true =>
        simp only [hretries, hmore, Bool.not_true, Bool.false_eq_true, if_false, if_true]
        rw [Prog.translate_do, Prog.translate_perform]
        exact ih (by omega) _ err

/-- Without the pauses the loop is the retrying of the clients. -/
theorem retry_translate (body : Prog Op Res ε τ) (opts : RetryOptions ε δ)
    (hattempts : 1 ≤ opts.attempts) (undefined : ε) :
    (retry opts undefined).translate (pauseless body)
      = body.retry opts.retries (opts.attempts - 1) := by
  have hleft : opts.attempts = (opts.attempts - 1) + 1 := by omega
  unfold retry
  rw [hleft]
  exact retryFrom_translate body opts (by omega) opts.initialDelayMs undefined

theorem request_eq_retry (client : CoreClient) (req : CoreClientRequest) :
    client.request req = (retry clientRetryOptions .failed).translate
      (pauseless (attemptRequest (client.httpRequest req))) :=
  (retry_translate _ clientRetryOptions (by decide) .failed).symm

theorem kashierRefund_eq_retry (cfg : Config) (params : RefundParams) (hmock : mockKashier cfg = false) :
    kashierRefund cfg params = tryCatch
      ((retry clientRetryOptions .failed).translate (pauseless (attemptRefund params)))
      fun error => pure ⟨false, "", .str error.message⟩ := by
  rw [retry_translate _ clientRetryOptions (by decide)]
  simp [kashierRefund, hmock]
  rfl

end Clients

end OrderService
