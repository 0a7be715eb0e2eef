import Mathlib.Algebra.Ring.Defs
import Mathlib.Order.Defs.LinearOrder
import OrderService.Interleaving.Answering
import OrderService.Interleaving.Translate
import OrderService.Services.CoreClient

/-! `retry`, with the pauses between the tries. -/
namespace OrderService
open Interleaving

/-- What `retry` awaits: its function, or a timer. -/
inductive RetryOp (δ : Type) where
  | fn
  | sleep (ms : δ)
  deriving DecidableEq

abbrev RetryOp.Res {δ : Type} (τ : Type) : RetryOp δ → Type
  | .fn => τ
  | .sleep _ => Unit

structure RetryOptions (ε δ : Type) where
  attempts : Nat
  initialDelayMs : δ
  maxDelayMs : δ
  isRetryable : Option (ε → Bool)

section Loop
variable {ε τ δ : Type} [CommSemiring δ] [LinearOrder δ]

/-- `!(opts.isRetryable && !opts.isRetryable(err))`. -/
def RetryOptions.retries (opts : RetryOptions ε δ) (err : ε) : Bool :=
  match opts.isRetryable with
  | none => true
  | some isRetryable => isRetryable err

/-- The loop from `i` on, with `left` of its iterations to go. -/
def retryFrom (opts : RetryOptions ε δ) :
    (left i : Nat) → (delay : δ) → (lastErr : ε) → Prog (RetryOp δ) (RetryOp.Res τ) ε τ
  | 0, _, _, lastErr => .throw lastErr
  | left + 1, i, delay, _ => (Prog.perform RetryOp.fn).andThen fun
    | .ok value => .pure value
    | .error err =>
      if !opts.retries err then .throw err
      -- `break`, and the error of this iteration is the one that is thrown.
      else if i + 1 = opts.attempts then .throw err
      else do
        Prog.perform (RetryOp.sleep delay)
        retryFrom opts left (i + 1) (min (delay * 2) opts.maxDelayMs) err

/-- `retry(fn, opts)`. Before the first error `lastErr` is undefined. -/
def retry (opts : RetryOptions ε δ) (undefined : ε) : Prog (RetryOp δ) (RetryOp.Res τ) ε τ :=
  retryFrom opts opts.attempts 0 opts.initialDelayMs undefined

end Loop

/-- The options of `CoreClient.request` and `KashierClient.refund`. -/
def clientRetryOptions : RetryOptions Err Nat where
  attempts := 3
  initialDelayMs := 50
  maxDelayMs := 500
  isRetryable := some isRetryable

section Run
variable {ε τ δ : Type}

/-- How often the function was called, and all that was awaited. -/
structure RetryRun (δ : Type) where
  calls : Nat
  awaited : List (RetryOp δ)
  deriving DecidableEq

/-- The function comes out as its next outcome says; the timers run to their end. -/
def retryMachine (outcomes : Nat → Except ε τ) :
    Machine Unit (RetryOp δ) (RetryOp.Res τ) ε (RetryRun δ) Unit Empty where
  exec _ o _ w :=
    match o with
    | .fn => some (outcomes w.calls, ⟨w.calls + 1, w.awaited ++ [.fn]⟩)
    | .sleep ms => some (.ok (), ⟨w.calls, w.awaited ++ [.sleep ms]⟩)
  crash _ w := w
  ext x _ := x.elim

variable [CommSemiring δ] [LinearOrder δ]

/-- One call of `retry`. -/
def runRetry (opts : RetryOptions ε δ) (undefined : ε) (outcomes : Nat → Except ε τ) :
    Outcome ε τ × RetryRun δ :=
  (retryMachine outcomes).runFor (fun _ => ()) () (retry opts undefined) ⟨0, []⟩

end Run

end OrderService
