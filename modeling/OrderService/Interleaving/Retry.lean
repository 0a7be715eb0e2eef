import OrderService.Interleaving.RelyGuarantee

/-! Retrying a program on the errors that allow it. -/
namespace Interleaving

variable {Op : Type} {Res : Op → Type} {ε α : Type}

/-- After an error that `retryable` allows, tries again, `further` times at most. The last error
is the one that is thrown. -/
def Prog.retry (retryable : ε → Bool) (body : Prog Op Res ε α) : Nat → Prog Op Res ε α
  | 0 => body
  | further + 1 => tryCatch body fun err =>
    if retryable err then body.retry retryable further else throw err

section Rules
variable {retryable : ε → Bool} {body : Prog Op Res ε α}

/-- What every try keeps to, all of them keep to. -/
theorem Prog.calls_retry {P : Op → Prop} {R : (o : Op) → Res o → Prop} {Q : α → Prop}
    (hbody : body.Calls P R Q) (further : Nat) : (body.retry retryable further).Calls P R Q := by
  induction further with
  | zero => exact hbody
  | succ further ih =>
    refine calls_catch hbody fun err => ?_
    split_ifs
    · exact ih
    · trivial

end Rules

end Interleaving
