import OrderService.Services.DeliveryLifecycle
import OrderService.Responses

/-! `AssignmentService`: an order is offered to the agents around its branch, one of them accepts
it, or an admin assigns it. -/
namespace OrderService

def offerNotFoundOrExpiredError : AppError := ⟨"OfferNotFoundOrExpired", 410⟩
def notInCandidateListError : AppError := ⟨"NotInCandidateList", 403⟩
def orderAlreadyClaimedError : AppError := ⟨"OrderAlreadyClaimed", 409⟩
def orderNotInReadyStateError : AppError := ⟨"OrderNotInReadyState", 409⟩

/-- `offered.split(",").map(Number)`. -/
def candidateIds : CacheValue → List Nat
  | .ids agents => agents
  | .flag => [1]
  | .count n => [n]

/-- `getBranch(id).catch(() => null)`. -/
def branchOrNull (branchId : Nat) : Svc (Option Branch) :=
  tryCatch
    (do
      let branch ← getBranch branchId
      pure (some branch))
    (fun _ => pure none)

def releaseClaim (publicId : String) : Svc Unit := do
  let _ ← cache (.del (.claim publicId))

/-- The guarded update that both ways of assigning share. -/
def takeOrder (publicId : String) (agentId : Nat) : Svc OrderEntity := do
  let claimed ← claimReadyOrderForAgent publicId agentId .trx
  match claimed with
  | none =>
    releaseClaim publicId
    throw (.app orderNotInReadyStateError)
  | some updated =>
    commit
    pure updated

/-- Runs the body in the open transaction; on an error rolls back and drops the claim key. -/
def releasingOnError (publicId : String) (body : Svc OrderEntity) : Svc OrderEntity :=
  tryCatch body fun err => do
    rollback
    releaseClaim publicId
    throw err

def announceTask (updated : OrderEntity) (agentId : Nat) (losers : List Nat) : Svc Unit := do
  emit (.agent agentId) .taskAssigned updated.publicId
  losers.forM fun loser => emit (.agent loser) .offerCancelled updated.publicId
  emit (.customer updated.customerId) .orderStatusChanged updated.publicId
  emit (.branch updated.branchId) .orderStatusChanged updated.publicId

/-- What follows the commit of an assignment. -/
def afterAssignment (publicId : String) (updated : OrderEntity) (agentId : Nat) (region : String)
    (losers : List Nat) : Svc DeliveryTaskResponse := do
  markBusy agentId region
  let branch ← branchOrNull updated.branchId
  announceTask updated agentId losers
  let _ ← cache (.del (.offer publicId))
  pure (.ofOrder updated branch)

def claim (cfg : Config) (publicId : String) (agentId : Nat) (region : String) :
    Svc DeliveryTaskResponse := do
  let offered ← cache (.get (.offer publicId))
  match offered with
  | none => throw (.app offerNotFoundOrExpiredError)
  | some value =>
    if agentId ∉ candidateIds value then throw (.app notInCandidateListError)
    else do
      let ok ← cache (.trySet (.claim publicId) (.ids [agentId]) cfg.claimTtlSec)
      if !ok then throw (.app orderAlreadyClaimedError)
      else do
        startTransaction
        let updated ← releasingOnError publicId do
          let order ← findOrderByPublicId publicId .trx
          match order with
          | none =>
            releaseClaim publicId
            throw (.app orderNotInReadyStateError)
          | some _ => takeOrder publicId agentId
        afterAssignment publicId updated agentId region
          ((candidateIds value).filter (· ≠ agentId))

def adminAssign (cfg : Config) (publicId : String) (agentId : Nat) (region : String) :
    Svc DeliveryTaskResponse := do
  let ok ← cache (.trySet (.claim publicId) (.ids [agentId]) cfg.claimTtlSec)
  if !ok then throw (.app orderAlreadyClaimedError)
  else do
    startTransaction
    let updated ← releasingOnError publicId (takeOrder publicId agentId)
    afterAssignment publicId updated agentId region []

section Offers

inductive AssignResult where
  | offered
  | skipped
  | exhausted
  | noCandidates
  deriving DecidableEq

/-- `Number(attemptsRaw ?? 0)`; a list of several ids is not a number, and below no bound. -/
def attemptsOf : Option CacheValue → Nat
  | some (.count n) => n
  | some (.ids [n]) => n
  | some .flag => 1
  | _ => 0

/-- The loop of `findCandidates`: the agents who are online and free, up to the bound. -/
def freeCandidates (cfg : Config) (region : String) : List Nat → List Nat → Svc (List Nat)
  | [], result => pure result
  | agentId :: raw, result => do
    let online ← cache (.keyExists (.presence region agentId))
    if !online then freeCandidates cfg region raw result
    else do
      let busy ← cache (.sismemberBusy region agentId)
      if busy then freeCandidates cfg region raw result
      else if cfg.candidates ≤ (result ++ [agentId]).length then pure (result ++ [agentId])
      else freeCandidates cfg region raw (result ++ [agentId])

def findCandidates (cfg : Config) (region : String) (lng lat : Int) : Svc (List Nat) := do
  let raw ← cache (.geosearchByRadius region lng lat cfg.radiusMeters (cfg.candidates * 4))
  freeCandidates cfg region raw []

def countAttempt (publicId : String) (ttlSeconds : Nat) : Svc Unit := do
  let _ ← cache (.incr (.attempts publicId))
  cache (.expire (.attempts publicId) ttlSeconds)

/-- From the candidates on. -/
def offerTo (cfg : Config) (order : OrderEntity) (candidates : List Nat) : Svc AssignResult := do
  let offerSet ← cache (.trySet (.offer order.publicId) (.ids candidates) cfg.offerTtlSec)
  if !offerSet then pure .skipped
  else do
    countAttempt order.publicId 36000
    let _ ← branchOrNull order.branchId
    candidates.forM fun agentId => emit (.agent agentId) .taskOffered order.publicId
    pure .offered

def tryAssign (cfg : Config) (order : OrderEntity) (region : String) : Svc AssignResult := do
  let offered ← cache (.keyExists (.offer order.publicId))
  if offered then pure .skipped
  else do
    let attemptsRaw ← cache (.get (.attempts order.publicId))
    if cfg.maxAttempts ≤ attemptsOf attemptsRaw then
      emit .adminAlerts .assignmentExhausted order.publicId
      pure .exhausted
    else do
      let candidates ← findCandidates cfg region order.branchLng order.branchLat
      if candidates.isEmpty then
        countAttempt order.publicId 3600
        pure .noCandidates
      else offerTo cfg order candidates

structure TickResult where
  processed : Nat
  offered : Nat
  skipped : Nat

/-- The loop of `tickRegion`; an error of one order counts as skipped. -/
def tryOrders (cfg : Config) (region : String) : List OrderEntity → TickResult → Svc TickResult
  | [], tally => pure tally
  | order :: orders, tally => do
    let result ← tryCatch
      (do
        let result ← tryAssign cfg order region
        pure (some result))
      (fun _ => pure none)
    if result = some .offered then
      tryOrders cfg region orders { tally with offered := tally.offered + 1 }
    else tryOrders cfg region orders { tally with skipped := tally.skipped + 1 }

def tickRegion (cfg : Config) (region : String) : Svc TickResult := do
  let orders ← findReadyUnassigned cfg.batch .pool
  tryOrders cfg region orders ⟨orders.length, 0, 0⟩

/-- `AssignmentService.reject`. -/
def rejectOffer (publicId : String) (agentId : Nat) : Svc Unit := do
  let offered ← cache (.get (.offer publicId))
  match offered with
  | none => throw (.app offerNotFoundOrExpiredError)
  | some value =>
    if agentId ∉ candidateIds value then throw (.app notInCandidateListError)
    else do
      let remaining := (candidateIds value).filter (· ≠ agentId)
      if remaining.isEmpty then
        let _ ← cache (.del (.offer publicId))
      else do
        let remainingTtl ← cache (.ttl (.offer publicId))
        cache (.set (.offer publicId) (.ids remaining) (max remainingTtl 1).toNat)

end Offers

end OrderService
