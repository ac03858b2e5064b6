import Mathlib.Data.List.Infix
import Yeoman.Processing.Authorizer
import Yeoman.Processing.Reconcile

/-! The durable effect gateway: submit, authorize, claim, execute, record. The execution of
an effect is split where it awaits the executor; everything before the await is one
synchronous segment, and so is everything after it. -/
namespace Yeoman.Processing
open Library Txn

def preDispatchErrorMarkers : List String :=
  ["err_forward_unavailable", "not connected", "channel not available", "channel does not support",
    "unknown channel", "not running"]

/-- An exception of the executor: its class, its text, and whether it is one of the two
classes that refuse before dispatch. -/
structure ExecutorError where
  (kind text : String)
  refused : Bool := false

def isPreDispatchError (exc : ExecutorError) : Bool :=
  exc.refused || preDispatchErrorMarkers.any fun marker => marker.toList <:+: (lowerText exc.text).toList

structure ExecutorResult where
  state : String
  detail : Option String := none
  transportReceipt : Option TransportReceipt := none

inductive ExecutorOutcome where
  | cancelled
  | raised (exc : ExecutorError)
  | returned (result : Option ExecutorResult)

structure EffectGateway where
  workerId : String := "effect-gateway"
  leaseMs : Int := 30000
  workerId_ne : workerId ≠ "" := by decide
  leaseMs_pos : 0 < leaseMs := by decide

namespace Store

def getEffect (s : Store) (effectId : String) : Except Error (Option StoredEffect) :=
  match s.effect? effectId with
  | none => .ok none
  | some row => (effectFromRow row).map some
variable {effectId : String} {s : Store}

theorem getEffect_some {stored : StoredEffect} (h : s.getEffect effectId = .ok (some stored)) :
    s.effect? effectId = some stored.row ∧ decodeTarget stored.row.targetJson = .ok stored.target := by
  unfold getEffect at h
  cases hr : s.effect? effectId with
  | none =>
    rw [hr] at h
    cases h
  | some row =>
    rw [hr] at h
    dsimp only at h
    cases he : effectFromRow row with
    | error e =>
      rw [he] at h
      cases h
    | ok found =>
      rw [he] at h
      cases h
      obtain ⟨rfl,ht⟩ := effectFromRow_ok he
      exact ⟨rfl,ht⟩

theorem getEffect_map {found : Option StoredEffect}
    (h : s.getEffect effectId = .ok found) : found.map StoredEffect.row = s.effect? effectId := by
  cases found with
  | some stored => exact (getEffect_some h).1.symm
  | none =>
    unfold getEffect at h
    cases hr : s.effect? effectId with
    | none => rfl
    | some row =>
      rw [hr] at h
      dsimp only at h
      cases he : effectFromRow row with
      | error | ok =>
        rw [he] at h
        cases h

def openAttemptId (s : Store) (effectId : String) : Option String :=
  (((s.attempts.filter fun a => a.effectId = effectId && a.finishedMs = none).insertionSort
    fun a b => b.startedMs ≤ a.startedMs).head?).map AttemptRow.attemptId

end Store

def stateForReason (reason : String) : EffectState :=
  let head := reason.toList.takeWhile (· ≠ ':')
  if head = "superseded".toList then .cancelled
  else if head = "expired".toList then .expired
  else .blocked

def receipt (effectId state operationKey : String) (attemptId detail : Option String) :
    StoreM EffectReceipt := do
  let s ← Txn.read
  let stored ← liftExcept (s.getEffect effectId)
  return { effectId, state, operationKey, attemptId, detail, accepted := true,
           updatedMs := stored.map fun e => e.row.updatedMs
           transportReceipt := s.transportReceipt? effectId }

structure Execution where
  (effectId operationKey : String)
  attemptId : Option String
  envelope : EffectEnvelope

inductive Started where
  | finished (receipt : EffectReceipt)
  | awaiting (execution : Execution)

namespace EffectGateway
variable (g : EffectGateway)

def submit (v : EffectEnvelope) (nowMs : Int) : StoreM EffectReceipt := do
  let effectId ← enqueueEffect {
    effectId := v.effectId, operationKey := v.operationKey, payload := .typed v.payload,
    target := .typed v.target, traceId := v.traceId, turnId := v.turnId, turnRevision := v.turnRevision,
    principal := v.principal, capability := v.capability, expiresAtMs := v.expiresAtMs,
    policyVersion := v.policyVersion, policyHash := v.policyHash, nowMs, state := "queued",
    origin := v.origin.name, admissionId := v.admissionId }
  let s ← Txn.read
  return { effectId, state := ((s.effectState? effectId).map EffectState.name).getD "queued",
           operationKey := v.operationKey, accepted := effectId = v.effectId, updatedMs := some nowMs }

def submitParticipation (v : EffectEnvelope) (admission : ParticipationAdmission) (nowMs : Int) :
    StoreM EffectReceipt := do
  let effectId ← enqueueParticipationEffect v admission
  let s ← Txn.read
  return { effectId, state := ((s.effectState? effectId).map EffectState.name).getD "queued",
           operationKey := v.operationKey, accepted := effectId = v.effectId, updatedMs := some nowMs }

def dispatch (stored : StoredEffect) (v : EffectEnvelope) (decision : DecisionRecord) (attemptId : String)
    (nowMs : Int) : StoreM Started := do
  let won ← claimEffect stored.row.effectId g.workerId attemptId nowMs g.leaseMs (some decision.policyVersion)
  let s ← Txn.read
  if won = false then
    return .finished (← receipt stored.row.effectId
      ((s.effectState? stored.row.effectId).getD stored.row.state).name stored.row.operationKey none
      (some "claim not acquired"))
  else return .awaiting {
    effectId := stored.row.effectId, operationKey := stored.row.operationKey,
    attemptId := s.openAttemptId stored.row.effectId, envelope := v }

def beginQueued (a : SnapshotEffectAuthorizer) (stored : StoredEffect) (decisionId attemptId : String)
    (nowMs checkMs : Int) : StoreM Started := do
  let effectId := stored.row.effectId
  if stored.row.expiresAtMs.any (· ≤ nowMs) then
    let _ ← transition effectId [EffectState.queued.name] EffectState.expired.name nowMs
      (evidenceOf "expiry" "deadline passed before execution") none
    return .finished (← receipt effectId EffectState.expired.name stored.row.operationKey none
      (some "expired before execution"))
  else
    let v ← liftExcept stored.toEnvelope
    let s ← Txn.read
    let decision ← liftExcept (a.check s v none decisionId checkMs)
    let _ ← recordDecision decision
    if decision.outcome ≠ .allow then
      let target := stateForReason decision.reason
      let _ ← transition effectId [EffectState.queued.name] target.name nowMs
        (evidenceOf "policy" decision.reason) none
      return .finished (← receipt effectId target.name stored.row.operationKey none (some decision.reason))
    else g.dispatch stored v decision attemptId nowMs

def refusal : EffectState → String
  | .unknown => "outcome unproven; reconciliation required before any re-execution"
  | .unknownNonrepeatable => "escalated: requires operator decision or later evidence"
  | _ => "effect is not executable in its current state"

def beginExecution (a : SnapshotEffectAuthorizer) (effectId decisionId attemptId : String)
    (nowMs checkMs : Int) : StoreM Started := do
  let s ← Txn.read
  match ← liftExcept (s.getEffect effectId) with
  | none => raise (processingError ("unknown effect: " ++ effectId))
  | some stored =>
    if stored.row.state ≠ .queued then
      return .finished (← receipt stored.row.effectId stored.row.state.name stored.row.operationKey none
        (some (refusal stored.row.state)))
    else g.beginQueued a stored decisionId attemptId nowMs checkMs

def settle (effectId : String) (target : EffectState) (nowMs : Int) (kind detail : String) : StoreM Bool :=
  transition effectId [EffectState.executing.name] target.name nowMs (evidenceOf kind detail)
    (some g.workerId)

def raisedTarget (exc : ExecutorError) : EffectState := if isPreDispatchError exc then .failed else .unknown

def recordResult (x : Execution) (result : Option ExecutorResult) (receiptMs nowMs : Int) : StoreM Unit := do
  let reported := (result.map ExecutorResult.state).getD "unknown"
  let detail := result.bind ExecutorResult.detail
  if reported = "sent" then
    match result.bind ExecutorResult.transportReceipt with
    | none =>
      if x.envelope.origin = .participation then
        let _ ← g.settle x.effectId .unknown nowMs "dispatch_unknown"
          "executor reported sent without a transport receipt"
      else
        let _ ← g.settle x.effectId .sent nowMs "transport" ((nonempty detail).getD "accepted by transport")
    | some transport =>
      let _ ← recordTransportReceipt {
        effectId := x.effectId, attemptId := x.attemptId, channel := transport.channel,
        chatId := transport.chatId, providerMessageId := transport.providerMessageId,
        clientMessageId := transport.clientMessageId, detail := transport.detail, nowMs := receiptMs }
      let _ ← g.settle x.effectId .sent nowMs "transport" ((nonempty detail).getD "accepted by transport")
  else if reported = "not_executed" then
    let _ ← g.settle x.effectId .failed nowMs "not_executed"
      ((nonempty detail).getD "transport proved the effect did not run")
  else
    let _ ← g.settle x.effectId .unknown nowMs "dispatch_unknown"
      ((nonempty detail).getD ("executor reported " ++ reported))

def finishExecution (x : Execution) (receiptMs nowMs : Int) : ExecutorOutcome → StoreM EffectReceipt
  | .cancelled => do
    let _ ← g.settle x.effectId .unknown nowMs "cancelled" "execution cancelled; outcome unproven"
    raise ⟨.cancelledError,""⟩
  | .raised exc => do
    let refused := isPreDispatchError exc
    let _ ← g.settle x.effectId (raisedTarget exc) nowMs
      (if refused then "not_executed" else "dispatch_unknown") (exc.kind ++ ": " ++ firstChars 200 exc.text)
    receipt x.effectId (raisedTarget exc).name x.operationKey x.attemptId (some
      (if refused then "transport refused before dispatch (" ++ exc.kind ++ ")"
       else "transport raised " ++ exc.kind ++ "; outcome unproven"))
  | .returned result => do
    g.recordResult x result receiptMs nowMs
    let s ← Txn.read
    receipt x.effectId (((s.effectState? x.effectId).map EffectState.name).getD
      ((result.map ExecutorResult.state).getD "unknown")) x.operationKey x.attemptId
      (result.bind ExecutorResult.detail)

end EffectGateway

end Yeoman.Processing
