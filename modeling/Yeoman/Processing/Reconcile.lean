import Yeoman.Processing.Operations

/-! Bounded reconciliation of effects whose outcome is unproven: the probe over local
evidence, the consequence of its result, and the service whose candidates look, wait for
the probe and apply its result later. -/
namespace Yeoman.Processing
open Library Table Txn

def deliveredStatuses : List String := ["delivered", "read", "played", "read-self"]

inductive ProbeOutcome where
  | confirmed
  | notExecuted
  | inconclusive
deriving DecidableEq

def ProbeOutcome.name : ProbeOutcome → String
  | .confirmed => "confirmed"
  | .notExecuted => "not_executed"
  | .inconclusive => "inconclusive"

structure ProbeResult where
  outcome : ProbeOutcome
  detail : Option String := none

structure ProbeRequest where
  attempts : List AttemptRow
  transport : Option TransportReceipt
  signals : List String

def providerId (transport : Option TransportReceipt) : Option String :=
  nonempty (transport.bind TransportReceipt.providerMessageId)

/-- `LocalEvidenceProbe.probe`. A provider lookup is only made for a receipt with a
provider id. -/
def localEvidenceProbe (lookup : Option (ProbeRequest → Option ProbeResult)) (request : ProbeRequest) :
    ProbeResult :=
  let seen := (providerId request.transport).isSome
  let channel := (request.transport.map TransportReceipt.channel).getD ""
  if seen then
    { outcome := .confirmed, detail := some ("transport reported provider id (" ++ channel ++ ")") }
  else match (if seen then request.signals.find? (· ∈ deliveredStatuses) else none) with
  | some status => { outcome := .confirmed, detail := some ("provider signal " ++ status) }
  | none =>
    match (if seen then lookup.bind fun ask => ask request else none) with
    | some result => result
    | none =>
      if request.attempts.any (fun a => a.outcome = some .failed) then
        { outcome := .notExecuted, detail := some "transport refused before dispatch" }
      else { outcome := .inconclusive, detail := some "no durable evidence for this effect" }

namespace Store

def attemptsFor (s : Store) (effectId : String) : List AttemptRow :=
  (s.attempts.filter fun a => a.effectId = effectId).insertionSort fun a b => a.startedMs ≤ b.startedMs

def listEffects (s : Store) (wanted : EffectState → Bool) (limit : Nat) : List EffectRow :=
  (orderBy EffectRow.createdMs EffectRow.effectId (s.effects.filter fun r => wanted r.state)).take
    (max 1 limit)

def deliverySignals (s : Store) (channel chatId messageId : String) : List EventRow :=
  if channel = "" ∨ chatId = "" ∨ messageId = "" then []
  else (orderBy EventRow.createdMs EventRow.eventId (s.events.filter fun e =>
    e.channel = channel && e.chatId = chatId && e.targetMessageId = some messageId &&
      (e.kind = .receipt || e.kind = .reaction))).take 20

def openProbe? (s : Store) (effectId : String) : Option ProbeRow :=
  ((s.probes.filter fun p => p.effectId = effectId && p.outcome = none).insertionSort
    fun a b => b.attemptNumber ≤ a.attemptNumber).head?

def nextProbeNumber (s : Store) (effectId : String) : Int :=
  ((s.probes.filter fun p => p.effectId = effectId).map ProbeRow.attemptNumber).foldl max 0 + 1

def transportReceipt? (s : Store) (effectId : String) : Option TransportReceipt :=
  (effectTransportReceipt s effectId).map ReceiptRow.toReceipt

end Store

def lowerText (s : String) : String := String.ofList (s.toList.map Char.toLower)

def signalStatus (e : EventRow) : String :=
  lowerText ((((e.payloadJson.bind Dict.loads?).getD Dict.empty).get "status").orElse (.str e.kind.name)).toStr

def probeRequest (s : Store) (effectId : String) : ProbeRequest :=
  let transport := s.transportReceipt? effectId
  let signals := match transport, providerId transport with
    | some receipt, some messageId => s.deliverySignals receipt.channel receipt.chatId messageId
    | _, _ => []
  { attempts := s.attemptsFor effectId, transport, signals := signals.map signalStatus }

structure ReconciliationResult where
  effectId : String
  outcome : Option ProbeOutcome := none
  state : Option EffectState := none
  detail : Option String := none

/-- What an escalation leaves for the operator. -/
def pendingDecision (effectId : String) (nowMs : Int) : StoreM Unit :=
  recordEvidence effectId "operator" nowMs (some "pending local operator decision") none

def applyProbeResult (effectId : String) (state : EffectState) (result : ProbeResult) (nowMs : Int)
    (deadlineMs : Option Int) : StoreM ReconciliationResult :=
  match result.outcome with
  | .confirmed => do
    let _ ← transition effectId [state.name] EffectState.sent.name nowMs
      (evidenceOf "probe" (((nonempty result.detail)).getD "confirmed")) none
    return { effectId, outcome := some .confirmed, state := some .sent, detail := result.detail }
  | .notExecuted => do
    let _ ← transition effectId [state.name] EffectState.queued.name nowMs
      (evidenceOf "not_executed" ((nonempty result.detail).getD "proven not executed")) none
    return { effectId, outcome := some .notExecuted, state := some .queued, detail := result.detail }
  | .inconclusive =>
    if deadlineMs.any (· ≤ nowMs) then do
      let _ ← transition effectId [state.name] EffectState.unknownNonrepeatable.name nowMs
        (evidenceOf "probe" "deadline reached; operator decision required") none
      pendingDecision effectId nowMs
      return { effectId, outcome := some .inconclusive, state := some .unknownNonrepeatable,
               detail := result.detail }
    else return { effectId, outcome := some .inconclusive, detail := result.detail }

def reconcileEffect (effectId : String) (probe : ProbeRequest → ProbeResult) (nowMs : Int)
    (deadlineMs : Option Int) : StoreM ReconciliationResult := do
  let s ← Txn.read
  match s.effect? effectId with
  | none => raise (unknownEffect effectId)
  | some effect =>
    if effect.state ≠ .unknown ∧ effect.state ≠ .unknownNonrepeatable then
      return { effectId, state := some effect.state, detail := some "not reconcilable" }
    else applyProbeResult effectId effect.state (probe (probeRequest s effectId)) nowMs deadlineMs

/-- Bounds of the reconciliation of unknown effects. The checks of the model are fields. -/
structure ReconciliationConfig where
  backoffSeconds : List Int := [5, 15, 45, 120, 300, 600]
  maxProbes : Nat := 6
  deadlineSeconds : Int := 600
  claimLeaseSeconds : Int := 30
  workerId : String := "reconciler"
  maxProbes_pos : 1 ≤ maxProbes := by decide
  maxProbes_le : maxProbes ≤ backoffSeconds.length := by decide
  backoff_pos : ∀ step ∈ backoffSeconds, 0 < step := by decide
  deadline_pos : 1 ≤ deadlineSeconds := by decide
  lease_pos : 1 ≤ claimLeaseSeconds := by decide

def probeDueMs (unknownMs attemptNumber : Int) (backoffSeconds : List Int) : Int :=
  unknownMs + (backoffSeconds.take attemptNumber.toNat).sum * 1000

def escalate (effectId : String) (nowMs : Int) (reason : String) : StoreM Unit := do
  let s ← Txn.read
  match s.effectState? effectId with
  | some .unknown =>
    let _ ← transition effectId [EffectState.unknown.name] EffectState.unknownNonrepeatable.name nowMs
      (evidenceOf "probe" reason) none
    pendingDecision effectId nowMs
  | some .unknownNonrepeatable => pendingDecision effectId nowMs
  | _ => return ()

/-- Late delivery evidence, as the signal mapper reports it. Evidence that the effect
already carries is skipped, as far as `list_effects` reaches. -/
def attachReceiptEvidence (effectId : String) (evidence : List (String × String)) (nowMs : Int) :
    StoreM Unit :=
  each evidence fun item => do
    let s ← Txn.read
    let text := item.1 ++ ":" ++ item.2
    let listed := (s.listEffects (fun _ => true) 500).any fun r => r.effectId = effectId
    let known := listed && s.evidence.any fun v => v.effectId = effectId && v.detail.getD "" = text
    if known then return () else recordEvidence effectId item.1 nowMs (some text) none

structure PendingProbe where
  (effectId probeId : String)
  deadlineMs : Int
  request : ProbeRequest

def beginProbe (config : ReconciliationConfig) (attempts : List AttemptRow) (probe : ProbeRow)
    (effectId : String) (deadlineMs nowMs : Int) (force : Bool) (late : List (String × String)) :
    StoreM (Option PendingProbe) :=
  if deadlineMs ≤ nowMs then do
    let _ ← finishProbe probe.probeId ProbeOutcome.inconclusive.name config.workerId nowMs
      (some "deadline_passed")
    escalate effectId nowMs "probe_deadline"
    return none
  else if force = false ∧ nowMs < probe.dueMs then return none
  else do
    let won ← claimProbe probe.probeId config.workerId nowMs (config.claimLeaseSeconds * 1000)
    if won = false then return none
    else do
      let s ← Txn.read
      attachReceiptEvidence effectId (if (providerId (s.transportReceipt? effectId)).isSome then late else [])
        nowMs
      let s ← Txn.read
      return some { effectId, probeId := probe.probeId, deadlineMs,
                    request := { probeRequest s effectId with attempts := attempts } }

def lookAtCandidate (config : ReconciliationConfig) (effectId : String) (nowMs : Int) (force : Bool)
    (late : List (String × String)) : StoreM (Option PendingProbe) := do
  let s ← Txn.read
  match s.effect? effectId with
  | none => return none
  | some effect =>
    let unknownMs := if effect.updatedMs = 0 then nowMs else effect.updatedMs
    let deadlineMs := unknownMs + config.deadlineSeconds * 1000
    match s.openProbe? effectId with
    | some probe => beginProbe config (s.attemptsFor effectId) probe effectId deadlineMs nowMs force late
    | none =>
      let attempt := s.nextProbeNumber effectId
      let dueMs := probeDueMs unknownMs attempt config.backoffSeconds
      if config.maxProbes < attempt ∨ deadlineMs ≤ nowMs ∨ deadlineMs < dueMs then do
        escalate effectId nowMs "deadline reached; operator decision required"
        return none
      else do
        let _ ← scheduleProbe effectId attempt dueMs nowMs
        let planned ← Txn.read
        match planned.openProbe? effectId with
        | none => return none
        | some probe => beginProbe config (s.attemptsFor effectId) probe effectId deadlineMs nowMs force late

def settleCandidate (config : ReconciliationConfig) (pending : PendingProbe) (result : ProbeResult)
    (finishedMs nowMs : Int) : StoreM ReconciliationResult := do
  let _ ← finishProbe pending.probeId result.outcome.name config.workerId finishedMs result.detail
  reconcileEffect pending.effectId (fun _ => result) nowMs (some pending.deadlineMs)

def beginTick (nowMs : Int) : StoreM (List String) := do
  let recovered ← recoverExecuting nowMs
  each recovered fun effectId => do
    let _ ← scheduleProbe effectId 1 nowMs nowMs
    return ()
  let s ← Txn.read
  return (s.listEffects (fun state => state = .unknown) 200).map EffectRow.effectId

inductive ReconcileJob where
  | candidate (effectId : String) (nowMs : Int) (force : Bool)
  | probing (pending : PendingProbe)
  | done

end Yeoman.Processing
