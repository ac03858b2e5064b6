import Yeoman.Processing.Envelope

/-! The effect outbox: durable acceptance, claims, compare-and-set transitions,
crash recovery and the decisions and evidence recorded along the way. -/
namespace Yeoman.Processing
open Library Table Txn

namespace Store

def effect? (s : Store) (effectId : String) : Option EffectRow :=
  lookup EffectRow.effectId effectId s.effects

def effectByOperationKey? (s : Store) (operationKey : String) : Option EffectRow :=
  lookup EffectRow.operationKey operationKey s.effects

def effectState? (s : Store) (effectId : String) : Option EffectState :=
  (s.effect? effectId).map EffectRow.state

def admission? (s : Store) (admissionId : String) : Option AdmissionRow :=
  lookup AdmissionRow.admissionId admissionId s.admissions

end Store

def updateEffects (p : EffectRow → Bool) (f : EffectRow → EffectRow) : StoreM Nat := do
  let s ← Txn.read
  Txn.modify fun s => { s with effects := updateWhere p f s.effects }
  return rowCount p s.effects

def insertEffect (row : EffectRow) : StoreM Unit :=
  Txn.modify fun s => { s with effects := s.effects ++ [row] }

def insertAttempt (row : AttemptRow) : StoreM Unit := do
  let s ← Txn.read
  require (lookup AttemptRow.attemptId row.attemptId s.attempts = none)
    ⟨.integrityError,"UNIQUE constraint failed: effect_attempts.attempt_id"⟩
  Txn.modify fun s => { s with attempts := s.attempts ++ [row] }

def finishAttempts (effectId : String) (nowMs : Int) (outcome : EffectState) : StoreM Unit :=
  Txn.modify fun s => { s with
    attempts := updateWhere (fun a => a.effectId = effectId && a.finishedMs = none)
      (fun a => { a with finishedMs := some nowMs, outcome := some outcome }) s.attempts }

def appendEvidence (effectId kind : String) (state : EffectState) (detail : Option String)
    (observedMs : Int) (workerId : Option String) : StoreM Unit :=
  Txn.modify fun s => { s with
    evidence := s.evidence ++ [{ effectId, kind, state, detail, observedMs, workerId }] }

theorem updateEffects_bind_apply {β : Type} {p : EffectRow → Bool} {f : EffectRow → EffectRow}
    {k : Nat → StoreM β} {s : Store} :
    (updateEffects p f >>= k) s =
      k (rowCount p s.effects) { s with effects := updateWhere p f s.effects } := rfl
variable {row : AttemptRow} {s : Store} {origin : Origin} {state : EffectState} {body : Dict}
  {target : Option EffectTarget} (a : EnqueueArgs)

theorem insertAttempt_of_fresh (h : lookup AttemptRow.attemptId row.attemptId s.attempts = none) :
    insertAttempt row s = (.ok (), { s with attempts := s.attempts ++ [row] }) := by
  rw [insertAttempt,read_bind_apply,require_bind_of_pos h]
  rfl

theorem insertAttempt_of_known (h : lookup AttemptRow.attemptId row.attemptId s.attempts ≠ none) :
    insertAttempt row s =
      (.error ⟨.integrityError,"UNIQUE constraint failed: effect_attempts.attempt_id"⟩, s) := by
  rw [insertAttempt,read_bind_apply,require_bind_of_neg h]

namespace DecisionOutcome

def name : DecisionOutcome → String
  | allow => "allow"
  | deny => "deny"

end DecisionOutcome

namespace DecisionStage

def name : DecisionStage → String
  | fast => "fast"
  | final => "final"
  | admin => "admin"

end DecisionStage

def DecisionRecord.signature (r : DecisionRecord) : String :=
  canonicalHash (.obj
    [("trace_id", .str r.traceId), ("stage", .str r.stage.name),
      ("policy_version", .str r.policyVersion), ("policy_hash", .str r.policyHash),
      ("principal", .str r.principal), ("target", .str r.target),
      ("capability", .str r.capability), ("turn_revision", .int r.turnRevision),
      ("outcome", .str r.outcome.name), ("reason", .str r.reason),
      ("effect_id", (r.effectId.map Json.str).getD .null), ("created_ms", .int r.createdMs)])

def recordDecision (record : DecisionRecord) : StoreM String :=
  atomically do
    let s ← Txn.read
    match lookup DecisionRecord.decisionId record.decisionId s.decisions with
    | some row =>
      require (row.signature = record.signature)
        (valueError ("decision " ++ Json.reprString record.decisionId ++
          " already exists with different content"))
      return record.decisionId
    | none =>
      Txn.modify fun s => { s with decisions := s.decisions ++ [record] }
      return record.decisionId

inductive TargetArg where
  | none
  | typed (target : EffectTarget)
  | mapping (data : Dict)

def TargetArg.resolve : TargetArg → Except Error (Option EffectTarget)
  | .none => .ok Option.none
  | .typed target => .ok (some target)
  | .mapping data => (EffectTarget.fromMapping data).map some

def targetMapping : Option EffectTarget → Dict
  | some target => target.toDict
  | none => Dict.empty

structure EnqueueArgs where
  (effectId operationKey : String)
  payload : PayloadArg
  nowMs : Int
  traceId : String := ""
  turnId : String := ""
  turnRevision : Int := 1
  principal : String := ""
  capability : String := ""
  target : TargetArg := .none
  expiresAtMs : Option Int := none
  policyVersion : Option String := none
  policyHash : Option String := none
  state : String := "queued"
  origin : String := "legacy"
  admissionId : Option String := none

def checkAdmission (stored : Dict) (payloadHash : String) (target : Option EffectTarget) :
    Except Error Unit :=
  if strField "payload_hash" stored = "" then
    .error (processingError "participation admission payload hash is missing")
  else if strField "payload_hash" stored ≠ payloadHash then
    .error (effectConflict "participation admission payload hash does not match effect")
  else match target with
    | none => .error (processingError "participation effect target is required")
    | some target =>
      if (stored.get "channel").eq (.str target.channel) && (stored.get "chat_id").eq (.str target.chatId) then
        .ok ()
      else .error (effectConflict "participation admission target does not match effect")

def checkProvenance (s : Store) (origin : Origin) (admissionId : Option String)
    (payloadHash : String) (target : Option EffectTarget) : Except Error Unit :=
  match origin, admissionId with
  | .legacy, none => .ok ()
  | .legacy, some _ =>
    .error (effectConflict "legacy effect cannot carry a participation admission")
  | .participation, none =>
    .error (processingError "participation effect requires an admission")
  | .participation, some id =>
    if id = "" then .error (processingError "participation effect requires an admission")
    else match s.admission? id with
      | none => .error (processingError "participation effect admission is not persisted")
      | some row =>
        match Dict.loads? row.payloadJson with
        | some stored => checkAdmission stored payloadHash target
        | none =>
          if (Json.loads row.payloadJson).isSome then .ok ()
          else .error (valueError "stored participation admission is not JSON")

structure Identity where
  (payloadHash targetHash turnId : String)
  turnRevision : Int
  (principal capability : String)
deriving DecidableEq

def EffectRow.identity (r : EffectRow) : Identity :=
  { payloadHash := r.payloadHash, targetHash := r.targetHash, turnId := r.turnId,
    turnRevision := r.turnRevision, principal := r.principal, capability := r.capability }

def matchExisting (row : EffectRow) (operationKey : String) (origin : Origin)
    (admissionId : Option String) (identity : Identity) : Except Error String :=
  if row.origin ≠ origin ∨ row.admissionId ≠ admissionId then
    .error (effectConflict ("operation_key " ++ Json.reprString operationKey ++
      " already exists with different provenance"))
  else if row.payloadJson = none then .ok row.effectId
  else if row.identity = identity then .ok row.effectId
  else .error (effectConflict ("operation_key " ++ Json.reprString operationKey ++
    " already exists with a different effect"))

def reprOption : Option String → String
  | some s => Json.reprString s
  | none => "None"

def checkFresh (s : Store) (origin : Origin) (admissionId : Option String) (effectId : String) :
    Except Error Unit :=
  match s.effects.find? (fun r => origin = .participation && r.origin = .participation &&
      admissionId.isSome && r.admissionId = admissionId) with
  | some bound => .error (effectConflict ("admission_id " ++ reprOption admissionId ++
      " is already bound to effect " ++ Json.reprString bound.effectId))
  | none =>
    match s.effect? effectId with
    | some clash => .error (effectConflict ("effect_id " ++ Json.reprString effectId ++
        " already belongs to " ++ Json.reprString clash.operationKey))
    | none => .ok ()

def effectiveState (state : EffectState) (expiresAtMs : Option Int) (nowMs : Int) : EffectState :=
  match expiresAtMs with
  | some deadline => if state = .queued ∧ deadline ≤ nowMs then .expired else state
  | none => state

def newEffect (a : EnqueueArgs) (body : Dict) (target : Option EffectTarget) (state : EffectState)
    (origin : Origin) : EffectRow :=
  { effectId := a.effectId, operationKey := a.operationKey, traceId := a.traceId,
    turnId := a.turnId, turnRevision := a.turnRevision, principal := a.principal,
    capability := a.capability, targetJson := canonicalJson (targetMapping target).toJson,
    targetHash := canonicalHash (targetMapping target).toJson,
    payloadKind := ((body.get "kind").orElse (.str "text")).toStr,
    payloadHash := canonicalHash body.toJson, payloadJson := some (canonicalJson body.toJson),
    payloadPurgedMs := none, state := effectiveState state a.expiresAtMs a.nowMs,
    expiresAtMs := a.expiresAtMs, policyVersion := a.policyVersion, policyHash := a.policyHash,
    leaseOwner := none, leaseUntilMs := none, origin := origin, admissionId := a.admissionId,
    createdMs := a.nowMs, updatedMs := a.nowMs }

def enqueueEffectInConnection (a : EnqueueArgs) (state : EffectState) (origin : Origin) :
    StoreM String := do
  let body ← liftExcept (payloadToMapping a.payload)
  let target ← liftExcept a.target.resolve
  let row := newEffect a body target state origin
  let s ← Txn.read
  liftExcept (checkProvenance s origin a.admissionId row.payloadHash target)
  match s.effectByOperationKey? a.operationKey with
  | some existing =>
    liftExcept (matchExisting existing a.operationKey origin a.admissionId row.identity)
  | none =>
    liftExcept (checkFresh s origin a.admissionId a.effectId)
    insertEffect row
    appendEvidence a.effectId "submitted" row.state none a.nowMs none
    return a.effectId

def enqueueEffect (a : EnqueueArgs) : StoreM String := do
  require (a.effectId ≠ "") (valueError "effect_id is required")
  require (a.operationKey ≠ "") (valueError "operation_key is required")
  let state ← liftExcept ((EffectState.ofName? a.state).elim
    (.error (valueError ("unknown effect state: " ++ a.state))) .ok)
  require (1 ≤ a.turnRevision) (valueError "turn revision must be a positive integer")
  let origin ← liftExcept ((Origin.ofName? a.origin).elim
    (.error (valueError ("unknown effect origin: " ++ a.origin))) .ok)
  atomically (enqueueEffectInConnection a state origin)

def EffectEnvelope.toArgs (v : EffectEnvelope) (nowMs : Int) : EnqueueArgs :=
  { effectId := v.effectId, operationKey := v.operationKey, payload := .typed v.payload,
    nowMs := nowMs, traceId := v.traceId, turnId := v.turnId, turnRevision := v.turnRevision,
    principal := v.principal, capability := v.capability, target := .typed v.target,
    expiresAtMs := v.expiresAtMs, policyVersion := v.policyVersion, policyHash := v.policyHash,
    state := "queued", origin := v.origin.name, admissionId := v.admissionId }

def insertAdmission (row : AdmissionRow) : StoreM Unit := do
  let s ← Txn.read
  match s.admission? row.admissionId with
  | none => Txn.modify fun s => { s with admissions := s.admissions ++ [row] }
  | some existing =>
    require (existing.payloadJson = row.payloadJson)
      (effectConflict ("admission_id " ++ Json.reprString row.admissionId ++
        " already exists with different content"))

def enqueueParticipationEffect (v : EffectEnvelope) (admission : ParticipationAdmission) :
    StoreM String := do
  require (v.origin = .participation)
    (processingError "participation effect requires origin='participation'")
  require (admission.admissionId ≠ "" ∧ v.admissionId = some admission.admissionId)
    (processingError "participation effect requires a matching admission id")
  require (admission.payloadHash ≠ "")
    (processingError "participation admission requires a payload hash")
  require (admission.payloadHash = v.payload.payloadHash)
    (effectConflict "participation admission payload hash does not match effect")
  require (admission.channel = v.target.channel ∧ admission.chatId = v.target.chatId)
    (effectConflict "participation admission target does not match effect")
  atomically do
    insertAdmission
      { admissionId := admission.admissionId, payloadJson := canonicalJson admission.mapping.toJson,
        createdMs := v.createdMs }
    enqueueEffectInConnection (v.toArgs v.createdMs) .queued .participation

def Store.accept (s : Store) (row : EffectRow) (nowMs : Int) : Store :=
  let submitted : EvidenceRow :=
    { effectId := row.effectId, kind := "submitted", state := row.state, detail := none,
      observedMs := nowMs, workerId := none }
  { s with effects := s.effects ++ [row], evidence := s.evidence ++ [submitted] }

/-- What enqueueing does: it raises and changes nothing, it returns the id of the
effect that holds the operation key and changes nothing, or it appends one row. -/
inductive Enqueued (a : EnqueueArgs) (state : EffectState) (origin : Origin) (s : Store) :
    Except Error String × Store → Prop
  | refused (e : Error) : Enqueued a state origin s (.error e, s)
  | known (body : Dict) (target : Option EffectTarget) (row : EffectRow)
      (hb : payloadToMapping a.payload = .ok body) (ht : a.target.resolve = .ok target)
      (hp : checkProvenance s origin a.admissionId (canonicalHash body.toJson) target = .ok ())
      (hk : s.effectByOperationKey? a.operationKey = some row)
      (hm : matchExisting row a.operationKey origin a.admissionId
        (newEffect a body target state origin).identity = .ok row.effectId) :
      Enqueued a state origin s (.ok row.effectId, s)
  | inserted (body : Dict) (target : Option EffectTarget)
      (hb : payloadToMapping a.payload = .ok body) (ht : a.target.resolve = .ok target)
      (hp : checkProvenance s origin a.admissionId (canonicalHash body.toJson) target = .ok ())
      (hk : s.effectByOperationKey? a.operationKey = none)
      (hf : checkFresh s origin a.admissionId a.effectId = .ok ()) :
      Enqueued a state origin s
        (.ok a.effectId, s.accept (newEffect a body target state origin) a.nowMs)

theorem matchExisting_id {row : EffectRow} {key : String}
    {admissionId : Option String} {identity : Identity} {id : String}
    (h : matchExisting row key origin admissionId identity = .ok id) : id = row.effectId := by
  unfold matchExisting at h
  split_ifs at h
  · cases h
    rfl
  · cases h
    rfl

theorem enqueueEffectInConnection_known {a : EnqueueArgs} {row : EffectRow}
    (hb : payloadToMapping a.payload = .ok body) (ht : a.target.resolve = .ok target)
    (hp : checkProvenance s origin a.admissionId (canonicalHash body.toJson) target = .ok ())
    (hk : s.effectByOperationKey? a.operationKey = some row) :
    enqueueEffectInConnection a state origin s =
      (matchExisting row a.operationKey origin a.admissionId
        (newEffect a body target state origin).identity, s) := by
  have hh : (newEffect a body target state origin).payloadHash = canonicalHash body.toJson := rfl
  unfold enqueueEffectInConnection
  simp only [hb,ht,hh,hp,hk,bind_apply,liftExcept_apply,read_apply]

theorem enqueueEffectInConnection_inserts {a : EnqueueArgs}
    (hb : payloadToMapping a.payload = .ok body) (ht : a.target.resolve = .ok target)
    (hp : checkProvenance s origin a.admissionId (canonicalHash body.toJson) target = .ok ())
    (hk : s.effectByOperationKey? a.operationKey = none)
    (hf : checkFresh s origin a.admissionId a.effectId = .ok ()) :
    enqueueEffectInConnection a state origin s =
      (.ok a.effectId, s.accept (newEffect a body target state origin) a.nowMs) := by
  have hh : (newEffect a body target state origin).payloadHash = canonicalHash body.toJson := rfl
  unfold enqueueEffectInConnection
  simp only [hb,ht,hh,hp,hk,hf,bind_apply,liftExcept_apply,read_apply]
  rfl

theorem enqueueEffectInConnection_enqueued (state : EffectState) (origin : Origin)
    (s : Store) : Enqueued a state origin s (enqueueEffectInConnection a state origin s) := by
  unfold enqueueEffectInConnection
  cases hb : payloadToMapping a.payload with
  | error e => exact .refused e
  | ok body =>
    cases ht : a.target.resolve with
    | error e => exact .refused e
    | ok target =>
      simp only [bind_apply,liftExcept_apply,read_apply]
      have hh : (newEffect a body target state origin).payloadHash = canonicalHash body.toJson := rfl
      rw [hh]
      cases hp : checkProvenance s origin a.admissionId (canonicalHash body.toJson) target with
      | error e => exact .refused e
      | ok u =>
        cases hk : s.effectByOperationKey? a.operationKey with
        | some row =>
          simp only [liftExcept_apply]
          cases hm : matchExisting row a.operationKey origin a.admissionId
              (newEffect a body target state origin).identity with
          | error e => exact .refused e
          | ok id =>
            cases matchExisting_id hm
            exact .known body target row hb ht hp hk hm
        | none =>
          cases hf : checkFresh s origin a.admissionId a.effectId with
          | error e => exact .refused e
          | ok u => exact .inserted body target hb ht hp hk hf

theorem atomically_enqueued (state : EffectState) (origin : Origin) (s : Store) :
    Enqueued a state origin s (atomically (enqueueEffectInConnection a state origin) s) := by
  have h := enqueueEffectInConnection_enqueued a state origin s
  unfold atomically
  cases hr : enqueueEffectInConnection a state origin s with
  | mk r m =>
    rw [hr] at h
    cases r with
    | ok id => exact h
    | error e => exact .refused e

theorem enqueueEffect_cases :
    (∃ e, enqueueEffect a s = (.error e, s)) ∨
    ∃ state origin, a.effectId ≠ "" ∧ a.operationKey ≠ "" ∧ 1 ≤ a.turnRevision ∧
      EffectState.ofName? a.state = some state ∧ Origin.ofName? a.origin = some origin ∧
      Enqueued a state origin s (enqueueEffect a s) := by
  cases hr : enqueueEffect a s with
  | mk r s' =>
    rcases require_bind_cases hr with ⟨-,he⟩ | ⟨h₁,hr⟩
    · exact .inl ⟨_,he⟩
    rcases require_bind_cases hr with ⟨-,he⟩ | ⟨h₂,hr⟩
    · exact .inl ⟨_,he⟩
    cases hs : EffectState.ofName? a.state with
    | none =>
      rw [hs] at hr
      exact .inl ⟨_,hr.symm⟩
    | some state =>
      rw [hs,Option.elim_some,bind_of_ok liftExcept_apply] at hr
      rcases require_bind_cases hr with ⟨-,he⟩ | ⟨h₃,hr⟩
      · exact .inl ⟨_,he⟩
      cases ho : Origin.ofName? a.origin with
      | none =>
        rw [ho] at hr
        exact .inl ⟨_,hr.symm⟩
      | some origin =>
        rw [ho,Option.elim_some,bind_of_ok liftExcept_apply] at hr
        refine .inr ⟨state,origin,h₁,h₂,h₃,rfl,rfl,?_⟩
        rw [← hr]
        exact atomically_enqueued a state origin s

def EffectEnvelope.admissionRow (v : EffectEnvelope) (a : ParticipationAdmission) : AdmissionRow :=
  { admissionId := a.admissionId, payloadJson := canonicalJson a.mapping.toJson, createdMs := v.createdMs }

/-- What inserting an admission leaves: the same store where the same content is
already there, one more row where the id is new. -/
inductive Admitted (row : AdmissionRow) (s : Store) : Store → Prop
  | present (old : AdmissionRow) (h : s.admission? row.admissionId = some old)
      (hc : old.payloadJson = row.payloadJson) : Admitted row s s
  | added (h : s.admission? row.admissionId = none) :
      Admitted row s { s with admissions := s.admissions ++ [row] }

private theorem insertAdmission_admitted {row : AdmissionRow} {m : Store} {u : Unit}
    (h : insertAdmission row s = (.ok u, m)) : Admitted row s m := by
  rw [insertAdmission,read_bind_apply] at h
  cases ha : s.admission? row.admissionId with
  | none =>
    simp only [ha] at h
    cases h
    exact .added ha
  | some old =>
    simp only [ha] at h
    obtain ⟨hc,rfl⟩ := require_ok h
    exact .present old ha hc

/-- The outcomes of `enqueue_participation_effect`: a refusal leaves the store as it
was, an acceptance admits and enqueues. -/
theorem enqueueParticipationEffect_cases {v : EffectEnvelope} {a : ParticipationAdmission} :
    (∃ e, enqueueParticipationEffect v a s = (.error e, s)) ∨
    ∃ m id s', enqueueParticipationEffect v a s = (.ok id, s') ∧ v.origin = .participation ∧
      a.admissionId ≠ "" ∧ v.admissionId = some a.admissionId ∧
      a.payloadHash = v.payload.payloadHash ∧ a.channel = v.target.channel ∧
      a.chatId = v.target.chatId ∧ Admitted (v.admissionRow a) s m ∧
      Enqueued (v.toArgs v.createdMs) .queued .participation m (.ok id, s') := by
  cases hr : enqueueParticipationEffect v a s with
  | mk r s' =>
    rcases require_bind_cases hr with ⟨-,he⟩ | ⟨h₁,hr⟩
    · exact .inl ⟨_,he⟩
    rcases require_bind_cases hr with ⟨-,he⟩ | ⟨h₂,hr⟩
    · exact .inl ⟨_,he⟩
    rcases require_bind_cases hr with ⟨-,he⟩ | ⟨-,hr⟩
    · exact .inl ⟨_,he⟩
    rcases require_bind_cases hr with ⟨-,he⟩ | ⟨h₄,hr⟩
    · exact .inl ⟨_,he⟩
    rcases require_bind_cases hr with ⟨-,he⟩ | ⟨h₅,hr⟩
    · exact .inl ⟨_,he⟩
    cases r with
    | error e =>
      rw [atomically_error hr]
      exact .inl ⟨e,rfl⟩
    | ok id =>
      obtain ⟨u,m,hm,he⟩ := bind_ok (atomically_ok hr)
      have hq := enqueueEffectInConnection_enqueued (v.toArgs v.createdMs) .queued .participation m
      rw [he] at hq
      exact .inr ⟨m,id,s',rfl,h₁,h₂.1,h₂.2,h₄,h₅.1,h₅.2,insertAdmission_admitted hm,hq⟩

end Yeoman.Processing
