import Yeoman.Processing.Schema

/-! Effect envelopes, the stored effects they are rebuilt from, the receipts that
report on them, and participation admissions. -/
namespace Yeoman.Processing
open Library

def processingError (message : String) : Error := ⟨.processingError,message⟩

def effectConflict (message : String) : Error := ⟨.effectConflictError,message⟩

structure EffectEnvelope where
  (effectId operationKey : String)
  payload : EffectPayload
  target : EffectTarget
  traceId : String := ""
  turnId : String := ""
  turnRevision : Int := 1
  principal : String := ""
  capability : String := ""
  expiresAtMs : Option Int := none
  policyVersion : Option String := none
  policyHash : Option String := none
  createdMs : Int
  origin : Origin := .legacy
  admissionId : Option String := none
  effectId_ne : effectId ≠ ""
  operationKey_ne : operationKey ≠ ""
  turnRevision_pos : 1 ≤ turnRevision

/-- Persisted effect as read back from the outbox: the row with its payload and
target columns decoded. -/
structure StoredEffect where
  row : EffectRow
  payload : Option EffectPayload
  target : Option EffectTarget

def effectFromRow (row : EffectRow) : Except Error StoredEffect := do
  let payload ← match row.payloadJson with
    | some text => (decodePayload text).map some
    | none => .ok none
  let target ← decodeTarget row.targetJson
  return { row, payload, target }

theorem effectFromRow_ok {row : EffectRow} {stored : StoredEffect} (h : effectFromRow row = .ok stored) :
    stored.row = row ∧ decodeTarget row.targetJson = .ok stored.target := by
  unfold effectFromRow at h
  split at h
  all_goals
    obtain ⟨payload,-,h⟩ := except_bind_ok h
    obtain ⟨target,ht,h⟩ := except_bind_ok h
    cases h
    exact ⟨rfl,ht⟩

def StoredEffect.toEnvelope (e : StoredEffect) : Except Error EffectEnvelope :=
  match e.payload, e.target with
  | none, _ => .error (processingError
      ("effect " ++ e.row.effectId ++ " payload was purged by retention; refusing to execute"))
  | some _, none => .error (processingError
      ("effect " ++ e.row.effectId ++ " has no target; refusing to execute"))
  | some payload, some target =>
    if h₁ : e.row.effectId = "" then .error (valueError "effect envelope requires an effect id")
    else if h₂ : e.row.operationKey = "" then
      .error (valueError "effect envelope requires an operation key")
    else if h₃ : e.row.turnRevision < 1 then
      .error (valueError "turn revision must be a positive integer")
    else .ok
      { effectId := e.row.effectId, operationKey := e.row.operationKey, payload, target,
        traceId := e.row.traceId, turnId := e.row.turnId, turnRevision := e.row.turnRevision,
        principal := e.row.principal, capability := e.row.capability,
        expiresAtMs := e.row.expiresAtMs, policyVersion := e.row.policyVersion,
        policyHash := e.row.policyHash, createdMs := e.row.createdMs, origin := e.row.origin,
        admissionId := e.row.admissionId, effectId_ne := h₁, operationKey_ne := h₂,
        turnRevision_pos := by omega }

theorem StoredEffect.toEnvelope_ok {e : StoredEffect} {v : EffectEnvelope} (h : e.toEnvelope = .ok v) :
    e.payload = some v.payload ∧ e.target = some v.target ∧ v.effectId = e.row.effectId ∧
      v.operationKey = e.row.operationKey ∧ v.turnId = e.row.turnId ∧
      v.turnRevision = e.row.turnRevision ∧ v.principal = e.row.principal ∧
      v.capability = e.row.capability ∧ v.expiresAtMs = e.row.expiresAtMs ∧
      v.origin = e.row.origin ∧ v.admissionId = e.row.admissionId := by
  unfold toEnvelope at h
  split at h
  · cases h
  · cases h
  next payload target hp ht =>
    split_ifs at h
    cases h
    exact ⟨hp,ht,rfl,rfl,rfl,rfl,rfl,rfl,rfl,rfl,rfl⟩

structure TransportReceipt where
  (channel chatId : String)
  (providerMessageId clientMessageId : Option String)
  confirmedMs : Int
  detail : Option String

/-- Result of a submit, a claim or one transport attempt. `state` is meant to be
the name of the persisted effect state. -/
structure EffectReceipt where
  (effectId state : String)
  operationKey : String := ""
  attemptId : Option String := none
  detail : Option String := none
  accepted : Bool := false
  updatedMs : Option Int := none
  transportReceipt : Option TransportReceipt := none

structure ParticipationAdmission where
  (opportunityId channel chatId : String)
  activationEpoch : Int
  lane : String
  observedRevision : Int
  (action intent : String)
  purpose : String := ""
  emoji : Option String := none
  targetMessageId : Option String := none
  anchorMessageId : Option String := none
  admissionId : String := ""
  sourceEventIds : List String := []
  sourcePrincipals : List (String × String) := []
  policyVersion : String := ""
  policyHash : String := ""
  arbitrationRevision : Int := 0
  contributionType : String := ""
  payloadHash : String := ""
  approvalRevision : Int := 0
  knowledgeEvidence : Option Dict := none
  knowledgeEvidenceDigest : String := ""

namespace ParticipationAdmission

private def opt (v : Option String) : Json := (v.map Json.str).getD .null

def members (a : ParticipationAdmission) : Json.Members :=
  [("admission_id", .str a.admissionId), ("opportunity_id", .str a.opportunityId),
    ("channel", .str a.channel), ("chat_id", .str a.chatId),
    ("activation_epoch", .int a.activationEpoch), ("lane", .str a.lane),
    ("observed_revision", .int a.observedRevision), ("action", .str a.action),
    ("intent", .str a.intent), ("purpose", .str a.purpose), ("emoji", opt a.emoji),
    ("target_message_id", opt a.targetMessageId), ("anchor_message_id", opt a.anchorMessageId),
    ("source_event_ids", .arr (a.sourceEventIds.map .str)),
    ("source_principals", .arr (a.sourcePrincipals.map fun p => .arr [.str p.1, .str p.2])),
    ("policy_version", .str a.policyVersion), ("policy_hash", .str a.policyHash),
    ("arbitration_revision", .int a.arbitrationRevision),
    ("contribution_type", .str a.contributionType), ("payload_hash", .str a.payloadHash),
    ("approval_revision", .int a.approvalRevision),
    ("knowledge_evidence", (a.knowledgeEvidence.map Dict.toJson).getD .null),
    ("knowledge_evidence_digest", .str a.knowledgeEvidenceDigest)]

private theorem opt_wellFormed {v : Option String} : (opt v).WellFormed := by
  cases v <;> trivial

private theorem pairs_wellFormed {ps : List (String × String)} :
    Json.WellFormedItems (ps.map fun p => .arr [.str p.1, .str p.2]) := by
  induction ps with
  | nil => trivial
  | cons p ps ih => exact ⟨⟨trivial,trivial,trivial⟩,ih⟩

theorem members_wellFormed (a : ParticipationAdmission) : (Json.obj a.members).WellFormed := by
  have he : ((a.knowledgeEvidence.map Dict.toJson).getD .null).WellFormed := by
    cases a.knowledgeEvidence with
    | none => trivial
    | some d => exact d.wellFormed
  refine ⟨by simp [members],?_⟩
  exact ⟨trivial,trivial,trivial,trivial,trivial,trivial,trivial,trivial,trivial,trivial,
    opt_wellFormed,opt_wellFormed,opt_wellFormed,EffectPayload.strings_wellFormed _,
    pairs_wellFormed,trivial,trivial,trivial,trivial,trivial,trivial,he,trivial,trivial⟩

def mapping (a : ParticipationAdmission) : Dict := ⟨a.members,a.members_wellFormed⟩

end ParticipationAdmission

end Yeoman.Processing
