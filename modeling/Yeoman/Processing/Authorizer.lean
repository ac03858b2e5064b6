import Yeoman.Processing.Threads

/-! The final synchronous policy check before a dispatch, bound to one loaded snapshot. -/
namespace Yeoman.Processing
open Library

def effectGuard (policyHealthy permitted revisionMatches unexpired : Bool) : String :=
  if policyHealthy = false then "policy_unhealthy"
  else if revisionMatches = false then "superseded"
  else if unexpired = false then "expired"
  else if permitted = false then "permission_denied"
  else "allow"

theorem effectGuard_allow {healthy permitted matched unexpired : Bool} :
    effectGuard healthy permitted matched unexpired = "allow" ↔
      healthy = true ∧ permitted = true ∧ matched = true ∧ unexpired = true := by
  revert healthy permitted matched unexpired
  decide

structure PolicySnapshot where
  (version policyHash : String)
  healthy : Bool := true
  version_ne : version ≠ ""

structure LoadedAdmission where
  (admissionId channel chatId payloadHash action intent targetMessageId emoji : String)

/-- What the final check reads of the request it builds for the participation checker.
`complete` says that no required attribute is missing. -/
structure ParticipationRequest where
  complete : Bool
  admissionId : Option String
  (effectId payloadHash expectedPayloadHash : String)
  sourcePrincipalsAuthorized : Bool
  reservationState : String

inductive CheckerResult where
  | verdict (allowed : Bool) (detail : String)
  | flag (allowed : Bool)
  | other

structure ParticipationChecker where
  check : ParticipationRequest → Except String CheckerResult
  call : Option (EffectEnvelope → LoadedAdmission → Except String CheckerResult)

/-- The authorizer with the policy and the participation wiring of the moment. Its turn
lookup is the one of the thread registry. -/
structure SnapshotEffectAuthorizer where
  snapshot : PolicySnapshot
  resolve : String → EffectTarget → String → Bool × String
  admissionLoader : Option (String → Except String (Option LoadedAdmission))
  participationAuthorizer : Option ParticipationChecker
  participationRequestBuilder : Option (EffectEnvelope → LoadedAdmission → Except String ParticipationRequest)

def participationRequestReason (v : EffectEnvelope) (request : ParticipationRequest) : String :=
  if request.complete = false then "participation_request_evidence_missing"
  else if request.admissionId = none ∨ request.admissionId ≠ v.admissionId then
    "participation_request_admission_mismatch"
  else if request.effectId ≠ v.effectId then "participation_request_effect_mismatch"
  else if request.payloadHash = "" ∨ request.expectedPayloadHash = "" then
    "participation_request_payload_hash_missing"
  else if request.payloadHash ≠ request.expectedPayloadHash ∨ request.payloadHash ≠ v.payload.payloadHash then
    "participation_request_payload_mismatch"
  else if request.sourcePrincipalsAuthorized = false then "participation_source_principal_not_authorized"
  else if request.reservationState ≠ "submitted" then "participation_reservation_not_submitted"
  else "allow"

def expectedActions : EffectPayload → List String
  | .reaction .. => ["react"]
  | .media .. => ["meme", "sticker"]
  | _ => ["comment"]

def reactionReason (admission : LoadedAdmission) : EffectPayload → String
  | .reaction messageId emoji _ _ =>
    if admission.targetMessageId = "" ∨ admission.targetMessageId ≠ messageId then
      "participation_reaction_target_mismatch"
    else if admission.emoji ≠ emoji then "participation_reaction_emoji_mismatch"
    else "allow"
  | _ => "allow"

def admissionReason (v : EffectEnvelope) (admissionId : String) (admission : LoadedAdmission) : String :=
  if admission.admissionId = "" then "participation_admission_identity_missing"
  else if admission.admissionId ≠ admissionId then "participation_admission_mismatch"
  else if admission.channel ≠ v.target.channel ∨ admission.chatId ≠ v.target.chatId then
    "participation_target_mismatch"
  else if admission.payloadHash = "" then "participation_payload_hash_missing"
  else if admission.payloadHash ≠ v.payload.payloadHash then "participation_payload_mismatch"
  else if admission.action = "" then "participation_action_missing"
  else if admission.intent = "" then "participation_intent_missing"
  else if admission.action ∉ expectedActions v.payload then "participation_action_mismatch"
  else reactionReason admission v.payload

def checkerReason : Except String CheckerResult → String
  | .error text => "participation_denied:" ++ firstChars 160 text
  | .ok (.verdict allowed detail) => if allowed then "allow" else "participation_denied:" ++ detail
  | .ok (.flag allowed) => if allowed then "allow" else "participation_denied"
  | .ok .other => "participation_authorizer_invalid"

namespace SnapshotEffectAuthorizer
variable (a : SnapshotEffectAuthorizer)

def consult (checker : ParticipationChecker) (v : EffectEnvelope) (admission : LoadedAdmission) : String :=
  match a.participationRequestBuilder, checker.call with
  | some build, _ =>
    match build v admission with
    | .error text => checkerReason (.error text)
    | .ok request =>
      if participationRequestReason v request ≠ "allow" then participationRequestReason v request
      else checkerReason (checker.check request)
  | none, some call => checkerReason (call v admission)
  | none, none => "participation_authorizer_unwired"

def participationReason (v : EffectEnvelope) : String :=
  match v.origin with
  | .legacy => if v.admissionId = none then "allow" else "participation_admission_mismatch"
  | .participation =>
    match nonempty v.admissionId with
    | none => "participation_admission_missing"
    | some admissionId =>
      match a.admissionLoader, a.participationAuthorizer with
      | some load, some checker =>
        match load admissionId with
        | .error _ => "participation_admission_unavailable"
        | .ok none => "participation_admission_missing"
        | .ok (some admission) =>
          if admissionReason v admissionId admission ≠ "allow" then admissionReason v admissionId admission
          else a.consult checker v admission
      | _, _ => "participation_authorizer_unwired"

end SnapshotEffectAuthorizer

def checkedTurn (s : Store) (v : EffectEnvelope) : Option TurnRef → Except Error (Option TurnRef)
  | some turn => .ok (some turn)
  | none => if v.turnId = "" then .ok none else turnLookup s v.turnId

def revisionMatches (v : EffectEnvelope) : Option TurnRef → Bool × String
  | none => if v.turnId = "" then (true, "no_turn_claim") else (false, "turn_state_unavailable")
  | some turn =>
    if turn.turnId ≠ v.turnId then (false, "turn_mismatch")
    else if turn.revision ≠ v.turnRevision then (false, "revision_stale")
    else if turn.closedMs ≠ none then (false, "turn_closed")
    else (true, "match")

/-- An effect without a deadline, or before it. -/
def unexpired (expiresAtMs : Option Int) (nowMs : Int) : Bool := expiresAtMs.all (nowMs < ·)

namespace SnapshotEffectAuthorizer
variable (a : SnapshotEffectAuthorizer)

def permission (v : EffectEnvelope) : Bool × String :=
  if a.snapshot.healthy then a.resolve v.principal v.target v.capability else (false, "policy_unhealthy")

def reason (v : EffectEnvelope) (turn : Option TurnRef) (nowMs : Int) : String :=
  let guarded := effectGuard a.snapshot.healthy (a.permission v).1 (revisionMatches v turn).1
    (unexpired v.expiresAtMs nowMs)
  if guarded = "allow" then a.participationReason v else guarded

def detail (v : EffectEnvelope) (turn : Option TurnRef) (reason : String) : String :=
  if reason = "allow" then "allow"
  else if reason = "permission_denied" then reason ++ ":" ++ (a.permission v).2
  else if reason = "superseded" then reason ++ ":" ++ (revisionMatches v turn).2
  else reason

def check (s : Store) (v : EffectEnvelope) (currentTurn : Option TurnRef) (decisionId : String)
    (nowMs : Int) : Except Error DecisionRecord := do
  let turn ← checkedTurn s v currentTurn
  let reason := a.reason v turn nowMs
  if hp : a.snapshot.policyHash = "" then throw (valueError "decision record requires a policy hash")
  else if hd : decisionId = "" then throw (valueError "decision record requires a decision id")
  else return {
    decisionId, traceId := v.traceId, policyVersion := a.snapshot.version,
    policyHash := a.snapshot.policyHash, principal := v.principal, target := v.target.key,
    capability := v.capability, turnRevision := v.turnRevision,
    outcome := if reason = "allow" then .allow else .deny,
    reason := a.detail v turn reason, createdMs := nowMs, stage := .final, effectId := some v.effectId,
    policyVersion_ne := a.snapshot.version_ne, policyHash_ne := hp, decisionId_ne := hd,
    turnRevision_pos := v.turnRevision_pos }

theorem check_allow {s : Store} {v : EffectEnvelope} {currentTurn : Option TurnRef} {decisionId : String}
    {nowMs : Int} {record : DecisionRecord} (h : a.check s v currentTurn decisionId nowMs = .ok record)
    (ho : record.outcome = .allow) :
    a.snapshot.healthy = true ∧ (a.resolve v.principal v.target v.capability).1 = true ∧
      (∃ turn, checkedTurn s v currentTurn = .ok turn ∧ (revisionMatches v turn).1 = true) ∧
      unexpired v.expiresAtMs nowMs = true := by
  obtain ⟨turn,ht,h⟩ := except_bind_ok h
  split at h
  · cases h
  split at h
  · cases h
  cases h
  have hr : a.reason v turn nowMs = "allow" := by
    by_contra hn
    rw [if_neg hn] at ho
    cases ho
  have hg : effectGuard a.snapshot.healthy (a.permission v).1 (revisionMatches v turn).1
      (unexpired v.expiresAtMs nowMs) = "allow" := by
    by_contra hn
    rw [reason,if_neg hn] at hr
    exact hn hr
  obtain ⟨hh,hp,hm,hx⟩ := effectGuard_allow.mp hg
  rw [permission,if_pos hh] at hp
  exact ⟨hh,hp,⟨turn,ht,hm⟩,hx⟩

end SnapshotEffectAuthorizer

theorem revisionMatches_persisted {s : Store} {v : EffectEnvelope} {turn : Option TurnRef}
    (hv : v.turnId ≠ "") (ht : checkedTurn s v none = .ok turn) (hm : (revisionMatches v turn).1 = true) :
    ∃ row, s.turn? v.turnId = some row ∧ row.closedMs = none ∧ row.revision = v.turnRevision := by
  cases turn with
  | none =>
    rw [revisionMatches,if_neg hv] at hm
    cases hm
  | some turn =>
    rw [revisionMatches] at hm
    split_ifs at hm with h₁ h₂ h₃
    rw [checkedTurn,if_neg hv,turnLookup] at ht
    cases hj : s.turnJoin? v.turnId with
    | none =>
      rw [hj] at ht
      cases ht
    | some found =>
      obtain ⟨row,thread⟩ := found
      obtain ⟨row',hr,hth⟩ := Option.bind_eq_some_iff.mp hj
      obtain ⟨thread',-,he⟩ := Option.map_eq_some_iff.mp hth
      cases he
      simp only [hj,TurnRow.toRef] at ht
      split at ht
      · cases ht
        exact ⟨row,hr,not_not.mp h₃,not_not.mp h₂⟩
      · cases ht

end Yeoman.Processing
