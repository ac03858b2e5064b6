import Yeoman.Consciousness.DeliveryLedger
import Yeoman.Processing.Authorizer

/-! Owner approvals of participation comments: what is staged, what the code of the owner claims, and
what is submitted and checked again then. -/
namespace Yeoman.Consciousness.Approvals
open Library Table Txn
open Processing (Error EffectPayload ParticipationAdmission canonicalHash canonicalJson effectConflict effectGuard
  firstChars nonempty)

def deterministicEffectId (channel chatId operation proposalId : String) (revision : Int) : String :=
  "spk-" ++ firstChars 32 (Sha256.hexdigest (String.intercalate "\x1f"
    ["speakup", channel, chatId, operation, proposalId, toString revision]))

def canonicalPayloadHash (channel chatId content actionType : String) (replyToMessageId : Option String)
    (revision : Int) : String :=
  canonicalHash (.obj [("channel", .str channel), ("chat_id", .str chatId), ("content", .str content),
    ("action_type", .str actionType), ("reply_to_message_id", (replyToMessageId.map Json.str).getD .null),
    ("revision", .int revision)])

def isTrendSource (sourceId : String) : Bool := "trend:".toList.isPrefixOf sourceId.toList

structure SpeakupProposal where
  (proposalId channel chatId message : String)
  replyToMessageId : Option String
  payloadHash : String
  proposalRevision : Int
  effectId : String
  admission : ParticipationAdmission
  approvalExpiresAtMs : Int
  /-- Channel and chat of the owner the preview went to. -/
  owner : String × String

/-- Evidence other than the history proof. -/
def knowledgeBacked (a : ParticipationAdmission) : Bool :=
  a.knowledgeEvidence.any fun evidence =>
    evidence.members.isEmpty || evidence.members.any fun member => member.1 ≠ "history"

def stageParticipationApproval (a : ParticipationAdmission) (text : String) (owner : String × String)
    (nowMs timeoutMs : Int) : SpeakupProposal :=
  let replyTo := nonempty a.targetMessageId
  let revision := max 1 a.approvalRevision
  { proposalId := a.opportunityId, channel := a.channel, chatId := a.chatId, message := text
    replyToMessageId := replyTo, proposalRevision := revision, owner
    payloadHash := canonicalPayloadHash a.channel a.chatId text "comment" replyTo revision
    effectId := deterministicEffectId a.channel a.chatId "comment" a.opportunityId 1
    admission := { a with
      payloadHash := (EffectPayload.text text replyTo).payloadHash
      approvalRevision := revision
      knowledgeEvidenceDigest :=
        if knowledgeBacked a then (a.knowledgeEvidence.map fun e => canonicalHash e.toJson).getD "" else "" }
    approvalExpiresAtMs := nowMs + timeoutMs }

structure ApprovalClaim where
  payloadHash : String
  proposalRevision : Int
  targetEffectId : String
  owner : String × String

inductive OutputCheck where
  | allow
  | sanitize (text : String)
  | block

def OutputCheck.content (message : String) : OutputCheck → Option String
  | allow => some message
  | sanitize text => some (if text = "" then message else text)
  | block => none

/-- What the final check reads of the effective policy and the participation settings of a chat. -/
structure ChatRights where
  (allowReactions autoMemes allowContinuation allowInitiation spontaneityEnabled : Bool)
  dailyCap : Int
  permittedContributions : List String
  (quietHoursStart quietHoursEnd : Option String)
  (spontaneityPreview replyAction whenToReplyMode : String)

def clockMinute (text : String) : Option Int :=
  match text.toList.splitOn ':' with
  | [hour, minute] => do
    let hour ← Json.parseInt (String.ofList hour)
    let minute ← Json.parseInt (String.ofList minute)
    return hour * 60 + minute
  | _ => none

def ChatRights.quiet (r : ChatRights) (minute : Int) : Bool :=
  match nonempty r.quietHoursStart, nonempty r.quietHoursEnd with
  | some start, some stop =>
    match clockMinute start, clockMinute stop with
    | some start, some stop =>
      if start = stop then true
      else if start < stop then start ≤ minute && minute < stop
      else start ≤ minute || minute < stop
    | _, _ => true
  | _, _ => false

def ChatRights.permits (r : ChatRights) (a : ParticipationAdmission) (minute : Int) : Bool :=
  (a.action = "react" && r.replyAction ∈ ["answer", "react"] && r.allowReactions) ||
  (a.action ∈ ["meme", "sticker"] && r.replyAction = "answer" && r.autoMemes) ||
  (a.action = "comment" && r.replyAction = "answer" &&
    ((a.intent = "continue" && r.allowContinuation && a.contributionType ∈ r.permittedContributions) ||
     (a.intent = "initiate" && r.allowInitiation && r.spontaneityEnabled && 0 < r.dailyCap &&
      a.contributionType ∈ r.permittedContributions && !r.quiet minute &&
      (r.spontaneityPreview ≠ "owner_dm" || 0 < a.approvalRevision))))

structure Activation where
  lane : String
  (shadow enabled valid optedIn : Bool)
  activationEpoch : Int
  policyVersion : String

structure Gateway where
  nowMs : Int
  deadlineMs : Int
  currentActivation : Option Activation
  policyHash : String
  (policyHealthy permitted : Bool)
  pauseReason : Option String
  rights : Option ChatRights
  arbitrationRevision : Int
  /-- The sender the archive or the trend cards have for a source. -/
  sender : String → Option String
  senderAllowed : String → Bool
  /-- Whether material is pending, and up to which revision; none if the reader raises. -/
  material : Option (Bool × Int)
  reservations : List DeliveryRow
  /-- None where the validator raises. -/
  knowledgeValidator : Option (ParticipationAdmission → Option (Bool × String))
  checkOutput : String → OutputCheck
  /-- Why the send budget of the chat has no room. -/
  capacityBlock : Option String

structure ParticipationAuthorizationRequest where
  (lane admissionLane : String)
  isPaused : Option String
  (isShadow featureEnabled optedIn : Bool)
  (currentEpoch admissionEpoch : Int)
  (sourceAuthorized sourcePrincipalsAuthorized : Bool)
  reservationState : Option AttemptState
  (payloadHash expectedPayloadHash : String)

/-- The last local gate before transport. -/
def ParticipationAuthorizationRequest.check (r : ParticipationAuthorizationRequest) : String :=
  if r.isShadow ∨ r.lane = "shadow" then "shadow_lane"
  else if r.lane ≠ "production" ∨ r.admissionLane ≠ "production" then "admission_lane_mismatch"
  else if !r.featureEnabled then "feature_disabled"
  else if !r.optedIn then "chat_not_opted_in"
  else if r.currentEpoch ≠ r.admissionEpoch then "epoch_changed"
  else match nonempty r.isPaused with
    | some reason => reason
    | none =>
      if !r.sourceAuthorized then "source_not_authorized"
      else if !r.sourcePrincipalsAuthorized then "source_principal_not_authorized"
      else match r.reservationState with
        | none => "no_reservation"
        | some .submitted =>
          if r.payloadHash = "" ∨ r.expectedPayloadHash = "" then "payload_hash_missing"
          else if r.payloadHash ≠ r.expectedPayloadHash then "payload_hash_mismatch"
          else "allow"
        | some _ => "reservation_not_submitted"

inductive Outcome where
  | ignored
  | expired
  | rejected (reason : String)
  | raised (error : Error)
  | blocked (detail : String)
  | refused (reason : String)
  /-- The effect is enqueued and handed to the executor. -/
  | executed (effectId text : String) (replyTo : Option String)
deriving DecidableEq

namespace Gateway
variable (g : Gateway)

def minute : Int := g.nowMs / 60000 % 1440

/-- The senders named in the admission, the last one for each source, are those of exactly its sources. -/
def exactSources (a : ParticipationAdmission) : Bool :=
  let expected (id : String) := (a.sourcePrincipals.reverse.find? fun pair => pair.1 = id).map Prod.snd
  !a.sourceEventIds.isEmpty &&
    (a.sourcePrincipals.map Prod.fst).eraseDups.length = a.sourceEventIds.length &&
    (a.sourcePrincipals.all fun pair => pair.1 ∈ a.sourceEventIds) &&
    a.sourceEventIds.all fun id => (expected id).isSome && nonempty (g.sender id) = expected id

def stale (a : ParticipationAdmission) : Bool :=
  g.currentActivation.isNone || (g.material.all fun (pending, revision) => pending && a.observedRevision < revision)

def participationRequest (effectId payloadHash : String) (a : ParticipationAdmission) (rows : List DeliveryRow) :
    ParticipationAuthorizationRequest :=
  let current := g.currentActivation
  let reservation := deliveryRowForEffect rows effectId
  { lane := (current.map Activation.lane).getD "shadow"
    admissionLane := a.lane
    isPaused := g.pauseReason
    isShadow := (current.map Activation.shadow).getD true
    featureEnabled := current.any fun c => c.enabled && c.valid
    optedIn := current.any Activation.optedIn
    currentEpoch := (current.map Activation.activationEpoch).getD (-1)
    admissionEpoch := a.activationEpoch
    sourceAuthorized := g.exactSources a &&
      (current.any (·.policyVersion = a.policyVersion) && g.policyHash = a.policyHash) &&
      g.arbitrationRevision = a.arbitrationRevision && (reservation.any (·.proposalId = a.opportunityId)) &&
      (current.isSome && g.rights.any (·.permits a g.minute)) && !g.stale a &&
      g.rights.any (·.whenToReplyMode ≠ "off")
    sourcePrincipalsAuthorized := g.exactSources a && a.sourcePrincipals.all fun pair => g.senderAllowed pair.2
    reservationState := reservation.map DeliveryRow.attemptState
    payloadHash := payloadHash
    expectedPayloadHash := a.payloadHash }

def effectExpiresAtMs (effectId : String) : Int :=
  ((deliveryRowForEffect g.reservations effectId).map fun r => r.createdAtMs + deliveryReservationTtlMs).elim
    (g.nowMs + g.deadlineMs) (min (g.nowMs + g.deadlineMs))

/-- The decision of the final policy check. A service principal has no turn whose revision could differ. -/
def authorize (effectId payloadHash : String) (a : ParticipationAdmission) (rows : List DeliveryRow) : String :=
  let guard := effectGuard g.policyHealthy g.permitted true (g.nowMs < g.effectExpiresAtMs effectId)
  if guard ≠ "allow" then guard else (g.participationRequest effectId payloadHash a rows).check

def sentReplyTo (a : ParticipationAdmission) : Option String :=
  if isTrendSource (a.targetMessageId.getD "") then none else nonempty a.targetMessageId

/-- The managed send: the admission is checked when the effect is enqueued, its lease right behind. -/
def submitParticipationComment (p : SpeakupProposal) : Outcome :=
  let payload := EffectPayload.text p.message (sentReplyTo p.admission)
  if payload.payloadHash ≠ p.admission.payloadHash then
    .raised (effectConflict "participation admission payload hash does not match effect")
  else match recordSendAttempt p.effectId g.nowMs g.reservations with
    | (.error e, _) => .raised e
    | (.ok (), rows) =>
      match g.capacityBlock with
      | some detail => .blocked detail
      | none =>
        let reason := g.authorize p.effectId payload.payloadHash p.admission rows
        if reason ≠ "allow" then .refused reason else .executed p.effectId p.message (sentReplyTo p.admission)

def knowledgeVerdict (a : ParticipationAdmission) : Bool × String :=
  match g.knowledgeValidator with
  | some validator => (validator a).getD (false, "revalidation_unavailable")
  | none => (a.knowledgeEvidenceDigest = "" && !knowledgeBacked a, "revalidation_unavailable")

def submitParticipationProposal (p : SpeakupProposal) (claim : ApprovalClaim) : Outcome :=
  if p.approvalExpiresAtMs ≤ g.nowMs then .expired
  else if claim.payloadHash ≠ p.payloadHash ∨ claim.proposalRevision ≠ p.proposalRevision ∨
      claim.targetEffectId ≠ p.effectId ∨ claim.owner ≠ p.owner then .rejected "approval_binding_changed"
  else if p.effectId ≠ deterministicEffectId p.channel p.chatId "comment" p.proposalId 1 ∨
      p.admission.opportunityId ≠ p.proposalId ∨ p.admission.channel ≠ p.channel ∨
      p.admission.chatId ≠ p.chatId ∨
      p.admission.payloadHash ≠ (EffectPayload.text p.message p.replyToMessageId).payloadHash ∨
      p.admission.approvalRevision ≠ p.proposalRevision then .rejected "approval_admission_changed"
  else if !(g.knowledgeVerdict p.admission).1 then
    .rejected ("knowledge_approval_" ++ (g.knowledgeVerdict p.admission).2)
  else if (g.checkOutput p.message).content p.message ≠ some p.message then .rejected "approved_payload_changed"
  else g.submitParticipationComment p

def approve (p : SpeakupProposal) (owner : String × String) : Outcome :=
  if owner ≠ p.owner then .ignored
  else if p.approvalExpiresAtMs ≤ g.nowMs then .expired
  else g.submitParticipationProposal p
    { payloadHash := p.payloadHash, proposalRevision := p.proposalRevision, owner := p.owner
      targetEffectId := deterministicEffectId p.channel p.chatId "comment" p.proposalId p.proposalRevision }

/-- What an approval presupposes: policy, sources, evidence and output check are as they were when the
comment was drafted, nothing newer has come, the budget has room, and the effect has a reservation. -/
structure Unchanged (p : SpeakupProposal) : Prop where
  comment : p.admission.action = "comment" ∧ p.admission.lane = "production"
  policy : ∃ c ∈ g.currentActivation, c.lane = "production" ∧ c.shadow = false ∧ c.enabled = true ∧
    c.valid = true ∧ c.optedIn = true ∧ c.activationEpoch = p.admission.activationEpoch ∧
    c.policyVersion = p.admission.policyVersion
  loaded : g.policyHash = p.admission.policyHash ∧ g.policyHealthy = true ∧ g.permitted = true ∧
    nonempty g.pauseReason = none
  rights : ∃ r ∈ g.rights, r.whenToReplyMode ≠ "off" ∧ ∃ minute, r.permits p.admission minute = true
  sources : g.exactSources p.admission = true ∧ ∀ pair ∈ p.admission.sourcePrincipals, g.senderAllowed pair.2 = true
  direct : g.arbitrationRevision = p.admission.arbitrationRevision
  material : g.stale p.admission = false
  knowledge : (g.knowledgeVerdict p.admission).1 = true
  output : (g.checkOutput p.message).content p.message = some p.message
  room : g.capacityBlock = none ∧ 0 < g.deadlineMs
  reserved : ∃ row ∈ deliveryRowForEffect g.reservations p.effectId, row.proposalId = p.admission.opportunityId

def Leased (effectId : String) : Prop :=
  ∀ row ∈ deliveryRowForEffect g.reservations effectId, g.nowMs < row.createdAtMs + deliveryReservationTtlMs

instance (effectId : String) : Decidable (g.Leased effectId) :=
  inferInstanceAs (Decidable (∀ row ∈ _, _))

def InQuietHours (a : ParticipationAdmission) : Prop :=
  a.intent = "initiate" ∧ ∃ r ∈ g.rights, r.quiet g.minute = true

variable {g} {p : SpeakupProposal} {a : ParticipationAdmission} {effectId : String}

theorem permits_iff {r : ChatRights} {before now : Int} (ha : a.action = "comment") (h : r.permits a before = true) :
    r.permits a now = true ↔ ¬ (a.intent = "initiate" ∧ r.quiet now = true) := by
  simp only [ChatRights.permits,ha,Bool.or_eq_true,Bool.and_eq_true,decide_eq_true_eq,Bool.not_eq_true'] at h ⊢
  rcases h with (⟨⟨h,-⟩,-⟩ | ⟨⟨h,-⟩,-⟩) | ⟨⟨-,hanswer⟩,⟨⟨hi,hc⟩,ht⟩ | ⟨⟨⟨⟨⟨⟨hi,hon⟩,hs⟩,hd⟩,ht⟩,-⟩,hp⟩⟩
  · exact absurd h (by decide)
  · exact absurd h (by decide)
  · have hcontinue : a.intent ≠ "initiate" := hi ▸ by decide
    simp [hanswer,hi,hc,ht]
  · simp [hanswer,hi,hon,hs,hd,ht,hp]

theorem recordSendAttempt_cases (g : Gateway) (effectId : String) :
    (∃ e rows, recordSendAttempt effectId g.nowMs g.reservations = (.error e, rows)) ∧ ¬ g.Leased effectId ∨
    recordSendAttempt effectId g.nowMs g.reservations =
      (.ok (), updateWhere (fun r => r.effectId = effectId) (DeliveryRow.submit g.nowMs) g.reservations) ∧
      g.Leased effectId := by
  have hall : ((deliveryRowForEffect g.reservations effectId).all fun r =>
      g.nowMs < r.createdAtMs + deliveryReservationTtlMs) = true ↔ g.Leased effectId := by
    simp [Leased,Option.all_eq_true]
  unfold recordSendAttempt
  by_cases hl : g.Leased effectId
  · rw [atomically,read_bind_apply,require_bind_of_pos (hall.mpr hl)]
    exact .inr ⟨rfl,hl⟩
  · rw [atomically,read_bind_apply,require_bind_apply,if_neg (hall.not.mpr hl)]
    exact .inl ⟨⟨_,_,rfl⟩,hl⟩

theorem deliveryRowForEffect_submit {rows : List DeliveryRow} {row : DeliveryRow} {nowMs : Int}
    (h : deliveryRowForEffect rows effectId = some row) :
    deliveryRowForEffect (updateWhere (fun r => r.effectId = effectId) (DeliveryRow.submit nowMs) rows) effectId =
      some (row.submit nowMs) := by
  exact lookup_updateWhere_of_pos (f := DeliveryRow.submit nowMs) (p := fun r => r.effectId = effectId) (fun _ => rfl) h
    (decide_eq_true (lookup_some h).2)

/-- Once the attempt is recorded, only quiet hours are left to refuse the effect. -/
theorem authorize_eq_allow (hu : g.Unchanged p) (hl : g.Leased p.effectId) (hne : p.admission.payloadHash ≠ "") :
    g.authorize p.effectId p.admission.payloadHash p.admission
        (updateWhere (fun r => r.effectId = p.effectId) (DeliveryRow.submit g.nowMs) g.reservations) = "allow" ↔
      ¬ g.InQuietHours p.admission := by
  obtain ⟨row,hrow,hproposal⟩ := hu.reserved
  obtain ⟨c,hc,hlane,hshadow,henabled,hvalid,hopted,hepoch,hversion⟩ := hu.policy
  obtain ⟨r,hr,hmode,before,hpermits⟩ := hu.rights
  obtain ⟨hhash,hhealthy,hpermitted,hpause⟩ := hu.loaded
  have hexpiry : g.nowMs < g.effectExpiresAtMs p.effectId := by
    have hlease := hl row hrow
    have hdeadline := hu.room.2
    rw [effectExpiresAtMs,hrow]
    simp only [Option.map_some,Option.elim_some]
    omega
  have hguard : effectGuard g.policyHealthy g.permitted true (g.nowMs < g.effectExpiresAtMs p.effectId) = "allow" := by
    rw [hhealthy,hpermitted,decide_eq_true hexpiry]
    rfl
  have hquiet : r.permits p.admission g.minute = true ↔ ¬ g.InQuietHours p.admission := by
    rw [permits_iff hu.comment.1 hpermits,InQuietHours,Option.mem_def.mp hr]
    simp
  have hallowed : (p.admission.sourcePrincipals.all fun pair => g.senderAllowed pair.2) = true :=
    List.all_eq_true.mpr hu.sources.2
  have hmaterial := hu.material
  have hdirect := hu.direct
  rw [authorize,if_neg (not_not.mpr hguard),← hquiet,ParticipationAuthorizationRequest.check]
  simp only [participationRequest,Option.mem_def.mp hc,Option.mem_def.mp hr,deliveryRowForEffect_submit hrow,
    hu.sources.1,hallowed,hmaterial,hdirect,hhash,hlane,hshadow,henabled,hvalid,hopted,hepoch,hversion,hpause,
    hu.comment.2,hproposal,DeliveryRow.submit,Option.map_some,Option.getD_some,Option.any_some,hne]
  cases r.permits p.admission g.minute <;> simp [hmode]

theorem submitParticipationComment_executed_iff (hu : g.Unchanged p) (hne : p.admission.payloadHash ≠ "")
    {replyTo : Option String} :
    g.submitParticipationComment p = .executed p.effectId p.message replyTo ↔
      (EffectPayload.text p.message (sentReplyTo p.admission)).payloadHash = p.admission.payloadHash ∧
        g.Leased p.effectId ∧ ¬ g.InQuietHours p.admission ∧ sentReplyTo p.admission = replyTo := by
  rw [submitParticipationComment]
  dsimp only
  split
  next hdiffers => exact ⟨nofun,fun h => absurd h.1 hdiffers⟩
  next hsame =>
    rw [not_not.mp hsame,hu.room.1]
    rcases recordSendAttempt_cases g p.effectId with ⟨⟨e,rows,hrun⟩,hl⟩ | ⟨hrun,hl⟩
    · rw [hrun]
      exact ⟨nofun,fun h => absurd h.2.1 hl⟩
    · rw [hrun]
      dsimp only
      split
      next hrefused => exact ⟨nofun,fun h => absurd ((authorize_eq_allow hu hl hne).mpr h.2.2.1) hrefused⟩
      next hallowed =>
        have hquiet := (authorize_eq_allow hu hl hne).mp (not_not.mp hallowed)
        simp [hl,hquiet]

end Gateway

theorem canonicalJson_reply_ne (text target : String) :
    canonicalJson (EffectPayload.text text none).toDict.toJson ≠
      canonicalJson (EffectPayload.text text (some target)).toDict.toJson := by
  have hkind {k : String} {v : Json} (hk : "kind" ≤ k) : Json.keyLe ("kind", .str "text") (k, v) := hk
  have hreply : ¬ Json.keyLe ("text", .str text) ("reply_to", .str target) :=
    show ¬ ("text" : String) ≤ "reply_to" by decide
  have hfirst : ("kind" : String) ≤ "reply_to" ∧ ("kind" : String) ≤ "text" := by decide
  intro h
  have hlength := congrArg List.length (String.ofList_inj.mp h)
  simp only [EffectPayload.toDict,Processing.EffectPayload.members,Dict.toJson,Processing.optMember,Json.sortKeys,
    Json.sortMembers,List.cons_append,List.nil_append,List.append_nil,List.insertionSort_cons,List.insertionSort_nil,
    List.orderedInsert_nil,List.orderedInsert,hkind hfirst.1,hkind hfirst.2,hreply,if_true,if_false,Json.render,
    Json.renderMembers,List.length_append,List.length_cons] at hlength
  omega

/-- What is sent has the hash that was staged unless the quote of a trend card is left out, short of a
collision of the two texts. -/
theorem sentReplyTo_hash_iff (a : ParticipationAdmission) (text : String) :
    (EffectPayload.text text (Gateway.sentReplyTo a)).payloadHash =
        (EffectPayload.text text (nonempty a.targetMessageId)).payloadHash ↔
      isTrendSource (a.targetMessageId.getD "") = false ∨
        Sha256.Collision (canonicalJson (EffectPayload.text text none).toDict.toJson)
          (canonicalJson (EffectPayload.text text a.targetMessageId).toDict.toJson) := by
  unfold Gateway.sentReplyTo
  cases ht : isTrendSource (a.targetMessageId.getD "") with
  | false => simp
  | true =>
    obtain ⟨target,htarget⟩ : ∃ target, a.targetMessageId = some target := by
      rw [← Option.isSome_iff_exists]
      by_contra hnone
      rw [Option.not_isSome_iff_eq_none.mp hnone] at ht
      exact absurd ht (by decide)
    have hne : target ≠ "" := by
      rintro rfl
      rw [htarget] at ht
      exact absurd ht (by decide)
    have hfilled : nonempty (some target) = some target := by simp [nonempty,hne]
    rw [htarget,if_pos rfl,hfilled]
    refine Sha256.hexdigest_eq_iff.trans ?_
    simp [canonicalJson_reply_ne]

def noon : Int := 12 * 60 * 60000

def aboutMessage (targetMessageId : String) : ParticipationAdmission :=
  { opportunityId := "o", channel := "whatsapp", chatId := "g", activationEpoch := 1, lane := "production"
    observedRevision := 1, action := "comment", intent := "initiate", targetMessageId := some targetMessageId
    sourceEventIds := ["m"], sourcePrincipals := [("m", "ana")], policyVersion := "v1", policyHash := "h1"
    contributionType := "joke" }

def staged (targetMessageId : String) : SpeakupProposal :=
  stageParticipationApproval (aboutMessage targetMessageId) "hi" ("whatsapp", "me") noon 3600000

def reservedComment : DeliveryRow :=
  ReserveDelivery.row
    { proposalId := "o", effectId := (staged "m").effectId, channel := "whatsapp", chatId := "g", nowMs := noon
      limits := [], proposalRevision := 1, observedRevision := none, activationEpoch := none, lane := ""
      origin := "" }
    .production .participation ⟨.comment,1,dayMs,.rolling⟩

def gatewayAfter (ms : Int) : Gateway where
  nowMs := noon + ms
  deadlineMs := 60000
  currentActivation := some ⟨"production",false,true,true,true,1,"v1"⟩
  policyHash := "h1"
  policyHealthy := true
  permitted := true
  pauseReason := none
  rights := some ⟨true,false,true,true,true,3,["joke"],some "22:00",some "07:30","owner_dm","answer","all"⟩
  arbitrationRevision := 0
  sender id := if id = "m" then some "ana" else none
  senderAllowed _ := true
  material := some (true, 1)
  reservations := [reservedComment]
  knowledgeValidator := none
  checkOutput _ := .allow
  capacityBlock := none

theorem deliveryRowForEffect_reservedComment (targetMessageId : String) :
    deliveryRowForEffect [reservedComment] (staged targetMessageId).effectId = some reservedComment := by
  have hid : reservedComment.effectId = (staged targetMessageId).effectId := by
    simp only [reservedComment,ReserveDelivery.row,ReserveDelivery.effect,staged,stageParticipationApproval,
      aboutMessage]
    decide +kernel
  simp only [deliveryRowForEffect,List.find?_cons,hid,decide_true]

theorem gatewayAfter_unchanged (ms : Int) (targetMessageId : String) :
    (gatewayAfter ms).Unchanged (staged targetMessageId) where
  comment := ⟨rfl,rfl⟩
  policy := ⟨_,rfl,rfl,rfl,rfl,rfl,rfl,rfl,rfl⟩
  loaded := ⟨rfl,rfl,rfl,rfl⟩
  rights := ⟨_,rfl,by decide,720,by rfl⟩
  sources := ⟨rfl,fun _ _ => rfl⟩
  direct := rfl
  material := rfl
  knowledge := rfl
  output := rfl
  room := ⟨rfl,show (0 : Int) < 60000 by decide⟩
  reserved := ⟨reservedComment,deliveryRowForEffect_reservedComment targetMessageId,rfl⟩

end Yeoman.Consciousness.Approvals
