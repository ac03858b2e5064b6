import Yeoman.Library.Runs
import Yeoman.Processing.Authority

/-! The delivery ledger: capacity reservations of proactive sends and the projections of
transport and recipient evidence onto them. -/
namespace Yeoman.Consciousness
open Library Table Txn
open Processing (Error valueError stripText)

inductive DeliveryState where
  | reserved
  | submitted
  | transportAccepted
  | delivered
  | deliveryUnknown
  | failed
  | cancelled
  | expired
deriving DecidableEq

namespace DeliveryState

def isReleased : DeliveryState → Bool
  | failed | cancelled | expired => true
  | _ => false

def isConsumed : DeliveryState → Bool
  | transportAccepted | delivered | deliveryUnknown => true
  | _ => false

def isAccepted : DeliveryState → Bool
  | transportAccepted | delivered => true
  | _ => false

def isHeld : DeliveryState → Bool
  | reserved | submitted | deliveryUnknown => true
  | _ => false

def releasing? : String → Option DeliveryState
  | "failed" => some failed
  | "cancelled" => some cancelled
  | "expired" => some expired
  | _ => none

end DeliveryState

inductive AttemptState where
  | unsubmitted
  | submitted
  | accepted
  | delivered
  | unknown
  | released

inductive Category where
  | initiation
  | comment
  | reaction
  | meme
  | sticker
deriving DecidableEq

def Category.ofName? : String → Option Category
  | "initiation" => some initiation
  | "comment" => some comment
  | "reaction" => some reaction
  | "meme" => some meme
  | "sticker" => some sticker
  | _ => none

inductive WindowKind where
  | rolling
  | calendarDay
deriving DecidableEq

inductive Lane where
  | production
  | shadow
deriving DecidableEq

inductive DeliveryOrigin where
  | legacy
  | participation
deriving DecidableEq

def Lane.ofName? (name : String) : Option Lane :=
  match stripText (if name = "" then "production" else name) with
  | "production" => some production
  | "shadow" => some shadow
  | _ => none

def DeliveryOrigin.ofName? (name : String) : Option DeliveryOrigin :=
  match stripText (if name = "" then "legacy" else name) with
  | "legacy" => some legacy
  | "participation" => some participation
  | _ => none

structure DeliveryRow where
  (proposalId effectId channel chatId : String)
  category : Category
  (limitValue windowMs : Int)
  windowKind : WindowKind
  createdAtMs : Int
  (submittedAtMs acceptedAtMs deliveredAtMs releasedAtMs : Option Int)
  deliveryState : DeliveryState
  (providerMessageId evidenceKind evidenceRef : Option String)
  attemptState : AttemptState
  (observedRevision activationEpoch : Option Int)
  lane : Lane
  origin : DeliveryOrigin
  proposalRevision : Int

def DeliveryRow.key (r : DeliveryRow) : String × Category := (r.effectId, r.category)

abbrev LedgerM := Txn (List DeliveryRow) Error

/-- A budget hold is a lease of ten minutes. -/
def deliveryReservationTtlMs : Int := 10 * 60000

def dayMs : Int := 86400000

structure LimitEntry where
  category : String
  (limit windowMs : Int)
  windowKind : WindowKind

/-- An entry that passed the checks. -/
structure Limit where
  category : Category
  (limit windowMs : Int)
  windowKind : WindowKind

structure ReserveDelivery where
  (proposalId effectId channel chatId : String)
  nowMs : Int
  limits : List LimitEntry
  proposalRevision : Int
  (observedRevision activationEpoch : Option Int)
  (lane origin : String)

namespace ReserveDelivery

def proposal (c : ReserveDelivery) : String := stripText c.proposalId

def effect (c : ReserveDelivery) : String := stripText c.effectId

/-- The limits in order: the first unknown category raises and the first limit that is not
positive denies the reservation. -/
def checkLimits : List LimitEntry → Except Error (Option (List Limit))
  | [] => .ok (some [])
  | entry :: limits =>
    match Category.ofName? entry.category with
    | none => .error (valueError ("unknown reservation category: " ++ entry.category))
    | some category =>
      if entry.limit ≤ 0 then .ok none
      else match checkLimits limits with
        | .error e => .error e
        | .ok none => .ok none
        | .ok (some checked) => .ok (some (⟨category,entry.limit,entry.windowMs,entry.windowKind⟩ :: checked))

def row (c : ReserveDelivery) (lane : Lane) (origin : DeliveryOrigin) (l : Limit) : DeliveryRow :=
  { proposalId := c.proposal, effectId := c.effect, channel := c.channel, chatId := c.chatId,
    category := l.category, limitValue := l.limit, windowMs := l.windowMs, windowKind := l.windowKind,
    createdAtMs := c.nowMs, submittedAtMs := none, acceptedAtMs := none, deliveredAtMs := none,
    releasedAtMs := none, deliveryState := .reserved, providerMessageId := none, evidenceKind := none,
    evidenceRef := none, attemptState := .unsubmitted, observedRevision := c.observedRevision,
    activationEpoch := c.activationEpoch, lane := lane, origin := origin,
    proposalRevision := c.proposalRevision }

end ReserveDelivery

def DeliveryRow.occupies (acceptedSince : Int) (acceptedBefore : Option Int) (nowMs : Int) (r : DeliveryRow) :
    Bool :=
  (r.deliveryState.isAccepted &&
    r.acceptedAtMs.any fun t => acceptedSince ≤ t && acceptedBefore.all fun before => t < before) ||
  (r.deliveryState.isHeld && nowMs - deliveryReservationTtlMs < r.createdAtMs)

def heldOrAcceptedCount (rows : List DeliveryRow) (channel chatId : String) (category : Category)
    (excludeProposalId : String) (nowMs acceptedSince : Int) (acceptedBefore : Option Int) : Int :=
  rows.countP fun r => r.channel = channel && r.chatId = chatId && r.category = category &&
    r.proposalId ≠ excludeProposalId && r.occupies acceptedSince acceptedBefore nowMs

def rollingCapacity (rows : List DeliveryRow) (c : ReserveDelivery) (l : Limit) : Bool :=
  heldOrAcceptedCount rows c.channel c.chatId l.category c.proposal c.nowMs
    (c.nowMs - max 1 l.windowMs + 1) none < l.limit

def dayStart (nowMs : Int) : Int := nowMs / dayMs * dayMs

def calendarDayCapacity (rows : List DeliveryRow) (c : ReserveDelivery) (l : Limit) : Bool :=
  heldOrAcceptedCount rows c.channel c.chatId l.category c.proposal c.nowMs
    (dayStart c.nowMs) (some (dayStart c.nowMs + dayMs)) < l.limit

def hasCapacity (rows : List DeliveryRow) (c : ReserveDelivery) (l : Limit) : Bool :=
  match l.windowKind with
  | .calendarDay => calendarDayCapacity rows c l
  | .rolling => rollingCapacity rows c l

def DeliveryRow.standsFor (c : ReserveDelivery) (lane : Lane) (r : DeliveryRow) : Bool :=
  r.effectId = c.effect ||
    (r.proposalId = c.proposal && r.channel = c.channel && r.chatId = c.chatId && r.lane = lane)

def DeliveryRow.stillHeld (c : ReserveDelivery) (lane : Lane) (origin : DeliveryOrigin) (r : DeliveryRow) : Bool :=
  !(r.createdAtMs + deliveryReservationTtlMs ≤ c.nowMs || r.effectId ≠ c.effect ||
    r.proposalId ≠ c.proposal || r.channel ≠ c.channel || r.chatId ≠ c.chatId || r.lane ≠ lane ||
    r.origin ≠ origin) && !r.deliveryState.isReleased

def acquire (c : ReserveDelivery) (lane : Lane) (origin : DeliveryOrigin) (checked : List Limit) : LedgerM Bool :=
  atomically do
    let rows ← Txn.read
    match rows.find? (DeliveryRow.standsFor c lane) with
    | some existing => return existing.stillHeld c lane origin
    | none =>
      if checked.all (hasCapacity rows c) then do
        each checked fun l => Txn.modify (insertIgnore DeliveryRow.key (c.row lane origin l))
        return true
      else return false

def reserveDeliverySync (c : ReserveDelivery) : LedgerM Bool := do
  require (c.proposal ≠ "" ∧ c.effect ≠ "") (valueError "proposal_id and effect_id are required")
  if c.limits = [] then return false
  else
    match DeliveryOrigin.ofName? c.origin with
    | none => raise (valueError ("unknown delivery origin: " ++ stripText c.origin))
    | some origin =>
      match Lane.ofName? c.lane with
      | none => raise (valueError ("unknown participation lane: " ++ stripText c.lane))
      | some lane => do
        match ← liftExcept (ReserveDelivery.checkLimits c.limits) with
        | none => return false
        | some checked => acquire c lane origin checked

structure DeliveryEvidence where
  effectId : String
  providerMessageId : Option String
  (kind ref : String)
  nowMs : Int

namespace DeliveryRow

def submit (nowMs : Int) (r : DeliveryRow) : DeliveryRow :=
  { r with
    attemptState := .submitted
    submittedAtMs := some (r.submittedAtMs.getD nowMs)
    deliveryState := if r.deliveryState = .reserved then .submitted else r.deliveryState }

def accept (v : DeliveryEvidence) (r : DeliveryRow) : DeliveryRow :=
  { r with
    deliveryState := .transportAccepted
    acceptedAtMs := some v.nowMs
    providerMessageId := v.providerMessageId.orElse fun _ => r.providerMessageId
    evidenceKind := some v.kind
    evidenceRef := some v.ref
    attemptState := .accepted }

def deliver (v : DeliveryEvidence) (r : DeliveryRow) : DeliveryRow :=
  { r with
    deliveryState := .delivered
    deliveredAtMs := some (r.deliveredAtMs.getD v.nowMs)
    acceptedAtMs :=
      if r.deliveryState = .transportAccepted then some (r.acceptedAtMs.getD v.nowMs) else some v.nowMs
    providerMessageId := v.providerMessageId.orElse fun _ => r.providerMessageId
    evidenceKind := some v.kind
    evidenceRef := some v.ref
    attemptState := .delivered }

def markUnknown (kind ref : String) (r : DeliveryRow) : DeliveryRow :=
  { r with
    deliveryState := .deliveryUnknown
    evidenceKind := some kind
    evidenceRef := some ref
    attemptState := .unknown }

def release (state : DeliveryState) (reason : String) (nowMs : Int) (r : DeliveryRow) : DeliveryRow :=
  { r with
    deliveryState := state
    releasedAtMs := some nowMs
    evidenceKind := some "release"
    evidenceRef := some reason
    attemptState := .released }

end DeliveryRow

def transportEvidenceKinds : List String := ["transport_receipt", "probe_confirmed", "effect_sent"]

def recipientEvidenceKinds : List String :=
  ["recipient_delivery", "recipient_read", "quote_proof", "reaction_proof", "group_delivery_at_least_one"]

def deliveryRowForEffect (rows : List DeliveryRow) (effectId : String) : Option DeliveryRow :=
  rows.find? fun r => r.effectId = effectId

def updateEffect (effectId : String) (f : DeliveryRow → DeliveryRow) : LedgerM Unit :=
  Txn.modify (updateWhere (fun r => r.effectId = effectId) f)

def recordSendAttempt (effectId : String) (nowMs : Int) : LedgerM Unit :=
  atomically do
    let rows ← Txn.read
    require ((deliveryRowForEffect rows effectId).all fun r =>
        nowMs < r.createdAtMs + deliveryReservationTtlMs)
      (valueError "reservation_expired")
    updateEffect effectId (DeliveryRow.submit nowMs)

def projectTransportAccepted (v : DeliveryEvidence) : LedgerM DeliveryState := do
  require (v.kind ∈ transportEvidenceKinds) (valueError ("not transport evidence: " ++ v.kind))
  atomically do
    let rows ← Txn.read
    match deliveryRowForEffect rows v.effectId with
    | none => raise (valueError "no reservation for this proposal/effect")
    | some row =>
      if row.deliveryState.isAccepted then return row.deliveryState
      else if row.deliveryState.isReleased then return row.deliveryState
      else do
        updateEffect v.effectId (DeliveryRow.accept v)
        return .transportAccepted

def projectRecipientDelivery (v : DeliveryEvidence) : LedgerM Bool := do
  require (v.kind ∈ recipientEvidenceKinds) (valueError ("not recipient evidence: " ++ v.kind))
  atomically do
    let rows ← Txn.read
    match deliveryRowForEffect rows v.effectId with
    | none => raise (valueError "no reservation for this proposal/effect")
    | some row =>
      -- Unlike an acceptance, recipient evidence is not stopped by a release.
      if row.deliveryState = .delivered then return false
      else do
        updateEffect v.effectId (DeliveryRow.deliver v)
        return true

def noteDeliveryUnknown (effectId kind ref : String) : LedgerM Unit :=
  Txn.modify (updateWhere
    (fun r => r.effectId = effectId && (r.deliveryState = .reserved || r.deliveryState = .submitted))
    (DeliveryRow.markUnknown kind ref))

def releaseDelivery (effectId state reason : String) (nowMs : Int) : LedgerM Bool :=
  match DeliveryState.releasing? state with
  | none => raise (valueError ("not a releasing state: " ++ state))
  | some released => atomically do
    let rows ← Txn.read
    match deliveryRowForEffect rows effectId with
    | none => return false
    | some row =>
      if row.deliveryState.isConsumed then return false
      else if row.deliveryState.isReleased then return false
      else do
        updateEffect effectId (DeliveryRow.release released reason nowMs)
        return true

def recordDelivery (state : String) (v : DeliveryEvidence) : LedgerM Bool := do
  let rows ← Txn.read
  match deliveryRowForEffect rows v.effectId with
  | none => raise (valueError ("no reservation for effect " ++ v.effectId))
  | some _ =>
    match state with
    | "transport_accepted" => do
      let _ ← projectTransportAccepted v
      return true
    | "delivered" => projectRecipientDelivery v
    | "failed" => releaseDelivery v.effectId "failed" (if v.ref = "" then v.kind else v.ref) v.nowMs
    | _ => raise (valueError ("unsupported delivery state: " ++ state))

inductive LedgerCall where
  | reserve (c : ReserveDelivery)
  | sendAttempt (effectId : String) (nowMs : Int)
  | transportAccepted (v : DeliveryEvidence)
  | recipientDelivery (v : DeliveryEvidence)
  | unknown (effectId kind ref : String) (nowMs : Int)
  | release (effectId state reason : String) (nowMs : Int)
  | record (state : String) (v : DeliveryEvidence)

namespace LedgerCall

def nowMs : LedgerCall → Int
  | .reserve c => c.nowMs
  | .sendAttempt _ nowMs => nowMs
  | .transportAccepted v => v.nowMs
  | .recipientDelivery v => v.nowMs
  | .unknown _ _ _ nowMs => nowMs
  | .release _ _ _ nowMs => nowMs
  | .record _ v => v.nowMs

def exec (rows : List DeliveryRow) : LedgerCall → List DeliveryRow
  | .reserve c => (reserveDeliverySync c rows).2
  | .sendAttempt effectId nowMs => (recordSendAttempt effectId nowMs rows).2
  | .transportAccepted v => (projectTransportAccepted v rows).2
  | .recipientDelivery v => (projectRecipientDelivery v rows).2
  | .unknown effectId kind ref _ => (noteDeliveryUnknown effectId kind ref rows).2
  | .release effectId state reason nowMs => (releaseDelivery effectId state reason nowMs rows).2
  | .record state v => (recordDelivery state v rows).2

end LedgerCall

end Yeoman.Consciousness
