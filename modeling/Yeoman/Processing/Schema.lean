import Mathlib.Algebra.Ring.Int.Defs
import Yeoman.Library.Table
import Yeoman.Library.Transaction
import Yeoman.Processing.Payload

/-! Rows of the processing database and the store that holds its tables, each in
insertion order. Times are UTC epoch milliseconds. -/
namespace Yeoman.Processing
open Library

inductive EventKind where
  | message
  | edit
  | reaction
  | delete
  | receipt
  | membershipChange
  | membershipSnapshot
  | groupSubject
  | groupDescription
deriving DecidableEq

namespace EventKind

def name : EventKind → String
  | message => "message"
  | edit => "edit"
  | reaction => "reaction"
  | delete => "delete"
  | receipt => "receipt"
  | membershipChange => "membership_change"
  | membershipSnapshot => "membership_snapshot"
  | groupSubject => "group_subject"
  | groupDescription => "group_description"

def all : List EventKind :=
  [message, edit, reaction, delete, receipt, membershipChange, membershipSnapshot, groupSubject,
    groupDescription]

def ofName? (s : String) : Option EventKind := all.find? (fun k => k.name = s)

end EventKind

inductive Direction where
  | inbound
  | outbound
deriving DecidableEq

namespace Direction

def name : Direction → String
  | inbound => "in"
  | outbound => "out"

def ofName? (s : String) : Option Direction := [inbound, outbound].find? (fun d => d.name = s)

end Direction

structure EventRow where
  (eventId eventKey traceId : String)
  kind : EventKind
  (origin channel chatId principal account : String)
  direction : Direction
  revision : Int
  (audienceRef sourceMessageId targetMessageId threadId turnId : Option String)
  occurredMs : Option Int
  payloadHash : String
  payloadJson : Option String
  payloadPurgedMs : Option Int
  createdMs : Int
deriving DecidableEq

structure RelationRow where
  (eventId relation refId : String)
  resolved : Bool
  createdMs : Int

def RelationRow.key (r : RelationRow) : String × String × String := (r.eventId, r.relation, r.refId)

structure AuthorityRow where
  eventId : String
  revision : Int
  (authorPrincipal sourceChannel sourceChatId : String)
  occurredAtMs : Int
  (audienceStatus audienceMembersJson : String)
  (audienceSnapshotId policyRevision : Option String)
  revokedAtMs : Option Int
  revokingEventId : Option String
  (createdMs updatedMs : Int)
deriving DecidableEq

def AuthorityRow.key (a : AuthorityRow) : String × Int := (a.eventId, a.revision)

inductive DecisionOutcome where
  | allow
  | deny
deriving DecidableEq

inductive DecisionStage where
  | fast
  | final
  | admin

structure DecisionRecord where
  (decisionId traceId policyVersion policyHash principal target capability : String)
  turnRevision : Int
  outcome : DecisionOutcome
  reason : String
  createdMs : Int
  stage : DecisionStage
  effectId : Option String
  policyVersion_ne : policyVersion ≠ ""
  policyHash_ne : policyHash ≠ ""
  decisionId_ne : decisionId ≠ ""
  turnRevision_pos : 1 ≤ turnRevision

inductive Origin where
  | legacy
  | participation
deriving DecidableEq

namespace Origin

def name : Origin → String
  | legacy => "legacy"
  | participation => "participation"

def ofName? (s : String) : Option Origin := [legacy, participation].find? (fun o => o.name = s)

end Origin

structure EffectRow where
  (effectId operationKey traceId turnId : String)
  turnRevision : Int
  (principal capability targetJson targetHash payloadKind payloadHash : String)
  payloadJson : Option String
  payloadPurgedMs : Option Int
  state : EffectState
  expiresAtMs : Option Int
  (policyVersion policyHash leaseOwner : Option String)
  leaseUntilMs : Option Int
  origin : Origin
  admissionId : Option String
  (createdMs updatedMs : Int)

structure AttemptRow where
  (attemptId effectId workerId : String)
  startedMs : Int
  finishedMs : Option Int
  outcome : Option EffectState
  (policyVersion detail : Option String)

structure EvidenceRow where
  (effectId kind : String)
  state : EffectState
  detail : Option String
  observedMs : Int
  workerId : Option String

structure AdmissionRow where
  (admissionId payloadJson : String)
  createdMs : Int

inductive ThreadState where
  | open
  | idle
  | closed
deriving DecidableEq

inductive ConversationState where
  | active
  | dormant
deriving DecidableEq

structure ThreadRow where
  (threadId channel chatId rootPrincipal kind : String)
  state : ThreadState
  (openedMs lastActivityMs : Int)
  closedMs : Option Int
  closeReason : Option String
  (reopenCount turnSeq : Nat)
  conversationState : ConversationState
  dormantMs : Option Int
  dormantReason : Option String

inductive TurnState where
  | open
  | awaiting
  | closed
  | superseded
deriving DecidableEq

namespace TurnState

def name : TurnState → String
  | .open => "open"
  | awaiting => "awaiting"
  | closed => "closed"
  | superseded => "superseded"

def ofName? (s : String) : Option TurnState :=
  [TurnState.open, awaiting, closed, superseded].find? (fun t => t.name = s)

end TurnState

structure TurnRow where
  (turnId threadId principal : String)
  (revision contextVersion : Int)
  state : TurnState
  (openedMs updatedMs : Int)
  closedMs : Option Int
  lastGenerationId : Option String

inductive PendingState where
  | waiting
  | deferred
  | consumed
  | cancelled
deriving DecidableEq

structure PendingRow where
  (inputId threadId : String)
  turnId : Option String
  (eventId principal kind : String)
  decisionId : Option String
  relevance : String
  state : PendingState
  enqueuedMs : Int
  consumedMs : Option Int
deriving DecidableEq

structure GenerationRow where
  (generationId turnId threadId : String)
  (revision contextVersion : Int)
  snapshotHash : String
  createdMs : Int
  finishedMs : Option Int
  (outcome detail : Option String)

structure GenerationSourceRow where
  (generationId eventId : String)
  sourceMessageId : Option String
  role : String
  revisionAtJoin : Int

structure ReceiptRow where
  (receiptId effectId : String)
  attemptId : Option String
  (channel chatId : String)
  (providerMessageId clientMessageId : Option String)
  confirmedMs : Int
  detail : Option String

structure ProbeRow where
  (probeId effectId : String)
  (attemptNumber dueMs : Int)
  leaseOwner : Option String
  (leaseUntilMs startedMs finishedMs : Option Int)
  (outcome evidenceDetail : Option String)
  createdMs : Int

structure ReservationRow where
  (attemptId channel chatId effectId : String)
  (units reservedMs : Int)

structure TurnSourceRow where
  (turnId eventId : String)
  sourceMessageId : Option String
  role : String
  (revisionAtJoin addedMs : Int)
  removedMs : Option Int

def TurnSourceRow.key (r : TurnSourceRow) : String × String := (r.turnId, r.eventId)

structure ThreadMessageRow where
  messageId : Option String
  threadId : String
  turnId : Option String
  direction : Direction
  (eventId effectId : Option String)
  confirmedMs : Option Int
  createdMs : Int

structure TopicRow where
  threadId : String
  (openerSourceId opener latestSourceId latest : Option String)
  updatedMs : Int

structure Store where
  events : List EventRow := []
  relations : List RelationRow := []
  authority : List AuthorityRow := []
  decisions : List DecisionRecord := []
  effects : List EffectRow := []
  attempts : List AttemptRow := []
  evidence : List EvidenceRow := []
  admissions : List AdmissionRow := []
  threads : List ThreadRow := []
  turns : List TurnRow := []
  pending : List PendingRow := []
  generations : List GenerationRow := []
  generationSources : List GenerationSourceRow := []
  receipts : List ReceiptRow := []
  probes : List ProbeRow := []
  reservations : List ReservationRow := []
  turnSources : List TurnSourceRow := []
  threadMessages : List ThreadMessageRow := []
  topics : List TopicRow := []

abbrev StoreM := Txn Store Error

def Store.empty : Store := {}

end Yeoman.Processing
