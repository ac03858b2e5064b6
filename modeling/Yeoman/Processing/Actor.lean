import Yeoman.Processing.Lineage

/-! The thread actor: it takes follow-ups into the postbox, freezes what a generation sees
and evaluates the postbox when the provider call has returned. -/
namespace Yeoman.Processing
open Library Txn

inductive UpdateEffect where
  | append
  | supersede
  | observe
deriving DecidableEq

def revisesTurn (kind : String) : Bool := kind = "delete" || kind = "edit"

def classifyUpdate (kind : String) (explicitCorrection authorized : Bool) : UpdateEffect :=
  if kind = "reaction" then .observe
  else if authorized = false then .observe
  else if revisesTurn kind || explicitCorrection then .supersede
  else .append

def maxAdditionalGenerations : Nat := 2

structure ThreadActor where
  threadId : String
  cap : Nat
  cap_pos : 1 ≤ cap

def ThreadActor.create (threadId : String) (cap : Int) : ThreadActor :=
  { threadId := threadId, cap := (max 1 cap).toNat, cap_pos := by omega }

inductive AdmissionState where
  | accepted
  | deferred
  | observed

structure Admission where
  state : AdmissionState
  threadId : String
  waiting : Nat := 0

structure FollowUp where
  (inputId eventId principal : String)
  kind : String := "message"
  decisionId : Option String := none
  explicitCorrection : Bool := false
  authorized : Bool := false
  relevance : String := "unknown"
  turnId : Option String := none

def FollowUp.row (f : FollowUp) (threadId : String) (nowMs : Int) : PendingRow :=
  { inputId := f.inputId, threadId := threadId, turnId := f.turnId, eventId := f.eventId,
    principal := f.principal, kind := f.kind, decisionId := f.decisionId, relevance := f.relevance,
    state := .waiting, enqueuedMs := nowMs, consumedMs := none }

structure GenerationSnapshot where
  (generationId turnId threadId : String)
  (revision contextVersion : Int)
  sourceRefs : List SourceRef
  snapshotHash : String
  createdMs : Int
deriving DecidableEq

def GenerationSnapshot.row (g : GenerationSnapshot) : GenerationRow :=
  { generationId := g.generationId, turnId := g.turnId, threadId := g.threadId, revision := g.revision,
    contextVersion := g.contextVersion, snapshotHash := g.snapshotHash, createdMs := g.createdMs,
    finishedMs := none, outcome := none, detail := none }

inductive GenerationState where
  | send
  | restart
  | superseded
  | error
deriving DecidableEq

structure GenerationOutcome where
  state : GenerationState
  text : Option String := none
  generationId : String
  detail : Option String := none
  pending : List PendingRow := []
  contextVersion : Option Int := none
  revision : Option Int := none
  followupTurnId : Option String := none

def cancelStaleEffects (turnId : String) (currentRevision nowMs : Int) (reason : String) :
    StoreM (List String) := do
  let s ← Txn.read
  select (staleEffects s turnId currentRevision) fun effectId => cancelStale effectId nowMs reason

structure TurnAuthority where
  isOperator : String → String → String → Bool := fun _ _ _ => false

def TurnAuthority.mayModify (authority : TurnAuthority) (turn : TurnRow) (principal channel chatId : String) :
    Bool × String :=
  if principal ≠ "" ∧ principal = turn.principal then (true, "orderer")
  else if principal ≠ "" ∧ authority.isOperator principal channel chatId = true then
    (true, "authorized_operator")
  else (false, "foreign_principal_observe")

def correctTurn (authority : TurnAuthority) (turnId principal channel chatId : String) (nowMs : Int) :
    StoreM TurnRef := do
  let s ← Txn.read
  match s.turn? turnId with
  | none => raise (processingError ("unknown turn: " ++ turnId))
  | some turn =>
    let (allowed, why) := authority.mayModify turn principal channel chatId
    require (allowed = true) (processingError ("principal may not modify this turn (" ++ why ++ ")"))
    let ref ← bumpTurnRevision turnId turn.revision nowMs
    let _ ← cancelStaleEffects turnId ref.revision nowMs "superseded"
    return ref

def snapshotHashOf (turn : TurnRow) (refs : List SourceRef) : String :=
  canonicalHash (.obj
    [("turn_id", .str turn.turnId), ("revision", .int turn.revision),
     ("context_version", .int turn.contextVersion),
     ("source_refs", .arr (refs.map fun r =>
       .arr [.str r.eventId, (r.sourceMessageId.map Json.str).getD .null, .int r.revisionAtJoin]))])

namespace ThreadActor
variable (a : ThreadActor)

def accept (f : FollowUp) (nowMs : Int) : StoreM Admission := do
  require (f.eventId ≠ "") (processingError "accept requires an event id")
  if classifyUpdate f.kind f.explicitCorrection f.authorized = .observe ∧ f.authorized = false then
    return { state := .observed, threadId := a.threadId }
  else
    let state ← enqueuePendingInput (f.row a.threadId nowMs) (some a.cap)
    let s ← Txn.read
    return {
      state := match state with
        | none => .observed
        | some .waiting => .accepted
        | some _ => .deferred
      threadId := a.threadId
      waiting := s.pending.countP fun p => p.threadId = a.threadId && p.state = .waiting }

def freezeSnapshot (generationId : String) (nowMs : Int) : StoreM (Option GenerationSnapshot) := do
  let s ← Txn.read
  match s.activeTurn a.threadId with
  | none => return none
  | some turn =>
    let active := (s.turnSourcesOf turn.turnId).filter fun r => r.removedMs = none
    let refs : List SourceRef := active.map fun r =>
      { eventId := r.eventId, sourceMessageId := r.sourceMessageId, role := r.role,
        revisionAtJoin := r.revisionAtJoin }
    let snapshot : GenerationSnapshot :=
      { generationId := generationId, turnId := turn.turnId, threadId := a.threadId,
        revision := turn.revision, contextVersion := turn.contextVersion, sourceRefs := refs,
        snapshotHash := snapshotHashOf turn refs, createdMs := nowMs }
    let _ ← recordGeneration snapshot.row refs
    return some snapshot

def addSources (turnId : String) (nowMs : Int) (pending : List PendingRow) : StoreM Unit :=
  each pending fun item => addTurnSource turnId item.eventId none "context" 1 nowMs

def openFollowupTurn (nowMs : Int) : List PendingRow → StoreM (Option String)
  | [] => return none
  | followup :: rest => do
    let turnId ← openTurn a.threadId followup.principal followup.eventId nowMs .open
    addSources turnId nowMs (followup :: rest)
    let _ ← promoteDeferred a.threadId nowMs a.cap
    return some turnId

def supersededRevision (turn : TurnRow) (pending : List PendingRow) (nowMs : Int) : StoreM Int :=
  if pending.any fun item => revisesTurn item.kind then do
    let ref ← bumpTurnRevision turn.turnId turn.revision nowMs
    return ref.revision
  else return turn.revision

def supersede (snapshot : GenerationSnapshot) (turn : TurnRow) (pending : List PendingRow) (nowMs : Int) :
    StoreM GenerationOutcome := do
  let revision ← supersededRevision turn pending nowMs
  let _ ← cancelStaleEffects snapshot.turnId revision nowMs "superseded"
  let _ ← finishGeneration snapshot.generationId nowMs "superseded" none
  return { state := .superseded, generationId := snapshot.generationId, pending := pending,
           revision := some revision, detail := some "revision_superseded" }

def restart (snapshot : GenerationSnapshot) (pending : List PendingRow) (nowMs : Int) :
    StoreM GenerationOutcome := do
  addSources snapshot.turnId nowMs pending
  let contextVersion ← bumpContextVersion snapshot.turnId nowMs
  let _ ← finishGeneration snapshot.generationId nowMs "restart" none
  return { state := .restart, generationId := snapshot.generationId, pending := pending,
           contextVersion := some contextVersion, detail := some "new_context_available" }

def handOver (snapshot : GenerationSnapshot) (text : Option String) (pending : List PendingRow)
    (nowMs : Int) : StoreM GenerationOutcome := do
  let followupTurn ← a.openFollowupTurn nowMs pending
  let _ ← finishGeneration snapshot.generationId nowMs "handed_over" (some "max_additional_generations")
  return { state := .send, text := text, generationId := snapshot.generationId, pending := pending,
           followupTurnId := followupTurn, detail := some "remaining_inputs_deferred_to_followup_turn" }

/-- What becomes of the drained inputs, with the number of additional generations before and
after. The counter moves on the restart branch only, where no call can raise. -/
def settleDrained (additional : Nat) (snapshot : GenerationSnapshot) (text : Option String)
    (nowMs : Int) (pending : List PendingRow) : StoreM (GenerationOutcome × Nat) := do
  let s ← Txn.read
  match (s.turn? snapshot.turnId).filter turnLive with
  | none =>
    let _ ← finishGeneration snapshot.generationId nowMs "cancelled" (some "turn_closed")
    return ({ state := .superseded, generationId := snapshot.generationId,
              detail := some "turn_closed" }, additional)
  | some turn =>
    if (pending.any fun item => revisesTurn item.kind) || turn.revision ≠ snapshot.revision then
      let outcome ← supersede snapshot turn pending nowMs
      return (outcome, additional)
    else if pending.isEmpty then
      let _ ← finishGeneration snapshot.generationId nowMs "send" none
      return ({ state := .send, text := text, generationId := snapshot.generationId }, additional)
    else if additional < maxAdditionalGenerations then
      let outcome ← restart snapshot pending nowMs
      return (outcome, additional + 1)
    else
      let outcome ← a.handOver snapshot text pending nowMs
      return (outcome, additional)

def evaluatePostbox (additional : Nat) (snapshot : GenerationSnapshot) (text : Option String)
    (nowMs : Int) : StoreM (GenerationOutcome × Nat) := do
  let pending ← drainPendingInputs a.threadId nowMs (some a.cap)
  a.settleDrained additional snapshot text nowMs pending

def failGeneration (snapshot : GenerationSnapshot) (outcome : String) (detail : Option String)
    (nowMs : Int) : StoreM GenerationOutcome := do
  let _ ← finishGeneration snapshot.generationId nowMs outcome detail
  return { state := .error, generationId := snapshot.generationId, detail := detail }

end ThreadActor

end Yeoman.Processing
