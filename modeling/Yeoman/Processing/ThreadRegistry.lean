import Yeoman.Processing.JoinRules
import Yeoman.Processing.Operations
import Yeoman.Processing.Signals

/-! The thread registry: it builds the read view of an event from the store, lets the join
rules decide and persists the outcome. -/
namespace Yeoman.Processing
open Library

structure ThreadPolicy where
  followupWindowMs : Int := 15000
  reopenWindowMs : Int := 604800000
  sameSenderGapMs : Int := 120000

/-- The registry: its policy, and the chats where an unaddressed message may be answered. -/
structure ThreadRegistry where
  policy : ThreadPolicy := {}
  ambientChats : List String := []

def inputFromEvent (event : CanonicalEvent) (explicitCorrection topicBreak : Option Bool) : JoinInput :=
  let payload := event.payload
  { eventId := event.eventId
    channel := event.channel
    chatId := event.chatId
    principal := event.principal
    text := ((payload.get "text").orElse (.str "")).toStr
    kind := event.kind
    isGroup := (payload.get "is_group").truthy || "@g.us".toList.isSuffixOf event.chatId.toList
    mentionedBot := (payload.get "mentioned_bot").truthy
    replyToBot := (payload.get "reply_to_bot").truthy
    replyToMessageId := firstText payload ["reply_to_message_id", "reply_to"]
    targetMessageId := firstText payload ["target_message_id"]
    explicitCorrection :=
      explicitCorrection.getD (payload.get "explicit_correction").truthy || event.kind.revises
    topicBreak := topicBreak.getD (payload.get "topic_break").truthy
    occurredMs := event.occurredMs
    sourceMessageId := event.sourceMessageId
    semanticThreadId := firstText payload ["semantic_thread_id"] }

structure AssignCall where
  event : CanonicalEvent
  nowMs : Int
  explicitCorrection : Option Bool := none
  topicBreak : Option Bool := none
  allowTurn : Bool := true

def AssignCall.data (c : AssignCall) : JoinInput := inputFromEvent c.event c.explicitCorrection c.topicBreak

def AssignCall.ownThread (c : AssignCall) : String :=
  threadIdFor c.event.channel c.event.chatId c.event.eventId

namespace ThreadRow

def sleeping (t : ThreadRow) : Bool := t.state = .open && t.conversationState = .dormant

def replyState (t : ThreadRow) : ReplyThreadState :=
  if t.sleeping then .dormant
  else match t.state with
    | .open => .open
    | .idle => .idle
    | .closed => .closed

end ThreadRow

namespace ThreadRegistry

def semanticTarget (s : Store) (data : JoinInput) : Option String :=
  ((nonempty data.semanticThreadId).bind s.thread?).bind fun t =>
    if t.channel = data.channel ∧ t.chatId = data.chatId ∧ t.sleeping ∧ t.kind ≠ "ambient" then
      some t.threadId
    else none

def replyThread (s : Store) (data : JoinInput) : Option String :=
  (s.resolveReference data.replyToMessageId).map Prod.fst

def replyTurn (s : Store) (data : JoinInput) : Option String :=
  (s.resolveReference data.replyToMessageId).bind Prod.snd

def replyThreadState (s : Store) (data : JoinInput) : Option ReplyThreadState :=
  ((replyThread s data).bind s.thread?).map ThreadRow.replyState

def replyReopenable (reg : ThreadRegistry) (s : Store) (data : JoinInput) (nowMs : Int) : Bool :=
  ((replyThread s data).bind s.thread?).any fun t =>
    if t.closeReason = some "manual_new" then false
    else if t.sleeping then true
    else if reg.policy.reopenWindowMs < nowMs - t.lastActivityMs then false
    else s.threadSourcesAvailable t.threadId

def correctionTargets (s : Store) (data : JoinInput) : List (String × String) :=
  if data.explicitCorrection || data.kind.revises then
    match s.resolveReference ((nonempty data.targetMessageId).or data.replyToMessageId) with
    | some (threadId, some turnId) => [(threadId, turnId)]
    | _ => []
  else []

def openThreads (s : Store) (data : JoinInput) : List ThreadRow :=
  s.listThreads (nonempty (some data.channel)) (some data.chatId) (some data.principal) (some .open)
    (some 100)

def activeThreads (reg : ThreadRegistry) (s : Store) (data : JoinInput) (nowMs : Int) :
    List (String × Option String) :=
  ((openThreads s data).filter fun t => t.conversationState = .active && t.kind ≠ "ambient" &&
    nowMs - t.lastActivityMs ≤ reg.policy.followupWindowMs).map fun t =>
      (t.threadId, (s.activeTurn t.threadId).map TurnRow.turnId)

def continuum (reg : ThreadRegistry) (s : Store) (data : JoinInput) (nowMs : Int) :
    Option ContinuitySignal :=
  match reg.activeThreads s data nowMs with
  | [(threadId, _)] =>
    let currentMs := data.occurredMs.getD nowMs
    let previous := s.previousChatMessage data.channel data.chatId currentMs data.eventId
      (data.sourceMessageId.getD "")
    let quotesElsewhere := (nonempty data.replyToMessageId).isSome && !data.replyToBot &&
      replyThread s data ≠ some threadId
    some (continuitySignal threadId data.principal previous currentMs reg.policy.sameSenderGapMs
      data.mentionedBot quotesElsewhere)
  | _ => none

def lastDmThread (s : Store) (data : JoinInput) : Option String :=
  (Table.maxBy ThreadRow.lastActivityMs ((s.listThreads none (some data.chatId) (some data.principal)
    (some .open) (some 100)).filter fun t => t.conversationState = .active)).map ThreadRow.threadId

def viewFor (reg : ThreadRegistry) (s : Store) (data : JoinInput) (nowMs : Int) : JoinView :=
  { replyThreadId := replyThread s data
    replyTurnId := replyTurn s data
    replyThreadState := replyThreadState s data
    replyReopenable := reg.replyReopenable s data nowMs
    correctionTargets := correctionTargets s data
    activeThreadsForPrincipal := reg.activeThreads s data nowMs
    lastActiveDmThread := lastDmThread s data
    continuum := reg.continuum s data nowMs
    semanticTarget := semanticTarget s data }

def decision (reg : ThreadRegistry) (s : Store) (c : AssignCall) : JoinDecision :=
  decideJoin c.data (reg.viewFor s c.data c.nowMs)

def observed (decision : JoinDecision) (data : JoinInput) (view : JoinView) : JoinDecision :=
  { decision with
    candidatesChecked := view.activeThreadsForPrincipal.length
    candidatesEligible := if view.continuityPositive then 1 else 0
    topicBreak := if data.topicBreak then "True" else "False"
    continuityKind := view.continuum.elim .none ContinuitySignal.kind
    continuityVerdict := view.continuum.elim .unknown ContinuitySignal.verdict
    continuityEvidence := view.continuum.elim [] ContinuitySignal.evidenceIds }

def proposal (reg : ThreadRegistry) (s : Store) (c : AssignCall) : JoinDecision :=
  let d := observed (reg.decision s c) c.data (reg.viewFor s c.data c.nowMs)
  if c.event.kind = .reaction then
    { d with
      observesOnly := true
      turnId := none
      newTurn := false
      reason := if d.reason = "" then "reaction_signal" else d.reason }
  else d

def ambientAllowed (reg : ThreadRegistry) (data : JoinInput) : Bool :=
  reg.ambientChats.contains (data.channel ++ ":" ++ data.chatId)

/-- `_thread_needs_reopen`: a sleeping thread may reopen inside the window while its sources
still exist. -/
def threadNeedsReopen (reg : ThreadRegistry) (s : Store) (threadId : String) (nowMs : Int) : Bool :=
  (s.thread? threadId).any fun t =>
    if t.state = .open then false
    else if reg.policy.reopenWindowMs < nowMs - t.lastActivityMs then false
    else s.threadSourcesAvailable threadId

def wake (reg : ThreadRegistry) (threadId : String) (newTurn : Bool) (nowMs : Int) : StoreM Unit := do
  if ← reactivate threadId nowMs then return ()
  else
    let s ← Txn.read
    if newTurn && reg.threadNeedsReopen s threadId nowMs then
      let _ ← reopenThread threadId nowMs
    else touchThread threadId nowMs

def threadFor (reg : ThreadRegistry) (c : AssignCall) (d : JoinDecision) : StoreM (String × Bool) :=
  match d.threadId with
  | none => do
    let threadId ← openThread c.event.channel c.event.chatId c.event.principal
      (if c.data.isGroup then "group" else "dm") c.event.eventId c.nowMs
    return (threadId, true)
  | some threadId => do
    reg.wake threadId d.newTurn c.nowMs
    return (threadId, false)

def turnFor (c : AssignCall) (d : JoinDecision) (threadId : String) : StoreM (Option String) :=
  match d.turnId with
  | some turnId => return some turnId
  | none =>
    if c.allowTurn then do
      let turnId ← openTurn threadId c.event.principal c.event.eventId c.nowMs .open
      return some turnId
    else return none

def joinTurn (c : AssignCall) (role : String) (turnId : Option String) : StoreM Unit :=
  match turnId with
  | some turnId => addTurnSource turnId c.event.eventId c.event.sourceMessageId role 1 c.nowMs
  | none => return ()

def liveSources (s : Store) (turnId : Option String) : List String :=
  (turnId.elim [] s.turnSourcesOf).filterMap fun r =>
    if r.removedMs = none then nonempty r.sourceMessageId else none

def persist (reg : ThreadRegistry) (c : AssignCall) (d : JoinDecision) : StoreM JoinDecision := do
  let thread ← reg.threadFor c d
  let turnId ← turnFor c d thread.1
  joinTurn c (if d.newTurn || thread.2 then "trigger" else "context") turnId
  attachEventAssignment c.event.eventId (some thread.1) turnId
  let s ← Txn.read
  return { d with
    threadId := some thread.1
    turnId := if d.observesOnly then none else turnId
    newThread := thread.2
    sourceMessageIds := liveSources s turnId }

def closeActiveTurn (threadId : String) (nowMs : Int) : StoreM Unit := do
  let s ← Txn.read
  match s.activeTurn threadId with
  | some turn => do
    let _ ← closeTurn turn.turnId nowMs TurnState.closed.name
  | none => return ()

def closePreviousAmbientThreads (data : JoinInput) (keep : String) (nowMs : Int) : StoreM Unit := do
  let s ← Txn.read
  Txn.each (openThreads s data) fun thread =>
    if thread.threadId = keep ∨ thread.kind ≠ "ambient" then return ()
    else do
      closeActiveTurn thread.threadId nowMs
      touchThread thread.threadId nowMs

def persistAmbient (c : AssignCall) (d : JoinDecision) : StoreM JoinDecision := do
  let threadId ← openThread c.event.channel c.event.chatId c.event.principal "ambient" c.event.eventId c.nowMs
  let turnId ← openTurn threadId c.event.principal c.event.eventId c.nowMs .open
  addTurnSource turnId c.event.eventId c.event.sourceMessageId "trigger" 1 c.nowMs
  attachEventAssignment c.event.eventId (some threadId) (some turnId)
  closePreviousAmbientThreads c.data threadId c.nowMs
  return { d with
    threadId := some threadId
    turnId := some turnId
    newThread := true
    newTurn := true
    reason := "ambient_answer_with_own_lineage"
    sourceMessageIds := [(nonempty c.event.sourceMessageId).getD c.event.eventId] }

def noteTopic (data : JoinInput) (threadId : Option String) (nowMs : Int) : StoreM Unit :=
  match nonempty threadId with
  | some threadId =>
    if data.kind = .message ∧ stripText data.text ≠ "" then
      noteThreadTopic threadId ((nonempty data.sourceMessageId).getD data.eventId) data.text nowMs
    else return ()
  | none => return ()

def storedAnswer (s : Store) (c : AssignCall) : Option (String × Option String) :=
  match s.eventAssignment c.event.eventId with
  | some (some threadId, turnId) =>
    if turnId.isSome || !c.allowTurn then some (threadId, turnId) else none
  | _ => none

def settle (reg : ThreadRegistry) (c : AssignCall) (d : JoinDecision) : StoreM JoinDecision := do
  if d.threadId = none ∧ d.rule = .ambient then
    if c.allowTurn && reg.ambientAllowed c.data then persistAmbient c d
    else
      -- ambient is background: neither a thread nor a turn
      if d.needsClarification then attachEventAssignment c.event.eventId none none
      return d
  else if d.needsClarification then
    attachEventAssignment c.event.eventId none none
    return d
  else
    let persisted ← reg.persist c d
    noteTopic c.data persisted.threadId c.nowMs
    return persisted

def forgetRevised (data : JoinInput) (nowMs : Int) : StoreM Unit :=
  if data.kind.revises then forgetTopicSource (data.targetMessageId.getD "") nowMs else return ()

def assign (reg : ThreadRegistry) (c : AssignCall) : StoreM JoinDecision := do
  forgetRevised c.data c.nowMs
  let s ← Txn.read
  match storedAnswer s c with
  | some (threadId, turnId) =>
    return { reg.decision s c with
      threadId := some threadId, turnId := turnId, newThread := false, newTurn := false }
  | none => reg.settle c (reg.proposal s c)

end ThreadRegistry

end Yeoman.Processing
