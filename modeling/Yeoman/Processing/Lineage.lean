import Yeoman.Processing.Journal

/-! What ties events to threads: the sources of a turn, the messages that can be quoted,
the topic cards, and the reads that find a thread again from a message. -/
namespace Yeoman.Processing
open Library Table Txn

def foreignKeyError : Error := ⟨.integrityError,"FOREIGN KEY constraint failed"⟩

def addTurnSource (turnId eventId : String) (sourceMessageId : Option String) (role : String)
    (revisionAtJoin nowMs : Int) : StoreM Unit :=
  atomically do
    let s ← Txn.read
    if (lookup TurnSourceRow.key (turnId, eventId) s.turnSources).isSome then return ()
    else
      require ((s.turn? turnId).isSome) foreignKeyError
      let row : TurnSourceRow :=
        { turnId := turnId, eventId := eventId, sourceMessageId := sourceMessageId, role := role,
          revisionAtJoin := revisionAtJoin, addedMs := nowMs, removedMs := none }
      Txn.modify fun s => { s with turnSources := s.turnSources ++ [row] }

def markTurnSourceRemoved (turnId eventId : String) (nowMs : Int) : StoreM Bool :=
  atomically do
    let s ← Txn.read
    let unmarked (r : TurnSourceRow) : Bool :=
      r.turnId = turnId && r.eventId = eventId && r.removedMs = none
    Txn.modify fun s => { s with
      turnSources := updateWhere unmarked (fun r => { r with removedMs := some nowMs }) s.turnSources }
    return rowCount unmarked s.turnSources = 1

def registerThreadMessage (threadId : String) (nowMs : Int) (direction : Direction)
    (turnId eventId effectId messageId : Option String) : StoreM Unit :=
  atomically do
    let s ← Txn.read
    if s.threadMessages.any fun m => effectId.isSome && m.effectId = effectId then return ()
    else
      require (¬ s.threadMessages.any fun m => messageId.isSome && m.messageId = messageId)
        ⟨.integrityError,"UNIQUE constraint failed: thread_messages.message_id"⟩
      let row : ThreadMessageRow :=
        { messageId := messageId, threadId := threadId, turnId := turnId, direction := direction,
          eventId := eventId, effectId := effectId,
          confirmedMs := (nonempty messageId).map fun _ => nowMs, createdMs := nowMs }
      Txn.modify fun s => { s with threadMessages := s.threadMessages ++ [row] }

def attachConfirmedMessageId (effectId providerMessageId : String) (nowMs : Int) : StoreM Bool := do
  require (providerMessageId ≠ "") (valueError "provider_message_id is required")
  atomically do
    let s ← Txn.read
    let planned (m : ThreadMessageRow) : Bool := m.effectId = some effectId && m.messageId = none
    let count := rowCount planned s.threadMessages
    require (count = 0 ∨ ¬ s.threadMessages.any fun m => m.messageId = some providerMessageId)
      ⟨.integrityError,"UNIQUE constraint failed: thread_messages.message_id"⟩
    Txn.modify fun s => { s with
      threadMessages := updateWhere planned
        (fun m => { m with messageId := some providerMessageId, confirmedMs := some nowMs }) s.threadMessages }
    return count = 1

def words (text : String) : List String :=
  ((text.toList.splitOnP Json.isSpace).filter (· ≠ [])).map String.ofList

def noteThreadTopic (threadId sourceId text : String) (nowMs : Int) : StoreM Unit :=
  let excerpt := firstChars 240 (" ".intercalate (words text))
  if threadId = "" ∨ excerpt = "" then return ()
  else atomically <| Txn.modify fun s => { s with
    topics := match lookup TopicRow.threadId threadId s.topics with
      | none => s.topics ++
          [{ threadId := threadId, openerSourceId := some sourceId, opener := some excerpt,
             latestSourceId := some sourceId, latest := some excerpt, updatedMs := nowMs }]
      | some _ => updateWhere (fun t => t.threadId = threadId) (fun t =>
          { t with
            latestSourceId := some sourceId
            latest := some excerpt
            updatedMs := nowMs
            -- the opener and its source id move together
            openerSourceId := if t.opener = none then some sourceId else t.openerSourceId
            opener := t.opener.or (some excerpt) }) s.topics }

def forgetTopicSource (sourceId : String) (nowMs : Int) : StoreM Unit :=
  if sourceId = "" then return ()
  else atomically do
    Txn.modify fun s => { s with
      topics := updateWhere (fun t => t.openerSourceId = some sourceId)
        (fun t => { t with opener := none, openerSourceId := none, updatedMs := nowMs }) s.topics }
    Txn.modify fun s => { s with
      topics := updateWhere (fun t => t.latestSourceId = some sourceId)
        (fun t => { t with latest := none, latestSourceId := none, updatedMs := nowMs }) s.topics }

namespace Store

def turnSourcesOf (s : Store) (turnId : String) : List TurnSourceRow :=
  orderBy TurnSourceRow.addedMs TurnSourceRow.eventId
    (s.turnSources.filter fun r => r.turnId = turnId)

def threadSources (s : Store) (threadId : String) : List TurnSourceRow :=
  s.turnSources.filter fun r => s.turns.any fun t => t.turnId = r.turnId && t.threadId = threadId

/-- The thread has sources, and no event of a source lost its payload. The join leaves out
a source whose event is gone. -/
def threadSourcesAvailable (s : Store) (threadId : String) : Bool :=
  !(s.threadSources threadId).isEmpty &&
  !((s.threadSources threadId).any fun r =>
    s.events.any fun e => e.eventId = r.eventId && e.payloadJson = none)

def activeTurn (s : Store) (threadId : String) : Option TurnRow :=
  (orderBy (fun t => -t.openedMs) TurnRow.turnId
    (s.turns.filter fun t => t.threadId = threadId && turnLive t)).head?

def listThreads (s : Store) (channel chatId principal : Option String) (state : Option ThreadState)
    (limit : Option Nat) : List ThreadRow :=
  let rows := orderBy (fun t => -t.lastActivityMs) ThreadRow.threadId (s.threads.filter fun t =>
    channel.all (t.channel = ·) && chatId.all (t.chatId = ·) && principal.all (t.rootPrincipal = ·) &&
      state.all (t.state = ·))
  match limit with
  | some n => rows.take (max 1 n)
  | none => rows

/-- `event_assignment`: the thread and turn of an event, by its id or else by the newest
assigned event with that provider id. -/
def eventAssignment (s : Store) (eventId : String) : Option (Option String × Option String) :=
  let row := lookup EventRow.eventId eventId s.events
  let assigned := (orderBy EventRow.createdMs EventRow.eventId (s.events.filter fun e =>
    e.sourceMessageId = some eventId && (e.threadId.isSome || e.turnId.isSome))).getLast?
  let found := match row with
    | some e => if e.threadId = none ∧ e.turnId = none then assigned.orElse fun _ => row else row
    | none => assigned
  found.map fun e => (e.threadId, e.turnId)

/-- Resolve a reply or correction reference to a thread and turn: a confirmed message, else
the oldest assigned event with that provider id, else a turn. The chat is not compared. -/
def resolveReference (s : Store) (reference : Option String) : Option (String × Option String) :=
  (nonempty reference).bind fun ref =>
    let confirmed := (s.threadMessages.find? fun m =>
      m.messageId = some ref && m.confirmedMs.isSome).map fun m => (m.threadId, nonempty m.turnId)
    let journaled := (minBy EventRow.createdMs (s.events.filter fun e =>
      e.sourceMessageId = some ref && e.threadId.isSome)).bind fun e =>
        e.threadId.map fun threadId => (threadId, nonempty e.turnId)
    let turn := (s.turn? ref).map fun t => (t.threadId, some t.turnId)
    confirmed.or (journaled.or turn)

end Store

structure PreviousMessage where
  messageId : String
  fromBot : Bool
  (principals threadIds : List String)
  atMs : Option Int

namespace Store

def eventTime (e : EventRow) : Int := e.occurredMs.getD e.createdMs

/-- The newest inbound message of the chat. Of equal times the index gives the row inserted
last. -/
def previousInbound (s : Store) (channel chatId : String) (beforeMs : Int)
    (excludeEventId excludeSourceId : String) : Option EventRow :=
  maxBy eventTime (s.events.filter fun e => e.channel = channel && e.chatId = chatId &&
    eventTime e ≤ beforeMs && e.direction = .inbound && e.kind = .message && e.eventId ≠ excludeEventId &&
    e.sourceMessageId.getD "" ≠ excludeSourceId).reverse

def previousOutbound (s : Store) (channel chatId : String) (beforeMs : Int) :
    Option (ThreadMessageRow × Int) :=
  maxBy Prod.snd (s.threadMessages.filterMap fun m => m.confirmedMs.bind fun confirmedMs =>
    if (s.threads.any fun t => t.threadId = m.threadId && t.channel = channel && t.chatId = chatId) &&
      m.direction = .outbound && confirmedMs ≤ beforeMs then some (m, confirmedMs) else none)

def inboundMessage (s : Store) (e : EventRow) : PreviousMessage :=
  let source := nonempty e.sourceMessageId
  let rows := s.events.filter fun r => match source with
    | some id => r.sourceMessageId = some id
    | none => r.eventId = e.eventId
  { messageId := source.getD e.eventId
    fromBot := false
    principals := (rows.map EventRow.principal).filter (· ≠ "")
    threadIds := rows.filterMap fun r => nonempty r.threadId
    atMs := some (eventTime e) }

def previousChatMessage (s : Store) (channel chatId : String) (beforeMs : Int)
    (excludeEventId excludeSourceId : String) : Option PreviousMessage :=
  let human := s.previousInbound channel chatId beforeMs excludeEventId excludeSourceId
  match s.previousOutbound channel chatId beforeMs with
  | some (bot, confirmedMs) =>
    if human.all fun e => eventTime e ≤ confirmedMs then
      some { messageId := bot.messageId.getD "None", fromBot := true, principals := [],
             threadIds := [bot.threadId], atMs := some confirmedMs }
    else human.map s.inboundMessage
  | none => human.map s.inboundMessage

end Store

end Yeoman.Processing
