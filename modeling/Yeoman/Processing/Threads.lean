import Yeoman.Processing.Claims

/-! Threads, turns, generations and the postbox of a thread. -/
namespace Yeoman.Processing
open Library Table Txn

namespace Store

def thread? (s : Store) (threadId : String) : Option ThreadRow :=
  lookup ThreadRow.threadId threadId s.threads

def turn? (s : Store) (turnId : String) : Option TurnRow :=
  lookup TurnRow.turnId turnId s.turns

end Store

def turnStateError (message : String) : Error := ⟨.turnStateError,message⟩

def firstChars (n : Nat) (s : String) : String := String.ofList (s.toList.take n)

def updateThreads (p : ThreadRow → Bool) (f : ThreadRow → ThreadRow) : StoreM Nat := do
  let s ← Txn.read
  Txn.modify fun s => { s with threads := updateWhere p f s.threads }
  return rowCount p s.threads

def updateTurns (p : TurnRow → Bool) (f : TurnRow → TurnRow) : StoreM Nat := do
  let s ← Txn.read
  Txn.modify fun s => { s with turns := updateWhere p f s.turns }
  return rowCount p s.turns

def updatePending (p : PendingRow → Bool) (f : PendingRow → PendingRow) : StoreM Unit :=
  Txn.modify fun s => { s with pending := updateWhere p f s.pending }

def updateGenerations (p : GenerationRow → Bool) (f : GenerationRow → GenerationRow) :
    StoreM Nat := do
  let s ← Txn.read
  Txn.modify fun s => { s with generations := updateWhere p f s.generations }
  return rowCount p s.generations

def threadIdFor (channel chatId triggerEventId : String) : String :=
  "th_" ++ firstChars 16 (canonicalHash (.arr [.str channel, .str chatId, .str triggerEventId]))

def openThread (channel chatId rootPrincipal kind triggerEventId : String) (nowMs : Int) :
    StoreM String :=
  let threadId := threadIdFor channel chatId triggerEventId
  atomically do
    let s ← Txn.read
    match s.thread? threadId with
    | none =>
      Txn.modify fun s => { s with threads := s.threads ++
        [{ threadId := threadId, channel := channel, chatId := chatId,
           rootPrincipal := rootPrincipal, kind := kind, state := .open, openedMs := nowMs,
           lastActivityMs := nowMs, closedMs := none, closeReason := none, reopenCount := 0,
           turnSeq := 0, conversationState := .active, dormantMs := none, dormantReason := none }] }
      return threadId
    | some _ =>
      let _ ← updateThreads (fun t => t.threadId = threadId) fun t =>
        { t with
          state := .open
          lastActivityMs := nowMs
          closedMs := none
          closeReason := none
          reopenCount := if t.state = .closed then t.reopenCount + 1 else t.reopenCount }
      return threadId

def touchThread (threadId : String) (nowMs : Int) : StoreM Unit :=
  atomically do
    let _ ← updateThreads (fun t => t.threadId = threadId) fun t => { t with lastActivityMs := nowMs }

def reopenThread (threadId : String) (nowMs : Int) : StoreM Bool :=
  atomically do
    let count ← updateThreads (fun t => t.threadId = threadId && t.state ≠ .open) fun t =>
      { t with
        state := .open
        closedMs := none
        closeReason := none
        reopenCount := t.reopenCount + 1
        lastActivityMs := nowMs }
    return count = 1

def onThread (s : Store) (threadId : String) (e : EffectRow) : Bool :=
  s.turns.any fun t => t.turnId = e.turnId && t.threadId = threadId

def threadBusy (s : Store) (threadId : String) : Bool :=
  (s.generations.any fun g => g.threadId = threadId && g.finishedMs = none) ||
  (s.pending.any fun p => p.threadId = threadId && (p.state = .waiting || p.state = .deferred)) ||
  (s.effects.any fun e => onThread s threadId e &&
    (e.state = .planned || e.state = .queued || e.state = .executing || e.state = .unknown))

def markDormant (threadIds : List String) (nowMs : Int) (reason : String) : StoreM (List String) :=
  atomically <| select threadIds.eraseDups fun threadId => do
    let s ← Txn.read
    if threadBusy s threadId then return false
    else
      let count ← updateThreads
        (fun t => t.threadId = threadId && t.state = .open && t.conversationState = .active) fun t =>
        { t with conversationState := .dormant, dormantMs := some nowMs, dormantReason := some reason }
      return count ≠ 0

/-- Reactivate only dormant open conversations. -/
def reactivate (threadId : String) (nowMs : Int) : StoreM Bool :=
  atomically do
    let count ← updateThreads
      (fun t => t.threadId = threadId && t.state = .open && t.conversationState = .dormant) fun t =>
      { t with
        conversationState := .active
        dormantMs := none
        dormantReason := none
        lastActivityMs := nowMs }
    return count = 1

def turnLive (t : TurnRow) : Bool := t.state = .open || t.state = .awaiting

def closeTurnRow (state : TurnState) (nowMs : Int) (t : TurnRow) : TurnRow :=
  { t with state := state, closedMs := some nowMs, updatedMs := nowMs }

/-- Close turns that went quiet long ago. The source caches the busy test of a
thread; nothing the loop writes changes it. -/
def settleIdleTurns (nowMs idleMs : Int) (skipThreads : List String) (limit : Nat) :
    StoreM (List String) :=
  atomically do
    let s ← Txn.read
    let rows := (orderBy TurnRow.updatedMs TurnRow.turnId
      (s.turns.filter fun t => turnLive t && t.updatedMs ≤ nowMs - idleMs)).take limit
    let closed ← select rows fun row => do
      let s ← Txn.read
      if row.threadId ∈ skipThreads then return false
      else if threadBusy s row.threadId then return false
      else
        let count ← updateTurns
          (fun t => t.turnId = row.turnId && turnLive t && t.updatedMs ≤ nowMs - idleMs)
          (closeTurnRow .closed nowMs)
        return count ≠ 0
    return closed.map TurnRow.turnId

def idleThread (s : Store) (cutoff : Int) (t : ThreadRow) : Bool :=
  t.state = .open && t.lastActivityMs ≤ cutoff &&
  !(s.turns.any fun u => u.threadId = t.threadId && turnLive u && cutoff < u.updatedMs) &&
  !(s.effects.any fun e => onThread s t.threadId e && (e.state = .queued || e.state = .executing))

def closeIdleThreads (nowMs idleMs : Int) : StoreM (List String) :=
  atomically do
    let s ← Txn.read
    let threadIds := (s.threads.filter (idleThread s (nowMs - idleMs))).map ThreadRow.threadId
    each threadIds fun threadId => do
      let _ ← updateThreads (fun t => t.threadId = threadId && t.state = .open) fun t =>
        { t with state := .closed, closedMs := some nowMs, closeReason := some "idle" }
      let _ ← updateTurns (fun t => t.threadId = threadId && turnLive t) fun t =>
        { t with state := .closed, closedMs := some nowMs }
    return threadIds

def cancelRow (nowMs : Int) (r : EffectRow) : EffectRow :=
  { r with state := .cancelled, updatedMs := nowMs }

def unstarted (r : EffectRow) : Bool := r.state = .planned || r.state = .queued

def cancelOne (nowMs : Int) (effectId : String) : StoreM Unit := do
  let _ ← updateEffects (fun r => r.effectId = effectId && unstarted r) (cancelRow nowMs)
  appendEvidence effectId "superseded" .cancelled (some "manual_new") nowMs none

def closeThreadWork (nowMs : Int) (threadId : String) : StoreM Unit := do
  let s ← Txn.read
  each ((s.effects.filter fun e => onThread s threadId e && unstarted e).map EffectRow.effectId)
    (cancelOne nowMs)
  updatePending (fun p => p.threadId = threadId && (p.state = .waiting || p.state = .deferred))
    fun p => { p with state := .cancelled, consumedMs := some nowMs }
  let _ ← updateGenerations (fun g => g.threadId = threadId && g.finishedMs = none) fun g =>
    { g with finishedMs := some nowMs, outcome := some "cancelled", detail := some "manual_new" }
  let _ ← updateTurns (fun t => t.threadId = threadId && turnLive t) (closeTurnRow .superseded nowMs)
  let _ ← updateThreads (fun t => t.threadId = threadId) fun t =>
    { t with state := .closed, closedMs := some nowMs, closeReason := some "manual_new" }

def closeChatThreads (channel chatId : String) (nowMs : Int) : StoreM (List String) :=
  atomically do
    let s ← Txn.read
    let threadIds := (orderBy ThreadRow.lastActivityMs ThreadRow.threadId
      (s.threads.filter fun t => t.channel = channel && t.chatId = chatId &&
        (t.state = .open || t.state = .idle))).map ThreadRow.threadId
    each threadIds (closeThreadWork nowMs)
    return threadIds

def turnIdFor (threadId triggerEventId : String) (turnSeq : Nat) : String :=
  "tu_" ++ firstChars 16 (canonicalHash (.arr [.str threadId, .str triggerEventId, .int turnSeq]))

def openTurn (threadId principal triggerEventId : String) (nowMs : Int) (state : TurnState) :
    StoreM String :=
  atomically do
    let _ ← updateThreads (fun t => t.threadId = threadId) fun t =>
      { t with turnSeq := t.turnSeq + 1, lastActivityMs := nowMs }
    let s ← Txn.read
    match s.thread? threadId with
    | none => raise (processingError ("unknown thread: " ++ threadId))
    | some thread =>
      let turnId := turnIdFor threadId triggerEventId thread.turnSeq
      let row : TurnRow :=
        { turnId := turnId, threadId := threadId, principal := principal, revision := 1,
          contextVersion := 1, state := state, openedMs := nowMs, updatedMs := nowMs,
          closedMs := none, lastGenerationId := none }
      Txn.modify fun s => { s with turns := insertIgnore TurnRow.turnId row s.turns }
      return turnId

def closeTurn (turnId : String) (nowMs : Int) (state : String) : StoreM Bool := do
  let state ← liftExcept ((TurnState.ofName? state).elim
    (.error (turnStateError ("unknown turn state: " ++ state))) .ok)
  atomically do
    let count ← updateTurns (fun t => t.turnId = turnId) (closeTurnRow state nowMs)
    return count = 1

structure TurnRef where
  (turnId threadId chatId channel principal : String)
  (revision openedMs : Int)
  closedMs : Option Int
  revision_pos : 1 ≤ revision

def TurnRow.toRef (t : TurnRow) (channel chatId : String) : Except Error TurnRef :=
  if h : 1 ≤ t.revision then
    .ok { turnId := t.turnId, threadId := t.threadId, chatId := chatId, channel := channel,
          principal := t.principal, revision := t.revision, openedMs := t.openedMs,
          closedMs := t.closedMs, revision_pos := h }
  else .error (valueError "turn revision must be a positive integer")

def Store.turnJoin? (s : Store) (turnId : String) : Option (TurnRow × ThreadRow) :=
  (s.turn? turnId).bind fun t => (s.thread? t.threadId).map fun th => (t, th)

def bumpRow (nowMs : Int) (t : TurnRow) : TurnRow :=
  { t with revision := t.revision + 1, contextVersion := t.contextVersion + 1, updatedMs := nowMs }

def bumpTurnRevision (turnId : String) (expectedRevision nowMs : Int) : StoreM TurnRef := do
  let (after, thread) ← atomically do
    let s ← Txn.read
    match s.turnJoin? turnId with
    | none => raise (turnStateError ("unknown turn: " ++ turnId))
    | some (current, thread) =>
      require (turnLive current)
        (turnStateError ("turn " ++ turnId ++ " is " ++ current.state.name ++ " and cannot be revised"))
      require (current.revision = expectedRevision)
        (turnStateError ("turn " ++ turnId ++ " is at revision " ++ toString current.revision ++
          ", expected " ++ toString expectedRevision))
      let _ ← updateTurns (fun t => t.turnId = turnId && t.revision = expectedRevision) (bumpRow nowMs)
      let s ← Txn.read
      return (((s.turn? turnId).getD current), thread)
  liftExcept (after.toRef thread.channel thread.chatId)

def bumpContextVersion (turnId : String) (nowMs : Int) : StoreM Int := do
  let _ ← atomically (updateTurns (fun t => t.turnId = turnId) fun t =>
    { t with contextVersion := t.contextVersion + 1, updatedMs := nowMs })
  let s ← Txn.read
  match s.turn? turnId with
  | none => raise (turnStateError ("unknown turn: " ++ turnId))
  | some turn => return turn.contextVersion

def turnLookup (s : Store) (turnId : String) : Except Error (Option TurnRef) :=
  match s.turnJoin? turnId with
  | none => .ok none
  | some (turn, thread) => (turn.toRef thread.channel thread.chatId).map some

def enqueuePendingInput (row : PendingRow) (cap : Option Int) : StoreM (Option PendingState) :=
  atomically do
    let s ← Txn.read
    let waiting : Int := s.pending.countP fun p => p.threadId = row.threadId && p.state = .waiting
    let state : PendingState := match cap with
      | some cap => if cap ≤ waiting then .deferred else .waiting
      | none => .waiting
    if (lookup PendingRow.eventId row.eventId s.pending).isSome then return none
    else
      require (lookup PendingRow.inputId row.inputId s.pending = none)
        ⟨.integrityError,"UNIQUE constraint failed: pending_inputs.input_id"⟩
      Txn.modify fun s => { s with pending := s.pending ++
        [{ row with state := state, consumedMs := none }] }
      return some state

def drainPendingInputs (threadId : String) (nowMs : Int) (limit : Option Nat) :
    StoreM (List PendingRow) :=
  atomically do
    let s ← Txn.read
    let waiting := orderBy PendingRow.enqueuedMs PendingRow.inputId
      (s.pending.filter fun p => p.threadId = threadId && p.state = .waiting)
    let rows := match limit with
      | some n => waiting.take (max 1 n)
      | none => waiting
    each rows fun row => updatePending (fun p => p.inputId = row.inputId) fun p =>
      { p with state := .consumed, consumedMs := some nowMs }
    return rows

def promoteDeferred (threadId : String) (nowMs capacity : Int) : StoreM (List String) :=
  atomically do
    let s ← Txn.read
    let used : Int := s.pending.countP fun p => p.threadId = threadId && p.state = .waiting
    let rows := (orderBy PendingRow.enqueuedMs PendingRow.inputId
      (s.pending.filter fun p => p.threadId = threadId && p.state = .deferred)).take
        (capacity - used).toNat
    each rows fun row => updatePending (fun p => p.inputId = row.inputId) fun p =>
      { p with state := .waiting, enqueuedMs := nowMs }
    return rows.map PendingRow.eventId

/-- One source revision a generation saw. -/
structure SourceRef where
  eventId : String
  sourceMessageId : Option String
  role : String
  revisionAtJoin : Int
deriving DecidableEq

def recordGeneration (row : GenerationRow) (sources : List SourceRef) : StoreM String :=
  atomically do
    let fresh : GenerationRow := { row with finishedMs := none, outcome := none, detail := none }
    Txn.modify fun s => { s with
      generations := insertIgnore GenerationRow.generationId fresh s.generations }
    each sources fun source =>
      let joined : GenerationSourceRow :=
        { generationId := row.generationId, eventId := source.eventId,
          sourceMessageId := source.sourceMessageId, role := source.role,
          revisionAtJoin := source.revisionAtJoin }
      Txn.modify fun s => { s with
        generationSources := insertIgnore (fun g => (g.generationId, g.eventId)) joined
          s.generationSources }
    let _ ← updateTurns (fun t => t.turnId = row.turnId) fun t =>
      { t with lastGenerationId := some row.generationId, updatedMs := row.createdMs }
    return row.generationId

def finishGeneration (generationId : String) (nowMs : Int) (outcome : String)
    (detail : Option String) : StoreM Bool :=
  atomically do
    let count ← updateGenerations (fun g => g.generationId = generationId) fun g =>
      { g with finishedMs := some nowMs, outcome := some outcome, detail := detail }
    return count = 1

end Yeoman.Processing
