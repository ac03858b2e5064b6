import Mathlib.Data.List.ReduceOption
import Yeoman.Processing.Threads

/-! The event journal: coercion of incoming events, idempotent append, relation
edges and the source authority projection. -/
namespace Yeoman.Processing
open Library Table Txn

def journalConflict (message : String) : Error := ⟨.journalConflictError,message⟩

def typeError (message : String) : Error := ⟨.typeError,message⟩

/-- One canonical journal event. Kind, direction and revision are checked when it
is built. -/
structure CanonicalEvent where
  (eventId eventKey traceId : String)
  kind : EventKind
  (origin principal channel chatId account : String)
  direction : Direction
  revision : Int
  audienceRef : Option String
  occurredMs : Option Int
  createdMs : Int
  (sourceMessageId targetMessageId threadId turnId : Option String)
  payload : Dict
  payloadHash : String
  revision_pos : 1 ≤ revision

def volatileEventPayloadKeys : List String :=
  ["observedAt", "observed_at_ms", "ingestedAt", "ingested_at_ms", "ingestionAt", "ingestion_at_ms",
    "receivedAt", "received_at_ms", "committedAt", "committed_at_ms", "commit_ms", "confirmed_ms"]

def timingEventPayloadKeys : List String :=
  volatileEventPayloadKeys ++ ["occurred_ms", "occurredAt", "timestamp", "ts"]

/-- A group update that carries its own time. A `kind` that is a list or a mapping
cannot be looked up in a set. -/
def timedGroupUpdate (kvs : Json.Members) : Except Error Bool :=
  match Json.get "kind" kvs with
  | .arr _ => .error (typeError "unhashable type: 'list'")
  | .obj _ => .error (typeError "unhashable type: 'dict'")
  | kind => .ok ((kind.eq (.str "group_subject") || kind.eq (.str "group_description")) &&
      (match Json.get "snapshot" kvs with
        | .bool false => true
        | _ => false) && Json.has "occurredMs" kvs)

mutual

def canonicalEventValue : Json → Except Error Json
  | .arr xs => (canonicalEventItems xs).map .arr
  | .obj kvs => do
    let timed ← timedGroupUpdate kvs
    let members ← canonicalEventMembers timed kvs
    return .obj (members.insertionSort Json.keyLe)
  | v => .ok v

def canonicalEventItems : List Json → Except Error (List Json)
  | [] => .ok []
  | x :: xs => do
    let y ← canonicalEventValue x
    let ys ← canonicalEventItems xs
    return y :: ys

def canonicalEventMembers (timed : Bool) : List (String × Json) → Except Error (List (String × Json))
  | [] => .ok []
  | (key, v) :: kvs =>
    if key ∈ volatileEventPayloadKeys ∨ (timed ∧ key = "observedAtMs") then
      canonicalEventMembers timed kvs
    else do
      let w ← canonicalEventValue v
      let rest ← canonicalEventMembers timed kvs
      return (key, w) :: rest

end

def eventPayloadHash (payload : Json) : Except Error String :=
  (canonicalEventValue payload).map canonicalHash

def strippedMembers : Json.Members → Except Error Json.Members
  | [] => .ok []
  | (key, v) :: kvs =>
    if key ∈ timingEventPayloadKeys then strippedMembers kvs
    else do
      let w ← canonicalEventValue v
      let rest ← strippedMembers kvs
      return (key, w) :: rest

def differsOnlyInTiming (stored incoming : Json) : Except Error Bool :=
  match stored, incoming with
  | .obj old, .obj new => do
    let a ← strippedMembers old
    let b ← strippedMembers new
    return (Json.obj a).eq (.obj b)
  | _, _ => .ok false

def revisionError : Error := valueError "revision must be a positive integer"

theorem revision_one : (1 : Int) ≤ 1 := le_refl 1

def normalizeRevision : Json → Except Error {r : Int // 1 ≤ r}
  | .null => .ok ⟨1,revision_one⟩
  | .int i => if h : 1 ≤ i then .ok ⟨i,h⟩ else .error revisionError
  | .str s =>
    if Json.strip s.toList = [] then .error revisionError
    else match Json.parseInt s with
      | some i => if h : 1 ≤ i then .ok ⟨i,h⟩ else .error revisionError
      | none => .error revisionError
  | _ => .error revisionError

/-- The payload argument of `append_event`. -/
inductive EventArg where
  | canonical (event : CanonicalEvent)
  | mapping (data : Dict)

structure AppendArgs where
  (eventKey eventId traceId : String)
  payload : EventArg
  nowMs : Int
  account : Option String := none
  direction : Option String := none
  revision : Option Int := none
  audienceRef : Option String := none

def eventKindOf (name : String) : Except Error EventKind :=
  (EventKind.ofName? name).elim (.error (valueError ("unknown canonical event kind: " ++ name))) .ok

def directionOf (name : String) : Except Error Direction :=
  (Direction.ofName? name).elim
    (.error (valueError ("unknown canonical event direction: " ++ name))) .ok

def coerceCanonical (a : AppendArgs) (e : CanonicalEvent) : Except Error CanonicalEvent := do
  let revision ← normalizeRevision (.int (a.revision.getD e.revision))
  let payloadHash ← eventPayloadHash e.payload.toJson
  let direction ← match a.direction with
    | some name => directionOf name
    | none => .ok e.direction
  return { e with
    eventId := a.eventId
    eventKey := a.eventKey
    traceId := a.traceId
    account := a.account.getD e.account
    direction := direction
    revision := revision.1
    audienceRef := a.audienceRef.or e.audienceRef
    createdMs := a.nowMs
    payloadHash := payloadHash
    revision_pos := revision.2 }

def coerceMapping (a : AppendArgs) (data : Dict) : Except Error CanonicalEvent := do
  let normalized ← normalizeRevision (data.get "revision")
  let body := if data.has "revision" then data.setInt "revision" normalized.1 else data
  let revision ← normalizeRevision ((a.revision.map Json.int).getD (body.get "revision"))
  let payloadHash ← eventPayloadHash body.toJson
  let kind ← eventKindOf ((body.get "kind").orElse (.str "message")).toStr
  let direction ← directionOf (a.direction.getD ((body.get "direction").orElse (.str "in")).toStr)
  return {
    eventId := a.eventId
    eventKey := a.eventKey
    traceId := a.traceId
    kind := kind
    origin := ((body.get "origin").orElse (.str "unknown")).toStr
    principal := strField "principal" body
    channel := strField "channel" body
    chatId := strField "chat_id" body
    account := a.account.getD
      (((body.get "account").orElse (body.get "account_id")).orElse (.str "")).toStr
    direction := direction
    revision := revision.1
    audienceRef := a.audienceRef.or
      ((body.get "audience_ref").orElse (body.get "audienceRef")).optStr
    occurredMs := ((body.get "occurred_ms").orElse (body.get "timestamp_ms")).optInt
    createdMs := a.nowMs
    sourceMessageId := ((body.get "source_message_id").orElse (body.get "message_id")).optStr
    targetMessageId := (body.get "target_message_id").optStr
    threadId := (body.get "thread_id").optStr
    turnId := (body.get "turn_id").optStr
    payload := body
    payloadHash := payloadHash
    revision_pos := revision.2 }

def coerceEvent (a : AppendArgs) : Except Error CanonicalEvent :=
  match a.payload with
  | .canonical e => coerceCanonical a e
  | .mapping data => coerceMapping a data

namespace CanonicalEvent

private def reference (relation : String) : Option String → List (String × String)
  | some id => if id = "" then [] else [(relation, id)]
  | none => []

private def payloadReference (e : CanonicalEvent) (key relation : String) : List (String × String) :=
  if (e.payload.get key).truthy then [(relation, (e.payload.get key).toStr)] else []

def relations (e : CanonicalEvent) : List (String × String) :=
  (reference "source" e.sourceMessageId ++ reference "target" e.targetMessageId ++
    payloadReference e "reply_to_event_id" "reply_to" ++
    payloadReference e "parent_event_id" "parent" ++
    payloadReference e "reply_to_message_id" "reply_to").eraseDups
variable {edge : String × String} {id : String} {relation : String}

private theorem reference_ne {id : Option String} (h : edge ∈ reference relation id) : edge.2 ≠ "" := by
  unfold reference at h
  split at h
  · split_ifs at h with hi
    · cases h
    · cases List.mem_singleton.mp h
      exact hi
  · cases h

variable {e : CanonicalEvent}

private theorem payloadReference_ne {key : String} (h : edge ∈ e.payloadReference key relation) : edge.2 ≠ "" := by
  unfold payloadReference at h
  split_ifs at h with ht
  · cases List.mem_singleton.mp h
    exact Json.toStr_ne_empty ht
  · cases h

theorem relations_ne (h : edge ∈ e.relations) : edge.2 ≠ "" := by
  rw [relations,List.mem_eraseDups,List.mem_append,List.mem_append,List.mem_append,List.mem_append] at h
  rcases h with (((h | h) | h) | h) | h
  · exact reference_ne h
  · exact reference_ne h
  · exact payloadReference_ne h
  · exact payloadReference_ne h
  · exact payloadReference_ne h

theorem target_mem_relations (h : e.targetMessageId = some id) (hi : id ≠ "") : ("target", id) ∈ e.relations := by
  unfold relations
  simp [List.mem_eraseDups,h,reference,hi]

def resolvedIds (e : CanonicalEvent) : List String :=
  ([some e.eventId, e.sourceMessageId, e.targetMessageId].reduceOption).filter (· ≠ "")

theorem mem_resolvedIds :
    id ∈ e.resolvedIds ↔
      id ≠ "" ∧ (id = e.eventId ∨ e.sourceMessageId = some id ∨ e.targetMessageId = some id) := by
  unfold resolvedIds
  rw [List.mem_filter,decide_eq_true_eq,List.reduceOption_mem_iff,and_comm,List.mem_cons,List.mem_cons,
    List.mem_singleton,Option.some_inj,eq_comm (b := e.sourceMessageId),eq_comm (b := e.targetMessageId)]

def toRow (e : CanonicalEvent) : EventRow :=
  { eventId := e.eventId, eventKey := e.eventKey, traceId := e.traceId, kind := e.kind,
    origin := e.origin, channel := e.channel, chatId := e.chatId, principal := e.principal,
    account := e.account, direction := e.direction, revision := e.revision,
    audienceRef := e.audienceRef, sourceMessageId := e.sourceMessageId,
    targetMessageId := e.targetMessageId, threadId := e.threadId, turnId := e.turnId,
    occurredMs := e.occurredMs, payloadHash := e.payloadHash,
    payloadJson := some (canonicalJson e.payload.toJson), payloadPurgedMs := none,
    createdMs := e.createdMs }

end CanonicalEvent

namespace Store

def eventByKey? (s : Store) (eventKey : String) : Option EventRow :=
  lookup EventRow.eventKey eventKey s.events

def event? (s : Store) (eventId : String) : Option EventRow :=
  lookup EventRow.eventId eventId s.events

def refKnown (s : Store) (refId : String) : Bool :=
  s.events.any fun e => e.eventId = refId || e.sourceMessageId = some refId

end Store

def unprovenAuthority (e : EventRow) : AuthorityRow :=
  { eventId := e.eventId, revision := e.revision, authorPrincipal := e.principal,
    sourceChannel := e.channel, sourceChatId := e.chatId,
    occurredAtMs := e.occurredMs.getD e.createdMs, audienceStatus := "unknown",
    audienceMembersJson := canonicalJson (.arr []), audienceSnapshotId := none,
    policyRevision := none, revokedAtMs := none, revokingEventId := none, createdMs := e.createdMs,
    updatedMs := e.createdMs }

def ensureEventSourceAuthority (e : EventRow) : StoreM Unit :=
  Txn.modify fun s => { s with
    authority := insertIgnore AuthorityRow.key (unprovenAuthority e) s.authority }

def insertRelation (e : CanonicalEvent) (relation refId : String) : StoreM Unit := do
  let s ← Txn.read
  let row : RelationRow :=
    { eventId := e.eventId, relation := relation, refId := refId, resolved := s.refKnown refId,
      createdMs := e.createdMs }
  Txn.modify fun s => { s with relations := insertIgnore RelationRow.key row s.relations }

def recordRelations (e : CanonicalEvent) : StoreM Unit := do
  each e.relations fun edge => insertRelation e edge.1 edge.2
  Txn.modify fun s => { s with
    relations := updateWhere (fun r => !r.resolved && decide (r.refId ∈ e.resolvedIds))
      (fun r => { r with resolved := true }) s.relations }

def storedPayloadHash (row : EventRow) : String :=
  match row.payloadJson.bind Json.loads with
  | some v => match eventPayloadHash v with
    | .ok hash => hash
    | .error _ => row.payloadHash
  | none => row.payloadHash

def sameMetadata (row : EventRow) (e : CanonicalEvent) : Bool :=
  row.account = e.account && row.direction = e.direction && row.revision = e.revision &&
    row.audienceRef = e.audienceRef

def acceptsReplay (row : EventRow) (e : CanonicalEvent) : Except Error Bool :=
  match row.payloadJson with
  | none => .ok true
  | some text =>
    if storedPayloadHash row = e.payloadHash && sameMetadata row e then .ok true
    else if sameMetadata row e then
      match Json.loads text with
      | some stored => differsOnlyInTiming stored e.payload.toJson
      | none => .error (valueError "stored event payload is not JSON")
    else .ok false

def appendEventConnection (e : CanonicalEvent) : StoreM String := do
  let s ← Txn.read
  match s.eventByKey? e.eventKey with
  | some row =>
    let accepted ← liftExcept (acceptsReplay row e)
    require (accepted = true) (journalConflict ("event_key " ++ Json.reprString e.eventKey ++
      " already exists with different content"))
    ensureEventSourceAuthority e.toRow
    return row.eventId
  | none =>
    match s.event? e.eventId with
    | some clash => raise (journalConflict ("event_id " ++ Json.reprString e.eventId ++
        " already belongs to " ++ Json.reprString clash.eventKey))
    | none =>
      Txn.modify fun s => { s with events := s.events ++ [e.toRow] }
      recordRelations e
      ensureEventSourceAuthority e.toRow
      return e.eventId

def appendEvent (a : AppendArgs) : StoreM String := do
  require (a.eventKey ≠ "") (valueError "event_key is required")
  let e ← liftExcept (coerceEvent a)
  atomically (appendEventConnection e)

def attachEventAssignment (eventId : String) (threadId turnId : Option String) : StoreM Unit :=
  atomically (Txn.modify fun s => { s with
    events := updateWhere (fun e => e.eventId = eventId)
      (fun e => { e with threadId := threadId, turnId := turnId }) s.events })

end Yeoman.Processing
