import Yeoman.Processing.Journal

/-! Writers of the source authority projection other than the journal itself. -/
namespace Yeoman.Processing
open Library Table Txn

def audienceStatuses : List String := ["known", "author_only", "unknown"]

def stripText (s : String) : String := String.ofList (Json.strip s.toList)

def authorityMembers (members : List String) : List String :=
  (((members.map stripText).filter (· ≠ "")).eraseDups).insertionSort (· ≤ ·)

def authorityStatus (value : Option String) (members : List String) : Except Error String :=
  let status := String.ofList ((stripText (value.getD "")).toList.map Char.toLower)
  let status := if status = "" then (if members = [] then "unknown" else "known") else status
  if status ∈ audienceStatuses then .ok status
  else .error (valueError ("unknown audience status: " ++ Json.reprString status))

/-- Arguments of `upsert_event_source_authority`, with the fields of a source or an
audience object already taken over. -/
structure AuthorityArgs where
  eventId : String
  revision : Int := 1
  authorPrincipal : String := ""
  sourceChannel : String := ""
  sourceChatId : String := ""
  occurredAtMs : Int := 0
  audienceStatus : Option String := none
  audienceMembers : Option (List String) := none
  audienceSnapshotId : Option String := none
  policyRevision : Option String := none
  explicitAudience : Bool := false
  revoked : Bool := false
  revokedAtMs : Option Int := none
  revokingEventId : Option String := none
  nowMs : Int

def authorityConflict (current value : String) : Bool := current ≠ "" && value ≠ "" && current ≠ value

def updateAuthority (p : AuthorityRow → Bool) (f : AuthorityRow → AuthorityRow) : StoreM Nat := do
  let s ← Txn.read
  Txn.modify fun s => { s with authority := updateWhere p f s.authority }
  return rowCount p s.authority

def revokeRow (revokedAtMs : Int) (revokingEventId : Option String) (nowMs : Int) (r : AuthorityRow) :
    AuthorityRow :=
  { r with
    revokedAtMs := r.revokedAtMs.or (some revokedAtMs)
    revokingEventId := r.revokingEventId.or revokingEventId
    updatedMs := nowMs }

/-- The first identity column on which a registration contradicts the stored row. A
revised source time is tolerated. -/
def authorityClash (row : AuthorityRow) (a : AuthorityArgs) : Option String :=
  if authorityConflict row.authorPrincipal a.authorPrincipal then some "author_principal"
  else if authorityConflict row.sourceChannel a.sourceChannel then some "source_channel"
  else if authorityConflict row.sourceChatId a.sourceChatId then some "source_chat_id"
  else none

def AuthorityArgs.row (a : AuthorityArgs) (eventId status membersJson : String)
    (revokedAt : Option Int) : AuthorityRow :=
  { eventId := eventId, revision := a.revision, authorPrincipal := a.authorPrincipal,
    sourceChannel := a.sourceChannel, sourceChatId := a.sourceChatId,
    occurredAtMs := a.occurredAtMs, audienceStatus := status, audienceMembersJson := membersJson,
    audienceSnapshotId := nonempty a.audienceSnapshotId, policyRevision := nonempty a.policyRevision,
    revokedAtMs := revokedAt, revokingEventId := nonempty a.revokingEventId, createdMs := a.nowMs,
    updatedMs := a.nowMs }

def AuthorityArgs.explicit (a : AuthorityArgs) : Bool :=
  a.explicitAudience || a.audienceStatus.isSome || a.audienceMembers.isSome ||
    a.audienceSnapshotId.isSome || a.policyRevision.isSome

/-- Insert the registered row, or merge it into the stored one. A revocation is
never cleared. -/
def writeAuthority (a : AuthorityArgs) (row : AuthorityRow) : StoreM Unit := do
  let isRow : AuthorityRow → Bool := fun r => r.eventId = row.eventId && r.revision = row.revision
  let s ← Txn.read
  match lookup AuthorityRow.key row.key s.authority with
  | none => Txn.modify fun s => { s with authority := s.authority ++ [row] }
  | some stored =>
    match authorityClash stored a with
    | some column => raise (journalConflict ("source authority " ++ Json.reprString row.eventId ++
        ":" ++ toString a.revision ++ " conflicts on " ++ column))
    | none =>
      let _ ← updateAuthority (fun r => a.explicit && isRow r) fun r =>
        { r with
          audienceStatus := row.audienceStatus
          audienceMembersJson := row.audienceMembersJson
          audienceSnapshotId := row.audienceSnapshotId
          policyRevision := row.policyRevision
          updatedMs := a.nowMs }
      let _ ← updateAuthority (fun r => row.revokedAtMs.isSome && isRow r)
        (revokeRow (row.revokedAtMs.getD a.nowMs) row.revokingEventId a.nowMs)

def upsertEventSourceAuthority (a : AuthorityArgs) : StoreM (Option AuthorityRow) := do
  let eventId := stripText a.eventId
  require (eventId ≠ "") (valueError "event_id is required")
  require (1 ≤ a.revision) (valueError "revision must be positive")
  let members := authorityMembers (a.audienceMembers.getD [])
  let status ← liftExcept (authorityStatus a.audienceStatus members)
  let revokedAt := if a.revoked && a.revokedAtMs = none then some a.nowMs else a.revokedAtMs
  let row := a.row eventId status (canonicalJson (.arr (members.map .str))) revokedAt
  atomically do
    writeAuthority a row
    let s ← Txn.read
    return lookup AuthorityRow.key row.key s.authority

def revokeEventSourceAuthority (eventId : String) (revision : Int) (revokingEventId : Option String)
    (nowMs : Int) : StoreM Bool :=
  atomically do
    let count ← updateAuthority
      (fun r => r.eventId = eventId && r.revision = revision && r.revokedAtMs = none)
      (revokeRow nowMs (nonempty revokingEventId) nowMs)
    return count = 1

def revocationCandidates (s : Store) (channel chatId providerId account eventId : String) :
    List EventRow :=
  let rows := s.events.filter fun e => e.channel = channel && e.chatId = chatId &&
    e.sourceMessageId = some providerId && (e.kind = .message || e.kind = .edit) &&
    (account = "" || e.account = account || e.account = "")
  (rows.insertionSort fun a b => a.revision < b.revision ∨
    (a.revision = b.revision ∧ timeLe EventRow.createdMs EventRow.eventId a b)).filter
      (fun e => e.eventId ≠ eventId)

def authorityOf (s : Store) (e : EventRow) : Option AuthorityRow :=
  lookup AuthorityRow.key (e.eventId, e.revision) s.authority

def inheritAudience (e : CanonicalEvent) (prior : EventRow) (nowMs : Int) : StoreM Unit :=
  if e.kind ≠ .edit then return () else do
  ensureEventSourceAuthority prior
  let s ← Txn.read
  match authorityOf s prior with
  | none => return ()
  | some proof => do
    let _ ← updateAuthority (fun r => r.eventId = e.eventId && r.revision = e.revision) fun r =>
      { r with
        audienceStatus := proof.audienceStatus
        audienceMembersJson := proof.audienceMembersJson
        audienceSnapshotId := proof.audienceSnapshotId
        policyRevision := proof.policyRevision
        updatedMs := nowMs }

def revokePrior (revokingEventId : String) (nowMs : Int) (prior : EventRow) : StoreM Bool := do
  ensureEventSourceAuthority prior
  let count ← updateAuthority
    (fun r => r.eventId = prior.eventId && r.revision = prior.revision && r.revokedAtMs = none)
    fun r => { r with revokedAtMs := some nowMs, revokingEventId := some revokingEventId, updatedMs := nowMs }
  return count = 1

def projectSourceRevocation (e : CanonicalEvent) (nowMs : Int) : StoreM (List String) :=
  let providerId := ((nonempty e.sourceMessageId).or (nonempty e.targetMessageId)).getD ""
  if (e.kind ≠ .edit ∧ e.kind ≠ .delete) ∨ e.channel = "" ∨ e.chatId = "" ∨ providerId = "" ∨
      e.eventId = "" then return []
  else atomically do
    let s ← Txn.read
    let candidates := revocationCandidates s e.channel e.chatId providerId e.account e.eventId
    match candidates.getLast? with
    | none => return []
    | some prior =>
      inheritAudience e prior nowMs
      let revoked ← select candidates (revokePrior e.eventId nowMs)
      return revoked.map EventRow.eventId

end Yeoman.Processing
