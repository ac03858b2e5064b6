import Yeoman.Archive.Records

/-! The owner's purge. A selector names a chat or a message; the records it matches give the
identities and correlations whose parts are erased, each in its slot, and the disposition that keeps
them from coming back. A line is kept with the value that `json.loads` gives for it. -/
namespace Yeoman.Archive
open Library
open Library.Json (Members)

structure PurgeSelector where
  channel : String
  chatId : Option String := none
  nativeId : Option String := none
  beforeMs : Option Int := none

def given (s : Option String) : Option String := s.filter (· ≠ "")

/-- A physical line. What is read with replacement of invalid bytes is not always what is read
strictly: of a line that is not valid UTF-8 the rewrite sees no record. -/
structure Slot where
  text : String
  record : Option Members
  strict : Bool := true

structure ArchiveFile where
  (directory name : String)
  lines : List Slot

namespace PurgeSelector

def valid (sel : PurgeSelector) : Bool :=
  Processing.stripText sel.channel ≠ "" && ((given sel.chatId).isSome || (given sel.nativeId).isSome)

/-- `matches` up to the cutoff. -/
def selects (channel : String) (sel : PurgeSelector) (r : Members) : Bool :=
  !isTombstone (.obj r) && isText channel (Json.get "channel" r) &&
    (given sel.chatId).all (fun chat => isText chat (Json.get "chat_id" r)) &&
    (given sel.nativeId).all (fun id => (recordIdentities r).contains id)

def matchesRecord (env : Env) (channel : String) (sel : PurgeSelector) (r : Members) : Bool :=
  sel.selects channel r && sel.beforeMs.all fun before => recordCaptureMs env r < before

/-- The selection asks for a capture time that cannot be read: a batch with parts has one for each
part, any other record is asked when there is a cutoff. -/
def raises (env : Env) (channel : String) (sel : PurgeSelector) (r : Members) : Bool :=
  (captureMs? env r).isNone &&
    match segments? r with
    | some segments => segments.any isPart
    | none => sel.beforeMs.isSome && sel.selects channel r

end PurgeSelector

/-- `_PurgePredicate`: what a purge erases. -/
structure Predicate where
  selector : PurgeSelector
  channel : String
  chatId : Option String
  (identities correlations : List String)
  erasedSourceRefs : List String := []

namespace Predicate
variable (env : Env) (p : Predicate)

def inChat (r : Members) : Bool :=
  isText p.channel (Json.get "channel" r) && p.chatId.all fun chat => textOf (Json.get "chat_id" r) = chat

def raises (r : Members) : Bool :=
  (captureMs? env r).isNone && p.selector.beforeMs.isSome && (segments? r).isNone && !isTombstone (.obj r) &&
    !isContactId r && p.inChat r

/-- `matches` for a record without segments. -/
def matchesPlain (r : Members) : Bool :=
  p.inChat r &&
    p.selector.beforeMs.all (fun before => recordCaptureMs env r < before || derivedFromDisposed r p.identities) &&
    match p.selector.nativeId with
    | none => p.selector.chatId.isSome
    | some _ => meets (recordIdentities r) p.identities || meets (recordCorrelations r) p.correlations

def matchesRecord (r : Members) : Bool :=
  if isTombstone (.obj r) then false
  else if isContactId r then isText p.channel (Json.get "channel" r) && meets (sourceRefs r) p.erasedSourceRefs
  else
    match segments? r with
    | none => p.matchesPlain env r
    | some segments => (leavesItems segments).any fun leaf => p.matchesPlain env (partOf env r leaf)

def keptSegments (r : Members) (segments : List Json) : List Json :=
  segments.map fun segment =>
    if isPart segment && p.matchesRecord env (partOf env r segment) then .obj tombstone else segment

end Predicate

def envelopeKeys : List String :=
  ["backfill_version", "channel", "kind", "chat_id", "occurred_ms", "time_certainty", "direction", "provenance", "skip_reason"]

def retain (keys : List String) (r : Members) : Members :=
  keys.filterMap fun key => (r.lookup key).map (key, ·)

def survives (segments : List Json) : Bool := segments.any fun segment => isPart segment && segment.truthy

def cleanPayload (payload : Members) (kept : List Json) : Members :=
  ("segments", .arr kept) :: retain (["chatJid", "fromAssistant"] ++
    if kept.any fun segment => (members? segment).any fun m => (Json.get "messageId" m).eq (Json.get "messageId" payload)
    then ["messageId"] else []) payload

def replaceSegments (env : Env) (r : Members) (kept : List Json) : Members :=
  if survives kept then
    Json.set "payload" (.obj (cleanPayload ((members? (Json.get "payload" r)).getD []) kept))
      (Json.set "received_ms" (.int (recordCaptureMs env r)) (retain envelopeKeys r))
  else tombstone

def replacement (env : Env) (p : Predicate) (r : Members) : Members :=
  match segments? r with
  | none => tombstone
  | some segments => replaceSegments env r (p.keptSegments env r segments)

def rewriteSlot (env : Env) (p : Predicate) (s : Slot) : Slot :=
  match s.record with
  | none => s
  | some r =>
    if s.strict && p.matchesRecord env r then ⟨Json.dumps (.obj (replacement env p r)),some (replacement env p r),true⟩ else s

structure Root where
  files : List ArchiveFile
  audits : List Audit

namespace Root

def inChannel (channel : String) (f : ArchiveFile) : Bool := [channel, "backfill", "derived", "owner"].contains f.directory

def slots (a : Root) (channel : String) : List Slot := (a.files.filter (inChannel channel)).flatMap ArchiveFile.lines

def records (a : Root) (channel : String) : List Members := (a.slots channel).filterMap Slot.record

def matched (env : Env) (a : Root) (channel : String) (sel : PurgeSelector) : List Members :=
  ((a.records channel).flatMap (recordParts env)).filter (sel.matchesRecord env channel)

def chats (env : Env) (a : Root) (channel : String) (sel : PurgeSelector) : List String :=
  ((a.matched env channel sel).map fun r => textOf (Json.get "chat_id" r)).eraseDups

def erasedRefs (env : Env) (p : Predicate) (base : String) (r : Members) : List String :=
  if isContactId r || !p.matchesRecord env r then []
  else
    match segments? r with
    | none => [base]
    | some segments =>
      (segments.zipIdx.filter fun s => isPart s.1 && p.matchesRecord env (partOf env r s.1)).map
          (fun s => base ++ "/" ++ toString s.2) ++
        if segments.all fun segment => !isPart segment || p.matchesRecord env (partOf env r segment) then [base] else []

def fileRefs (env : Env) (p : Predicate) (f : ArchiveFile) : List String :=
  f.lines.zipIdx.flatMap fun s =>
    s.1.record.elim [] (erasedRefs env p (f.directory ++ "/" ++ f.name ++ "#" ++ toString (s.2 + 1)))

def buildPredicate (env : Env) (a : Root) (channel : String) (sel : PurgeSelector) : Except String Predicate :=
  let matched := a.matched env channel sel
  let chats := a.chats env channel sel
  if sel.nativeId.isSome && sel.chatId.isNone && 1 < chats.length then
    .error "message purge spans multiple chats; specify --chat"
  else if sel.nativeId.isSome && sel.chatId.isNone && (chats.length ≠ 1 || chats.head? = some "") then
    .error "message purge has no resolvable chat; specify --chat"
  else
    let p : Predicate :=
      { selector := sel
        channel := channel
        chatId := (given sel.chatId).orElse fun _ => if chats = [] then none else some (env.pick chats)
        identities := (given sel.nativeId).toList ++ matched.flatMap recordIdentities
        correlations := matched.flatMap recordCorrelations }
    .ok { p with erasedSourceRefs := (a.files.filter (inChannel channel)).flatMap (fileRefs env p) }

def selectedParts (env : Env) (a : Root) (channel : String) (p : Predicate) : List Members :=
  (((a.records channel).filter fun r => p.matchesRecord env r && !isContactId r).flatMap
    (recordParts env)).filter (p.matchesRecord env)

def auditOf (env : Env) (a : Root) (channel : String) (p : Predicate) : Audit where
  disposition :=
    { scope := if p.selector.nativeId.isSome then .message else .chat
      channel := channel
      chatId := p.chatId
      beforeMs := p.selector.beforeMs
      messageIdentities := p.identities ++ (a.selectedParts env channel p).flatMap recordIdentities
      correlationIds := p.correlations ++ (a.selectedParts env channel p).flatMap recordCorrelations }
  removedSha256 := ((a.slots channel).filter fun s => s.record.any (p.matchesRecord env)).map fun s => env.digest s.text

/-- A chat without a cutoff is purged up to now. -/
def effective (sel : PurgeSelector) (now : Int) : PurgeSelector :=
  if sel.chatId.isSome && sel.nativeId.isNone && sel.beforeMs.isNone then { sel with beforeMs := some now } else sel

def rewriteFile (env : Env) (channel : String) (p : Predicate) (f : ArchiveFile) : ArchiveFile :=
  if inChannel channel f then { f with lines := f.lines.map (rewriteSlot env p) } else f

def purge (env : Env) (a : Root) (sel : PurgeSelector) (now : Int) : Except String (Predicate × Root) :=
  if !sel.valid then .error "purge needs a channel and a chat or a message id"
  else
    match safeChannel sel.channel with
    | .error _ => .error "raw archive channel must not be empty"
    | .ok channel =>
      if (a.records channel).any ((effective sel now).raises env channel) then .error "invalid capture time"
      else
        match a.buildPredicate env channel (effective sel now) with
        | .error e => .error e
        | .ok p =>
          if (a.records channel).any (p.raises env) then .error "invalid capture time"
          else .ok (p, ⟨a.files.map (rewriteFile env channel p),a.audits ++ [a.auditOf env channel p]⟩)

def importRender (env : Env) (a : Root) (r : Members) (text : String) : Slot :=
  let whole : Slot :=
    if recordIsDisposed env a.audits r text then ⟨Json.dumps (.obj tombstone),some tombstone,true⟩ else ⟨text,some r,true⟩
  match segments? r with
  | none => whole
  | some segments =>
    let disposed := fun segment =>
      isPart segment && recordIsDisposed env a.audits (partOf env r segment) (Json.dumps (.obj (partOf env r segment)))
    if segments.any disposed then
      let r' := replaceSegments env r (segments.map fun segment => if disposed segment then .obj tombstone else segment)
      ⟨Json.dumps (.obj r'),some r',true⟩
    else whole

/-- Append a line to a file of the archive. -/
def put (a : Root) (directory name : String) (s : Slot) : Root :=
  { a with files := a.files.map fun f =>
      if f.directory = directory ∧ f.name = name then { f with lines := f.lines ++ [s] } else f }

def append (env : Env) (a : Root) (directory name : String) (r : Members) : Root :=
  if (captureMs? env r).isNone || recordIsDisposed env a.audits r (Json.dumps (.obj r)) then a
  else a.put directory name ⟨Json.dumps (.obj r),some r,true⟩

end Root

end Yeoman.Archive
