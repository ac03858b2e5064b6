import Yeoman.Archive.Lines

/-! Records of the raw archive as the owner's purge reads them: their independent parts, the
message identities and correlations they carry, the time they were captured, and whether a recorded
disposition covers them. -/
namespace Yeoman.Archive
open Library
open Library.Json (Members)

/-- What the record functions take from outside: `datetime.fromisoformat` in milliseconds, the hash
of a line, and the element that a set of chats hands out first. -/
structure Env where
  iso : String → Option Int
  digest : String → String
  pick : List String → String
  pick_mem : ∀ xs, xs ≠ [] → pick xs ∈ xs

def isText (s : String) : Json → Bool
  | .str t => t = s
  | _ => false

def textOf (v : Json) : String := if v.truthy then v.toStr else ""

def isTrue : Json → Bool
  | .bool b => b
  | _ => false

def isNull : Json → Bool
  | .null => true
  | _ => false

def members? : Json → Option Members
  | .obj kvs => some kvs
  | _ => none

def items? : Json → Option (List Json)
  | .arr xs => some xs
  | _ => none

def tombstone : Members := [("purged_version", .int 1)]

def isTombstone (v : Json) : Bool := v.eq (.obj tombstone)

def segments? (r : Members) : Option (List Json) :=
  (members? (Json.get "payload" r)).bind fun payload => items? (Json.get "segments" payload)

def firstTime (keys : List String) (r : Members) : Option (Option Int) :=
  (keys.find? fun key => !isNull (Json.get key r)).map fun key => (Json.get key r).optInt

section
variable (env : Env)

/-- The capture time of an imported row. -/
def originalMs (original : Members) : Option (Option Int) :=
  (firstTime ["received_ms", "created_ms", "updated_ms"] original).orElse fun _ =>
    match Json.get "created_at" original with
    | .str s => some (env.iso s)
    | _ => none

def captureMs? (r : Members) : Option Int :=
  match firstTime ["received_ms", "generated_ms"] r with
  | some ms => ms
  | none =>
    match (members? (Json.get "original" r)).bind (originalMs env) with
    | some ms => ms
    | none =>
      if isText "capture_time_approx" (Json.get "time_certainty" r) && (Json.get "occurred_ms" r).truthy then
        (Json.get "occurred_ms" r).optInt
      else some 0

/-- The capture time of a record; whoever asks for one that cannot be read has stopped before. -/
def recordCaptureMs (r : Members) : Int := (captureMs? env r).getD 0

def partOf (r : Members) (segment : Json) : Members :=
  [("channel", Json.get "channel" r), ("chat_id", Json.get "chat_id" r),
    ("received_ms", .int (recordCaptureMs env r)), ("payload", segment)]

def isPart (segment : Json) : Bool := (members? segment).isSome && !isTombstone segment

def recordParts (r : Members) : List Members :=
  match segments? r with
  | none => [r]
  | some segments => (segments.filter isPart).map (partOf env r)

end

mutual

def leaves : Json → List Json
  | .obj kvs => (leavesMembers kvs).getD [.obj kvs]
  | _ => []

def leavesMembers : List (String × Json) → Option (List Json)
  | [] => none
  | (k, .arr xs) :: kvs => if k = "segments" then some (leavesItems xs) else leavesMembers kvs
  | (k, _) :: kvs => if k = "segments" then none else leavesMembers kvs

def leavesItems : List Json → List Json
  | [] => []
  | x :: xs => (if isTombstone x then [] else leaves x) ++ leavesItems xs

end

def identitiesOf (keys : List String) (r : Members) : List String := keys.map fun key => textOf (Json.get key r)

def eventMetadata (r native : Members) : Bool :=
  textOf (Json.get "channel" r) = "telegram" && ["update", "media"].contains (textOf (Json.get "kind" r)) ||
    Json.has "eventId" native || isText "journal" (Json.get "provenance" r)

/-- The message an undecoded edit is about. -/
def encryptedTarget (payload : Members) : List String :=
  let edit := members? (Json.get "encryptedEdit" payload)
  if isTrue (Json.get "observationOnly" payload) &&
      isText "encrypted_message_edit_undecoded" (Json.get "observationType" payload) &&
      edit.any fun e => isText "secretEncryptedMessage" (Json.get "kind" e) then
    identitiesOf ["targetMessageId"] payload
  else []

def nativeIdentities (r native : Members) : List String :=
  (if eventMetadata r native then [] else identitiesOf ["native_id"] r) ++
    (members? (Json.get "payload" native)).elim []
      (fun payload => identitiesOf ["messageId"] payload ++ encryptedTarget payload) ++
    identitiesOf ["message_id", "source_message_id"] native ++
    ["message", "edited_message", "channel_post", "edited_channel_post", "business_message",
      "edited_business_message"].flatMap fun key =>
        (members? (Json.get key native)).elim [] (identitiesOf ["message_id"])

def payloadIdentities (payload : Members) : List String :=
  identitiesOf ["messageId"] payload ++
    ((items? (Json.get "segments" payload)).getD []).flatMap fun segment =>
      (members? segment).elim [] (identitiesOf ["messageId"])

def originalIdentities (original : Members) : List String :=
  identitiesOf ["message_id", "source_message_id", "provider_message_id", "r_provider_message_id"] original ++
    match Json.get "payload_json" original with
    | .str s => ((Json.loads s).bind members?).elim []
        (identitiesOf ["message_id", "source_message_id", "provider_message_id"])
    | _ => []

def sourceRefs (r : Members) : List String :=
  ((items? (Json.get "source_refs" r)).getD []).filterMap fun v =>
    match v with
    | .str s => some s
    | _ => none

def isContactId (r : Members) : Bool := isText "contact_id" (Json.get "kind" r)

def recordIdentities (r : Members) : List String :=
  let ids := (match members? (Json.get "native" r) with
      | some native => nativeIdentities r native
      | none => identitiesOf ["native_id"] r) ++
    identitiesOf ["native_message_id"] r ++
    (members? (Json.get "payload" r)).elim [] payloadIdentities ++
    (members? (Json.get "original" r)).elim [] originalIdentities ++
    (if textOf (Json.get "channel" r) = "telegram" && textOf (Json.get "kind" r) = "media" ||
        isText "journal" (Json.get "provenance" r) then identitiesOf ["correlation_id"] r else []) ++
    (if isContactId r then identitiesOf ["value"] r ++ sourceRefs r else [])
  ids.filter (· ≠ "")

def recordCorrelations (r : Members) : List String :=
  (identitiesOf ["correlation_id"] r ++
    (members? (Json.get "original" r)).elim [] (identitiesOf ["correlation_id"])).filter (· ≠ "")

def meets (xs ys : List String) : Bool := xs.any ys.contains

def derivedFromDisposed (r : Members) (identities : List String) : Bool :=
  (isText "media_description" (Json.get "kind" r) || isText "media_transcript" (Json.get "kind" r)) &&
    meets (recordIdentities r) identities

inductive Scope where
  | chat
  | message
deriving DecidableEq

structure Disposition where
  scope : Scope
  channel : String
  chatId : Option String
  beforeMs : Option Int
  (messageIdentities correlationIds : List String)

structure Audit where
  disposition : Disposition
  removedSha256 : List String

def Disposition.covers (env : Env) (d : Disposition) (r : Members) : Bool :=
  d.channel = textOf (Json.get "channel" r) &&
    (match d.chatId with
      | some chat => chat = textOf (Json.get "chat_id" r)
      | none => !(d.scope = .message && textOf (Json.get "chat_id" r) ≠ "")) &&
    (match d.beforeMs with
      | some before => recordCaptureMs env r < before || derivedFromDisposed r d.messageIdentities
      | none => true)

/-- One entry keeps the record out. -/
def Audit.disposes (env : Env) (a : Audit) (r : Members) (line : String) : Bool :=
  a.disposition.covers env r &&
    (a.disposition.scope = .chat || a.removedSha256.contains (env.digest line) ||
      meets (recordIdentities r) a.disposition.messageIdentities ||
      meets (recordCorrelations r) a.disposition.correlationIds)

def recordIsDisposed (env : Env) (audits : List Audit) (r : Members) (line : String) : Bool :=
  audits.any fun a => a.disposes env r line

end Yeoman.Archive
