import Yeoman.Library.JsonDict
import Yeoman.Processing.Authority

/-! Provider signals: the mapping of a bridge payload into a canonical journal signal, and
the sink that journals it and projects edits and deletes. -/
namespace Yeoman.Processing
open Library Txn

def canonicalWhatsappOrigin : String := "whatsapp_canonical"

def maxBridgeFrameBytes : Nat := 262144

/-- The kinds of signals about one provider message. Group and membership updates, which
are about none, are not modelled. -/
inductive SignalKind where
  | message
  | edit
  | delete
  | reaction
  | receipt
deriving DecidableEq

def SignalKind.event : SignalKind → EventKind
  | message => .message
  | edit => .edit
  | delete => .delete
  | reaction => .reaction
  | receipt => .receipt

inductive BodyKey where
  | text
  | isGroup
  | mentionedBot
  | replyToMessageId
  | observationOnly
  | observationType
  | targetMessageId
  | encryptedEdit
  | participantJid
  | senderPhoneJid
  | senderName
  | replyToText
  | replyToParticipant
  | replyToMedia
  | media
  | revoked
  | emoji
  | removed
  | status
  | recipientToken

def BodyKey.name : BodyKey → String
  | text => "text"
  | isGroup => "is_group"
  | mentionedBot => "mentioned_bot"
  | replyToMessageId => "reply_to_message_id"
  | observationOnly => "observation_only"
  | observationType => "observation_type"
  | targetMessageId => "target_message_id"
  | encryptedEdit => "encrypted_edit"
  | participantJid => "participant_jid"
  | senderPhoneJid => "sender_phone_jid"
  | senderName => "sender_name"
  | replyToText => "reply_to_text"
  | replyToParticipant => "reply_to_participant"
  | replyToMedia => "reply_to_media"
  | media => "media"
  | revoked => "revoked"
  | emoji => "emoji"
  | removed => "removed"
  | status => "status"
  | recipientToken => "recipient_token"

def identityMembers : List String :=
  ["kind", "origin", "principal", "channel", "chat_id", "account", "direction", "audience_ref",
    "occurred_ms", "source_message_id", "message_id"]
variable (k : BodyKey)

theorem BodyKey.name_not_identity : k.name ∉ identityMembers := by
  cases k <;> decide

theorem BodyKey.name_ne_revision : k.name ≠ "revision" := by
  cases k <;> decide

/-- The body of a signal: it leaves the identity of the signal alone, and its revision,
where it has one, is a positive integer. -/
structure SignalBody where
  data : Dict
  plain : ∀ key ∈ identityMembers, data.has key = false
  revision : data.has "revision" = true → ∃ r : Int, 1 ≤ r ∧ data.get "revision" = .int r

namespace SignalBody

def empty : SignalBody where
  data := Dict.empty
  plain _ _ := rfl
  revision h := nomatch h
variable (b : SignalBody) (k : BodyKey) (value : Json)

theorem set_plain (hv : value.WellFormed) :
    ∀ key ∈ identityMembers, (b.data.set k.name value hv).has key = false := by
  intro key hm
  have hk : key ≠ k.name := fun h => k.name_not_identity (h ▸ hm)
  rw [Dict.has_set,b.plain key hm]
  simp [hk]

theorem set_revision (hv : value.WellFormed) :
    (b.data.set k.name value hv).has "revision" = true →
      ∃ r : Int, 1 ≤ r ∧ (b.data.set k.name value hv).get "revision" = .int r := by
  have hk : "revision" ≠ k.name := k.name_ne_revision.symm
  rw [Dict.has_set,Dict.get_set,if_neg hk,decide_eq_false hk]
  exact b.revision

def set (b : SignalBody) (k : BodyKey) (value : Json) (hv : value.WellFormed) : SignalBody where
  data := b.data.set k.name value hv
  plain := b.set_plain k value hv
  revision := b.set_revision k value hv

def setStr (b : SignalBody) (k : BodyKey) (value : String) : SignalBody := b.set k (.str value) trivial

def setBool (b : SignalBody) (k : BodyKey) (value : Bool) : SignalBody := b.set k (.bool value) trivial

def setOptStr (b : SignalBody) (k : BodyKey) (value : Option String) : SignalBody :=
  b.set k (Dict.ofOptStr value) (Dict.ofOptStr_wellFormed value)

def setDict (b : SignalBody) (k : BodyKey) (value : Dict) : SignalBody :=
  b.set k value.toJson value.wellFormed

/-- `if value is not None: body[key] = value`. -/
def setStr? (b : SignalBody) (k : BodyKey) (value : Option String) : SignalBody :=
  value.elim b (b.setStr k)

def setDict? (b : SignalBody) (k : BodyKey) (value : Option Dict) : SignalBody :=
  value.elim b (b.setDict k)

theorem setRevision_plain {r : Int} : ∀ key ∈ identityMembers, (b.data.setInt "revision" r).has key = false := by
  intro key hm
  have hk : key ≠ "revision" := by
    rintro rfl
    revert hm
    decide
  have hs : (b.data.setInt "revision" r).has key = (key = "revision" || b.data.has key) :=
    Dict.has_set "revision" key (.int r) trivial b.data
  rw [hs,b.plain key hm]
  simp [hk]

theorem setRevision_revision {r : {r : Int // 1 ≤ r}} :
    (b.data.setInt "revision" r.1).has "revision" = true →
      ∃ q : Int, 1 ≤ q ∧ (b.data.setInt "revision" r.1).get "revision" = .int q := by
  intro _
  refine ⟨r.1,r.2,?_⟩
  exact (Dict.get_set "revision" "revision" (.int r.1) trivial b.data).trans (if_pos rfl)

def setRevision (b : SignalBody) (r : {r : Int // 1 ≤ r}) : SignalBody where
  data := b.data.setInt "revision" r.1
  plain := b.setRevision_plain
  revision := b.setRevision_revision

def revisionOf (b : SignalBody) : Int :=
  match b.data.get "revision" with
  | .int r => if 1 ≤ r then r else 1
  | _ => 1

theorem revisionOf_pos : 1 ≤ b.revisionOf := by
  unfold revisionOf
  split
  · split
    · assumption
    · exact revision_one
  · exact revision_one

end SignalBody

structure JournalSignal where
  kind : SignalKind
  (eventKey eventId traceId channel chatId principal : String)
  account : String := ""
  direction : Direction := .inbound
  audienceRef : Option String := none
  occurredMs : Option Int := none
  observedAtMs : Option Int := none
  sourceMessageId : Option String := none
  targetMessageId : Option String := none
  payload : SignalBody

namespace JournalSignal

def revision (σ : JournalSignal) : Int := σ.payload.revisionOf

theorem revision_pos (σ : JournalSignal) : 1 ≤ σ.revision := σ.payload.revisionOf_pos

def identity (σ : JournalSignal) : Dict :=
  let d := Dict.empty.setStr "kind" σ.kind.event.name
  let d := d.setStr "origin" canonicalWhatsappOrigin
  let d := d.setStr "principal" σ.principal
  let d := d.setStr "channel" σ.channel
  let d := d.setStr "chat_id" σ.chatId
  let d := d.setStr "account" σ.account
  let d := d.setStr "direction" σ.direction.name
  let d := d.setInt "revision" σ.revision
  let d := d.setOptStr "audience_ref" σ.audienceRef
  let d := d.setOptInt "occurred_ms" σ.occurredMs
  let d := d.setOptStr "source_message_id" σ.sourceMessageId
  let d := d.setOptStr "target_message_id" σ.targetMessageId
  σ.observedAtMs.elim d fun ms => d.setInt "observed_at_ms" ms

def toEventPayload (σ : JournalSignal) : Dict := σ.identity.update σ.payload.data

end JournalSignal

def signalEventId (eventKey : String) : String := String.ofList ((Sha256.hexdigest eventKey).toList.take 32)

def firstText (payload : Dict) (keys : List String) : Option String :=
  keys.findSome? fun key => match payload.get key with
    | .null => none
    | v => nonempty (some (stripText v.toStr))

def rawText (payload : Dict) (keys : List String) : Option String :=
  keys.findSome? fun key => match payload.get key with
    | .null => none
    | v => nonempty (some v.toStr)

def token (value : Option String) : String :=
  stripText (String.ofList ((value.getD "").toList.takeWhile (· ≠ '@')))

def hashedToken (value : Option String) : String :=
  if token value = "" then "unknown"
  else String.ofList ((Sha256.hexdigest (token value)).toList.take 12)

def boundedText (data : Dict) (key : String) : Option String :=
  match data.get key with
  | .str s => if stripText s ≠ "" ∧ s.length ≤ maxBridgeFrameBytes then some (stripText s) else none
  | _ => none

def strippedText (data : Dict) (key : String) : Option String :=
  match data.get key with
  | .str s => nonempty (some (stripText s))
  | _ => none

def safeTargetKey (target : Dict) : Dict :=
  let safe := ["remoteJid", "id", "participant"].foldl
    (fun safe key => safe.setStr? key (boundedText target key)) Dict.empty
  match target.get "fromMe" with
  | .bool fromMe => safe.setBool "fromMe" fromMe
  | _ => safe

def safeEnvelope (encrypted : Dict) : Dict :=
  ["encPayload", "encIv"].foldl (fun safe key => match encrypted.get key with
      | .str s => if s.length ≤ maxBridgeFrameBytes then safe.setStr key s else safe
      | _ => safe)
    ((Dict.empty.setStr "kind" "secretEncryptedMessage").setInt "secretEncType" 2)

def malformed {α : Type} (strict : Bool) (message : String) : Except Error (Option α) :=
  if strict then .error (valueError message) else .ok none

/-- `_encrypted_edit_observation`: the target of an edit the bridge could not decode, with
the parts of its envelope that may be stored. -/
def encryptedEditObservation (payload : Dict) (strict : Bool) :
    Except Error (Option (Option String × Dict)) :=
  let observationType := payload.get "observationType"
  let observationOnly := match payload.get "observationOnly" with
    | .bool b => b
    | _ => false
  let unmarked := match observationType with
    | .null => true
    | _ => false
  if !observationOnly && unmarked then .ok none
  else if !observationOnly || !observationType.eq (.str "encrypted_message_edit_undecoded") then
    malformed strict "invalid encrypted edit observation marker"
  else match payload.getDict? "encryptedEdit" with
    | none => malformed strict "invalid encrypted edit envelope"
    | some encrypted =>
      if !(encrypted.get "kind").eq (.str "secretEncryptedMessage") then
        malformed strict "invalid encrypted edit envelope"
      else if !(encrypted.get "secretEncType").eq (.int 2) then
        malformed strict "unsupported encrypted edit type"
      else
        let safe := safeEnvelope encrypted
        let targetId := boundedText payload "targetMessageId"
        match encrypted.getDict? "targetMessageKey" with
        | none => .ok (some (targetId, safe))
        | some target =>
          let safeTarget := safeTargetKey target
          let safe := if safeTarget.members.isEmpty then safe else safe.setDict "targetMessageKey" safeTarget
          let targetId := match (safeTarget.get "id").optStr with
            | some keyId => targetId.filter (· = keyId)
            | none => targetId
          .ok (some (targetId, safe))

def isHexDigit (c : Char) : Bool :=
  c.isDigit || ('a' ≤ c && c ≤ 'f') || ('A' ≤ c && c ≤ 'F')

def mediaHash (media : Dict) (key : String) : Option String :=
  match media.get key with
  | .str s =>
    let cs := Json.strip s.toList
    if cs.length = 64 ∧ cs.all isHexDigit then some (String.ofList (cs.map Char.toLower)) else none
  | _ => none

def mediaMetadata (payload : Dict) (key : String) : Option Dict :=
  (payload.getDict? key).bind fun media =>
    let texts (d : Dict) (keys : List String) : Dict :=
      keys.foldl (fun d key => d.setStr? key (strippedText media key)) d
    let d := texts Dict.empty ["kind", "mimeType", "fileName"]
    let d := match media.get "bytes" with
      | .int n => if 0 ≤ n then d.setInt "bytes" n else d
      | _ => d
    let d := texts d ["path", "ref"]
    let d := d.setStr? "sha256" ((mediaHash media "sha256").or (mediaHash media "hash"))
    if d.members.isEmpty then none else some d

def signalRevision (value : Json) (strict : Bool) : Except Error (Option {r : Int // 1 ≤ r}) :=
  match value with
  | .null => .ok none
  | v => match normalizeRevision v with
    | .ok r => .ok (some r)
    | .error e => if strict then .error e else .ok none

/-- The mapper of one channel. Bridge times are seconds, milliseconds or texts of either;
how a time becomes milliseconds (`_to_ms`, floating-point) is a parameter. -/
structure SignalMapper where
  channel : String := "whatsapp"
  toMs : Json → Option Int

/-- Arguments of `capture`: the kind and payload of the provider signal, the identity the
bridge may give it, and the time of the call. -/
structure CaptureArgs where
  kind : SignalKind
  payload : Dict
  eventId : Option String := none
  eventKey : Option String := none
  account : Option String := none
  observedAtMs : Option Int := none
  strict : Bool := false
  nowMs : Int

namespace SignalMapper
variable (m : SignalMapper)

def signal (kind : SignalKind) (eventKey chatId principal : String) (payload : Dict) (body : SignalBody)
    (sourceMessageId targetMessageId : Option String) (occurredMs : Option Int) : JournalSignal where
  kind := kind
  eventKey := eventKey
  eventId := signalEventId eventKey
  traceId := m.channel ++ ":" ++ chatId ++ ":" ++
    String.ofList ((canonicalHash (.str eventKey)).toList.take 12)
  channel := m.channel
  chatId := chatId
  principal := principal
  occurredMs := occurredMs.or (m.toMs (payload.get "timestamp"))
  sourceMessageId := sourceMessageId
  targetMessageId := targetMessageId
  payload := body

def messageIdKeys : List String := ["messageId", "message_id", "id"]

def senderKeys : List String := ["senderId", "participantJid", "sender", "from"]

def observed (payload : Dict) (observation : Option (Option String × Dict)) (body : SignalBody) :
    SignalBody :=
  match observation with
  | none => body
  | some (targetId, encrypted) =>
    let body := body.setBool .observationOnly true
    let body := body.setStr .observationType "encrypted_message_edit_undecoded"
    let body := body.setOptStr .targetMessageId targetId
    let body := body.setDict .encryptedEdit encrypted
    let body := body.setStr? .participantJid (strippedText payload "participantJid")
    let body := body.setStr? .senderPhoneJid (strippedText payload "senderPhoneJid")
    body.setStr? .senderName (strippedText payload "senderName")

def message (payload : Dict) (chatId : String) (strict : Bool) : Except Error (Option JournalSignal) :=
  match firstText payload messageIdKeys with
  | none => .ok none
  | some messageId => do
    let observation ← encryptedEditObservation payload strict
    let replyTo := firstText payload ["replyToMessageId", "reply_to_message_id"]
    let body := SignalBody.empty.setStr .text ((rawText payload ["text", "content"]).getD "")
    let body := body.setBool .isGroup
      ((payload.get "isGroup").truthy || "@g.us".toList.isSuffixOf chatId.toList)
    let body := body.setBool .mentionedBot (payload.get "mentionedBot").truthy
    let body := body.setOptStr .replyToMessageId replyTo
    let body := observed payload observation body
    let body := body.setStr? .replyToText (rawText payload ["replyToText", "reply_to_text"])
    let body := body.setStr? .replyToParticipant
      (firstText payload ["replyToParticipantJid", "reply_to_participant", "reply_to_participant_jid"])
    let body := body.setDict? .replyToMedia (mediaMetadata payload "replyToMedia")
    let body := body.setDict? .media (mediaMetadata payload "media")
    return some (m.signal .message (m.channel ++ ":" ++ chatId ++ ":message:" ++ messageId) chatId
      (token (firstText payload senderKeys)) payload body (some messageId)
      (match observation with
        | some (targetId, _) => targetId
        | none => replyTo) none)

def edit (payload : Dict) (chatId : String) (strict : Bool) : Except Error (Option JournalSignal) :=
  match firstText payload messageIdKeys with
  | none => .ok none
  | some messageId => do
    let editMs := m.toMs ((payload.get "timestamp").orElse (payload.get "editTimestamp"))
    let revisionRaw := match payload.get "revision" with
      | .null => payload.get "editRevision"
      | v => v
    let revision ← signalRevision revisionRaw strict
    let body := SignalBody.empty.setStr .text ((rawText payload ["text", "content"]).getD "")
    let body := revision.elim body body.setRevision
    return some (m.signal .edit
      (m.channel ++ ":" ++ chatId ++ ":edit:" ++ messageId ++ ":" ++
        toString ((revision.map Subtype.val).getD (editMs.getD 0)))
      chatId (token (firstText payload senderKeys)) payload body (some messageId) (some messageId) editMs)

def delete (payload : Dict) (chatId : String) : Option JournalSignal :=
  (firstText payload (messageIdKeys ++ ["targetMessageId"])).map fun messageId =>
    m.signal .delete (m.channel ++ ":" ++ chatId ++ ":delete:" ++ messageId) chatId
      (token (firstText payload senderKeys)) payload (SignalBody.empty.setBool .revoked true)
      (some messageId) (some messageId) none

def reaction (payload : Dict) (chatId : String) : Option JournalSignal :=
  let target := firstText payload ["targetMessageId", "target_message_id"]
  let sender := firstText payload senderKeys
  let emoji := (firstText payload ["emoji", "text", "reaction"]).getD ""
  let timestamp := m.toMs (payload.get "timestamp")
  if target = none ∧ ¬ (sender ≠ none ∧ emoji ≠ "") then none
  else
    let who := if token sender = "" then "unknown" else token sender
    some (m.signal .reaction
      (m.channel ++ ":" ++ chatId ++ ":reaction:" ++ target.getD "unknown" ++ ":" ++ who ++ ":" ++ emoji ++
        ":" ++ toString (timestamp.getD 0))
      chatId (token sender) payload
      ((SignalBody.empty.setStr .emoji emoji).setBool .removed (emoji = ""))
      (firstText payload messageIdKeys) target timestamp)

def receipt (payload : Dict) (chatId : String) : Option JournalSignal :=
  (firstText payload messageIdKeys).map fun messageId =>
    let recipient := firstText payload ["recipientJid", "recipient", "participantJid", "to"]
    let status := String.ofList
      (((firstText payload ["status", "receiptType"]).getD "delivered").toList.map Char.toLower)
    m.signal .receipt
      (m.channel ++ ":" ++ chatId ++ ":receipt:" ++ messageId ++ ":" ++ hashedToken recipient ++ ":" ++ status)
      chatId (token recipient) payload
      ((SignalBody.empty.setStr .status status).setStr .recipientToken (hashedToken recipient))
      (some messageId) (some messageId) none

def mapKind (payload : Dict) (chatId : String) (kind : SignalKind) (strict : Bool) :
    Except Error (Option JournalSignal) :=
  match kind with
  | .message => m.message payload chatId strict
  | .edit => m.edit payload chatId strict
  | .delete => .ok (m.delete payload chatId)
  | .reaction => .ok (m.reaction payload chatId)
  | .receipt => .ok (m.receipt payload chatId)

/-- `map`: one bridge payload into a canonical signal, under the identity the bridge gives it. -/
def map (c : CaptureArgs) : Except Error (Option JournalSignal) :=
  match firstText c.payload ["chatJid", "chat_jid", "chat", "remoteJid"] with
  | none => .ok none
  | some chatId => do
    let signal ← m.mapKind c.payload chatId c.kind c.strict
    return signal.map fun signal => { signal with
      eventId := (nonempty c.eventId).getD signal.eventId
      eventKey := (nonempty c.eventKey).getD signal.eventKey
      account := c.account.getD signal.account
      observedAtMs := c.observedAtMs }

def signal? (c : CaptureArgs) : Option JournalSignal :=
  match m.map c with
  | .ok signal => signal
  | .error _ => none

variable {m} in
theorem signal?_eq_some {c : CaptureArgs} {σ : JournalSignal} :
    m.signal? c = some σ ↔ m.map c = .ok (some σ) := by
  unfold signal?
  cases m.map c <;> simp

end SignalMapper

namespace JournalSignal

def appendArgs (σ : JournalSignal) (nowMs : Int) : AppendArgs :=
  { eventKey := σ.eventKey, eventId := σ.eventId, traceId := σ.traceId,
    payload := .mapping σ.toEventPayload, nowMs := nowMs, account := some σ.account,
    direction := some σ.direction.name, revision := some σ.revision, audienceRef := σ.audienceRef }

def asEvent (σ : JournalSignal) (nowMs : Int) : CanonicalEvent :=
  { eventId := σ.eventId, eventKey := σ.eventKey, traceId := σ.traceId, kind := σ.kind.event,
    origin := canonicalWhatsappOrigin, principal := σ.principal, channel := σ.channel,
    chatId := σ.chatId, account := σ.account, direction := σ.direction, revision := σ.revision,
    audienceRef := σ.audienceRef, occurredMs := σ.occurredMs, createdMs := nowMs,
    sourceMessageId := σ.sourceMessageId, targetMessageId := σ.targetMessageId, threadId := none,
    turnId := none, payload := σ.payload.data, payloadHash := "",
    revision_pos := σ.revision_pos }

end JournalSignal

theorem EventKind.ofName?_name {kind : EventKind} : EventKind.ofName? kind.name = some kind := by
  cases kind <;> decide

theorem strField_str {key value : String} {data : Dict} (h : data.get key = .str value) :
    strField key data = value := by
  rw [strField,h]
  unfold Json.orElse
  by_cases hv : value = ""
  · subst hv
    rfl
  · simp [Json.truthy,hv,Json.toStr]

structure JournalSignal.Journals (σ : JournalSignal) (e : CanonicalEvent) : Prop where
  eventId : e.eventId = σ.eventId
  eventKey : e.eventKey = σ.eventKey
  kind : e.kind = σ.kind.event
  channel : e.channel = σ.channel
  chatId : e.chatId = σ.chatId
  account : e.account = σ.account
  revision : e.revision = σ.revision
  source : e.sourceMessageId = σ.sourceMessageId

namespace JournalSignal

variable (σ : JournalSignal)

/-- The body writes over none of the identity of a signal. -/
theorem toEventPayload_get {key : String} (hk : key ∈ identityMembers) :
    σ.toEventPayload.get key = σ.identity.get key := by
  rw [toEventPayload,Dict.get_update,σ.payload.plain key hk]
  rfl

private theorem identity_get :
    σ.identity.get "kind" = .str σ.kind.event.name ∧ σ.identity.get "channel" = .str σ.channel ∧
    σ.identity.get "chat_id" = .str σ.chatId ∧ σ.identity.get "revision" = .int σ.revision ∧
    σ.identity.get "source_message_id" = Dict.ofOptStr σ.sourceMessageId ∧
    σ.identity.get "message_id" = .null := by
  unfold identity
  cases σ.observedAtMs <;> simp

theorem coerceEvent_journals {σ : JournalSignal} {n : Int} {e : CanonicalEvent}
    (hs : ∀ id, σ.sourceMessageId = some id → id ≠ "") (h : coerceEvent (σ.appendArgs n) = .ok e) :
    σ.Journals e := by
  obtain ⟨hk,hc,hi,-,hm,hz⟩ := σ.identity_get
  unfold coerceEvent appendArgs coerceMapping at h
  obtain ⟨normalized,-,h⟩ := except_bind_ok h
  -- The revision is written back; every other member is read from the signal's mapping.
  have hb (key : String) (hr : key ≠ "revision") (hkey : key ∈ identityMembers) :
      Dict.get key (if σ.toEventPayload.has "revision" = true then
        σ.toEventPayload.setInt "revision" normalized.1 else σ.toEventPayload) = σ.identity.get key := by
    rw [← σ.toEventPayload_get hkey]
    split
    · rw [Dict.get_setInt,if_neg hr]
    · rfl
  generalize (if σ.toEventPayload.has "revision" = true then
    σ.toEventPayload.setInt "revision" normalized.1 else σ.toEventPayload) = body at h hb
  obtain ⟨revision,hv,h⟩ := except_bind_ok h
  obtain ⟨payloadHash,-,h⟩ := except_bind_ok h
  obtain ⟨kind,hn,h⟩ := except_bind_ok h
  obtain ⟨direction,-,h⟩ := except_bind_ok h
  cases h
  refine ⟨rfl,rfl,?_,?_,?_,rfl,?_,?_⟩
  · have ht : (Json.str σ.kind.event.name).truthy = true := by cases σ.kind <;> decide
    rw [hb "kind" (by decide) (by decide),hk,Json.orElse,if_pos ht,Json.toStr,eventKindOf,
      EventKind.ofName?_name] at hn
    cases hn
    rfl
  · exact strField_str ((hb "channel" (by decide) (by decide)).trans hc)
  · exact strField_str ((hb "chat_id" (by decide) (by decide)).trans hi)
  · change normalizeRevision (.int σ.revision) = .ok revision at hv
    rw [normalizeRevision,dif_pos σ.revision_pos] at hv
    cases hv
    rfl
  · rw [hb "source_message_id" (by decide) (by decide),hb "message_id" (by decide) (by decide),hm,hz]
    cases hid : σ.sourceMessageId with
    | none => rfl
    | some id =>
      have hne := hs id hid
      simp [Dict.ofOptStr,Json.orElse,Json.truthy,Json.optStr,Json.toStr,hne]

end JournalSignal

theorem signalEventId_ne {eventKey : String} : signalEventId eventKey ≠ "" := by
  intro h
  have hl := congrArg (fun t => t.toList.length) h
  simp [signalEventId,Sha256.hexdigest_length] at hl

theorem firstText_ne {payload : Dict} {keys : List String} {text : String}
    (h : firstText payload keys = some text) : text ≠ "" := by
  obtain ⟨key,-,hk⟩ := List.exists_of_findSome?_eq_some h
  split at hk
  · cases hk
  · exact of_decide_eq_true (Option.filter_eq_some_iff.mp hk).2

/-- What every signal of the mapper has: its kind is the one asked for, chat, event id and
source message are not empty, and only a reaction may come without a source message. -/
structure JournalSignal.Mapped (k : SignalKind) (σ : JournalSignal) : Prop where
  kind : σ.kind = k
  chatId : σ.chatId ≠ ""
  eventId : σ.eventId ≠ ""
  source : ∀ id, σ.sourceMessageId = some id → id ≠ ""
  named : k ≠ .reaction → ∃ id, σ.sourceMessageId = some id

namespace SignalMapper
variable (m : SignalMapper) {kind : SignalKind} {payload : Dict} {σ : JournalSignal} {chatId : String}

private theorem signal_mapped {eventKey principal : String}
    {body : SignalBody} {keys : List String} {id : String} {target : Option String}
    {occurredMs : Option Int} (hc : chatId ≠ "") (hf : firstText payload keys = some id) :
    (m.signal kind eventKey chatId principal payload body (some id) target occurredMs).Mapped kind :=
  ⟨rfl,hc,signalEventId_ne,fun _ h => Option.some.inj h ▸ firstText_ne hf,fun _ => ⟨id,rfl⟩⟩

private theorem mapKind_mapped (hc : chatId ≠ "")
    {strict : Bool} (h : m.mapKind payload chatId kind strict = .ok (some σ)) : σ.Mapped kind := by
  unfold mapKind at h
  cases kind with
  | message =>
    dsimp only at h
    unfold message at h
    split at h
    · cases h
    · obtain ⟨observation,-,h⟩ := except_bind_ok h
      cases h
      exact m.signal_mapped hc ‹_›
  | edit =>
    dsimp only at h
    unfold edit at h
    split at h
    · cases h
    · obtain ⟨revision,-,h⟩ := except_bind_ok h
      cases h
      exact m.signal_mapped hc ‹_›
  | delete | receipt =>
    obtain ⟨id,hi,rfl⟩ := Option.map_eq_some_iff.mp (Except.ok.inj h)
    exact m.signal_mapped hc hi
  | reaction =>
    have hr := Except.ok.inj h
    unfold reaction at hr
    dsimp only at hr
    split at hr
    · cases hr
    · cases hr
      exact ⟨rfl,hc,signalEventId_ne,fun _ hf => firstText_ne hf,fun hk => absurd rfl hk⟩

theorem signal?_mapped {m : SignalMapper} {c : CaptureArgs} (h : m.signal? c = some σ) : σ.Mapped c.kind := by
  have h := signal?_eq_some.mp h
  unfold map at h
  split at h
  · cases h
  next chatId hc =>
    obtain ⟨signal,hs,h⟩ := except_bind_ok h
    obtain ⟨σ₀,rfl,rfl⟩ := Option.map_eq_some_iff.mp (Except.ok.inj h)
    have hm := m.mapKind_mapped (firstText_ne hc) hs
    refine { hm with eventId := ?_ }
    cases hi : nonempty c.eventId with
    | none => exact hm.eventId
    | some id => exact of_decide_eq_true (Option.filter_eq_some_iff.mp hi).2

end SignalMapper

def blankText (value : Option String) : Bool := value.all fun v => stripText v = ""

/-- `SignalJournalSink.capture`: map and append one provider event, then project an edit
or a delete onto the sources it names. -/
def capture (m : SignalMapper) (c : CaptureArgs) : StoreM (Option String) := do
  require (¬ (c.strict ∧ (blankText c.eventId ∨ blankText c.eventKey)))
    (valueError "strict capture requires non-empty event identity")
  match ← liftExcept (m.map c) with
  | none =>
    require (¬ c.strict) (valueError ("malformed WhatsApp " ++ c.kind.event.name ++ " event"))
    return none
  | some σ =>
    let stored ← appendEvent (σ.appendArgs c.nowMs)
    require (¬ (c.strict ∧ stored ≠ σ.eventId))
      (valueError "strict capture found a conflicting event identity")
    if c.kind = .edit ∨ c.kind = .delete then
      let _ ← projectSourceRevocation (σ.asEvent c.nowMs) c.nowMs
    return some stored

end Yeoman.Processing
