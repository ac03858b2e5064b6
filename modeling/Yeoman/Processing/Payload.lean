import Yeoman.Processing.Models

/-! Effect payload variants and targets: their mapping forms, the decoders that
read them back, and the hashes that identify them. -/
namespace Yeoman.Processing
open Library

def optMember (key : String) : Option String → Json.Members
  | some s => [(key, .str s)]
  | none => []

def truthyMember (key : String) : Option String → Json.Members
  | some s => if s = "" then [] else [(key, .str s)]
  | none => []

def nonempty (v : Option String) : Option String := v.filter (· ≠ "")

private theorem truthyMember_wellFormed {key : String} {v : Option String} {kv : String × Json}
    (h : kv ∈ truthyMember key v) : kv.2.WellFormed := by
  cases v with
  | none => cases h
  | some s =>
    rw [truthyMember] at h
    split at h
    · cases h
    · rw [List.mem_singleton.mp h]
      trivial

private theorem truthyMember_keys (key : String) (v : Option String) :
    (truthyMember key v).map Prod.fst = [] ∨ (truthyMember key v).map Prod.fst = [key] := by
  cases v with
  | none => exact .inl rfl
  | some s =>
    rw [truthyMember]
    split
    · exact .inl rfl
    · exact .inr rfl

inductive EffectPayload where
  | text (text : String) (replyTo : Option String)
  | media (media : List String) (caption : Option String)
  | forward (sourceChatId sourceMessageId : String)
  | reaction (messageId emoji : String) (participantJid reason : Option String)
  | delete (messageId : String)
  | externalAction (action : String) (arguments : Dict)

namespace EffectPayload

def kind : EffectPayload → String
  | text .. => "text"
  | media .. => "media"
  | forward .. => "forward"
  | reaction .. => "reaction"
  | delete .. => "delete"
  | externalAction .. => "external_action"

def members : EffectPayload → Json.Members
  | text body replyTo => [("kind", .str "text"), ("text", .str body)] ++ optMember "reply_to" replyTo
  | media items caption =>
    [("kind", .str "media"), ("media", .arr (items.map .str))] ++ optMember "caption" caption
  | forward chat message =>
    [("kind", .str "forward"), ("source_chat_id", .str chat), ("source_message_id", .str message)]
  | reaction message emoji participant reason =>
    [("kind", .str "reaction"), ("message_id", .str message), ("emoji", .str emoji)] ++
      truthyMember "participant_jid" participant ++ truthyMember "reason" reason
  | delete message => [("kind", .str "delete"), ("message_id", .str message)]
  | externalAction action arguments =>
    [("kind", .str "external_action"), ("action", .str action), ("arguments", arguments.toJson)]

theorem strings_wellFormed (xs : List String) :
    Json.WellFormedItems (xs.map Json.str) := by
  induction xs with
  | nil => trivial
  | cons x xs ih => exact ⟨trivial,ih⟩

theorem members_wellFormed (p : EffectPayload) : (Json.obj p.members).WellFormed := by
  cases p with
  | text body replyTo =>
    cases replyTo with
    | none => exact ⟨by simp [members,optMember],trivial,trivial,trivial⟩
    | some reply => exact ⟨by simp [members,optMember],trivial,trivial,trivial,trivial⟩
  | media items caption =>
    cases caption with
    | none => exact ⟨by simp [members,optMember],trivial,strings_wellFormed items,trivial⟩
    | some caption =>
      exact ⟨by simp [members,optMember],trivial,strings_wellFormed items,trivial,trivial⟩
  | forward chat message => exact ⟨by simp [members],trivial,trivial,trivial,trivial⟩
  | reaction message emoji participant reason =>
    have hm : Json.WellFormedMembers (members (.reaction message emoji participant reason)) := by
      rw [Json.wellFormedMembers_iff]
      intro kv hk
      simp only [members,List.mem_append,List.mem_cons,List.not_mem_nil,or_false] at hk
      rcases hk with ((rfl | rfl | rfl) | hk) | hk
      · trivial
      · trivial
      · trivial
      · exact truthyMember_wellFormed hk
      · exact truthyMember_wellFormed hk
    refine ⟨?_,hm⟩
    rcases truthyMember_keys "participant_jid" participant with hp | hp <;>
      rcases truthyMember_keys "reason" reason with hr | hr <;> simp [members,hp,hr]
  | delete message => exact ⟨by simp [members],trivial,trivial,trivial⟩
  | externalAction action arguments =>
    exact ⟨by simp [members],trivial,trivial,arguments.wellFormed,trivial⟩

def toDict (p : EffectPayload) : Dict := ⟨p.members,p.members_wellFormed⟩

end EffectPayload

def kindInference : List (String × List String) :=
  [("external_action", ["action"]), ("forward", ["source_chat_id", "source_message_id"]),
    ("reaction", ["emoji"]), ("delete", ["message_id"]), ("media", ["media"]), ("text", ["text"])]

def payloadKind (data : Dict) : Json :=
  match data.get "kind" with
  | .null =>
    match kindInference.find? (fun c => c.2.any fun key => data.has key) with
    | some c => .str c.1
    | none => .null
  | kind => kind

def strField (key : String) (data : Dict) : String := ((data.get key).orElse (.str "")).toStr

/-- The items an accepted `media` value lists: a string is one item, a mapping
iterates over its keys. -/
def mediaItems : Json → Option (List String)
  | .str s => some [s]
  | .arr xs => some (xs.map Json.toStr)
  | .obj kvs => some (kvs.map Prod.fst)
  | _ => none

def valueError (message : String) : Error := ⟨.valueError,message⟩

def textFromMapping (data : Dict) : EffectPayload :=
  .text (strField "text" data) ((data.get "reply_to").orElse (data.get "replyTo")).optStr

def mediaFromMapping (data : Dict) : Except Error EffectPayload :=
  match mediaItems (((data.get "media").orElse (data.get "media_paths")).orElse (.arr [])) with
  | some items => .ok (.media items (data.get "caption").optStr)
  | none => .error (valueError "media payload requires a list of media references")

def externalActionFromMapping (data : Dict) : Except Error EffectPayload :=
  if (data.get "arguments").truthy then
    match data.getDict? "arguments" with
    | some arguments => .ok (.externalAction (strField "action" data) arguments)
    | none => .error (valueError "external_action arguments must be a mapping")
  else .ok (.externalAction (strField "action" data) Dict.empty)

def payloadFromMapping (data : Dict) : Except Error EffectPayload :=
  match payloadKind data with
  | .str "text" => .ok (textFromMapping data)
  | .str "media" => mediaFromMapping data
  | .str "forward" =>
    .ok (.forward (strField "source_chat_id" data) (strField "source_message_id" data))
  | .str "reaction" =>
    .ok (.reaction (strField "message_id" data) (strField "emoji" data)
      (data.get "participant_jid").optStr (data.get "reason").optStr)
  | .str "delete" => .ok (.delete (strField "message_id" data))
  | .str "external_action" => externalActionFromMapping data
  | _ => .error (valueError ("unsupported effect payload: " ++ showSorted (data.members.map Prod.fst)))

inductive PayloadArg where
  | typed (payload : EffectPayload)
  | mapping (data : Dict)

def payloadToMapping : PayloadArg → Except Error Dict
  | .typed payload => .ok payload.toDict
  | .mapping data => (payloadFromMapping data).map EffectPayload.toDict

def EffectPayload.payloadHash (p : EffectPayload) : String := canonicalHash p.toDict.toJson

structure EffectTarget where
  (channel chatId : String)
  threadId : Option String := none
  messageId : Option String := none
  channel_ne : channel ≠ ""
  chatId_ne : chatId ≠ ""

namespace EffectTarget

def members (t : EffectTarget) : Json.Members :=
  [("channel", .str t.channel), ("chat_id", .str t.chatId)] ++
    optMember "thread_id" t.threadId ++ optMember "message_id" t.messageId

theorem members_wellFormed (t : EffectTarget) : (Json.obj t.members).WellFormed := by
  obtain ⟨channel,chat,thread,message,_,_⟩ := t
  refine ⟨?_,?_⟩
  · cases thread <;> cases message <;> simp [members,optMember]
  · cases thread <;> cases message <;>
      exact ⟨trivial,trivial,by simp [optMember,Json.WellFormedMembers,Json.WellFormed]⟩

def toDict (t : EffectTarget) : Dict := ⟨t.members,t.members_wellFormed⟩

def build (channel chatId : String) (threadId messageId : Option String) :
    Except Error EffectTarget :=
  if h : channel ≠ "" ∧ chatId ≠ "" then .ok ⟨channel,chatId,threadId,messageId,h.1,h.2⟩
  else .error (valueError "effect target requires channel and chat_id")

def fromMapping (data : Dict) : Except Error EffectTarget :=
  build (strField "channel" data) (strField "chat_id" data)
    (data.get "thread_id").optStr (data.get "message_id").optStr

def targetHash (t : EffectTarget) : String := canonicalHash t.toDict.toJson

def key (t : EffectTarget) : String := t.channel ++ ":" ++ t.chatId

end EffectTarget

def loadMapping (text : String) : Except Error Dict :=
  match Dict.loads? text with
  | some d => .ok d
  | none => .error (valueError "stored JSON is not a mapping")

def decodePayload (text : String) : Except Error EffectPayload := do
  payloadFromMapping (← loadMapping text)

def decodeTarget (text : String) : Except Error (Option EffectTarget) := do
  if text = "" then return none
  let decoded ← loadMapping text
  if decoded.members.isEmpty then return none
  return some (← EffectTarget.fromMapping decoded)

end Yeoman.Processing
