import Yeoman.Policy.Document

/-! The policy engine: the resolved policy of a chat is compiled and a message is evaluated
against it. -/
namespace Yeoman.Policy
open Library
open Processing (stripText lowerText)

structure ActorContext where
  (channel chatId senderPrimary : String)
  senderAliases : List String := []
  isGroup : Bool := false
  mentionedBot : Bool := false
  replyToBot : Bool := false
  content : String := ""
  isVoice : Bool := false

structure CompiledToolAccessRule where
  mode : AccessMode
  senders : Finset String

structure CompiledPolicy where
  whoCanTalkMode : AccessMode
  whoCanTalkSenders : Finset String
  whenToReplyMode : WhenToReplyMode
  (whenToReplySenders blockedSenders : Finset String)
  allowedToolsMode : AllowedToolsMode
  (allowedToolsTools allowedToolsDeny : Finset String)
  toolAccessRules : List (String × CompiledToolAccessRule)
  personaFile : Option String
  wakePhrases : List String
  (memes polls groupReminders decisions : Bool)

structure PolicyDecision where
  (acceptMessage shouldRespond : Bool)
  allowedTools : Finset String
  personaFile : Option String
  reason : String

def normalizeToolNames (values : List String) : Finset String := ((values.map stripText).filter (· ≠ "")).toFinset

def normalizeWakeText (value : String) : List (List Char) :=
  ((lowerText value).toList.splitOnP (fun c => !c.isAlphanum)).filter (· ≠ [])

def normalizeWakePhrases (values : List String) : List (List (List Char)) := (values.map normalizeWakeText).filter (· ≠ [])

def joined (words : List (List Char)) : List Char := ' ' :: words.flatMap (· ++ [' '])

def wakePhraseMatch (content : String) (wakePhrases : List String) : Bool :=
  let words := normalizeWakeText content
  words ≠ [] && (normalizeWakePhrases wakePhrases).any fun phrase => joined phrase <:+: joined words

def isForwardCommand (content : String) : Bool :=
  let text := (stripText content).toList
  let text := if text.head? = some '/' then text.tail else text
  let rest := text.drop 7
  (text.take 7).map Char.toLower = "forward".toList &&
    (rest = [] || (rest.head?.any Library.Json.isSpace && rest.dropWhile Library.Json.isSpace ≠ [] &&
      !(rest.dropWhile Library.Json.isSpace).contains '\n'))

def senderTokens (senderPrimary : String) (senderAliases : List String) : List String :=
  ((senderPrimary :: senderAliases).map normalizeIdentityToken).filter (· ≠ "")

def senderMatch (actor : ActorContext) (allowed : Finset String) : Bool :=
  (senderTokens actor.senderPrimary actor.senderAliases).any (· ∈ allowed)

def compileChatPolicy (channel : String) (owners : Finset String) (resolved : ChatPolicy) : CompiledPolicy where
  whoCanTalkMode := resolved.whoCanTalk.mode
  whoCanTalkSenders := normalizeSenderList channel resolved.whoCanTalk.senders (some owners)
  whenToReplyMode := resolved.whenToReply.mode
  whenToReplySenders := normalizeSenderList channel resolved.whenToReply.senders (some owners)
  blockedSenders := normalizeSenderList channel resolved.blockedSenders.senders (some owners)
  allowedToolsMode := resolved.allowedTools.mode
  allowedToolsTools := normalizeToolNames resolved.allowedTools.tools
  allowedToolsDeny := normalizeToolNames resolved.allowedTools.deny
  toolAccessRules := (resolved.toolAccess.map fun item =>
    (stripText item.1, ⟨item.2.mode,normalizeSenderList channel item.2.senders (some owners)⟩)).filter (·.1 ≠ "")
  personaFile := resolved.personaFile
  wakePhrases := resolved.wakePhrases
  memes := resolved.memes
  polls := resolved.polls
  groupReminders := resolved.groupReminders
  decisions := resolved.decisions

structure PolicyEngine where
  policy : PolicyConfig
  applyChannels : List String := ["telegram", "whatsapp"]

namespace PolicyEngine
variable (engine : PolicyEngine) (actor : ActorContext)

def resolveCompiledPolicy (channel chatId : String) : CompiledPolicy :=
  compileChatPolicy channel (engine.policy.ownerIndex channel) (engine.policy.chatPolicy channel chatId)

def ownerMatch : Bool := senderMatch actor (engine.policy.ownerIndex actor.channel)

def evaluateWhoCanTalk (policy : CompiledPolicy) : Bool × String :=
  match policy.whoCanTalkMode with
  | .everyone => (true, "who_can_talk:everyone")
  | .allowlist => (senderMatch actor policy.whoCanTalkSenders, "who_can_talk:allowlist")
  | .ownerOnly => (engine.ownerMatch actor, "who_can_talk:owner_only")

def evaluateBlockedSender (actor : ActorContext) (policy : CompiledPolicy) : Bool × String :=
  (senderMatch actor policy.blockedSenders, "blocked_sender")

def evaluateWhenToReply (policy : CompiledPolicy) : Bool × String :=
  match policy.whenToReplyMode with
  | .all => (true, "when_to_reply:all")
  | .off => (false, "when_to_reply:off")
  | .mentionOnly =>
    if !actor.isGroup then (true, "when_to_reply:mention_only_dm")
    else if isForwardCommand actor.content then (true, "when_to_reply:explicit_command")
    else if actor.mentionedBot || actor.replyToBot then (true, "when_to_reply:mention_only_group")
    else if actor.isVoice && wakePhraseMatch actor.content policy.wakePhrases then
      (true, "when_to_reply:mention_only_group_voice_wake_phrase")
    else (false, "when_to_reply:mention_only_group")
  | .allowedSenders => (senderMatch actor policy.whenToReplySenders, "when_to_reply:allowed_senders")
  | .ownerOnly => (engine.ownerMatch actor, "when_to_reply:owner_only")

def isToolAllowedForActor (toolName : String) (policy : CompiledPolicy) : Bool :=
  match Table.lookup Prod.fst toolName policy.toolAccessRules.reverse with
  | none => true
  | some (_, rule) =>
    match rule.mode with
    | .everyone => true
    | .allowlist => senderMatch actor rule.senders
    | .ownerOnly => engine.ownerMatch actor

def namedTools (policy : CompiledPolicy) (allTools : Finset String) : Finset String :=
  ((match policy.allowedToolsMode with
    | .all => allTools
    | .allowlist => policy.allowedToolsTools) \ policy.allowedToolsDeny) ∩ allTools

def guardSpawn (allowed : Finset String) : Finset String := if "exec" ∈ allowed then allowed else allowed.erase "spawn"

def grantOwnerTools (allTools allowed : Finset String) : Finset String :=
  if engine.policy.ownerTools ≠ [] ∧ engine.ownerMatch actor then allowed ∪ (engine.policy.ownerTools.toFinset ∩ allTools)
  else allowed

def dropUnless (switch : Bool) (tool : String) (allowed : Finset String) : Finset String :=
  if switch then allowed else allowed.erase tool

def resolveAllowedTools (policy : CompiledPolicy) (allTools : Finset String) : Finset String :=
  let allowed := guardSpawn (namedTools policy allTools)
  let allowed := allowed.filter fun tool => engine.isToolAllowedForActor actor tool policy
  let allowed := engine.grantOwnerTools actor allTools allowed
  let allowed := dropUnless policy.memes "make_meme" allowed
  let allowed := dropUnless policy.polls "poll" allowed
  let allowed := dropUnless policy.groupReminders "group_reminder" allowed
  dropUnless policy.decisions "decisions" allowed

def evaluate (allTools : Finset String) : PolicyDecision :=
  if actor.channel ∉ engine.applyChannels then ⟨true,true,allTools,none,"policy_not_applied"⟩
  else
    let policy := engine.resolveCompiledPolicy actor.channel actor.chatId
    let blocked := evaluateBlockedSender actor policy
    if blocked.1 then ⟨false,false,∅,policy.personaFile,blocked.2⟩
    else
      let accepted := engine.evaluateWhoCanTalk actor policy
      if !accepted.1 then ⟨false,false,∅,policy.personaFile,accepted.2⟩
      else
        let replies := engine.evaluateWhenToReply actor policy
        if !replies.1 then ⟨true,false,∅,policy.personaFile,replies.2⟩
        else ⟨true,true,engine.resolveAllowedTools actor policy allTools,policy.personaFile,accepted.2 ++ "|" ++ replies.2⟩

end PolicyEngine
end Yeoman.Policy
