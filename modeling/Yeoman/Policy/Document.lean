import Yeoman.Processing.Reconcile
import Mathlib.Data.Finset.Lattice.Fold

/-! The policy document: defaults, channel layers and chat layers, and how they are merged. Only
the settings that the evaluation of a message reads are kept. -/
namespace Yeoman.Policy
open Library Table
open Processing (stripText lowerText)

/-! Identities. -/

def dropAt (s : String) : String := if s.toList.head? = some '@' then String.ofList s.toList.tail else s

def normalizeIdentityToken (value : String) : String := lowerText (stripText (dropAt (stripText value)))

def isDigits (s : String) : Bool := s ≠ "" && s.toList.all Char.isDigit

def partition (sep : Char) (s : String) : String × String :=
  (String.ofList (s.toList.takeWhile (· ≠ sep)), String.ofList ((s.toList.dropWhile (· ≠ sep)).drop 1))

def plusVariants (base : String) : Finset String :=
  if base.toList.head? = some '+' then {String.ofList base.toList.tail}
  else if isDigits base then {"+" ++ base} else ∅

def expandChannelAliases (channel token : String) : Finset String :=
  if token = "" then ∅
  else if channel = "telegram" then (if isDigits token then {token} else {token, "@" ++ token})
  else if channel = "whatsapp" then
    let (left, right) := partition '@' token
    let base := (partition ':' left).1
    {token, base} ∪ (if right = "" then ∅ else {base ++ "@" ++ right}) ∪ plusVariants base
  else {token}

def entryAliases (channel : String) (owners : Option (Finset String)) (value : String) : Finset String :=
  match owners with
  | some owners =>
    if lowerText (stripText value) = "$owner" then owners
    else expandChannelAliases channel (normalizeIdentityToken value)
  | none => expandChannelAliases channel (normalizeIdentityToken value)

def normalizeSenderList (channel : String) (values : List String) (owners : Option (Finset String)) : Finset String :=
  values.foldr (fun value names => entryAliases channel owners value ∪ names) ∅

theorem mem_normalizeSenderList {channel t : String} {values : List String} {owners : Option (Finset String)} :
    t ∈ normalizeSenderList channel values owners ↔ ∃ v ∈ values, t ∈ entryAliases channel owners v := by
  induction values with
  | nil => simp [normalizeSenderList]
  | cons v values ih =>
    change t ∈ entryAliases channel owners v ∪ normalizeSenderList channel values owners ↔ _
    rw [Finset.mem_union,ih,List.exists_mem_cons_iff]

/-! The schema. -/

inductive AccessMode where
  | everyone
  | allowlist
  | ownerOnly
deriving DecidableEq

inductive WhenToReplyMode where
  | all
  | mentionOnly
  | allowedSenders
  | ownerOnly
  | off
deriving DecidableEq

inductive AllowedToolsMode where
  | all
  | allowlist
deriving DecidableEq

/-- `WhoCanTalkPolicy`, `WhenToReplyPolicy` and `ToolAccessRule`: a mode and a sender list. -/
structure SenderRule (μ : Type) where
  mode : μ
  senders : List String
deriving DecidableEq

structure SenderRuleOverride (μ : Type) where
  mode : Option μ := none
  senders : Option (List String) := none
deriving DecidableEq

structure AllowedToolsPolicy where
  mode : AllowedToolsMode := .all
  tools : List String := []
  deny : List String := []
deriving DecidableEq

structure AllowedToolsPolicyOverride where
  mode : Option AllowedToolsMode := none
  tools : Option (List String) := none
  deny : Option (List String) := none
deriving DecidableEq

structure BlockedSendersPolicy where
  senders : List String := []
deriving DecidableEq

structure BlockedSendersPolicyOverride where
  senders : Option (List String) := none
deriving DecidableEq

abbrev ToolAccessRule := SenderRule AccessMode

structure ChatPolicy where
  whoCanTalk : SenderRule AccessMode := ⟨.everyone,[]⟩
  whenToReply : SenderRule WhenToReplyMode := ⟨.all,[]⟩
  blockedSenders : BlockedSendersPolicy := {}
  allowedTools : AllowedToolsPolicy := {}
  toolAccess : List (String × ToolAccessRule) := []
  personaFile : Option String := none
  wakePhrases : List String := []
  memes : Bool := false
  polls : Bool := false
  groupReminders : Bool := false
  decisions : Bool := false
deriving DecidableEq

structure ChatPolicyOverride where
  whoCanTalk : Option (SenderRuleOverride AccessMode) := none
  whenToReply : Option (SenderRuleOverride WhenToReplyMode) := none
  blockedSenders : Option BlockedSendersPolicyOverride := none
  allowedTools : Option AllowedToolsPolicyOverride := none
  toolAccess : Option (List (String × SenderRuleOverride AccessMode)) := none
  personaFile : Option String := none
  wakePhrases : Option (List String) := none
  memes : Option Bool := none
  polls : Option Bool := none
  groupReminders : Option Bool := none
  decisions : Option Bool := none
deriving DecidableEq

/-- The chats are the entries of one dict. -/
structure ChannelPolicy where
  default : ChatPolicyOverride := {}
  chats : List (String × ChatPolicyOverride) := []
  distinct : Table.Unique Prod.fst chats := by exact List.nodup_nil
deriving DecidableEq

structure PolicyConfig where
  owners : List (String × List String) := []
  defaults : ChatPolicy := {}
  ownerTools : List String := ["web_search", "web_fetch", "web_map", "web_crawl", "deep_research", "youtube_transcript",
    "video_understand", "browse"]
  channels : List (String × ChannelPolicy) := []
  distinct : Table.Unique Prod.fst channels := by exact List.nodup_nil
deriving DecidableEq

/-! `_deep_merge`: what the override leaves out is inherited, and lists are replaced. -/

def SenderRule.merge {μ : Type} (base : SenderRule μ) (override : Option (SenderRuleOverride μ)) : SenderRule μ :=
  ⟨(override.bind SenderRuleOverride.mode).getD base.mode,(override.bind SenderRuleOverride.senders).getD base.senders⟩

def AllowedToolsPolicy.merge (base : AllowedToolsPolicy) (override : Option AllowedToolsPolicyOverride) : AllowedToolsPolicy :=
  ⟨(override.bind AllowedToolsPolicyOverride.mode).getD base.mode,
    (override.bind AllowedToolsPolicyOverride.tools).getD base.tools,
    (override.bind AllowedToolsPolicyOverride.deny).getD base.deny⟩

def ChatPolicyOverride.ownBlocked (override : ChatPolicyOverride) : Option (List String) :=
  override.blockedSenders.bind BlockedSendersPolicyOverride.senders

def mergeToolAccess (base : List (String × ToolAccessRule)) (override : List (String × SenderRuleOverride AccessMode)) :
    List (String × ToolAccessRule) :=
  override.foldl (fun rules item =>
    let inherited := ((lookup Prod.fst item.1 rules).map Prod.snd).getD ⟨.everyone,[]⟩
    upsert Prod.fst (item.1, inherited.merge (some item.2)) rules) base

def ChatPolicy.merge (base : ChatPolicy) (override : ChatPolicyOverride) : ChatPolicy where
  whoCanTalk := base.whoCanTalk.merge override.whoCanTalk
  whenToReply := base.whenToReply.merge override.whenToReply
  blockedSenders := ⟨override.ownBlocked.getD base.blockedSenders.senders⟩
  allowedTools := base.allowedTools.merge override.allowedTools
  toolAccess := mergeToolAccess base.toolAccess (override.toolAccess.getD [])
  personaFile := override.personaFile.orElse fun _ => base.personaFile
  wakePhrases := override.wakePhrases.getD base.wakePhrases
  memes := override.memes.getD base.memes
  polls := override.polls.getD base.polls
  groupReminders := override.groupReminders.getD base.groupReminders
  decisions := override.decisions.getD base.decisions

namespace PolicyConfig
variable (policy : PolicyConfig) (channel chatId : String)

def channel? : Option ChannelPolicy := (lookup Prod.fst channel policy.channels).map Prod.snd

def override? : Option ChatPolicyOverride :=
  (policy.channel? channel).bind fun c => (lookup Prod.fst chatId c.chats).map Prod.snd

def channelPolicy : ChatPolicy :=
  match policy.channel? channel with
  | some c => policy.defaults.merge c.default
  | none => policy.defaults

def chatPolicy : ChatPolicy :=
  match policy.override? channel chatId with
  | some override => (policy.channelPolicy channel).merge override
  | none => policy.channelPolicy channel

def ownerIndex : Finset String :=
  normalizeSenderList channel (((lookup Prod.fst channel policy.owners).map Prod.snd).getD []) none

end PolicyConfig
end Yeoman.Policy
