import Yeoman.Policy.Admin
import Mathlib.Data.Finset.Basic

/-! What blocking and unblocking one sender in a group does to everyone's messages there. The
command edits the list of the chat layer; the engine reads the merged list, in which that list
replaces the inherited one. -/
namespace Yeoman.Policy
open Library Table
open Processing (stripText)

def Named (names : Finset String) (id : String) : Prop :=
  normalizeIdentityToken id ≠ "" ∧ normalizeIdentityToken id ∈ names

theorem senderMatch_iff {actor : ActorContext} {names : Finset String} :
    senderMatch actor names = true ↔ ∃ id ∈ actor.senderPrimary :: actor.senderAliases, Named names id := by
  simp only [senderMatch,senderTokens,List.any_eq_true,List.mem_filter,List.mem_map,decide_eq_true_iff,Named]
  constructor
  · rintro ⟨_,⟨⟨id,hid,rfl⟩,hne⟩,hmem⟩
    exact ⟨id,hid,hne,hmem⟩
  · rintro ⟨id,hid,hne,hmem⟩
    exact ⟨_,⟨⟨id,hid,rfl⟩,hne⟩,hmem⟩

namespace PolicyConfig
variable {policy after : PolicyConfig} {chatId : String} {senders : List String}

def names (policy : PolicyConfig) (entry : String) : Finset String :=
  entryAliases "whatsapp" (some (policy.ownerIndex "whatsapp")) entry

def listed (policy : PolicyConfig) (senders : List String) : Finset String :=
  normalizeSenderList "whatsapp" senders (some (policy.ownerIndex "whatsapp"))

theorem named_listed {id : String} : Named (policy.listed senders) id ↔ ∃ v ∈ senders, Named (policy.names v) id := by
  simp only [Named,listed,names,mem_normalizeSenderList,← exists_and_left,and_left_comm]

def inheritedBlocked (policy : PolicyConfig) : List String := (policy.channelPolicy "whatsapp").blockedSenders.senders

def talkers (policy : PolicyConfig) (chatId : String) : Option (Finset String) :=
  let rule := (policy.chatPolicy "whatsapp" chatId).whoCanTalk
  match rule.mode with
  | .everyone => none
  | .allowlist => some (policy.listed rule.senders)
  | .ownerOnly => some (policy.ownerIndex "whatsapp")

theorem chatPolicy_blocked :
    (policy.chatPolicy "whatsapp" chatId).blockedSenders.senders = (policy.ownBlocked chatId).getD policy.inheritedBlocked := by
  unfold chatPolicy ownBlocked
  cases policy.override? "whatsapp" chatId <;> rfl

theorem setBlocked_spec (h : policy.setBlocked chatId senders = some after) :
    after.owners = policy.owners ∧
      after.chatPolicy "whatsapp" chatId = { policy.chatPolicy "whatsapp" chatId with blockedSenders := ⟨senders⟩ } := by
  obtain ⟨c,hc,rfl⟩ := Option.map_eq_some_iff.mp h
  refine ⟨rfl,?_⟩
  unfold chatPolicy override? channelPolicy
  rw [hc,channel?,lookup_upsert,if_pos rfl]
  simp only [Option.bind_some,lookup_upsert,if_true,Option.map_some]
  cases lookup Prod.fst chatId c.chats <;> rfl

theorem setBlocked_self (h : policy.ownBlocked chatId = some senders) (ha : policy.setBlocked chatId senders = some after) :
    after = policy := by
  obtain ⟨c,hc,rfl⟩ := Option.map_eq_some_iff.mp ha
  obtain ⟨⟨name,c'⟩,hrow,rfl⟩ := Option.map_eq_some_iff.mp hc
  obtain ⟨override,ho,hown⟩ := Option.bind_eq_some_iff.mp h
  rw [override?,hc,Option.bind_some] at ho
  obtain ⟨⟨chat,override'⟩,hchat,rfl⟩ := Option.map_eq_some_iff.mp ho
  obtain rfl : name = "whatsapp" := (lookup_some hrow).2
  obtain rfl : chat = chatId := (lookup_some hchat).2
  obtain ⟨⟨list⟩,hlist,hsenders⟩ := Option.bind_eq_some_iff.mp hown
  have hsame : { override' with blockedSenders := some ⟨some senders⟩ } = override' := by
    rw [← hsenders,← hlist]
  have hchats : upsert Prod.fst (chat, override') c'.chats = c'.chats := c'.distinct.upsert_self hchat
  have hchannels : upsert Prod.fst ("whatsapp", c') policy.channels = policy.channels := policy.distinct.upsert_self hrow
  simp only [hchat,Option.map_some,Option.getD_some,hsame,hchats,hchannels]

theorem currentBlocked_ok {current : List String} (h : policy.currentBlocked chatId = .ok current) :
    policy.ownBlocked chatId = some current ∨ (policy.ownBlocked chatId = none ∧ current = []) := by
  unfold currentBlocked at h
  unfold ownBlocked ChatPolicyOverride.ownBlocked
  rw [← Option.bind_assoc]
  split at h
  next hlist =>
    cases h
    exact .inr ⟨by rw [hlist]; rfl,rfl⟩
  next list hlist =>
    split at h <;> cases h
    next hs => exact .inl (by rw [hlist]; exact hs)

end PolicyConfig

namespace PolicyEngine
variable {engine : PolicyEngine} {actor : ActorContext} {allTools : Finset String}

def Rejects (engine : PolicyEngine) (actor : ActorContext) : Prop := (engine.evaluate actor ∅).acceptMessage = false

def RejectsAsBlocked (engine : PolicyEngine) (actor : ActorContext) : Prop :=
  engine.Rejects actor ∧ (engine.evaluate actor ∅).reason = "blocked_sender"

variable {policy after : PolicyConfig} {chatId sender : String} {senders applyChannels : List String}

def effectiveBlocked (policy : PolicyConfig) (chatId : String) : Finset String :=
  policy.listed (policy.chatPolicy "whatsapp" chatId).blockedSenders.senders

def Talks (policy : PolicyConfig) (chatId : String) (actor : ActorContext) : Prop :=
  ∀ talkers ∈ policy.talkers chatId, senderMatch actor talkers = true

theorem evaluate_in_group (hc : actor.channel = "whatsapp") (hchat : actor.chatId = chatId) :
    ((⟨policy,applyChannels⟩ : PolicyEngine).Rejects actor ↔ "whatsapp" ∈ applyChannels ∧
      (senderMatch actor (effectiveBlocked policy chatId) = true ∨ ¬ Talks policy chatId actor)) ∧
    ((⟨policy,applyChannels⟩ : PolicyEngine).RejectsAsBlocked actor ↔ "whatsapp" ∈ applyChannels ∧
      senderMatch actor (effectiveBlocked policy chatId) = true) := by
  subst hchat
  unfold RejectsAsBlocked Rejects evaluate evaluateBlockedSender evaluateWhoCanTalk Talks PolicyConfig.talkers
    effectiveBlocked PolicyConfig.listed ownerMatch
  simp only [resolveCompiledPolicy,compileChatPolicy,hc]
  by_cases ha : "whatsapp" ∈ applyChannels
  · cases (policy.chatPolicy "whatsapp" actor.chatId).whoCanTalk.mode <;> split_ifs <;> simp_all
  · simp [ha]

theorem after_setBlocked (h : policy.setBlocked chatId senders = some after) :
    effectiveBlocked after chatId = policy.listed senders ∧ ∀ actor, Talks after chatId actor ↔ Talks policy chatId actor := by
  obtain ⟨howners,hpolicy⟩ := PolicyConfig.setBlocked_spec h
  have hindex : after.ownerIndex "whatsapp" = policy.ownerIndex "whatsapp" := by
    unfold PolicyConfig.ownerIndex
    rw [howners]
  constructor
  · unfold effectiveBlocked PolicyConfig.listed
    rw [hpolicy,hindex]
  · intro actor
    unfold Talks PolicyConfig.talkers PolicyConfig.listed
    rw [hpolicy,hindex]

def groupActor (chatId primary : String) (aliases : List String) : ActorContext :=
  { channel := "whatsapp", chatId := chatId, senderPrimary := primary, senderAliases := aliases, isGroup := true }

def BlockLaw (policy after : PolicyConfig) (applyChannels : List String) (chatId sender : String) : Prop :=
  ∀ actor : ActorContext, actor.channel = "whatsapp" → actor.chatId = chatId →
    (senderMatch actor (policy.names sender) = true → (⟨after,applyChannels⟩ : PolicyEngine).Rejects actor) ∧
    ((⟨policy,applyChannels⟩ : PolicyEngine).Rejects actor → (⟨after,applyChannels⟩ : PolicyEngine).Rejects actor)

/-- No alias form of the sender is rejected by the block list, and for everyone else that is as before. -/
def UnblockLaw (policy after : PolicyConfig) (applyChannels : List String) (chatId sender : String) : Prop :=
  ∀ actor : ActorContext, actor.channel = "whatsapp" → actor.chatId = chatId →
    ((∀ id ∈ actor.senderPrimary :: actor.senderAliases, Named (policy.names sender) id) →
      ¬ (⟨after,applyChannels⟩ : PolicyEngine).RejectsAsBlocked actor) ∧
    (senderMatch actor (policy.names sender) = false →
      ((⟨after,applyChannels⟩ : PolicyEngine).RejectsAsBlocked actor ↔
        (⟨policy,applyChannels⟩ : PolicyEngine).RejectsAsBlocked actor))

/-- The engine governs the group, and the list that the edit replaces names nobody else, or nobody
else may talk there. -/
structure BlockKeeps (policy : PolicyConfig) (applyChannels : List String) (chatId sender : String) : Prop where
  governed : "whatsapp" ∈ applyChannels ∨ ∀ id, ¬ Named (policy.names sender) id
  kept : "whatsapp" ∈ applyChannels → (policy.ownBlocked chatId).isSome = true ∨
    (∀ v ∈ policy.inheritedBlocked, ∀ id, Named (policy.names v) id → Named (policy.names sender) id) ∨
    ∃ talkers, policy.talkers chatId = some talkers ∧ ∀ id, Named talkers id → Named (policy.names sender) id

def droppedEntries (policy : PolicyConfig) (chatId sender : String) : List String :=
  match policy.ownBlocked chatId with
  | some own => own.filter fun v => normalizeIdentityToken v = normalizeIdentityToken sender
  | none => policy.inheritedBlocked

/-- No remaining entry is another form of the sender, and the dropped ones name nobody else. -/
structure UnblockKeeps (policy : PolicyConfig) (chatId sender : String) : Prop where
  apart : ∀ v ∈ PolicyAdminService.removeBlocked sender ((policy.ownBlocked chatId).getD []),
    ∀ id, Named (policy.names v) id → ¬ Named (policy.names sender) id
  covered : ∀ v ∈ droppedEntries policy chatId sender, ∀ id, Named (policy.names v) id → Named (policy.names sender) id ∨
    Named (policy.listed (PolicyAdminService.removeBlocked sender ((policy.ownBlocked chatId).getD []))) id

theorem senderMatch_mono {names names' : Finset String} (h : ∀ id, Named names id → Named names' id)
    (hm : senderMatch actor names = true) : senderMatch actor names' = true := by
  obtain ⟨id,hid,hn⟩ := senderMatch_iff.mp hm
  exact senderMatch_iff.mpr ⟨id,hid,h id hn⟩
variable {id : String}

theorem named_effective : Named (effectiveBlocked policy chatId) id ↔
    ∃ v ∈ (policy.ownBlocked chatId).getD policy.inheritedBlocked, Named (policy.names v) id := by
  rw [effectiveBlocked,PolicyConfig.chatPolicy_blocked,PolicyConfig.named_listed]

theorem rejects_groupActor {aliases : List String} :
    (⟨policy,applyChannels⟩ : PolicyEngine).Rejects (groupActor chatId id aliases) ↔ "whatsapp" ∈ applyChannels ∧
      (senderMatch (groupActor chatId id aliases) (effectiveBlocked policy chatId) = true ∨
        ¬ Talks policy chatId (groupActor chatId id aliases)) :=
  (evaluate_in_group rfl rfl).1

/-- Next to any identity there may be one that lets the actor talk, unless only the sender may. -/
theorem exists_talking (h : ∀ talkers, policy.talkers chatId = some talkers →
    ∃ talker, Named talkers talker ∧ ¬ Named (policy.names sender) talker) :
    ∃ aliases, Talks policy chatId (groupActor chatId id aliases) ∧ ∀ a ∈ aliases, ¬ Named (policy.names sender) a := by
  cases ht : policy.talkers chatId with
  | none =>
    refine ⟨[],?_,fun a ha => absurd ha List.not_mem_nil⟩
    intro talkers hm
    cases ht.symm.trans hm
  | some talkers =>
    obtain ⟨talker,htalker,hnot⟩ := h talkers ht
    refine ⟨[talker],?_,fun a ha => List.mem_singleton.mp ha ▸ hnot⟩
    intro talkers' hm
    cases ht.symm.trans hm
    exact senderMatch_iff.mpr ⟨talker,List.mem_cons_of_mem _ (List.mem_singleton_self _),htalker⟩

section Block
variable (h : policy.setBlocked chatId ((policy.ownBlocked chatId).getD [] ++ [sender]) = some after)
include h

theorem named_blocked : Named (effectiveBlocked after chatId) id ↔
    (∃ v ∈ (policy.ownBlocked chatId).getD [], Named (policy.names v) id) ∨ Named (policy.names sender) id := by
  rw [(after_setBlocked h).1]
  simp only [PolicyConfig.named_listed,List.mem_append,List.mem_singleton,or_and_right,exists_or,exists_eq_left]

theorem BlockLaw.keeps (hlaw : BlockLaw policy after applyChannels chatId sender) :
    BlockKeeps policy applyChannels chatId sender := by
  refine ⟨?_,fun happly => ?_⟩
  · by_contra hn
    rw [not_or,not_forall] at hn
    obtain ⟨hout,id,hid⟩ := hn
    rw [not_not] at hid
    have hrej := (hlaw (groupActor chatId id []) rfl rfl).1 (senderMatch_iff.mpr ⟨id,List.mem_cons_self,hid⟩)
    exact hout (rejects_groupActor.mp hrej).1
  · by_contra hn
    rw [not_or,not_or,Bool.not_eq_true,Option.isSome_eq_false_iff,Option.isNone_iff_eq_none] at hn
    obtain ⟨hown,hothers,htalkers⟩ := hn
    push Not at hothers htalkers
    -- somebody the inherited list names, if need be together with somebody who may talk
    obtain ⟨v,hv,id,hid,hids⟩ := hothers
    obtain ⟨aliases,htalk,haliases⟩ := exists_talking htalkers
    have hbefore : (⟨policy,applyChannels⟩ : PolicyEngine).Rejects (groupActor chatId id aliases) := by
      refine rejects_groupActor.mpr ⟨happly,.inl (senderMatch_iff.mpr ⟨id,List.mem_cons_self,?_⟩)⟩
      rw [named_effective,hown]
      exact ⟨v,hv,hid⟩
    rcases (rejects_groupActor.mp ((hlaw _ rfl rfl).2 hbefore)).2 with hmatch | hno
    · obtain ⟨x,hx,hxn⟩ := senderMatch_iff.mp hmatch
      rw [named_blocked h,hown] at hxn
      rcases hxn with ⟨w,hw,_⟩ | hxn
      · exact absurd hw List.not_mem_nil
      · rcases List.mem_cons.mp hx with rfl | hx
        · exact hids hxn
        · exact haliases x hx hxn
    · exact hno (((after_setBlocked h).2 _).mpr htalk)

theorem BlockKeeps.blocked (hkeeps : BlockKeeps policy applyChannels chatId sender) (happly : "whatsapp" ∈ applyChannels)
    (hm : senderMatch actor (effectiveBlocked policy chatId) = true) :
    senderMatch actor (effectiveBlocked after chatId) = true ∨ ¬ Talks policy chatId actor := by
  cases hown : policy.ownBlocked chatId with
  | some own =>
    refine .inl (senderMatch_mono (fun id hid => (named_blocked h).mpr (.inl ?_)) hm)
    rw [named_effective,hown] at hid
    rwa [hown]
  | none =>
    rcases hkeeps.kept happly with hsome | hnames | ⟨talkers,ht,htn⟩
    · rw [hown] at hsome
      cases hsome
    · refine .inl (senderMatch_mono (fun id hid => (named_blocked h).mpr (.inr ?_)) hm)
      rw [named_effective,hown] at hid
      obtain ⟨v,hv,hvn⟩ := hid
      exact hnames v hv id hvn
    · rw [or_iff_not_imp_right,not_not]
      intro htalk
      exact senderMatch_mono (fun id hid => (named_blocked h).mpr (.inr (htn id hid))) (htalk talkers ht)

theorem BlockKeeps.law (hkeeps : BlockKeeps policy applyChannels chatId sender) :
    BlockLaw policy after applyChannels chatId sender := by
  intro actor hc hchat
  rw [(evaluate_in_group hc hchat).1,(evaluate_in_group hc hchat).1,(after_setBlocked h).2]
  refine ⟨fun hm => ?_,fun hrej => ?_⟩
  · have happly : "whatsapp" ∈ applyChannels := hkeeps.governed.resolve_right fun hn => by
      obtain ⟨id,_,hid⟩ := senderMatch_iff.mp hm
      exact hn id hid
    exact ⟨happly,.inl (senderMatch_mono (fun id hid => (named_blocked h).mpr (.inr hid)) hm)⟩
  · obtain ⟨happly,hm | hno⟩ := hrej
    · exact ⟨happly,hkeeps.blocked h happly hm⟩
    · exact ⟨happly,.inr hno⟩

end Block

section Unblock
variable (h : policy.setBlocked chatId (PolicyAdminService.removeBlocked sender ((policy.ownBlocked chatId).getD [])) =
  some after)
include h
variable (id : String)

theorem named_unblocked : Named (effectiveBlocked after chatId) id ↔
    ∃ v ∈ PolicyAdminService.removeBlocked sender ((policy.ownBlocked chatId).getD []), Named (policy.names v) id := by
  rw [(after_setBlocked h).1,PolicyConfig.named_listed]

theorem named_before : Named (effectiveBlocked policy chatId) id ↔
    Named (effectiveBlocked after chatId) id ∨ ∃ v ∈ droppedEntries policy chatId sender, Named (policy.names v) id := by
  rw [named_effective,named_unblocked h,droppedEntries]
  cases policy.ownBlocked chatId with
  | none => simp [PolicyAdminService.removeBlocked]
  | some own =>
    simp only [Option.getD_some,PolicyAdminService.removeBlocked,List.mem_filter,decide_eq_true_iff]
    constructor
    · rintro ⟨v,hv,hn⟩
      by_cases hk : normalizeIdentityToken v = normalizeIdentityToken sender
      · exact .inr ⟨v,⟨hv,hk⟩,hn⟩
      · exact .inl ⟨v,⟨hv,hk⟩,hn⟩
    · rintro (⟨v,hv,hn⟩ | ⟨v,hv,hn⟩)
      · exact ⟨v,hv.1,hn⟩
      · exact ⟨v,hv.1,hn⟩

theorem UnblockLaw.keeps (hlaw : UnblockLaw policy after applyChannels chatId sender) (happly : "whatsapp" ∈ applyChannels) :
    UnblockKeeps policy chatId sender := by
  have hblocked {p : PolicyConfig} {id : String} :
      (⟨p,applyChannels⟩ : PolicyEngine).RejectsAsBlocked (groupActor chatId id []) ↔ Named (effectiveBlocked p chatId) id := by
    rw [(evaluate_in_group rfl rfl).2,senderMatch_iff]
    simp [happly,groupActor]
  refine ⟨fun v hv id hid hs => ?_,fun v hv id hid => ?_⟩
  · refine (hlaw (groupActor chatId id []) rfl rfl).1 (fun x hx => ?_) (hblocked.mpr ((named_unblocked h id).mpr ⟨v,hv,hid⟩))
    rwa [List.mem_singleton.mp hx]
  · rw [or_iff_not_imp_left]
    intro hs
    have hno : senderMatch (groupActor chatId id []) (policy.names sender) = false := by
      rw [← Bool.not_eq_true,senderMatch_iff]
      rintro ⟨x,hx,hxn⟩
      cases List.mem_singleton.mp hx
      exact hs hxn
    have hiff := (hlaw (groupActor chatId id []) rfl rfl).2 hno
    rw [hblocked,hblocked,named_before h] at hiff
    rw [← (after_setBlocked h).1]
    exact hiff.mpr (.inr ⟨v,hv,hid⟩)

theorem UnblockKeeps.law (hkeeps : UnblockKeeps policy chatId sender) : UnblockLaw policy after applyChannels chatId sender := by
  intro actor hc hchat
  rw [(evaluate_in_group hc hchat).2,(evaluate_in_group hc hchat).2]
  refine ⟨?_,fun hno => and_congr_right fun _ => ?_⟩
  · rintro hall ⟨_,hm⟩
    obtain ⟨id,hid,hn⟩ := senderMatch_iff.mp hm
    obtain ⟨v,hv,hvn⟩ := (named_unblocked h id).mp hn
    exact hkeeps.apart v hv id hvn (hall id hid)
  · rw [senderMatch_iff,senderMatch_iff]
    constructor
    · rintro ⟨id,hid,hn⟩
      exact ⟨id,hid,(named_before h id).mpr (.inl hn)⟩
    · rintro ⟨id,hid,hn⟩
      refine ⟨id,hid,?_⟩
      rcases (named_before h id).mp hn with hn | ⟨v,hv,hvn⟩
      · exact hn
      · rcases hkeeps.covered v hv id hvn with hs | hk
        · rw [senderMatch_iff.mpr ⟨id,hid,hs⟩] at hno
          cases hno
        · rwa [(after_setBlocked h).1]

end Unblock

variable {service : PolicyAdminService} {r : PolicyExecutionResult}

theorem editSender_applied {name done chat text : String} {edit : String → List String → List String}
    (h : service.editSender policy name done edit [chat, text] false = .ok r) (ha : r.outcome = .applied)
    (hchat : parseGroupChatId chat = some chatId) :
    ∃ current, policy.currentBlocked chatId = .ok current ∧
      policy.setBlocked chatId (edit (stripText text) current) = some r.policy ∧ policy ≠ r.policy := by
  simp only [PolicyAdminService.editSender,hchat] at h
  split at h
  · cases h
    cases ha
  split at h
  · cases h
  next current hcurrent =>
    split at h
    · cases h
    next after hset =>
      refine ⟨current,hcurrent,?_⟩
      simp only [PolicyAdminService.commitPolicy] at h
      split at h
      · cases h
        cases ha
      next hhash =>
        split at h <;> cases h
        · cases ha
        · exact ⟨hset,fun he => hhash (congrArg service.policyHash he)⟩

theorem block_applied {chat text : String}
    (h : service.handleBlockSender policy [chat, text] false = .ok r) (ha : r.outcome = .applied)
    (hchat : parseGroupChatId chat = some chatId) :
    policy.setBlocked chatId ((policy.ownBlocked chatId).getD [] ++ [stripText text]) = some r.policy := by
  obtain ⟨current,hcurrent,hset,hne⟩ := editSender_applied h ha hchat
  -- an entry with the sender's key would have left the document as it is
  have hnew : normalizeIdentityToken (stripText text) ∉ senderKeys current := by
    intro hk
    rw [PolicyAdminService.addBlocked,if_pos hk] at hset
    rcases PolicyConfig.currentBlocked_ok hcurrent with hown | ⟨_,rfl⟩
    · exact hne (PolicyConfig.setBlocked_self hown hset).symm
    · exact absurd hk List.not_mem_nil
  rw [PolicyAdminService.addBlocked,if_neg hnew] at hset
  rcases PolicyConfig.currentBlocked_ok hcurrent with hown | ⟨hown,rfl⟩ <;> rwa [hown]

theorem unblock_applied {chat text : String}
    (h : service.handleUnblockSender policy [chat, text] false = .ok r) (ha : r.outcome = .applied)
    (hchat : parseGroupChatId chat = some chatId) :
    policy.setBlocked chatId (PolicyAdminService.removeBlocked (stripText text) ((policy.ownBlocked chatId).getD [])) =
      some r.policy := by
  obtain ⟨current,hcurrent,hset,_⟩ := editSender_applied h ha hchat
  rcases PolicyConfig.currentBlocked_ok hcurrent with hown | ⟨hown,rfl⟩ <;> rwa [hown]

/-- For every document, group and sender: an applied block-sender rejects the sender and everyone
who was rejected, and an applied unblock-sender changes the blocked status of that sender alone,
exactly if no entry of the list in force is lost with the edit that names somebody else. -/
theorem sender_commands_iff (service : PolicyAdminService) (policy : PolicyConfig) (applyChannels : List String)
    (chat text chatId : String) (hchat : parseGroupChatId chat = some chatId) :
    (∀ r, service.handleBlockSender policy [chat, text] false = .ok r → r.outcome = .applied →
      (BlockLaw policy r.policy applyChannels chatId (stripText text) ↔
        BlockKeeps policy applyChannels chatId (stripText text))) ∧
    (∀ r, service.handleUnblockSender policy [chat, text] false = .ok r → r.outcome = .applied →
      (UnblockLaw policy r.policy applyChannels chatId (stripText text) ↔
        ("whatsapp" ∈ applyChannels → UnblockKeeps policy chatId (stripText text)))) := by
  constructor
  · intro r h ha
    have hset := block_applied h ha hchat
    exact ⟨fun hlaw => hlaw.keeps hset,fun hkeeps => hkeeps.law hset⟩
  · intro r h ha
    have hset := unblock_applied h ha hchat
    refine ⟨fun hlaw happly => hlaw.keeps hset happly,fun hkeeps => ?_⟩
    by_cases happly : "whatsapp" ∈ applyChannels
    · exact (hkeeps happly).law hset
    · intro actor hc hgroup
      rw [(evaluate_in_group hc hgroup).2,(evaluate_in_group hc hgroup).2]
      exact ⟨fun _ hb => happly hb.1,fun _ => iff_of_false (fun hb => happly hb.1) fun hb => happly hb.1⟩

def listService : PolicyAdminService := ⟨fun p => (p.ownBlocked "g@g.us").elim "" (String.join ·),fun _ => none⟩

def groupDocument (inherited : List String) (own : Option (List String)) : PolicyConfig where
  channels := [("whatsapp", {
    default := { blockedSenders := some ⟨some inherited⟩ }
    chats := [("g@g.us", { blockedSenders := own.map fun list => ⟨some list⟩ })]
    distinct := List.nodup_singleton _ })]
  distinct := List.nodup_singleton _

/-- With a list of its own, the group keeps who was on it, whether b is blocked or unblocked. -/
theorem own_list_keeps :
    BlockLaw (groupDocument [] (some ["a"])) (groupDocument [] (some ["a", "b"])) ["whatsapp"] "g@g.us" "b" ∧
      UnblockLaw (groupDocument [] (some ["a", "b"])) (groupDocument [] (some ["a"])) ["whatsapp"] "g@g.us" "b" := by
  constructor
  · have h := (sender_commands_iff listService (groupDocument [] (some ["a"])) ["whatsapp"] "g@g.us" "b" "g@g.us"
      (by decide +kernel)).1 ⟨.applied,"Policy updated for g@g.us: blocked sender b.",groupDocument [] (some ["a", "b"])⟩
      (by decide +kernel) rfl
    exact h.mpr ⟨.inl (by decide),fun _ => .inl (by decide +kernel)⟩
  · have h := (sender_commands_iff listService (groupDocument [] (some ["a", "b"])) ["whatsapp"] "g@g.us" "b" "g@g.us"
      (by decide +kernel)).2 ⟨.applied,"Policy updated for g@g.us: unblocked sender b.",groupDocument [] (some ["a"])⟩
      (by decide +kernel) rfl
    have hkept : PolicyAdminService.removeBlocked "b" (((groupDocument [] (some ["a", "b"])).ownBlocked "g@g.us").getD []) =
        ["a"] := by decide +kernel
    have hdropped : droppedEntries (groupDocument [] (some ["a", "b"])) "g@g.us" "b" = ["b"] := by decide +kernel
    have hapart : Disjoint ((groupDocument [] (some ["a", "b"])).names "a")
        ((groupDocument [] (some ["a", "b"])).names "b") := by
      decide +kernel
    refine h.mpr fun _ => ⟨fun v hv id ha hb => ?_,fun v hv id hid => .inl ?_⟩
    · rw [show stripText "b" = "b" by decide +kernel,hkept,List.mem_singleton] at hv
      subst hv
      exact Finset.disjoint_left.mp hapart ha.2 hb.2
    · rw [show stripText "b" = "b" by decide +kernel,hdropped,List.mem_singleton] at hv
      subst hv
      exact hid

/-- Blocking b in a group that inherits a list with a on it lets a in; unblocking 123 in a group
whose list has the number in two spellings leaves it rejected. -/
theorem block_lets_others_in :
    (∃ r, listService.handleBlockSender (groupDocument ["a"] none) ["g@g.us", "b"] false = .ok r ∧ r.outcome = .applied ∧
      ((⟨groupDocument ["a"] none,["whatsapp"]⟩ : PolicyEngine).evaluate (groupActor "g@g.us" "a" []) ∅).acceptMessage = false ∧
      ((⟨r.policy,["whatsapp"]⟩ : PolicyEngine).evaluate (groupActor "g@g.us" "a" []) ∅).acceptMessage = true) ∧
    (∃ r, listService.handleUnblockSender (groupDocument [] (some ["123", "+123"])) ["g@g.us", "123"] false = .ok r ∧
      r.outcome = .applied ∧
      ((⟨r.policy,["whatsapp"]⟩ : PolicyEngine).evaluate (groupActor "g@g.us" "123" []) ∅).reason = "blocked_sender") := by
  refine ⟨⟨⟨.applied,"Policy updated for g@g.us: blocked sender b.",groupDocument ["a"] (some ["b"])⟩,?_⟩,
    ⟨⟨.applied,"Policy updated for g@g.us: unblocked sender 123.",groupDocument [] (some ["+123"])⟩,?_⟩⟩
  · decide +kernel
  · decide +kernel

end PolicyEngine

end Yeoman.Policy
