import Yeoman.Policy.Engine

/-! Which tools an evaluation lists: registered ones only, spawn only with exec, and the opt-in
tools only where their switch is on. -/
namespace Yeoman.Policy

def ChatPolicy.switches (p : ChatPolicy) : List (String × Bool) :=
  [("make_meme", p.memes), ("poll", p.polls), ("group_reminder", p.groupReminders), ("decisions", p.decisions)]

namespace PolicyEngine
variable {engine : PolicyEngine} {actor : ActorContext} {policy : CompiledPolicy} {allTools : Finset String} {t : String}

def OwnerGrants (engine : PolicyEngine) (actor : ActorContext) (allTools : Finset String) (t : String) : Prop :=
  engine.ownerMatch actor = true ∧ t ∈ engine.policy.ownerTools ∧ t ∈ allTools

/-- Whoever may use spawn by the chat's rules, or has it as owner, may use exec in one of these ways. -/
structure ExecCovered (engine : PolicyEngine) (actor : ActorContext) (policy : CompiledPolicy) (allTools : Finset String) :
    Prop where
  byAccess : "spawn" ∈ namedTools policy allTools → "exec" ∈ namedTools policy allTools →
    engine.isToolAllowedForActor actor "spawn" policy = true →
      engine.isToolAllowedForActor actor "exec" policy = true ∨ engine.OwnerGrants actor allTools "exec"
  byOwner : engine.OwnerGrants actor allTools "spawn" →
    ("exec" ∈ namedTools policy allTools ∧ engine.isToolAllowedForActor actor "exec" policy = true) ∨
      engine.OwnerGrants actor allTools "exec"

variable {allowed : Finset String}

theorem mem_dropUnless {switch : Bool} {tool : String} :
    t ∈ dropUnless switch tool allowed ↔ t ∈ allowed ∧ (t = tool → switch = true) := by
  unfold dropUnless
  cases switch with
  | true => simp
  | false =>
    rw [if_neg Bool.false_ne_true,Finset.mem_erase,and_comm]
    exact and_congr_right fun _ => ⟨fun h he => absurd he h,fun h he => Bool.false_ne_true (h he)⟩

theorem mem_guardSpawn : t ∈ guardSpawn allowed ↔ t ∈ allowed ∧ (t = "spawn" → "exec" ∈ allowed) := by
  unfold guardSpawn
  split_ifs with h
  · exact ⟨fun ht => ⟨ht,fun _ => h⟩,And.left⟩
  · rw [Finset.mem_erase,and_comm]
    exact and_congr_right fun _ => ⟨fun hne he => absurd he hne,fun himp he => h (himp he)⟩

theorem mem_grantOwnerTools :
    t ∈ engine.grantOwnerTools actor allTools allowed ↔ t ∈ allowed ∨ engine.OwnerGrants actor allTools t := by
  unfold grantOwnerTools OwnerGrants
  split_ifs with h
  · simp only [Finset.mem_union,Finset.mem_inter,List.mem_toFinset,h.2,true_and]
  · refine ⟨Or.inl,fun ht => ht.resolve_right fun hg => h ⟨?_,hg.1⟩⟩
    exact List.ne_nil_of_mem hg.2.1

theorem mem_resolveAllowedTools : t ∈ engine.resolveAllowedTools actor policy allTools ↔
    ((t ∈ namedTools policy allTools ∧ (t = "spawn" → "exec" ∈ namedTools policy allTools) ∧
      engine.isToolAllowedForActor actor t policy = true) ∨ engine.OwnerGrants actor allTools t) ∧
    (t = "make_meme" → policy.memes = true) ∧ (t = "poll" → policy.polls = true) ∧
    (t = "group_reminder" → policy.groupReminders = true) ∧ (t = "decisions" → policy.decisions = true) := by
  simp only [resolveAllowedTools,mem_dropUnless,mem_grantOwnerTools,Finset.mem_filter,mem_guardSpawn,and_assoc]

theorem namedTools_subset : namedTools policy allTools ⊆ allTools := Finset.inter_subset_right

theorem resolveAllowedTools_subset : engine.resolveAllowedTools actor policy allTools ⊆ allTools := by
  intro t ht
  rcases (mem_resolveAllowedTools.mp ht).1 with h | h
  · exact namedTools_subset h.1
  · exact h.2.2

theorem spawn_exec_iff : ("spawn" ∈ engine.resolveAllowedTools actor policy allTools →
    "exec" ∈ engine.resolveAllowedTools actor policy allTools) ↔ engine.ExecCovered actor policy allTools := by
  rw [mem_resolveAllowedTools,mem_resolveAllowedTools]
  simp only [String.reduceEq,false_implies,forall_const,true_and,and_true]
  constructor
  · intro h
    refine ⟨fun hs he ha => ?_,fun hg => h (.inr hg)⟩
    exact (h (.inl ⟨hs,he,ha⟩)).imp_left And.right
  · rintro h (⟨hs,he,ha⟩ | hg)
    · exact (h.byAccess hs he ha).imp_left (⟨he,·⟩)
    · exact h.byOwner hg

def Answered (engine : PolicyEngine) (actor : ActorContext) : Prop :=
  let policy := engine.resolveCompiledPolicy actor.channel actor.chatId
  (evaluateBlockedSender actor policy).1 = false ∧ (engine.evaluateWhoCanTalk actor policy).1 = true ∧
    (engine.evaluateWhenToReply actor policy).1 = true

theorem allowedTools_unapplied (h : actor.channel ∉ engine.applyChannels) :
    (engine.evaluate actor allTools).allowedTools = allTools := by
  rw [evaluate,if_pos h]

theorem allowedTools_answered (h : actor.channel ∈ engine.applyChannels) (ha : engine.Answered actor) :
    (engine.evaluate actor allTools).allowedTools =
      engine.resolveAllowedTools actor (engine.resolveCompiledPolicy actor.channel actor.chatId) allTools := by
  obtain ⟨hb,ht,hr⟩ := ha
  simp only [evaluate,h,not_true_eq_false,if_false,hb,ht,hr,Bool.not_true,Bool.false_eq_true]

theorem allowedTools_unanswered (h : actor.channel ∈ engine.applyChannels) (ha : ¬ engine.Answered actor) :
    (engine.evaluate actor allTools).allowedTools = ∅ := by
  simp only [evaluate,h,not_true_eq_false,if_false]
  split
  · rfl
  · split
    · rfl
    · split
      · rfl
      next hb ht hr =>
        refine absurd ⟨?_,?_,?_⟩ ha
        · exact Bool.eq_false_iff.mpr hb
        · rwa [Bool.not_eq_true',Bool.not_eq_false] at ht
        · rwa [Bool.not_eq_true',Bool.not_eq_false] at hr

/-- What a decision may list. -/
structure Guarded (engine : PolicyEngine) (actor : ActorContext) (allTools : Finset String) : Prop where
  registered : (engine.evaluate actor allTools).allowedTools ⊆ allTools
  spawn : "spawn" ∈ (engine.evaluate actor allTools).allowedTools → "exec" ∈ (engine.evaluate actor allTools).allowedTools
  switched : ∀ s ∈ (engine.policy.chatPolicy actor.channel actor.chatId).switches,
    s.1 ∈ (engine.evaluate actor allTools).allowedTools → s.2 = true

theorem switched_resolve {s : String × Bool} (hs : s ∈ (engine.policy.chatPolicy actor.channel actor.chatId).switches)
    (ht : s.1 ∈ engine.resolveAllowedTools actor (engine.resolveCompiledPolicy actor.channel actor.chatId) allTools) :
    s.2 = true := by
  obtain ⟨-,hm,hp,hg,hd⟩ := mem_resolveAllowedTools.mp ht
  simp only [ChatPolicy.switches,List.mem_cons,List.not_mem_nil,or_false] at hs
  rcases hs with rfl | rfl | rfl | rfl
  · exact hm rfl
  · exact hp rfl
  · exact hg rfl
  · exact hd rfl

/-- For every document, actor and set of registered tools: the list is guarded exactly if an
answered actor that may use spawn may use exec, and a channel outside the policy has spawn only
with exec and no opt-in tool that is switched off. -/
theorem guarded_iff (engine : PolicyEngine) (actor : ActorContext) (allTools : Finset String) :
    engine.Guarded actor allTools ↔
      (actor.channel ∈ engine.applyChannels → engine.Answered actor →
        engine.ExecCovered actor (engine.resolveCompiledPolicy actor.channel actor.chatId) allTools) ∧
      (actor.channel ∉ engine.applyChannels → ("spawn" ∈ allTools → "exec" ∈ allTools) ∧
        ∀ s ∈ (engine.policy.chatPolicy actor.channel actor.chatId).switches, s.1 ∈ allTools → s.2 = true) := by
  by_cases hc : actor.channel ∈ engine.applyChannels
  · by_cases ha : engine.Answered actor
    · have hlist := @allowedTools_answered engine actor allTools hc ha
      constructor
      · intro h
        have hspawn := h.spawn
        rw [hlist] at hspawn
        exact ⟨fun _ _ => spawn_exec_iff.mp hspawn,fun hn => absurd hc hn⟩
      · intro h
        refine ⟨?_,?_,?_⟩ <;> rw [hlist]
        · exact resolveAllowedTools_subset
        · exact spawn_exec_iff.mpr (h.1 hc ha)
        · exact fun s hs ht => switched_resolve hs ht
    · have hlist := @allowedTools_unanswered engine actor allTools hc ha
      refine iff_of_true ⟨?_,?_,?_⟩ ⟨fun _ h => absurd h ha,fun hn => absurd hc hn⟩ <;> rw [hlist]
      · exact Finset.empty_subset _
      · exact fun h => absurd h (Finset.notMem_empty _)
      · exact fun s _ h => absurd h (Finset.notMem_empty _)
  · have hlist := @allowedTools_unapplied engine actor allTools hc
    constructor
    · intro h
      have hspawn := h.spawn
      have hswitched := h.switched
      rw [hlist] at hspawn hswitched
      exact ⟨fun h => absurd h hc,fun _ => ⟨hspawn,hswitched⟩⟩
    · intro h
      refine ⟨?_,?_,?_⟩ <;> rw [hlist]
      · exact (h.2 hc).1
      · exact (h.2 hc).2

/-- Exec is reserved for the owner by a tool access rule: a guest is still given spawn. -/
theorem guest_spawns_without_exec :
    let policy : PolicyConfig :=
      { owners := [("telegram", ["owner"])], defaults := { toolAccess := [("exec", ⟨.ownerOnly,[]⟩)] } }
    let guest : ActorContext := { channel := "telegram", chatId := "c", senderPrimary := "guest" }
    ((⟨policy,["telegram"]⟩ : PolicyEngine).evaluate guest {"exec", "spawn"}).allowedTools = {"spawn"} := by
  decide +kernel

end PolicyEngine
end Yeoman.Policy
