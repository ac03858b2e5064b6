import Yeoman.Processing.JoinRules
import Yeoman.Processing.Reconcile

/-! A topic break as its producer wrote it, and the two ways the join rules read it. -/
namespace Yeoman.Processing

inductive TopicBreak where
  | flag (b : Bool)
  | text (s : String)

def TopicBreak.certain : TopicBreak → Bool
  | .flag b => b
  | .text s => lowerText (stripText s) ∈ ["true", "1", "yes"]

def TopicBreak.truthy : TopicBreak → Bool
  | .flag b => b
  | .text s => s ≠ ""

/-- The direct-message rule asks for the truth of the value, the other rules for a certain break. -/
def JoinRule.answerFor (data : JoinInput) (t : TopicBreak) (view : JoinView) :
    JoinRule → Option JoinDecision
  | .dmLastActive => ruleDmLastActive { data with topicBreak := t.truthy } view
  | rule => rule.answer { data with topicBreak := t.certain } view

def decideFor (data : JoinInput) (t : TopicBreak) (view : JoinView) : JoinDecision :=
  (joinRules.findSome? fun rule => rule.answerFor data t view).getD ruleAmbient

variable {data : JoinInput} {t t' : TopicBreak} {view : JoinView}

def JoinInput.TakenUp (data : JoinInput) (certain : Bool) (view : JoinView) : Prop :=
  nonempty view.replyThreadId ≠ none ∨
  ((data.explicitCorrection || data.kind.revises) = true ∧ view.correctionTargets ≠ []) ∨
  (data.replyToBot = true ∧ nonempty data.replyToMessageId ≠ none) ∨
  (certain = false ∧ view.activeThreadsForPrincipal.length = 1 ∧ view.continuityPositive = true) ∨
  (certain = false ∧ nonempty view.semanticTarget ≠ none) ∨
  data.mentionedBot = true

section
variable {d : JoinInput}

private theorem ruleReplyKnown_eq_none : ruleReplyKnown d view = none ↔ nonempty view.replyThreadId = none := by
  unfold ruleReplyKnown
  cases nonempty view.replyThreadId with
  | none => exact iff_of_true rfl rfl
  | some threadId =>
    refine iff_of_false (fun h => ?_) nofun
    dsimp only at h
    split_ifs at h

private theorem ruleExplicitCorrection_eq_none : ruleExplicitCorrection d view = none ↔
    ((d.explicitCorrection || d.kind.revises) = true → view.correctionTargets = []) := by
  unfold ruleExplicitCorrection
  split_ifs with hc
  · split <;> simp_all
  · exact iff_of_true rfl fun h => absurd h hc

private theorem ruleFollowupSingleActive_eq_none : ruleFollowupSingleActive d view = none ↔
    (d.topicBreak = false → view.activeThreadsForPrincipal.length = 1 → view.continuityPositive = false) := by
  unfold ruleFollowupSingleActive
  cases d.topicBreak with
  | true => simp
  | false =>
    rcases view.activeThreadsForPrincipal with _ | ⟨⟨threadId,turnId⟩,_ | _⟩ <;> simp

private theorem ruleSemanticReopen_eq_none : ruleSemanticReopen d view = none ↔
    (d.topicBreak = false → nonempty view.semanticTarget = none) := by
  unfold ruleSemanticReopen
  cases nonempty view.semanticTarget <;> cases d.topicBreak <;> simp

end

def earlierAnswer (data : JoinInput) (view : JoinView) : Option JoinDecision :=
  (joinRules.take 6).findSome? fun rule => rule.answer data view

theorem earlierAnswer_eq_none {c : Bool} :
    earlierAnswer { data with topicBreak := c } view = none ↔ ¬ data.TakenUp c view := by
  simp only [earlierAnswer,joinRules,List.take,List.findSome?_eq_none_iff,List.forall_mem_cons,
    JoinRule.answer,ruleReplyKnown_eq_none,ruleExplicitCorrection_eq_none,
    ruleFollowupSingleActive_eq_none,ruleSemanticReopen_eq_none,JoinInput.TakenUp]
  rw [ruleReplyBotNewThread,ruleMentionNoReference]
  by_cases hr : nonempty view.replyThreadId = none <;> simp [hr]

theorem decideFor_eq : decideFor data t view =
    ((earlierAnswer { data with topicBreak := t.certain } view).or
      (ruleDmLastActive { data with topicBreak := t.truthy } view)).getD ruleAmbient := by
  have hrules : joinRules = joinRules.take 6 ++ [.dmLastActive, .ambient] := rfl
  have hearly : (joinRules.take 6).findSome? (fun rule => rule.answerFor data t view) =
      earlierAnswer { data with topicBreak := t.certain } view := rfl
  rw [decideFor,hrules,List.findSome?_append,hearly]
  cases earlierAnswer { data with topicBreak := t.certain } view with
  | some d => rfl
  | none =>
    simp only [List.findSome?_cons,JoinRule.answerFor,JoinRule.answer,Option.none_or]
    cases ruleDmLastActive { data with topicBreak := t.truthy } view <;> rfl

/-- The direct-message rule reads the break in a direct chat with a thread to go on with. -/
theorem ruleDmLastActive_eq_iff {b b' : Bool} :
    (ruleDmLastActive { data with topicBreak := b } view).getD ruleAmbient =
        (ruleDmLastActive { data with topicBreak := b' } view).getD ruleAmbient ↔
      b = b' ∨ data.isGroup = true ∨ nonempty view.lastActiveDmThread = none := by
  unfold ruleDmLastActive
  cases data.isGroup with
  | true => simp
  | false =>
    cases nonempty view.lastActiveDmThread with
    | none => simp
    | some threadId => cases b <;> cases b' <;> simp

/-- Two breaks that are both certain or both not lead to one decision unless the event is left
to the direct-message rule, which takes any text for a break. -/
theorem certain_break_decides_iff (data : JoinInput) (view : JoinView) (t t' : TopicBreak)
    (h : t.certain = t'.certain) :
    decideFor data t view = decideFor data t' view ↔
      t.truthy = t'.truthy ∨ data.isGroup = true ∨ nonempty view.lastActiveDmThread = none ∨
        data.TakenUp t.certain view := by
  rw [decideFor_eq,decideFor_eq,← h]
  by_cases hu : data.TakenUp t.certain view
  · obtain ⟨d,hd⟩ := Option.ne_none_iff_exists'.mp fun hn => earlierAnswer_eq_none.mp hn hu
    simp [hd,hu]
  · rw [earlierAnswer_eq_none.mpr hu,Option.none_or,Option.none_or,ruleDmLastActive_eq_iff]
    simp [hu]

def directInput : JoinInput :=
  ⟨"e2","whatsapp","c1","anna","and then?",.message,false,false,false,none,none,false,false,none,none,none⟩

def directView : JoinView := ⟨none,none,none,false,[],[],some "t1",none,none⟩

/-- A second message of a direct chat goes to its thread, and opens another one when the break
is the default "unknown". -/
theorem unknown_break_opens_thread :
    (TopicBreak.text "unknown").certain = (TopicBreak.flag false).certain ∧
    (decideFor directInput (.flag false) directView).threadId = some "t1" ∧
    (decideFor directInput (.text "unknown") directView).newThread = true ∧
    decideFor directInput (.text "unknown") directView ≠ decideFor directInput (.flag false) directView := by
  decide +kernel

theorem false_break_decides_as_unknown :
    (TopicBreak.text "false").certain = (TopicBreak.text "unknown").certain ∧
    decideFor directInput (.text "false") directView = decideFor directInput (.text "unknown") directView :=
  ⟨by decide +kernel,(certain_break_decides_iff directInput directView _ _ (by decide +kernel)).mpr
    (.inl (by decide +kernel))⟩

end Yeoman.Processing
