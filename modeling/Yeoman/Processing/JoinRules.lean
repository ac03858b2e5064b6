import Yeoman.Processing.Lineage

/-! The thread-join rules and the structural continuity signal: pure decisions on one
event and a read view of the store. -/
namespace Yeoman.Processing

inductive JoinRule where
  | replyKnown
  | explicitCorrection
  | replyBotNewThread
  | followupSingleActive
  | semanticReopen
  | mentionNoReference
  | dmLastActive
  | ambient
deriving DecidableEq

/-- `JOIN_RULES`, in binding priority order. -/
def joinRules : List JoinRule :=
  [.replyKnown, .explicitCorrection, .replyBotNewThread, .followupSingleActive, .semanticReopen,
    .mentionNoReference, .dmLastActive, .ambient]

/-- Verdicts on continuity; only a positive one permits attaching to an existing thread. -/
inductive Verdict where
  | positive
  | none
  | unknown
deriving DecidableEq

inductive ContinuityKind where
  | adjacentSameSender
  | adjacentBotReply
  | none
deriving DecidableEq

structure ContinuitySignal where
  kind : ContinuityKind := .none
  verdict : Verdict := .none
  evidenceIds : List String := []
  detail : String

/-- `continuity_signal`: positive only when the message right before belongs to the candidate. -/
def continuitySignal (candidateThreadId principal : String) (previous : Option PreviousMessage)
    (nowMs sameSenderGapMs : Int) (mentionedBot quotesElsewhere : Bool) : ContinuitySignal :=
  if quotesElsewhere then { detail := "quote_outside_thread" }
  else match previous with
    | none => { detail := "no_previous_message" }
    | some previous =>
      if candidateThreadId ∉ previous.threadIds then { detail := "previous_in_other_thread" }
      else if previous.fromBot then
        { kind := .adjacentBotReply, verdict := .positive, evidenceIds := [previous.messageId],
          detail := "bot_spoke_last_in_thread" }
      else if mentionedBot then { detail := "mention_starts_new_request" }
      else if principal ≠ "" ∧ principal ∈ previous.principals then
        if previous.atMs.any fun atMs => sameSenderGapMs < nowMs - atMs then
          { detail := "sender_gap_too_long" }
        else
          { kind := .adjacentSameSender, verdict := .positive, evidenceIds := [previous.messageId],
            detail := "sender_spoke_last_in_thread" }
      else { detail := "other_sender_in_between" }

/-- Canonical base data of one inbound event. The topic break is the certain one:
`input_from_event` reads no other kind. -/
structure JoinInput where
  (eventId channel chatId principal text : String)
  kind : EventKind
  (isGroup mentionedBot replyToBot : Bool)
  (replyToMessageId targetMessageId : Option String)
  (explicitCorrection topicBreak : Bool)
  occurredMs : Option Int
  (sourceMessageId semanticThreadId : Option String)

def EventKind.revises (k : EventKind) : Bool := k = .delete || k = .edit

inductive ReplyThreadState where
  | open
  | dormant
  | idle
  | closed
deriving DecidableEq

structure JoinView where
  (replyThreadId replyTurnId : Option String)
  replyThreadState : Option ReplyThreadState
  replyReopenable : Bool
  correctionTargets : List (String × String)
  activeThreadsForPrincipal : List (String × Option String)
  lastActiveDmThread : Option String
  continuum : Option ContinuitySignal
  semanticTarget : Option String

namespace JoinView

def continuityPositive (view : JoinView) : Bool := view.continuum.any fun c => c.verdict = .positive

def replyEnded (view : JoinView) : Bool :=
  view.replyThreadState = some .idle || view.replyThreadState = some .closed

end JoinView

structure JoinDecision where
  rule : JoinRule
  threadId : Option String := none
  turnId : Option String := none
  reason : String
  newThread : Bool := false
  newTurn : Bool := false
  supersedes : Bool := false
  observesOnly : Bool := false
  needsClarification : Bool := false
  ambiguousTargets : List String := []
  quoteRef : Option String := none
  quoteAllowed : Bool := false
  sourceMessageIds : List String := []
  candidatesChecked : Nat := 0
  candidatesEligible : Nat := 0
  topicBreak : String := "unknown"
  continuityKind : ContinuityKind := .none
  continuityVerdict : Verdict := .none
  continuityEvidence : List String := []
deriving DecidableEq

def ruleReplyKnown (data : JoinInput) (view : JoinView) : Option JoinDecision :=
  match nonempty view.replyThreadId with
  | none => none
  | some threadId =>
    if view.replyEnded && !view.replyReopenable then
      some { rule := .replyKnown, reason := "reply_to_closed_thread", newThread := true,
             quoteRef := data.replyToMessageId }
    else
      let reopenable := !view.replyEnded || view.replyReopenable
      some { rule := .replyKnown, threadId := some threadId,
             turnId := if reopenable then none else view.replyTurnId,
             reason := "reply_to_known_thread", newTurn := view.replyEnded,
             quoteRef := data.replyToMessageId, quoteAllowed := reopenable }

def ruleExplicitCorrection (data : JoinInput) (view : JoinView) : Option JoinDecision :=
  if data.explicitCorrection || data.kind.revises then
    match view.correctionTargets with
    | [] => none
    | [(threadId, turnId)] =>
      some { rule := .explicitCorrection, threadId := some threadId, turnId := some turnId,
             reason := "explicit_correction", supersedes := true }
    | targets =>
      some { rule := .explicitCorrection, reason := "ambiguous_reference", needsClarification := true,
             ambiguousTargets := targets.map Prod.snd }
  else none

def ruleReplyBotNewThread (data : JoinInput) (view : JoinView) : Option JoinDecision :=
  if data.replyToBot && (nonempty data.replyToMessageId).isSome && (nonempty view.replyThreadId).isNone then
    some { rule := .replyBotNewThread, reason := "reply_to_unknown_bot_anchor", newThread := true,
           newTurn := true, quoteRef := data.replyToMessageId }
  else none

def ruleFollowupSingleActive (data : JoinInput) (view : JoinView) : Option JoinDecision :=
  if data.topicBreak then none
  else match view.activeThreadsForPrincipal with
    | [(threadId, turnId)] =>
      -- a missing topic break is no proof of continuity
      if view.continuityPositive then
        some { rule := .followupSingleActive, threadId := some threadId, turnId := turnId,
               reason := "followup_single_active_thread", newTurn := turnId.isNone }
      else none
    | _ => none

def ruleSemanticReopen (data : JoinInput) (view : JoinView) : Option JoinDecision :=
  match nonempty view.semanticTarget with
  | none => none
  | some threadId =>
    if data.topicBreak then none
    else some { rule := .semanticReopen, threadId := some threadId, reason := "semantic_reopen",
                newTurn := true }

def ruleMentionNoReference (data : JoinInput) : Option JoinDecision :=
  if data.mentionedBot then
    some { rule := .mentionNoReference, reason := "mention_without_reference", newThread := true }
  else none

def ruleDmLastActive (data : JoinInput) (view : JoinView) : Option JoinDecision :=
  if data.isGroup then none
  else match nonempty view.lastActiveDmThread with
    | none => some { rule := .dmLastActive, reason := "dm_new_thread", newThread := true }
    | some threadId =>
      if data.topicBreak then some { rule := .dmLastActive, reason := "dm_new_thread", newThread := true }
      else some { rule := .dmLastActive, threadId := some threadId, reason := "last_active_dm_thread",
                  newTurn := true }

def ruleAmbient : JoinDecision := { rule := .ambient, reason := "ambient" }

def JoinRule.answer (data : JoinInput) (view : JoinView) : JoinRule → Option JoinDecision
  | .replyKnown => ruleReplyKnown data view
  | .explicitCorrection => ruleExplicitCorrection data view
  | .replyBotNewThread => ruleReplyBotNewThread data view
  | .followupSingleActive => ruleFollowupSingleActive data view
  | .semanticReopen => ruleSemanticReopen data view
  | .mentionNoReference => ruleMentionNoReference data
  | .dmLastActive => ruleDmLastActive data view
  | .ambient => some ruleAmbient

def decideJoin (data : JoinInput) (view : JoinView) : JoinDecision :=
  (joinRules.findSome? fun rule => rule.answer data view).getD ruleAmbient

/-- Where each rule puts the event: the thread and the turn it names, and whether the event
asks for a new turn. -/
inductive Joins (data : JoinInput) (view : JoinView) :
    JoinRule → Option String → Option String → Bool → Prop
  | replyEnded (threadId : String) (hr : nonempty view.replyThreadId = some threadId)
      (he : view.replyEnded = true) (hn : view.replyReopenable = false) :
      Joins data view .replyKnown none none false
  | reply (threadId : String) (hr : nonempty view.replyThreadId = some threadId)
      (he : view.replyEnded = true → view.replyReopenable = true) :
      Joins data view .replyKnown (some threadId) none view.replyEnded
  | correction (threadId turnId : String) (hr : nonempty view.replyThreadId = none)
      (hc : data.explicitCorrection = true ∨ data.kind.revises = true)
      (ht : view.correctionTargets = [(threadId, turnId)]) :
      Joins data view .explicitCorrection (some threadId) (some turnId) false
  | ambiguous (ht : 1 < view.correctionTargets.length) :
      Joins data view .explicitCorrection none none false
  | replyBot (hr : nonempty view.replyThreadId = none) : Joins data view .replyBotNewThread none none true
  | followup (threadId : String) (turnId : Option String)
      (ht : view.activeThreadsForPrincipal = [(threadId, turnId)]) :
      Joins data view .followupSingleActive (some threadId) turnId turnId.isNone
  | semantic (threadId : String) (ht : nonempty view.semanticTarget = some threadId) :
      Joins data view .semanticReopen (some threadId) none true
  | mention (hm : data.mentionedBot = true) : Joins data view .mentionNoReference none none false
  | dmNew (hg : data.isGroup = false) (hn : nonempty view.lastActiveDmThread = none ∨ data.topicBreak = true) :
      Joins data view .dmLastActive none none false
  | dmLast (threadId : String) (hg : data.isGroup = false)
      (ht : nonempty view.lastActiveDmThread = some threadId) :
      Joins data view .dmLastActive (some threadId) none true
  | ambient : Joins data view .ambient none none false

/-- The decision is where its rule puts the event, and unclear only among several targets. -/
structure JoinDecision.Placed (data : JoinInput) (view : JoinView) (d : JoinDecision) : Prop where
  joins : Joins data view d.rule d.threadId d.turnId d.newTurn
  clear : d.needsClarification = true → 1 < view.correctionTargets.length
  joinsIn : d.observesOnly = false

section
variable {data : JoinInput} {view : JoinView} {d : JoinDecision}

private theorem unasked {p : Prop} (h : false = true) : p := absurd h Bool.false_ne_true

private theorem ruleReplyKnown_placed (h : ruleReplyKnown data view = some d) : d.Placed data view := by
  unfold ruleReplyKnown at h
  split at h
  · cases h
  rename_i threadId hr
  split_ifs at h with he
  · cases h
    rw [Bool.and_eq_true,Bool.not_eq_true'] at he
    exact ⟨.replyEnded threadId hr he.1 he.2,unasked,rfl⟩
  · cases h
    rw [Bool.and_eq_true,Bool.not_eq_true',not_and,Bool.not_eq_false] at he
    have hopen : (!view.replyEnded || view.replyReopenable) = true := by
      cases hended : view.replyEnded with
      | false => rfl
      | true => exact he hended
    refine ⟨?_,unasked,rfl⟩
    simp only [hopen,if_true]
    exact .reply threadId hr he

private theorem ruleReplyKnown_none (h : ruleReplyKnown data view = none) :
    nonempty view.replyThreadId = none := by
  unfold ruleReplyKnown at h
  split at h
  · assumption
  · split at h <;> cases h

private theorem ruleExplicitCorrection_placed (hr : nonempty view.replyThreadId = none)
    (h : ruleExplicitCorrection data view = some d) : d.Placed data view := by
  unfold ruleExplicitCorrection at h
  split at h
  next hc =>
    split at h
    · cases h
    next threadId turnId ht =>
      cases h
      exact ⟨.correction threadId turnId hr (Bool.or_eq_true_iff.mp hc) ht,unasked,rfl⟩
    next hnil hone =>
      cases h
      have hmany : 1 < view.correctionTargets.length := by
        cases ht : view.correctionTargets with
        | nil => exact absurd ht hnil
        | cons target rest =>
          cases rest with
          | nil => exact absurd ht (hone target.1 target.2)
          | cons _ _ => simp
      exact ⟨.ambiguous hmany,fun _ => hmany,rfl⟩
  · cases h

private theorem ruleReplyBotNewThread_placed (hr : nonempty view.replyThreadId = none)
    (h : ruleReplyBotNewThread data view = some d) : d.Placed data view := by
  unfold ruleReplyBotNewThread at h
  split at h <;> cases h
  exact ⟨.replyBot hr,unasked,rfl⟩

private theorem ruleFollowupSingleActive_placed (h : ruleFollowupSingleActive data view = some d) :
    d.Placed data view := by
  unfold ruleFollowupSingleActive at h
  split at h
  · cases h
  split at h
  next threadId turnId ht =>
    split at h <;> cases h
    exact ⟨.followup threadId turnId ht,unasked,rfl⟩
  · cases h

private theorem ruleSemanticReopen_placed (h : ruleSemanticReopen data view = some d) :
    d.Placed data view := by
  unfold ruleSemanticReopen at h
  split at h
  · cases h
  next threadId ht =>
    split at h <;> cases h
    exact ⟨.semantic threadId ht,unasked,rfl⟩

private theorem ruleMentionNoReference_placed (h : ruleMentionNoReference data = some d) :
    d.Placed data view := by
  unfold ruleMentionNoReference at h
  split at h <;> cases h
  exact ⟨.mention ‹_›,unasked,rfl⟩

private theorem ruleDmLastActive_placed (h : ruleDmLastActive data view = some d) :
    d.Placed data view := by
  unfold ruleDmLastActive at h
  split at h
  · cases h
  rename_i hg
  have hg : data.isGroup = false := Bool.eq_false_iff.mpr hg
  split at h
  next hn =>
    cases h
    exact ⟨.dmNew hg (.inl hn),unasked,rfl⟩
  next threadId ht =>
    split at h <;> cases h
    · exact ⟨.dmNew hg (.inr ‹_›),unasked,rfl⟩
    · exact ⟨.dmLast threadId hg ht,unasked,rfl⟩

end

/-- Whatever the rules decide, the first that answered put the event there. -/
theorem decideJoin_placed {data : JoinInput} {view : JoinView} : (decideJoin data view).Placed data view := by
  unfold decideJoin joinRules
  simp only [List.findSome?_cons,JoinRule.answer]
  cases h₁ : ruleReplyKnown data view with
  | some d => exact ruleReplyKnown_placed h₁
  | none =>
  have hr := ruleReplyKnown_none h₁
  cases h₂ : ruleExplicitCorrection data view with
  | some d => exact ruleExplicitCorrection_placed hr h₂
  | none =>
  cases h₃ : ruleReplyBotNewThread data view with
  | some d => exact ruleReplyBotNewThread_placed hr h₃
  | none =>
  cases h₄ : ruleFollowupSingleActive data view with
  | some d => exact ruleFollowupSingleActive_placed h₄
  | none =>
  cases h₅ : ruleSemanticReopen data view with
  | some d => exact ruleSemanticReopen_placed h₅
  | none =>
  cases h₆ : ruleMentionNoReference data with
  | some d => exact ruleMentionNoReference_placed h₆
  | none =>
  cases h₇ : ruleDmLastActive data view with
  | some d => exact ruleDmLastActive_placed h₇
  | none => exact ⟨.ambient,unasked,rfl⟩

end Yeoman.Processing
