import Mathlib.Data.List.Basic

/-! The last steps of an opportunity evaluation: when the fence of the direct requests is read before an
action leaves the decision runtime. -/
namespace Yeoman.Processing.ParticipationRuntime

/-- What `direct_work_active` comes to. -/
inductive FenceAnswer where
  | inactive
  | active
  | unreadable
  | historyPaused
deriving DecidableEq

/-- What `_revalidate_selected_knowledge` comes to. It is a coroutine without a suspension point. -/
inductive Revalidation where
  | unchanged
  | changed
  | blocked
  | historyPaused

inductive Handoff where
  | reactor
  | mediaSender
  | submit
  | queueApproval

inductive FlowEvent where
  | suspend
  | fence (answer : FenceAnswer)
  | call (target : Handoff)

/-- The events of a part of the evaluation, and whether the flow goes on behind it. -/
structure Flow where
  events : List FlowEvent
  goesOn : Bool

namespace Flow

def andThen (x y : Flow) : Flow := if x.goesOn then ⟨x.events ++ y.events,y.goesOn⟩ else x

def done : Flow := ⟨[],true⟩

def all (parts : List Flow) : Flow := parts.foldr andThen done

def leave (awaits : Nat) : Flow := ⟨List.replicate awaits .suspend,false⟩

def suspend : Flow := ⟨[.suspend],true⟩

def check (passes : Bool) (awaits : Nat) : Flow := if passes then done else leave awaits

/-- A hand-off, and the awaits of its outcome. -/
def call (target : Handoff) (awaits : Nat) : Flow := ⟨.call target :: List.replicate awaits .suspend,false⟩

def directActive (answer : FenceAnswer) (awaits : Nat) : Flow :=
  andThen ⟨[.fence answer],true⟩ <| match answer with
    | .inactive => done
    | .active | .unreadable => leave awaits
    | .historyPaused => leave 0

def revalidate (knowledge : Revalidation) (awaits : Nat) : Flow :=
  match knowledge with
  | .unchanged => done
  | .changed | .blocked => leave awaits
  | .historyPaused => leave 0

end Flow

inductive Delivered where
  | raised
  | sent
  | failed
  | unknown

def Delivered.awaits : Delivered → Nat
  | .raised | .unknown => 2
  | .sent | .failed => 3

structure ReactionAnswers where
  (reactionPath admitted reserved : Bool)
  direct : FenceAnswer
  knowledge : Revalidation
  withinDeadline : Bool
  directAgain : FenceAnswer
  delivered : Delivered

open Flow

def runReaction (a : ReactionAnswers) : Flow :=
  all [check a.reactionPath 1, check a.admitted 1, suspend, check a.reserved 1, directActive a.direct 1,
    revalidate a.knowledge 2, check a.withinDeadline 2, directActive a.directAgain 1,
    call .reactor a.delivered.awaits]

structure VetoAnswers where
  direct : FenceAnswer
  knowledge : Revalidation
  withinDeadline : Bool

/-- What `_image_veto` leads to in its caller. -/
def imageVeto (v : VetoAnswers) : List Flow :=
  [directActive v.direct 1, revalidate v.knowledge 2, check v.withinDeadline 2]

inductive Rendered where
  | image
  | failed
  | historyPaused

def Rendered.flow : Rendered → Flow
  | .image => done
  | .failed => leave 2
  | .historyPaused => leave 1

structure ImageAnswers where
  (memePath limits reserved : Bool)
  veto : VetoAnswers
  rendered : Rendered
  admitted : Bool
  vetoAgain : VetoAnswers
  delivered : Delivered

def runImage (a : ImageAnswers) : Flow :=
  all ([check a.memePath 1, check a.limits 1, suspend, check a.reserved 1] ++ imageVeto a.veto ++
    [suspend, a.rendered.flow, check a.admitted 2] ++ imageVeto a.vetoAgain ++
    [call .mediaSender a.delivered.awaits])

/-- The fences `_final_submission_veto` reads behind the direct one: pauses, source access, epoch and lane. -/
inductive OtherFences where
  | lifted
  | closed
  | historyPaused

def OtherFences.flow : OtherFences → Flow
  | .lifted => done
  | .closed => leave 2
  | .historyPaused => leave 0

structure CommentAnswers where
  withinDeadline : Bool
  knowledge : Revalidation
  (stillWithinDeadline admitted : Bool)
  direct : FenceAnswer
  fences : OtherFences
  (approvalRequired evidence approvalPath : Bool)
  /-- The awaits of the outcome of the submission or of the staged approval. -/
  outcome : Nat

def submitComment (a : CommentAnswers) : Flow :=
  all ([check a.withinDeadline 2, revalidate a.knowledge 2, check a.stillWithinDeadline 2, check a.admitted 2,
    directActive a.direct 1, a.fences.flow] ++
    if a.approvalRequired then [check a.evidence 2, check a.approvalPath 2, call .queueApproval a.outcome]
    else [call .submit a.outcome])

inductive ActionFlow where
  | reaction (a : ReactionAnswers)
  | image (a : ImageAnswers)
  | comment (a : CommentAnswers)

def ActionFlow.run : ActionFlow → Flow
  | .reaction a => runReaction a
  | .image a => runImage a
  | .comment a => submitComment a

/-- One evaluation. Whatever precedes the flow of the decided action, judging, drafting and
reconsidering, hands nothing off; it may read the fence and suspend as it likes. -/
structure Evaluation where
  before : List FlowEvent
  flow : Option ActionFlow
  no_call : ∀ target, .call target ∉ before

def Evaluation.events (e : Evaluation) : List FlowEvent := e.before ++ (e.flow.elim [] fun f => f.run.events)

def Fenced : Bool → List FlowEvent → Prop
  | _, [] => True
  | _, .suspend :: rest => Fenced false rest
  | fresh, .fence answer :: rest => Fenced (fresh || answer = .inactive) rest
  | fresh, .call _ :: rest => fresh = true ∧ Fenced fresh rest
variable {fresh : Bool} {xs ys : List FlowEvent} {x y : Flow}

theorem Fenced.replicate_suspend (fresh : Bool) (n : Nat) : Fenced fresh (List.replicate n .suspend) := by
  induction n generalizing fresh with
  | zero => exact trivial
  | succ n ih => exact ih false

def Flow.Plain (x : Flow) : Prop := x = done ∨ ∃ awaits, x = leave awaits
variable {n : Nat}

theorem plain_check {passes : Bool} : (check passes n).Plain := by
  cases passes with
  | false => exact .inr ⟨n,rfl⟩
  | true => exact .inl rfl

theorem plain_revalidate {knowledge : Revalidation} : (revalidate knowledge n).Plain := by
  cases knowledge with
  | unchanged => exact .inl rfl
  | historyPaused => exact .inr ⟨0,rfl⟩
  | changed | blocked => exact .inr ⟨n,rfl⟩

theorem plain_rendered {r : Rendered} : r.flow.Plain := by
  cases r with
  | image => exact .inl rfl
  | failed | historyPaused => exact .inr ⟨_,rfl⟩

theorem plain_fences {f : OtherFences} : f.flow.Plain := by
  cases f with
  | lifted => exact .inl rfl
  | closed | historyPaused => exact .inr ⟨_,rfl⟩

theorem Fenced.plain (hx : x.Plain) (h : Fenced fresh y.events) : Fenced fresh (andThen x y).events := by
  rcases hx with rfl | ⟨n,rfl⟩
  · exact h
  · exact .replicate_suspend fresh n

theorem Fenced.suspend (h : Fenced false y.events) : Fenced fresh (andThen suspend y).events := h
variable {target : Handoff}

theorem Fenced.directActive {answer : FenceAnswer} (h : Fenced true y.events) :
    Fenced fresh (andThen (directActive answer n) y).events := by
  cases answer with
  | inactive => simpa [Flow.directActive,andThen,done,Fenced] using h
  | historyPaused => exact trivial
  | active | unreadable =>
    exact (Fenced.replicate_suspend _ n : Fenced (fresh || false) _)

theorem Fenced.call : Fenced true (andThen (call target n) done).events :=
  ⟨rfl,.replicate_suspend true n⟩

theorem runReaction_fenced {a : ReactionAnswers} : Fenced fresh (runReaction a).events := by
  refine .plain plain_check (.plain plain_check (.suspend (.plain plain_check ?_)))
  refine .directActive (.plain plain_revalidate (.plain plain_check ?_))
  exact .directActive (.call)

theorem imageVeto_fenced {v : VetoAnswers} {parts : List Flow} (h : Fenced true (all parts).events) :
    Fenced fresh (all (imageVeto v ++ parts)).events :=
  .directActive (.plain plain_revalidate (.plain plain_check h))

theorem runImage_fenced {a : ImageAnswers} : Fenced fresh (runImage a).events := by
  refine .plain plain_check (.plain plain_check (.suspend (.plain plain_check ?_)))
  refine imageVeto_fenced (.suspend (.plain plain_rendered (.plain plain_check ?_)))
  exact imageVeto_fenced (.call)

theorem submitComment_fenced {a : CommentAnswers} : Fenced fresh (submitComment a).events := by
  refine .plain plain_check (.plain plain_revalidate (.plain plain_check ?_))
  refine .plain plain_check (.directActive (.plain plain_fences ?_))
  cases a.approvalRequired with
  | false => exact .call
  | true => exact .plain plain_check (.plain plain_check (.call))

theorem Fenced.read_before_call (h : Fenced fresh (xs ++ .call target :: ys)) :
    (fresh = true ∧ .suspend ∉ xs) ∨ ∃ earlier later, xs = earlier ++ .fence .inactive :: later ∧ .suspend ∉ later := by
  induction xs generalizing fresh with
  | nil => exact .inl ⟨h.1,List.not_mem_nil⟩
  | cons e xs ih =>
    have hcons : (∃ earlier later, xs = earlier ++ .fence .inactive :: later ∧ .suspend ∉ later) →
        ∃ earlier later, e :: xs = earlier ++ .fence .inactive :: later ∧ .suspend ∉ later := by
      rintro ⟨earlier,later,rfl,hl⟩
      exact ⟨e :: earlier,later,rfl,hl⟩
    cases e with
    | suspend => exact .inr (hcons ((ih h).resolve_left fun hf => Bool.false_ne_true hf.1))
    | call => exact (ih h.2).imp (fun hf => ⟨hf.1,by simp [hf.2]⟩) hcons
    | fence answer =>
      rcases ih h with ⟨hf,hs⟩ | hr
      · rcases (Bool.or_eq_true _ _).mp hf with hf | ha
        · exact .inl ⟨hf,by simp [hs]⟩
        · exact .inr ⟨[],xs,by rw [of_decide_eq_true ha]; rfl,hs⟩
      · exact .inr (hcons hr)

/-- Direct requests win until the last moment: whatever the collaborators answer and whatever direct
requests arrive at the suspensions, an action leaves the runtime only if the fence was read as inactive
after the last suspension before. -/
theorem fence_read_before_handoff (e : Evaluation) (before after : List FlowEvent) (target : Handoff)
    (h : e.events = before ++ .call target :: after) :
    ∃ earlier later, before = earlier ++ .fence .inactive :: later ∧ .suspend ∉ later := by
  have hflow : Fenced false (e.flow.elim [] fun f => f.run.events) := by
    rcases e.flow with _ | (a | a | a)
    · exact trivial
    · exact runReaction_fenced
    · exact runImage_fenced
    · exact submitComment_fenced
  rw [Evaluation.events,List.append_eq_append_iff] at h
  rcases h with ⟨rest,rfl,hrest⟩ | ⟨rest,hbefore,hrest⟩
  · rw [hrest] at hflow
    obtain ⟨earlier,later,rfl,hl⟩ := hflow.read_before_call.resolve_left fun hf => Bool.false_ne_true hf.1
    exact ⟨e.before ++ earlier,later,by simp,hl⟩
  · cases rest with
    | nil =>
      rw [List.nil_append] at hrest
      rw [← hrest] at hflow
      exact absurd hflow.1 Bool.false_ne_true
    | cons x rest =>
      obtain ⟨rfl,-⟩ := List.cons.inj hrest
      exact absurd (hbefore ▸ List.mem_append_right _ List.mem_cons_self) (e.no_call target)

theorem fence_read_before_image :
    let quiet : VetoAnswers := ⟨.inactive,.unchanged,true⟩
    let e : Evaluation := ⟨[.fence .active, .suspend],
      some (.image ⟨true,true,true,quiet,.image,true,quiet,.sent⟩),by simp⟩
    let before : List FlowEvent := [.fence .active, .suspend, .suspend, .fence .inactive, .suspend, .fence .inactive]
    e.events = before ++ .call .mediaSender :: List.replicate 3 .suspend ∧
      ∃ earlier later, before = earlier ++ .fence .inactive :: later ∧ .suspend ∉ later := by
  intro quiet e before
  have h : e.events = before ++ .call .mediaSender :: List.replicate 3 .suspend := rfl
  exact ⟨h,fence_read_before_handoff e before _ _ h⟩

end Yeoman.Processing.ParticipationRuntime
