import Yeoman.Library.Runs
import Yeoman.Processing.Lineage
import Yeoman.Processing.Retention

/-! Every store operation as one atomic action, and the world in which workers
interleave them: a multi-transaction operation is a job that other actions may
interrupt between its transactions. -/
namespace Yeoman.Processing
open Library Txn

/-- What a store operation returns. -/
inductive Reply where
  | unit
  | flag (value : Bool)
  | text (value : String)
  | texts (values : List String)
  | turn (ref : TurnRef)
  | number (value : Int)
  | authority (row : Option AuthorityRow)
  | pendingState (state : Option PendingState)
  | pendingRows (rows : List PendingRow)
  | report (report : PurgeReport)

inductive Op where
  | appendEvent (a : AppendArgs)
  | attachEventAssignment (eventId : String) (threadId turnId : Option String)
  | upsertEventSourceAuthority (a : AuthorityArgs)
  | revokeEventSourceAuthority (eventId : String) (revision : Int) (revoking : Option String) (nowMs : Int)
  | projectSourceRevocation (event : CanonicalEvent) (nowMs : Int)
  | recordDecision (record : DecisionRecord)
  | enqueueEffect (a : EnqueueArgs)
  | enqueueParticipationEffect (envelope : EffectEnvelope) (admission : ParticipationAdmission)
  | claimEffect (effectId workerId attemptId : String) (nowMs leaseMs : Int) (policyVersion : Option String)
  | releaseClaim (effectId workerId : String) (nowMs : Int)
  | transition (effectId : String) (expected : List String) (target : String) (nowMs : Int)
      (evidence : EvidenceArg) (workerId : Option String)
  | recordEvidence (effectId kind : String) (nowMs : Int) (detail workerId : Option String)
  | recoverExecuting (nowMs : Int)
  | openThread (channel chatId rootPrincipal kind triggerEventId : String) (nowMs : Int)
  | touchThread (threadId : String) (nowMs : Int)
  | reopenThread (threadId : String) (nowMs : Int)
  | markDormant (threadIds : List String) (nowMs : Int) (reason : String)
  | reactivate (threadId : String) (nowMs : Int)
  | settleIdleTurns (nowMs idleMs : Int) (skipThreads : List String) (limit : Nat)
  | closeIdleThreads (nowMs idleMs : Int)
  | closeChatThreads (channel chatId : String) (nowMs : Int)
  | openTurn (threadId principal triggerEventId : String) (nowMs : Int) (state : TurnState)
  | closeTurn (turnId : String) (nowMs : Int) (state : String)
  | bumpTurnRevision (turnId : String) (expectedRevision nowMs : Int)
  | bumpContextVersion (turnId : String) (nowMs : Int)
  | enqueuePendingInput (row : PendingRow) (cap : Option Int)
  | drainPendingInputs (threadId : String) (nowMs : Int) (limit : Option Nat)
  | promoteDeferred (threadId : String) (nowMs capacity : Int)
  | recordGeneration (row : GenerationRow) (sources : List SourceRef)
  | finishGeneration (generationId : String) (nowMs : Int) (outcome : String) (detail : Option String)
  | recordTransportReceipt (a : ReceiptArgs)
  | scheduleProbe (effectId : String) (attemptNumber dueMs nowMs : Int)
  | claimProbe (probeId workerId : String) (nowMs leaseMs : Int)
  | finishProbe (probeId outcome workerId : String) (nowMs : Int) (detail : Option String)
  | reserveSendBudget (attemptId channel chatId effectId : String) (units nowMs limit windowMs : Int)
  | purge (retention : RetentionSettings) (nowMs : Int)
  | addTurnSource (turnId eventId : String) (sourceMessageId : Option String) (role : String)
      (revisionAtJoin nowMs : Int)
  | markTurnSourceRemoved (turnId eventId : String) (nowMs : Int)
  | registerThreadMessage (threadId : String) (nowMs : Int) (direction : Direction)
      (turnId eventId effectId messageId : Option String)
  | attachConfirmedMessageId (effectId providerMessageId : String) (nowMs : Int)
  | noteThreadTopic (threadId sourceId text : String) (nowMs : Int)
  | forgetTopicSource (sourceId : String) (nowMs : Int)

def reply {α : Type} (f : α → Reply) (x : StoreM α) : StoreM Reply := do return f (← x)

def Op.apply : Op → StoreM Reply
  | .appendEvent a => reply .text (Processing.appendEvent a)
  | .attachEventAssignment e th tu => reply (fun _ => .unit) (Processing.attachEventAssignment e th tu)
  | .upsertEventSourceAuthority a => reply .authority (Processing.upsertEventSourceAuthority a)
  | .revokeEventSourceAuthority e r v n => reply .flag (Processing.revokeEventSourceAuthority e r v n)
  | .projectSourceRevocation e n => reply .texts (Processing.projectSourceRevocation e n)
  | .recordDecision r => reply .text (Processing.recordDecision r)
  | .enqueueEffect a => reply .text (Processing.enqueueEffect a)
  | .enqueueParticipationEffect v a => reply .text (Processing.enqueueParticipationEffect v a)
  | .claimEffect e w a n l v => reply .flag (Processing.claimEffect e w a n l v)
  | .releaseClaim e w n => reply .flag (Processing.releaseClaim e w n)
  | .transition e x t n v w => reply .flag (Processing.transition e x t n v w)
  | .recordEvidence e k n d w => reply (fun _ => .unit) (Processing.recordEvidence e k n d w)
  | .recoverExecuting n => reply .texts (Processing.recoverExecuting n)
  | .openThread c i r k t n => reply .text (Processing.openThread c i r k t n)
  | .touchThread t n => reply (fun _ => .unit) (Processing.touchThread t n)
  | .reopenThread t n => reply .flag (Processing.reopenThread t n)
  | .markDormant t n r => reply .texts (Processing.markDormant t n r)
  | .reactivate t n => reply .flag (Processing.reactivate t n)
  | .settleIdleTurns n i k l => reply .texts (Processing.settleIdleTurns n i k l)
  | .closeIdleThreads n i => reply .texts (Processing.closeIdleThreads n i)
  | .closeChatThreads c i n => reply .texts (Processing.closeChatThreads c i n)
  | .openTurn th p t n s => reply .text (Processing.openTurn th p t n s)
  | .closeTurn t n s => reply .flag (Processing.closeTurn t n s)
  | .bumpTurnRevision t r n => reply .turn (Processing.bumpTurnRevision t r n)
  | .bumpContextVersion t n => reply .number (Processing.bumpContextVersion t n)
  | .enqueuePendingInput r c => reply .pendingState (Processing.enqueuePendingInput r c)
  | .drainPendingInputs t n l => reply .pendingRows (Processing.drainPendingInputs t n l)
  | .promoteDeferred t n c => reply .texts (Processing.promoteDeferred t n c)
  | .recordGeneration r s => reply .text (Processing.recordGeneration r s)
  | .finishGeneration g n o d => reply .flag (Processing.finishGeneration g n o d)
  | .recordTransportReceipt a => reply .text (Processing.recordTransportReceipt a)
  | .scheduleProbe e a d n => reply .text (Processing.scheduleProbe e a d n)
  | .claimProbe p w n l => reply .flag (Processing.claimProbe p w n l)
  | .finishProbe p o w n d => reply .flag (Processing.finishProbe p o w n d)
  | .reserveSendBudget a c i e u n l w => reply .flag (Processing.reserveSendBudget a c i e u n l w)
  | .purge r n => reply .report (Processing.purge r n)
  | .addTurnSource t e m r v n => reply (fun _ => .unit) (Processing.addTurnSource t e m r v n)
  | .markTurnSourceRemoved t e n => reply .flag (Processing.markTurnSourceRemoved t e n)
  | .registerThreadMessage th n d t e f m =>
    reply (fun _ => .unit) (Processing.registerThreadMessage th n d t e f m)
  | .attachConfirmedMessageId f m n => reply .flag (Processing.attachConfirmedMessageId f m n)
  | .noteThreadTopic th i t n => reply (fun _ => .unit) (Processing.noteThreadTopic th i t n)
  | .forgetTopicSource i n => reply (fun _ => .unit) (Processing.forgetTopicSource i n)

def Op.exec (s : Store) (op : Op) : Store := (op.apply s).2

theorem reply_snd {α : Type} (f : α → Reply) (x : StoreM α) (s : Store) :
    (reply f x s).2 = (x s).2 := bind_pure_snd

structure CancelJob where
  remaining : List String
  nowMs : Int
  reason : String

structure World where
  store : Store := Store.empty
  cancels : List CancelJob := []

/-- One atomic step of some worker: a single-transaction call, the read with which
`cancel_stale_effects` begins, the next of its transactions, or a crash that loses
every call under way and keeps the database. -/
inductive Action where
  | call (op : Op)
  | beginCancel (turnId : String) (currentRevision nowMs : Int) (reason : String)
  | resumeCancel (job : Nat)
  | crash

def World.resume (w : World) (job : Nat) : World :=
  match w.cancels[job]? with
  | some { remaining := effectId :: rest, nowMs, reason } =>
    { store := (cancelStale effectId nowMs reason w.store).2
      cancels := w.cancels.set job { remaining := rest, nowMs, reason } }
  | _ => w

def World.step (w : World) : Action → World
  | .call op => { w with store := op.exec w.store }
  | .beginCancel turnId currentRevision nowMs reason =>
    { w with cancels := w.cancels ++
        [{ remaining := staleEffects w.store turnId currentRevision, nowMs, reason }] }
  | .resumeCancel job => w.resume job
  | .crash => { w with cancels := [] }
variable (w : World)

theorem World.step_call {op : Op} : (w.step (.call op)).store = op.exec w.store := rfl

def World.initial : World := {}

def World.Reachable (w : World) : Prop := Runs.Reachable World.step World.initial w

def cancelOp (effectId : String) (nowMs : Int) (reason : String) : Op :=
  .transition effectId [EffectState.queued.name] EffectState.cancelled.name nowMs
    (evidenceOf "superseded" reason) none

inductive Action.Performs : Action → Op → Prop
  | call (op : Op) : Performs (.call op) op
  | resume (job : Nat) (effectId : String) (nowMs : Int) (reason : String) :
      Performs (.resumeCancel job) (cancelOp effectId nowMs reason)

private theorem World.resume_store {job : Nat} :
    (w.resume job).store = w.store ∨
    ∃ op, (Action.resumeCancel job).Performs op ∧ (w.resume job).store = op.exec w.store := by
  unfold World.resume
  split
  next effectId rest nowMs reason _ =>
    exact .inr ⟨_,.resume job effectId nowMs reason,(reply_snd _ _ _).symm⟩
  · exact .inl rfl

theorem World.step_store {a : Action} :
    (w.step a).store = w.store ∨ ∃ op, a.Performs op ∧ (w.step a).store = op.exec w.store := by
  cases a with
  | call op => exact .inr ⟨op,.call op,rfl⟩
  | beginCancel | crash => exact .inl rfl
  | resumeCancel job => exact World.resume_store w

theorem World.Reachable.store_invariant {I : Store → Prop} (h₀ : I Store.empty)
    (hs : ∀ s (op : Op), I s → I (op.exec s)) {w : World} (h : w.Reachable) : I w.store := by
  refine Runs.Reachable.invariant (I := fun w => I w.store) h h₀ ?_
  intro w a hw
  rcases World.step_store w with h | ⟨op,-,h⟩
  · rwa [h]
  · rw [h]
    exact hs _ op hw

def Via (P : Op → Prop) : Store → Store → Prop :=
  Relation.ReflTransGen fun s s' => ∃ op : Op, P op ∧ op.exec s = s'

namespace Via
variable {P : Op → Prop}

theorem refl (s : Store) : Via P s s := Relation.ReflTransGen.refl

theorem trans (a b c : Store) (h : Via P a b) (h' : Via P b c) : Via P a c :=
  Relation.ReflTransGen.trans h h'

theorem mono {Q : Op → Prop} (hpq : ∀ op, P op → Q op) (a b : Store) (h : Via P a b) : Via Q a b :=
  Relation.ReflTransGen.mono (fun _ _ ⟨op,hp,hs⟩ => ⟨op,hpq op hp,hs⟩) a b h

theorem invariant {I : Store → Prop} (hs : ∀ s (op : Op), P op → I s → I (op.exec s)) {s s' : Store}
    (h : Via P s s') (hi : I s) : I s' := by
  induction h with
  | refl => exact hi
  | tail _ hop ih =>
    obtain ⟨op,hp,rfl⟩ := hop
    exact hs _ op hp ih

theorem call {α : Type} (op : Op) (hp : P op) {f : α → Reply} {x : StoreM α} (hx : op.apply = reply f x) :
    Keeps id (Via P) x := by
  intro s
  refine Relation.ReflTransGen.single ⟨op,hp,?_⟩
  rw [Op.exec,hx,reply_snd]
  rfl

end Via

end Yeoman.Processing
