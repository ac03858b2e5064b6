import Yeoman.Processing.Operations

/-! Which tables each operation can write. A lemma is stated for any projection of
the store that ignores those tables, so it serves every other table at once. -/
namespace Yeoman.Processing
open Library Table Txn
variable {β : Type} {π : Store → β}

inductive Tbl where
  | events
  | relations
  | authority
  | decisions
  | effects
  | attempts
  | evidence
  | admissions
  | threads
  | turns
  | pending
  | generations
  | generationSources
  | receipts
  | probes
  | reservations
  | turnSources
  | threadMessages
  | topics
deriving DecidableEq

def Tbl.Ignored (π : Store → β) : Tbl → Prop
  | .events => ∀ s t, π { s with events := t } = π s
  | .relations => ∀ s t, π { s with relations := t } = π s
  | .authority => ∀ s t, π { s with authority := t } = π s
  | .decisions => ∀ s t, π { s with decisions := t } = π s
  | .effects => ∀ s t, π { s with effects := t } = π s
  | .attempts => ∀ s t, π { s with attempts := t } = π s
  | .evidence => ∀ s t, π { s with evidence := t } = π s
  | .admissions => ∀ s t, π { s with admissions := t } = π s
  | .threads => ∀ s t, π { s with threads := t } = π s
  | .turns => ∀ s t, π { s with turns := t } = π s
  | .pending => ∀ s t, π { s with pending := t } = π s
  | .generations => ∀ s t, π { s with generations := t } = π s
  | .generationSources => ∀ s t, π { s with generationSources := t } = π s
  | .receipts => ∀ s t, π { s with receipts := t } = π s
  | .probes => ∀ s t, π { s with probes := t } = π s
  | .reservations => ∀ s t, π { s with reservations := t } = π s
  | .turnSources => ∀ s t, π { s with turnSources := t } = π s
  | .threadMessages => ∀ s t, π { s with threadMessages := t } = π s
  | .topics => ∀ s t, π { s with topics := t } = π s
variable {w e k o r p th t i c : String} {n l : Int} {st : EffectState} {d v m : Option String} {a : AuthorityArgs}
  (he : Tbl.events.Ignored π) (hr : Tbl.relations.Ignored π) (ha : Tbl.authority.Ignored π)
  (hf : Tbl.effects.Ignored π) (hd : Tbl.decisions.Ignored π) (ht : Tbl.attempts.Ignored π)
  (hv : Tbl.evidence.Ignored π) (hm : Tbl.admissions.Ignored π) (hp : Tbl.pending.Ignored π)
  (hg : Tbl.generations.Ignored π) (hs : Tbl.generationSources.Ignored π) (hh : Tbl.threads.Ignored π)
  (hu : Tbl.turns.Ignored π) (hb : Tbl.probes.Ignored π) (hc : Tbl.receipts.Ignored π)
  (hz : Tbl.reservations.Ignored π) (hx : Tbl.turnSources.Ignored π) (hy : Tbl.threadMessages.Ignored π)
  (hw : Tbl.topics.Ignored π)

include hv in
theorem appendEvidence_frame {w : Option String} : Frame π (appendEvidence e k st d n w) := .modify fun s => hv s _

include ht in
theorem finishAttempts_frame {o : EffectState} : Frame π (finishAttempts e n o) := .modify fun s => ht s _

include ht in
theorem insertAttempt_frame {r : AttemptRow} : Frame π (insertAttempt r) :=
  .bind .read fun _ => .bind .require fun _ => .modify fun s => ht s _

include hf in
theorem updateEffects_frame {p : EffectRow → Bool} {f : EffectRow → EffectRow} : Frame π (updateEffects p f) :=
  .bind .read fun _ => .bind_pure (.modify fun s => hf s _)

include hh in
theorem updateThreads_frame {p : ThreadRow → Bool} {f : ThreadRow → ThreadRow} : Frame π (updateThreads p f) :=
  .bind .read fun _ => .bind_pure (.modify fun s => hh s _)

include hu in
theorem updateTurns_frame {p : TurnRow → Bool} {f : TurnRow → TurnRow} : Frame π (updateTurns p f) :=
  .bind .read fun _ => .bind_pure (.modify fun s => hu s _)

include hp in
theorem updatePending_frame {p : PendingRow → Bool} {f : PendingRow → PendingRow} :
    Frame π (updatePending p f) := .modify fun s => hp s _

include hg in
theorem updateGenerations_frame {p : GenerationRow → Bool} {f : GenerationRow → GenerationRow} :
    Frame π (updateGenerations p f) :=
  .bind .read fun _ => .bind_pure (.modify fun s => hg s _)

include ha in
theorem updateAuthority_frame {p : AuthorityRow → Bool} {f : AuthorityRow → AuthorityRow} :
    Frame π (updateAuthority p f) :=
  .bind .read fun _ => .bind_pure (.modify fun s => ha s _)

include hb in
theorem updateProbes_frame {p : ProbeRow → Bool} {f : ProbeRow → ProbeRow} : Frame π (updateProbes p f) :=
  .bind .read fun _ => .bind_pure (.modify fun s => hb s _)

include ha in
theorem ensureEventSourceAuthority_frame {e : EventRow} :
    Frame π (ensureEventSourceAuthority e) := .modify fun s => ha s _

include hr in
theorem recordRelations_frame {e : CanonicalEvent} : Frame π (recordRelations e) :=
  .bind (.each fun _ => .bind .read fun _ => .modify fun s => hr s _) fun _ =>
    .modify fun s => hr s _

include he hr ha in
theorem appendEventConnection_frame {e : CanonicalEvent} : Frame π (appendEventConnection e) := by
  refine .bind .read fun s => ?_
  cases s.eventByKey? e.eventKey with
  | some row =>
    exact .bind .liftExcept fun _ => .bind .require fun _ =>
      .bind_pure (ensureEventSourceAuthority_frame ha)
  | none =>
    cases s.event? e.eventId with
    | some clash => exact .raise
    | none =>
      exact .bind (.modify fun s => he s _) fun _ => .bind (recordRelations_frame hr) fun _ =>
        .bind_pure (ensureEventSourceAuthority_frame ha)

include he in
theorem attachEventAssignment_frame {th tu : Option String} : Frame π (attachEventAssignment e th tu) :=
  .atomically (.modify fun s => he s _)

include ha in
theorem writeAuthority_frame {row : AuthorityRow} : Frame π (writeAuthority a row) := by
  refine .bind .read fun s => ?_
  cases lookup AuthorityRow.key row.key s.authority with
  | none => exact .modify fun s => ha s _
  | some stored =>
    dsimp only
    cases authorityClash stored a with
    | some column => exact .raise
    | none =>
      exact .bind (updateAuthority_frame ha) fun _ =>
        .bind_pure (updateAuthority_frame ha)

include ha in
theorem inheritAudience_frame {e : CanonicalEvent} {p : EventRow} : Frame π (inheritAudience e p n) := by
  refine .ite .pure (.bind (ensureEventSourceAuthority_frame ha) fun _ => .bind .read fun s => ?_)
  cases authorityOf s p with
  | none => exact .pure
  | some proof => exact .bind_pure (updateAuthority_frame ha)

include ha in
theorem projectSourceRevocation_frame {e : CanonicalEvent} : Frame π (projectSourceRevocation e n) := by
  refine .ite .pure (.atomically (.bind .read fun s => ?_))
  dsimp only
  split
  · exact .pure
  · refine .bind (inheritAudience_frame ha) fun _ => .bind_pure (.select fun _ => ?_)
    exact .bind (ensureEventSourceAuthority_frame ha) fun _ =>
      .bind_pure (updateAuthority_frame ha)

include hd in
theorem recordDecision_frame {r : DecisionRecord} : Frame π (recordDecision r) := by
  refine .atomically (.bind .read fun s => ?_)
  cases lookup DecisionRecord.decisionId r.decisionId s.decisions with
  | some row => exact .bind_pure .require
  | none => exact .bind_pure (.modify fun s => hd s _)

include hf hv in
theorem enqueueEffectInConnection_frame {a : EnqueueArgs} {o : Origin} :
    Frame π (enqueueEffectInConnection a st o) := by
  refine .bind .liftExcept fun body => .bind .liftExcept fun target => .bind .read fun s => ?_
  refine .bind .liftExcept fun _ => ?_
  cases s.effectByOperationKey? a.operationKey with
  | some existing => exact .liftExcept
  | none =>
    exact .bind .liftExcept fun _ => .bind (.modify fun s => hf s _) fun _ =>
      .bind_pure (appendEvidence_frame hv)

include hm in
theorem insertAdmission_frame {r : AdmissionRow} : Frame π (insertAdmission r) := by
  refine .bind .read fun s => ?_
  cases s.admission? r.admissionId with
  | none => exact .modify fun s => hm s _
  | some existing => exact .require

include hf ht hv in
theorem claimEffect_frame {a : String} : Frame π (claimEffect e w a n l v) := by
  refine .bind .require fun _ => .bind .require fun _ => .atomically (.bind .read fun s => ?_)
  cases s.effect? e with
  | none => exact .pure
  | some row =>
    exact .ite .pure (.bind (updateEffects_frame hf) fun _ => .ite .pure
      (.bind (insertAttempt_frame ht) fun _ => .bind (appendEvidence_frame hv) fun _ =>
        .pure))

include hf ht hv in
theorem transition_frame {x : List String} {v : EvidenceArg} {w : Option String} :
    Frame π (transition e x t n v w) := by
  refine .bind .require fun _ => .atomically (.bind .read fun s => ?_)
  cases s.effect? e with
  | none => exact .pure
  | some row =>
    exact .ite .pure (.bind .liftExcept fun _ => .bind (updateEffects_frame hf) fun _ =>
      .ite .pure (.bind (.ite (finishAttempts_frame ht) .pure) fun _ =>
        .bind_pure (appendEvidence_frame hv)))

include hv in
theorem recordEvidence_frame {w : Option String} : Frame π (recordEvidence e k n d w) := by
  refine .atomically (.bind .read fun s => ?_)
  cases s.effect? e with
  | none => exact .raise
  | some row => exact appendEvidence_frame hv

include hf ht hv in
theorem recoverExecuting_frame : Frame π (recoverExecuting n) :=
  .atomically (.bind .read fun _ => .bind (.each fun _ => .bind (updateEffects_frame hf) fun _ =>
    .bind (finishAttempts_frame ht) fun _ => appendEvidence_frame hv) fun _ =>
      .pure)

include hh in
theorem openThread_frame : Frame π (openThread c i r k t n) := by
  refine .atomically (.bind .read fun s => ?_)
  cases s.thread? (threadIdFor c i t) with
  | none => exact .bind_pure (.modify fun s => hh s _)
  | some row => exact .bind_pure (updateThreads_frame hh)

include hf hv hp hg hh hu in
theorem closeChatThreads_frame : Frame π (closeChatThreads c i n) := by
  have hc (e : String) : Frame π (cancelOne n e) :=
    .bind (updateEffects_frame hf) fun _ => appendEvidence_frame hv
  have hw (t : String) : Frame π (closeThreadWork n t) :=
    .bind .read fun _ => .bind (.each hc) fun _ => .bind (updatePending_frame hp) fun _ =>
      .bind (updateGenerations_frame hg) fun _ => .bind (updateTurns_frame hu) fun _ =>
        .bind_pure (updateThreads_frame hh)
  exact .atomically (.bind .read fun _ => .bind_pure (.each hw))

include hh hu in
theorem openTurn_frame {st : TurnState} : Frame π (openTurn th p t n st) := by
  refine .atomically (.bind (updateThreads_frame hh) fun _ => .bind .read fun s => ?_)
  cases s.thread? th with
  | none => exact .raise
  | some thread => exact .bind_pure (.modify fun s => hu s _)

include hu in
theorem bumpTurnRevision_frame {r : Int} : Frame π (bumpTurnRevision t r n) := by
  refine .bind (.atomically (.bind .read fun s => ?_)) fun p => ?_
  · cases s.turnJoin? t with
    | none => exact .raise
    | some p =>
      exact .bind .require fun _ => .bind .require fun _ =>
        .bind (updateTurns_frame hu) fun _ => .bind_pure .read
  · exact .liftExcept

include hu in
theorem bumpContextVersion_frame : Frame π (bumpContextVersion t n) := by
  refine .bind (.atomically (updateTurns_frame hu)) fun _ => .bind .read fun s => ?_
  cases s.turn? t with
  | none => exact .raise
  | some turn => exact .pure

include hg in
theorem finishGeneration_frame {g : String} : Frame π (finishGeneration g n o d) :=
  .atomically (.bind_pure (updateGenerations_frame hg))

include he hr ha hc in
theorem recordTransportReceipt_frame {a : ReceiptArgs} : Frame π (recordTransportReceipt a) := by
  refine .atomically (.bind .read fun s => ?_)
  cases s.effect? a.effectId with
  | none => exact .raise
  | some effect =>
    refine .bind (.modify fun s => hc s _) fun _ => ?_
    exact .ite (.bind .liftExcept fun _ => .bind (appendEventConnection_frame he hr ha) fun _ =>
      .pure) .pure

include hb in
theorem scheduleProbe_frame {a d : Int} : Frame π (scheduleProbe e a d n) :=
  .bind .require fun _ => .atomically (.bind .read fun _ => .bind .require fun _ =>
    .bind_pure (.modify fun s => hb s _))

include hz in
theorem reserveSendBudget_frame {a : String} {u w : Int} : Frame π (reserveSendBudget a c i e u n l w) :=
  .atomically (.bind .read fun _ => .ite .pure (.ite .pure
    (.bind_pure (.modify fun s => hz s _))))

include he hr hf hd ht hv hb hc in
theorem purge_frame {rs : RetentionSettings} : Frame π (purge rs n) := by
  refine .atomically (.bind .read fun _ => .bind (.modify fun s => ?_) fun _ => .bind_pure .read)
  -- four tables are put back from the purged side, and four are purged from the other
  let q := purgeStore rs n s
  refine (hc { q with receipts := s.receipts } q.receipts).trans ?_
  refine (hb { q with receipts := s.receipts, probes := s.probes } q.probes).trans ?_
  refine (hv { q with receipts := s.receipts, probes := s.probes, evidence := s.evidence } q.evidence).trans ?_
  refine Eq.trans ?_ (he s q.events)
  refine Eq.trans ?_ (hr { s with events := q.events } q.relations)
  refine Eq.trans ?_ (hf { s with events := q.events, relations := q.relations } q.effects)
  refine Eq.trans ?_ (hd { s with events := q.events, relations := q.relations, effects := q.effects } q.decisions)
  exact ht { s with events := q.events, relations := q.relations, effects := q.effects, decisions := q.decisions } _

include hx in
theorem addTurnSource_frame {v : Int} : Frame π (addTurnSource t e m r v n) :=
  .atomically (.bind .read fun _ => .ite .pure (.bind .require fun _ => .modify fun s => hx s _))

def Op.writes : Op → List Tbl
  | .appendEvent .. => [.events, .relations, .authority]
  | .attachEventAssignment .. => [.events]
  | .upsertEventSourceAuthority .. => [.authority]
  | .revokeEventSourceAuthority .. => [.authority]
  | .projectSourceRevocation .. => [.authority]
  | .recordDecision .. => [.decisions]
  | .enqueueEffect .. => [.effects, .evidence]
  | .enqueueParticipationEffect .. => [.effects, .evidence, .admissions]
  | .claimEffect .. => [.effects, .attempts, .evidence]
  | .releaseClaim .. => [.effects]
  | .transition .. => [.effects, .attempts, .evidence]
  | .recordEvidence .. => [.evidence]
  | .recoverExecuting .. => [.effects, .attempts, .evidence]
  | .openThread .. => [.threads]
  | .touchThread .. => [.threads]
  | .reopenThread .. => [.threads]
  | .markDormant .. => [.threads]
  | .reactivate .. => [.threads]
  | .settleIdleTurns .. => [.turns]
  | .closeIdleThreads .. => [.threads, .turns]
  | .closeChatThreads .. => [.effects, .evidence, .pending, .generations, .turns, .threads]
  | .openTurn .. => [.threads, .turns]
  | .closeTurn .. => [.turns]
  | .bumpTurnRevision .. => [.turns]
  | .bumpContextVersion .. => [.turns]
  | .enqueuePendingInput .. => [.pending]
  | .drainPendingInputs .. => [.pending]
  | .promoteDeferred .. => [.pending]
  | .recordGeneration .. => [.generations, .generationSources, .turns]
  | .finishGeneration .. => [.generations]
  | .recordTransportReceipt .. => [.receipts, .events, .relations, .authority]
  | .scheduleProbe .. => [.probes]
  | .claimProbe .. => [.probes]
  | .finishProbe .. => [.probes]
  | .reserveSendBudget .. => [.reservations]
  | .purge .. => [.events, .relations, .effects, .decisions, .attempts, .evidence, .probes, .receipts]
  | .addTurnSource .. => [.turnSources]
  | .markTurnSourceRemoved .. => [.turnSources]
  | .registerThreadMessage .. => [.threadMessages]
  | .attachConfirmedMessageId .. => [.threadMessages]
  | .noteThreadTopic .. => [.topics]
  | .forgetTopicSource .. => [.topics]

/-- An operation leaves every projection alone that ignores the tables it writes. -/
theorem Op.frame (op : Op) (h : ∀ t ∈ op.writes, t.Ignored π) (s : Store) : π (op.exec s) = π s := by
  unfold Op.exec
  cases op <;> rw [Op.apply,reply_snd] <;> revert s <;> change Frame π _ <;>
    simp only [Op.writes,List.forall_mem_cons,List.not_mem_nil,false_imp_iff,implies_true,and_true] at h
  case appendEvent =>
    exact .bind .require fun _ => .bind .liftExcept fun _ => .atomically
      (appendEventConnection_frame h.1 h.2.1 h.2.2)
  case attachEventAssignment => exact attachEventAssignment_frame h
  case upsertEventSourceAuthority =>
    exact .bind .require fun _ => .bind .require fun _ => .bind .liftExcept fun _ => .atomically (.bind
      (writeAuthority_frame h) fun _ => .bind_pure .read)
  case revokeEventSourceAuthority => exact .atomically (.bind_pure (updateAuthority_frame h))
  case projectSourceRevocation => exact projectSourceRevocation_frame h
  case recordDecision => exact recordDecision_frame h
  case enqueueEffect =>
    exact .bind .require fun _ => .bind .require fun _ => .bind .liftExcept fun _ =>
      .bind .require fun _ => .bind .liftExcept fun _ => .atomically
      (enqueueEffectInConnection_frame h.1 h.2)
  case enqueueParticipationEffect =>
    exact .bind .require fun _ => .bind .require fun _ => .bind .require fun _ =>
      .bind .require fun _ => .bind .require fun _ => .atomically (.bind
      (insertAdmission_frame h.2.2) fun _ => enqueueEffectInConnection_frame h.1 h.2.1)
  case claimEffect => exact claimEffect_frame h.1 h.2.1 h.2.2
  case releaseClaim => exact .atomically (.bind_pure (updateEffects_frame h))
  case transition => exact transition_frame h.1 h.2.1 h.2.2
  case recordEvidence => exact recordEvidence_frame h
  case recoverExecuting => exact recoverExecuting_frame h.1 h.2.1 h.2.2
  case openThread => exact openThread_frame h
  case touchThread | reopenThread | reactivate => exact .atomically (.bind_pure (updateThreads_frame h))
  case markDormant =>
    exact .atomically (.select fun _ => .bind .read fun _ => .ite .pure (.bind_pure
      (updateThreads_frame h)))
  case settleIdleTurns =>
    exact .atomically (.bind .read fun _ => .bind_pure (.select fun _ => .bind .read fun _ => .ite .pure
      (.ite .pure (.bind_pure (updateTurns_frame h)))))
  case closeIdleThreads =>
    exact .atomically (.bind .read fun _ => .bind_pure (.each fun _ => .bind
      (updateThreads_frame h.1) fun _ => .bind_pure (updateTurns_frame h.2)))
  case closeChatThreads => exact closeChatThreads_frame h.1 h.2.1 h.2.2.1 h.2.2.2.1 h.2.2.2.2.2 h.2.2.2.2.1
  case openTurn => exact openTurn_frame h.1 h.2
  case closeTurn => exact .bind .liftExcept fun _ => .atomically (.bind_pure (updateTurns_frame h))
  case bumpTurnRevision => exact bumpTurnRevision_frame h
  case bumpContextVersion => exact bumpContextVersion_frame h
  case enqueuePendingInput =>
    exact .atomically (.bind .read fun _ => .ite .pure (.bind .require fun _ => .bind_pure
      (.modify fun s => h s _)))
  case drainPendingInputs | promoteDeferred =>
    exact .atomically (.bind .read fun _ => .bind (.each fun _ => updatePending_frame h) fun _ => .pure)
  case recordGeneration =>
    exact .atomically (.bind (.modify fun s => h.1 s _) fun _ => .bind (.each fun _ =>
      .modify fun s => h.2.1 s _) fun _ => .bind_pure (updateTurns_frame h.2.2))
  case finishGeneration => exact finishGeneration_frame h
  case recordTransportReceipt => exact recordTransportReceipt_frame h.2.1 h.2.2.1 h.2.2.2 h.1
  case scheduleProbe => exact scheduleProbe_frame h
  case claimProbe =>
    exact .bind .require fun _ => .bind .require fun _ => .atomically (.bind_pure
      (updateProbes_frame h))
  case finishProbe => exact .atomically (.bind_pure (updateProbes_frame h))
  case reserveSendBudget => exact reserveSendBudget_frame h
  case purge =>
    exact purge_frame h.1 h.2.1 h.2.2.1 h.2.2.2.1 h.2.2.2.2.1 h.2.2.2.2.2.1 h.2.2.2.2.2.2.1 h.2.2.2.2.2.2.2
  case addTurnSource => exact addTurnSource_frame h
  case markTurnSourceRemoved => exact .atomically (.bind .read fun _ => .bind_pure (.modify fun s => h s _))
  case registerThreadMessage =>
    exact .atomically (.bind .read fun _ => .ite .pure (.bind .require fun _ => .modify fun s => h s _))
  case attachConfirmedMessageId =>
    exact .bind .require fun _ => .atomically (.bind .read fun _ => .bind .require fun _ => .bind_pure
      (.modify fun s => h s _))
  case noteThreadTopic => exact .ite .pure (.atomically (.modify fun s => h s _))
  case forgetTopicSource =>
    exact .ite .pure (.atomically (.bind (.modify fun s => h s _) fun _ => .modify fun s => h s _))

def Tbl.Row : Tbl → Type
  | .events => EventRow
  | .relations => RelationRow
  | .authority => AuthorityRow
  | .decisions => DecisionRecord
  | .effects => EffectRow
  | .attempts => AttemptRow
  | .evidence => EvidenceRow
  | .admissions => AdmissionRow
  | .threads => ThreadRow
  | .turns => TurnRow
  | .pending => PendingRow
  | .generations => GenerationRow
  | .generationSources => GenerationSourceRow
  | .receipts => ReceiptRow
  | .probes => ProbeRow
  | .reservations => ReservationRow
  | .turnSources => TurnSourceRow
  | .threadMessages => ThreadMessageRow
  | .topics => TopicRow

def Tbl.rows (s : Store) : (t : Tbl) → List t.Row
  | .events => s.events
  | .relations => s.relations
  | .authority => s.authority
  | .decisions => s.decisions
  | .effects => s.effects
  | .attempts => s.attempts
  | .evidence => s.evidence
  | .admissions => s.admissions
  | .threads => s.threads
  | .turns => s.turns
  | .pending => s.pending
  | .generations => s.generations
  | .generationSources => s.generationSources
  | .receipts => s.receipts
  | .probes => s.probes
  | .reservations => s.reservations
  | .turnSources => s.turnSources
  | .threadMessages => s.threadMessages
  | .topics => s.topics

private theorem Tbl.ignored_rows (t u : Tbl) (h : t ≠ u) : t.Ignored fun s => u.rows s := by
  cases t <;> cases u <;> first | exact absurd rfl h | exact fun _ _ => rfl

theorem Op.rows_eq {op : Op} {t : Tbl} (h : t ∉ op.writes) (s : Store) :
    t.rows (op.exec s) = t.rows s :=
  op.frame (π := fun s => t.rows s) (fun u hu => u.ignored_rows t fun he => h (he ▸ hu)) s

end Yeoman.Processing
