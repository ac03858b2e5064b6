import Yeoman.Processing.Reconcile
import Yeoman.Processing.AttemptHistory

/-! When the reconciler puts an unknown effect back into the queue. Its code is a sequence
of store operations, of which only the consequence of a `not_executed` probe can requeue,
and the probe says so on behalf of any failed attempt, not of the newest one. -/
namespace Yeoman.Processing
open Library Table Txn Runs

structure Op.Calm (op : Op) : Prop where
  orderly : op.Orderly
  receipts : Tbl.receipts ∉ op.writes
  queues : ¬ op.puts .queued
variable {effectId : String}

/-- After calm operations an effect is queued only if it was before. -/
theorem Via.queued {s s' : Store} (h : Via Op.Calm s s')
    (hq : s'.effectState? effectId = some .queued) : s.effectState? effectId = some .queued := by
  refine Via.invariant (I := fun t => t.effectState? effectId = some .queued →
    s.effectState? effectId = some .queued) ?_ h id hq
  exact fun t op ho hi ht => hi ((op.state_entered ht).resolve_right ho.queues)

theorem Via.transportReceipt? {s s' : Store} (h : Via Op.Calm s s') :
    s'.transportReceipt? effectId = s.transportReceipt? effectId := by
  have hr : s'.receipts = s.receipts := by
    refine Via.invariant (I := fun t => t.receipts = s.receipts) ?_ h rfl
    exact fun t op ho hi => (Op.rows_eq ho.receipts t).trans hi
  unfold Store.transportReceipt? effectTransportReceipt
  rw [hr]

section Code
variable (config : ReconciliationConfig)
  {force : Bool} {late : List (String × String)} {p : PendingProbe} (effectId : String) (nowMs : Int)
  (state : EffectState)

private theorem settled_calm {expected : List String} {target : EffectState}
    (hx : target ≠ .executing) (hq : target ≠ .queued) {nowMs : Int} {evidence : EvidenceArg} :
    Keeps id (Via Op.Calm) (transition effectId expected target.name nowMs evidence none) :=
  Via.call (.transition ..) ⟨fun h => hx (EffectState.name_injective h),by simp [Op.writes],
    fun ⟨_,_,h⟩ => hq (EffectState.name_injective h.symm)⟩ rfl
variable {detail : Option String} {attempts : List AttemptRow} {probe : ProbeRow} {result : ProbeResult}
  {deadlineMs : Option Int}

private theorem recordEvidence_calm {kind : String} {nowMs : Int} {workerId : Option String} :
    Keeps id (Via Op.Calm) (recordEvidence effectId kind nowMs detail workerId) :=
  Via.call (.recordEvidence ..) ⟨trivial,by simp [Op.writes],fun h => h.elim fun _ h => h⟩ rfl

theorem pendingDecision_calm :
    Keeps id (Via Op.Calm) (pendingDecision effectId nowMs) := recordEvidence_calm _

theorem finishProbe_calm {probeId outcome workerId : String} {nowMs : Int} :
    Keeps id (Via Op.Calm) (finishProbe probeId outcome workerId nowMs detail) :=
  Via.call (.finishProbe ..) ⟨trivial,by simp [Op.writes],fun h => h.elim fun _ h => h⟩ rfl

theorem claimProbe_calm {probeId workerId : String} {nowMs leaseMs : Int} :
    Keeps id (Via Op.Calm) (claimProbe probeId workerId nowMs leaseMs) :=
  Via.call (.claimProbe ..) ⟨trivial,by simp [Op.writes],fun h => h.elim fun _ h => h⟩ rfl

theorem scheduleProbe_calm {attemptNumber dueMs nowMs : Int} :
    Keeps id (Via Op.Calm) (scheduleProbe effectId attemptNumber dueMs nowMs) :=
  Via.call (.scheduleProbe ..) ⟨trivial,by simp [Op.writes],fun h => h.elim fun _ h => h⟩ rfl

theorem escalate_calm {reason : String} : Keeps id (Via Op.Calm) (escalate effectId nowMs reason) := by
  refine .frame_bind Via.refl .read fun s => ?_
  split
  · exact .bind Via.trans (settled_calm _ (by decide) (by decide)) fun _ => pendingDecision_calm _ _
  · exact pendingDecision_calm _ _
  · exact .of_frame Via.refl .pure

theorem attachReceiptEvidence_calm {evidence : List (String × String)} {nowMs : Int} :
    Keeps id (Via Op.Calm) (attachReceiptEvidence effectId evidence nowMs) := by
  refine .each Via.refl Via.trans fun item => .frame_bind Via.refl .read fun s => ?_
  exact .ite (.of_frame Via.refl .pure) (recordEvidence_calm _)

theorem beginProbe_calm {effectId : String} {deadlineMs nowMs : Int} :
    Keeps id (Via Op.Calm) (beginProbe config attempts probe effectId deadlineMs nowMs force late) := by
  refine .ite ?_ (.ite (.of_frame Via.refl .pure) ?_)
  · exact .bind Via.trans finishProbe_calm fun _ => .bind_pure (escalate_calm _ _)
  · refine .bind Via.trans claimProbe_calm fun won => ?_
    refine .ite (.of_frame Via.refl .pure) (.frame_bind Via.refl .read fun s => ?_)
    exact .bind Via.trans (attachReceiptEvidence_calm _) fun _ =>
      .frame_bind Via.refl .read fun _ => .of_frame Via.refl .pure

theorem lookAtCandidate_calm : Keeps id (Via Op.Calm) (lookAtCandidate config effectId nowMs force late) := by
  refine .frame_bind Via.refl .read fun s => ?_
  cases s.effect? effectId with
  | none => exact .of_frame Via.refl .pure
  | some effect =>
    cases s.openProbe? effectId with
    | some probe => exact beginProbe_calm config
    | none =>
      refine .ite (.bind_pure (escalate_calm _ _)) ?_
      refine .bind Via.trans (scheduleProbe_calm _) fun _ => .frame_bind Via.refl .read fun planned => ?_
      cases planned.openProbe? effectId with
      | none => exact .of_frame Via.refl .pure
      | some probe => exact beginProbe_calm config

theorem beginTick_calm : Keeps id (Via Op.Calm) (beginTick nowMs) := by
  have hm : ¬ (Op.recoverExecuting nowMs).puts .queued := fun ⟨_,h⟩ =>
    absurd (show EffectState.queued = .unknown from h) (by decide)
  refine .bind Via.trans (Via.call (.recoverExecuting nowMs) ⟨trivial,by simp [Op.writes],hm⟩ rfl) fun ids => ?_
  refine .bind_frame (.each Via.refl Via.trans fun id => ?_) fun _ => .bind_pure .read
  exact .bind_pure (scheduleProbe_calm _)

theorem applyProbeResult_calm (h : result.outcome ≠ .notExecuted) {nowMs : Int} :
    Keeps id (Via Op.Calm) (applyProbeResult effectId state result nowMs deadlineMs) := by
  unfold applyProbeResult
  cases ho : result.outcome with
  | confirmed => exact .bind_pure (settled_calm _ (by decide) (by decide))
  | notExecuted => exact absurd ho h
  | inconclusive =>
    refine .ite (.bind Via.trans (settled_calm _ (by decide) (by decide)) fun _ => ?_)
      (.of_frame Via.refl .pure)
    exact .bind_pure (pendingDecision_calm _ _)

theorem applyProbeResult_orderly {nowMs : Int} :
    Keeps id (Via Op.Orderly) (applyProbeResult effectId state result nowMs deadlineMs) := by
  by_cases h : result.outcome = .notExecuted
  · rw [applyProbeResult,h]
    refine .bind_pure (Via.call (.transition ..) ?_ rfl)
    exact fun hx => absurd (EffectState.name_injective hx) (by decide)
  · exact .mono (Via.mono fun _ ho => ho.orderly) (applyProbeResult_calm effectId state h)

theorem reconcileEffect_orderly {probe : ProbeRequest → ProbeResult} {nowMs : Int} :
    Keeps id (Via Op.Orderly) (reconcileEffect effectId probe nowMs deadlineMs) := by
  refine .frame_bind Via.refl .read fun s => ?_
  split
  · exact .of_frame Via.refl .raise
  · exact .ite (.of_frame Via.refl .pure) (applyProbeResult_orderly _ _)

theorem settleCandidate_orderly {pending : PendingProbe} {finishedMs nowMs : Int} :
    Keeps id (Via Op.Orderly) (settleCandidate config pending result finishedMs nowMs) :=
  .bind Via.trans (.mono (Via.mono fun _ ho => ho.orderly) finishProbe_calm) fun _ => reconcileEffect_orderly _

theorem beginProbe_request {effectId : String} {deadlineMs nowMs : Int} {s s' : Store}
    (h : beginProbe config attempts probe effectId deadlineMs nowMs force late s = (.ok (some p), s')) :
    p.request.attempts = attempts ∧ p.request.transport = s.transportReceipt? effectId := by
  unfold beginProbe at h
  split at h
  · obtain ⟨_,m,-,h⟩ := bind_ok h
    obtain ⟨_,m',-,h⟩ := bind_ok h
    cases h
  split at h
  · cases h
  obtain ⟨won,m,hc,h⟩ := bind_ok h
  split at h
  · cases h
  rw [read_bind_apply] at h
  obtain ⟨_,m',ha,h⟩ := bind_ok h
  cases h
  have hm := claimProbe_calm.ends hc
  have hm' := (attachReceiptEvidence_calm _).ends ha
  exact ⟨rfl,(Via.transportReceipt? hm').trans (Via.transportReceipt? hm)⟩

theorem lookAtCandidate_request {effectId : String} {nowMs : Int} {s s' : Store}
    (h : lookAtCandidate config effectId nowMs force late s = (.ok (some p), s')) :
    p.request.attempts = s.attemptsFor effectId ∧ p.request.transport = s.transportReceipt? effectId := by
  rw [lookAtCandidate,read_bind_apply] at h
  cases he : s.effect? effectId with
  | none =>
    rw [he] at h
    cases h
  | some effect =>
    rw [he] at h
    cases ho : s.openProbe? effectId with
    | some probe =>
      rw [ho] at h
      exact beginProbe_request config h
    | none =>
      rw [ho] at h
      dsimp only at h
      generalize (if effect.updatedMs = 0 then nowMs else effect.updatedMs) = unknownMs at h
      split at h
      · obtain ⟨_,m,-,h⟩ := bind_ok h
        cases h
      obtain ⟨_,m,hs,h⟩ := bind_ok h
      rw [read_bind_apply] at h
      cases hp : m.openProbe? effectId with
      | none =>
        rw [hp] at h
        cases h
      | some probe =>
        rw [hp] at h
        obtain ⟨ha,ht⟩ := beginProbe_request config h
        exact ⟨ha,ht.trans (Via.transportReceipt? ((scheduleProbe_calm _).ends hs))⟩

end Code

def ProbeRequest.Spared (request : ProbeRequest) : Prop :=
  (providerId request.transport).isSome = true ∨ ∀ a ∈ request.attempts, a.outcome ≠ some .failed

/-- The probe finds that an effect was not executed as soon as any attempt failed. -/
theorem localEvidenceProbe_notExecuted {lookup : Option (ProbeRequest → Option ProbeResult)}
    {request : ProbeRequest} :
    (localEvidenceProbe lookup request).outcome = .notExecuted ↔ ¬ request.Spared := by
  unfold localEvidenceProbe ProbeRequest.Spared
  cases (providerId request.transport).isSome with
  | true => simp
  | false =>
    split_ifs with h
    · simpa using h
    · simpa using h

section Requeue
variable {s : Store} {effectId : String} {probe : ProbeRequest → ProbeResult}
  {nowMs : Int} {state : EffectState} {result : ProbeResult} {deadlineMs : Option Int}

theorem transition_requeued (hu : s.EffectsUnique) (h : s.effectState? effectId = some .unknown) {detail : String} :
    (transition effectId [EffectState.unknown.name] EffectState.queued.name nowMs
      (evidenceOf "not_executed" detail) none s).2.effectState? effectId = some .queued := by
  obtain ⟨row,hr,hs⟩ := effectState?_some.mp h
  have hv (owner : Option String) : validateTransition .unknown EffectState.queued.name
      (evidenceOf "not_executed" detail).kinds none owner = .ok .queued :=
    validateTransition_ok.mpr ⟨EffectState.ofName?_name,by decide,nofun,
      fun _ _ => ⟨"not_executed",by decide,List.mem_singleton_self _⟩⟩
  have ht := transition_transitioned hu effectId [EffectState.unknown.name] EffectState.queued.name nowMs
    (evidenceOf "not_executed" detail) none
  revert ht
  generalize transition effectId _ _ nowMs _ none s = result
  rintro (_ | ⟨row',hr',-,e,hv'⟩ | hm | ⟨row',hr',-,next,hv'⟩)
  · contradiction
  · cases hr.symm.trans hr'
    rw [hs,hv] at hv'
    cases hv'
  · exact absurd (List.mem_singleton_self _) (hm _ h)
  · cases hr.symm.trans hr'
    rw [hs,hv] at hv'
    cases hv'
    obtain ⟨-,rfl⟩ := lookup_some hr
    exact effectState?_some.mpr ⟨_,Store.effect?_moved hr _ _ _ _,rfl⟩
variable {other : String}

theorem transition_state_other (h : other ≠ effectId) {expected : List String} {target : String}
    {evidence : EvidenceArg} {workerId : Option String} :
    Frame (fun s : Store => s.effectState? other)
      (transition effectId expected target nowMs evidence workerId) := by
  intro s
  let op := Op.transition effectId expected target nowMs evidence workerId
  have he : (op.exec s).effectState? other = s.effectState? other := by
    cases hr : s.effect? other with
    | none => rw [Store.effectState?,Store.effectState?,hr,Op.effect?_eq_none rfl hr]
    | some row =>
      obtain ⟨row',hr',hst⟩ := op.effect_step hr
      rw [Store.effectState?,Store.effectState?,hr,hr']
      rcases hst.moves with hm | hm
      · exact congrArg some hm
      · exact absurd ((lookup_some hr).2.symm.trans hm.1) h
  rwa [Op.exec,Op.apply,reply_snd] at he

/-- `reconcile_effect` requeues an unknown effect exactly when it is about this effect
and its probe says `not_executed`. -/
theorem reconcileEffect_requeues (hu : s.EffectsUnique) (h : s.effectState? other = some .unknown) :
    (reconcileEffect effectId probe nowMs deadlineMs s).2.effectState? other = some .queued ↔
      other = effectId ∧ (probe (probeRequest s effectId)).outcome = .notExecuted := by
  have hne : s.effectState? other ≠ some .queued := by
    rw [h]
    nofun
  rw [reconcileEffect,read_bind_apply]
  cases hr : s.effect? effectId with
  | none =>
    refine iff_of_false hne fun ⟨he,_⟩ => ?_
    rw [he,Store.effectState?,hr] at h
    cases h
  | some effect =>
    by_cases hs : effect.state ≠ .unknown ∧ effect.state ≠ .unknownNonrepeatable
    · simp only [if_pos hs]
      refine iff_of_false hne fun ⟨he,_⟩ => ?_
      rw [he,Store.effectState?,hr] at h
      exact hs.1 (Option.some.inj h)
    · simp only [if_neg hs]
      by_cases ho : (probe (probeRequest s effectId)).outcome = .notExecuted
      · rw [applyProbeResult,ho,bind_pure_snd]
        by_cases he : other = effectId
        · subst he
          have hx : effect.state = .unknown := by
            rw [Store.effectState?,hr] at h
            exact Option.some.inj h
          rw [hx]
          exact iff_of_true (transition_requeued hu h) ⟨rfl,rfl⟩
        · exact iff_of_false (fun hq => hne ((transition_state_other he s).symm.trans hq)) fun hc => he hc.1
      · refine iff_of_false (fun hq => hne ?_) fun ⟨_,hn⟩ => ho hn
        exact Via.queued (applyProbeResult_calm effectId effect.state ho s) hq

/-- Closing the plan does not touch the effects, so settling requeues like
`reconcile_effect` with the result. -/
theorem settleCandidate_requeues {config : ReconciliationConfig} (hu : s.EffectsUnique)
    (h : s.effectState? other = some .unknown) {p : PendingProbe} {finishedMs : Int} :
    (settleCandidate config p result finishedMs nowMs s).2.effectState? other = some .queued ↔
      other = p.effectId ∧ result.outcome = .notExecuted := by
  obtain ⟨b,t,hf⟩ : ∃ b t, finishProbe p.probeId result.outcome.name config.workerId finishedMs result.detail s =
      (.ok b, { s with probes := t }) := ⟨_,_,rfl⟩
  rw [settleCandidate,bind_of_ok hf]
  exact reconcileEffect_requeues (s := { s with probes := t }) hu h

end Requeue

structure ReconcileWorld where
  store : Store := Store.empty
  jobs : List ReconcileJob := []

/-- One atomic step: a store operation of any worker, the start of a tick, a forced
candidate, the look of a candidate up to its await, the probe's result or exception, a
cancellation of the await, a direct `reconcile_effect`, or a crash. -/
inductive ReconcileAction where
  | call (op : Op) (orderly : op.Orderly)
  | tick (nowMs : Int)
  | force (effectId : String) (nowMs : Int)
  | look (job : Nat) (late : List (String × String))
  | settle (job : Nat) (finishedMs nowMs : Int) (raised : Option String)
  | cancel (job : Nat) (nowMs : Int)
  | reconcile (effectId : String) (nowMs : Int) (deadlineMs : Option Int)
  | crash

def awaitedResult (lookup : Option (ProbeRequest → Option ProbeResult)) (request : ProbeRequest) :
    Option String → ProbeResult
  | none => localEvidenceProbe lookup request
  | some kind => { outcome := .inconclusive, detail := some ("probe raised " ++ kind) }

namespace ReconcileWorld
variable (config : ReconciliationConfig) (lookup : Option (ProbeRequest → Option ProbeResult))

def tick (w : ReconcileWorld) (nowMs : Int) : ReconcileWorld :=
  match beginTick nowMs w.store with
  | (.ok ids, s) => { store := s, jobs := w.jobs ++ ids.map fun e => .candidate e nowMs false }
  | (.error _, s) => { w with store := s }

def look (w : ReconcileWorld) (job : Nat) (late : List (String × String)) : ReconcileWorld :=
  match w.jobs[job]? with
  | some (.candidate effectId nowMs force) =>
    match lookAtCandidate config effectId nowMs force late w.store with
    | (.ok (some pending), s) => { store := s, jobs := w.jobs.set job (.probing pending) }
    | (_, s) => { store := s, jobs := w.jobs.set job .done }
  | _ => w

def settle (w : ReconcileWorld) (job : Nat) (finishedMs nowMs : Int) (raised : Option String) :
    ReconcileWorld :=
  match w.jobs[job]? with
  | some (.probing pending) =>
    { store := (settleCandidate config pending (awaitedResult lookup pending.request raised)
        finishedMs nowMs w.store).2
      jobs := w.jobs.set job .done }
  | _ => w

def cancel (w : ReconcileWorld) (job : Nat) (nowMs : Int) : ReconcileWorld :=
  match w.jobs[job]? with
  | some (.probing pending) =>
    { store := (finishProbe pending.probeId ProbeOutcome.inconclusive.name config.workerId nowMs
        (some "cancelled") w.store).2
      jobs := w.jobs.set job .done }
  | _ => w

def step (w : ReconcileWorld) : ReconcileAction → ReconcileWorld
  | .call op _ => { w with store := op.exec w.store }
  | .tick nowMs => w.tick nowMs
  | .force effectId nowMs => { w with jobs := w.jobs ++ [.candidate effectId nowMs true] }
  | .look job late => w.look config job late
  | .settle job finishedMs nowMs raised => w.settle config lookup job finishedMs nowMs raised
  | .cancel job nowMs => w.cancel config job nowMs
  | .reconcile effectId nowMs deadlineMs =>
    { w with store := (reconcileEffect effectId (localEvidenceProbe lookup) nowMs deadlineMs w.store).2 }
  | .crash => { w with jobs := [] }

variable (w : ReconcileWorld)
  {effectId : String} {request : ProbeRequest} {a : ReconcileAction} (job : Nat) (nowMs : Int)

theorem tick_calm : Via Op.Calm w.store (w.tick nowMs).store := by
  unfold tick
  split
  next h =>
    exact (beginTick_calm nowMs).ends h
  next h =>
    exact (beginTick_calm nowMs).ends h
variable {late : List (String × String)} {raised : Option String}

theorem look_calm : Via Op.Calm w.store (w.look config job late).store := by
  unfold look
  split
  · split
    next h =>
      exact (lookAtCandidate_calm config _ _).ends h
    next h =>
      exact (lookAtCandidate_calm config _ _).ends h
  · exact Via.refl _

theorem cancel_calm : Via Op.Calm w.store (w.cancel config job nowMs).store := by
  unfold cancel
  split
  · exact finishProbe_calm w.store
  · exact Via.refl _
variable {finishedMs : Int} {s : Store}

theorem settle_orderly {nowMs : Int} :
    Via Op.Orderly w.store (w.settle config lookup job finishedMs nowMs raised).store := by
  unfold settle
  split
  · exact settleCandidate_orderly config w.store
  · exact Via.refl _

theorem step_orderly (a : ReconcileAction) : Via Op.Orderly w.store (w.step config lookup a).store := by
  have calm {s s' : Store} (h : Via Op.Calm s s') : Via Op.Orderly s s' :=
    Via.mono (fun _ ho => ho.orderly) _ _ h
  cases a with
  | call op ho => exact Relation.ReflTransGen.single ⟨op,ho,rfl⟩
  | tick nowMs => exact calm (w.tick_calm nowMs)
  | force | crash => exact Via.refl _
  | look job late => exact calm (w.look_calm config job)
  | settle job finishedMs nowMs raised => exact w.settle_orderly config lookup job
  | cancel job nowMs => exact calm (w.cancel_calm config job nowMs)
  | reconcile effectId nowMs deadlineMs => exact reconcileEffect_orderly _ w.store

structure Sane (w : ReconcileWorld) : Prop where
  unique : w.store.EffectsUnique
  tracked : w.store.Tracked

variable {w}

theorem Sane.step (h : w.Sane) : (w.step config lookup a).Sane := by
  have hs := Via.invariant (I := fun s => s.EffectsUnique ∧ s.Tracked) ?_ (step_orderly config lookup w a)
    ⟨h.unique,h.tracked⟩
  · exact ⟨hs.1,hs.2⟩
  · exact fun s op ho ⟨hu,ht⟩ => ⟨(op.effects_step s).unique.1 hu,Op.tracked ho hu ht⟩

theorem sane_initial : Sane {} :=
  ⟨List.nodup_nil,fun _ h => absurd h List.not_mem_nil⟩

def reconciles : ReconcileAction → Bool
  | .call .. => false
  | _ => true

/-- When this step of the reconciler requeues an unknown effect, the effect's newest
attempt is proven not to have been dispatched. -/
def Sound (w : ReconcileWorld) (a : ReconcileAction) : Prop :=
  reconciles a = true → ∀ effectId, w.store.effectState? effectId = some .unknown →
    (w.step config lookup a).store.effectState? effectId = some .queued →
    ∃ b, lastAttempt? w.store.attempts effectId = some b ∧ b.outcome = some .failed

def Spares (w : ReconcileWorld) : ReconcileAction → Prop
  | .settle job _ _ none => ∀ p, w.jobs[job]? = some (.probing p) →
      w.store.effectState? p.effectId = some .unknown → p.request.Spared
  | .reconcile effectId _ _ => w.store.effectState? effectId = some .unknown →
      (probeRequest w.store effectId).Spared
  | _ => True

private theorem unsound_of_unknown (h : w.Sane) (hu : w.store.effectState? effectId = some .unknown) :
    ¬ ∃ b, lastAttempt? w.store.attempts effectId = some b ∧ b.outcome = some .failed := by
  rintro ⟨b,hb,ho⟩
  obtain ⟨row,hr,hs⟩ := effectState?_some.mp hu
  obtain ⟨hm,rfl⟩ := lookup_some hr
  obtain ⟨c,hc,hx⟩ := (h.tracked row hm).unknown hs
  cases hb.symm.trans hc
  cases ho.symm.trans hx

private theorem awaitedResult_notExecuted :
    (awaitedResult lookup request raised).outcome = .notExecuted ↔ raised = none ∧ ¬ request.Spared := by
  cases raised with
  | none => exact localEvidenceProbe_notExecuted.trans (and_iff_right rfl).symm
  | some kind => exact iff_of_false nofun fun hr => nomatch hr.1

theorem settle_requeues (h : w.Sane) {other : String} (hu : w.store.effectState? other = some .unknown)
    (job : Nat) (finishedMs nowMs : Int) (raised : Option String) :
    (w.settle config lookup job finishedMs nowMs raised).store.effectState? other = some .queued ↔
      raised = none ∧ ∃ p, w.jobs[job]? = some (.probing p) ∧ other = p.effectId ∧ ¬ p.request.Spared := by
  unfold settle
  split
  next p hj =>
    rw [settleCandidate_requeues h.unique hu,awaitedResult_notExecuted]
    constructor
    · rintro ⟨he,hr,hn⟩
      exact ⟨hr,p,hj,he,hn⟩
    · rintro ⟨hr,q,hq,he,hn⟩
      cases hj.symm.trans hq
      exact ⟨he,hr,hn⟩
  next hj =>
    refine iff_of_false (fun hq => nomatch hu.symm.trans hq) ?_
    rintro ⟨-,p,hp,-⟩
    exact hj p hp

/-- A step is sound exactly when the results it applies do not rest on a failed attempt. -/
theorem sound_iff (h : w.Sane) : Sound config lookup w a ↔ w.Spares a := by
  have calm {s' : Store} (hc : Via Op.Calm w.store s') (effectId : String)
      (hu : w.store.effectState? effectId = some .unknown) :
      s'.effectState? effectId = some .queued →
        ∃ b, lastAttempt? w.store.attempts effectId = some b ∧ b.outcome = some .failed := by
    intro hq
    cases hu.symm.trans (hc.queued hq)
  cases a with
  | call op ho => exact iff_of_true nofun trivial
  | tick nowMs => exact iff_of_true (fun _ => calm (w.tick_calm nowMs)) trivial
  | force | crash => exact iff_of_true (fun _ => calm (Via.refl _)) trivial
  | look job late => exact iff_of_true (fun _ => calm (w.look_calm config job)) trivial
  | cancel job nowMs => exact iff_of_true (fun _ => calm (w.cancel_calm config job nowMs)) trivial
  | reconcile effectId nowMs deadlineMs =>
    constructor
    · intro hs hu
      by_contra hn
      refine unsound_of_unknown h hu (hs rfl effectId hu ?_)
      exact (reconcileEffect_requeues h.unique hu).mpr
        ⟨rfl,localEvidenceProbe_notExecuted.mpr hn⟩
    · intro hs _ other hu hq
      obtain ⟨rfl,hn⟩ := (reconcileEffect_requeues h.unique hu).mp hq
      exact absurd (hs hu) (localEvidenceProbe_notExecuted.mp hn)
  | settle job finishedMs nowMs raised =>
    have hq (other : String) (hu : w.store.effectState? other = some .unknown) :=
      settle_requeues config lookup h hu job finishedMs nowMs raised
    constructor
    · intro hs
      cases raised with
      | some kind => trivial
      | none =>
        intro p hp hu
        by_contra hn
        exact unsound_of_unknown h hu (hs rfl p.effectId hu ((hq _ hu).mpr ⟨rfl,p,hp,rfl,hn⟩))
    · intro hs _ other hu hx
      obtain ⟨rfl,p,hp,rfl,hn⟩ := (hq other hu).mp hx
      exact absurd (hs p hp hu) hn

def Reachable (w : ReconcileWorld) : Prop := Runs.Reachable (step config lookup) {} w

theorem Reachable.sane (h : Reachable config lookup w) : w.Sane :=
  Runs.Reachable.invariant h sane_initial fun _ _ hs => hs.step config lookup

def Settleable (s : Store) (effectId : String) : Prop :=
  (providerId (s.transportReceipt? effectId)).isSome = true ∨
    ∀ a ∈ s.attempts, a.effectId = effectId → a.outcome ≠ some .failed

def LooksAtSettleable (w : ReconcileWorld) : ReconcileAction → Prop
  | .look job _ => ∀ effectId nowMs force, w.jobs[job]? = some (.candidate effectId nowMs force) →
      Settleable w.store effectId
  | .reconcile effectId _ _ => Settleable w.store effectId
  | _ => True

theorem spared_iff
    (ha : request.attempts = s.attemptsFor effectId) (ht : request.transport = s.transportReceipt? effectId) :
    request.Spared ↔ Settleable s effectId := by
  unfold ProbeRequest.Spared Settleable
  rw [ha,ht]
  refine or_congr_right (forall_congr' fun a => ?_)
  rw [Store.attemptsFor,List.mem_insertionSort]
  simp

def Harmless (w : ReconcileWorld) : Prop := ∀ p, .probing p ∈ w.jobs → p.request.Spared

private theorem Harmless.set (h : w.Harmless) {job : Nat} :
    Harmless { store := s, jobs := w.jobs.set job .done } := by
  intro p hp
  rcases List.mem_or_eq_of_mem_set hp with hm | he
  · exact h p hm
  · cases he

theorem Harmless.step (h : w.Harmless) (hl : w.LooksAtSettleable a) : (w.step config lookup a).Harmless := by
  cases a with
  | call | reconcile => exact h
  | tick nowMs =>
    rw [ReconcileWorld.step,ReconcileWorld.tick]
    split
    · intro p hp
      simpa using h p (by simpa using hp)
    · exact h
  | force effectId nowMs => exact fun p hp => h p (by simpa [ReconcileWorld.step] using hp)
  | look job late =>
    rw [ReconcileWorld.step,ReconcileWorld.look]
    split
    next e n f hj =>
      split
      next pending s hr =>
        intro p hp
        rcases List.mem_or_eq_of_mem_set hp with hm | he
        · exact h p hm
        · cases he
          obtain ⟨ha,ht⟩ := lookAtCandidate_request config hr
          exact (spared_iff ha ht).mpr (hl e n f hj)
      · exact h.set
    · exact h
  | settle | cancel =>
    simp only [ReconcileWorld.step,ReconcileWorld.settle,ReconcileWorld.cancel]
    split
    · exact h.set
    · exact h
  | crash => exact fun p hp => absurd hp List.not_mem_nil

theorem Harmless.spares (h : w.Harmless) (hl : w.LooksAtSettleable a) : w.Spares a := by
  cases a with
  | settle job finishedMs nowMs raised =>
    cases raised with
    | none => exact fun p hp _ => h p (List.mem_of_getElem? hp)
    | some kind => trivial
  | reconcile effectId nowMs deadlineMs => exact fun _ => (spared_iff rfl rfl).mpr hl
  | _ => trivial

end ReconcileWorld

open ReconcileWorld

/-- In every run in which the reconciler only looks at effects without a failed attempt, or
with a provider id, each of its requeues is justified by the newest attempt; and in every
reachable world a step is sound exactly when no result that it applies to an unknown effect
rests on a failed attempt. -/
theorem requeue_sound_when (config : ReconciliationConfig) (lookup : Option (ProbeRequest → Option ProbeResult)) :
    (∀ as, Along (step config lookup) LooksAtSettleable {} as →
      Along (step config lookup) (Sound config lookup) {} as) ∧
    ∀ w, Reachable config lookup w → ∀ a, Sound config lookup w a ↔ w.Spares a := by
  constructor
  · intro as h
    refine Along.imp (I := fun w => w.Sane ∧ w.Harmless) ?_ ?_
      ⟨sane_initial,fun p hp => absurd hp List.not_mem_nil⟩ h
    · exact fun w a ⟨hs,hh⟩ hl => ⟨hs.step config lookup,hh.step config lookup hl⟩
    · exact fun w a ⟨hs,hh⟩ hl => (sound_iff config lookup hs).mpr (hh.spares hl)
  · exact fun w hw a => sound_iff config lookup (hw.sane config lookup)

def firstAttemptUnknown : List ReconcileAction :=
  [.call (.enqueueEffect
      { effectId := "e1", operationKey := "op:e1", payload := .typed (.text "hello" none), nowMs := 1000 }) rfl,
   .call (.claimEffect "e1" "w1" "a1" 1000 30000 none) trivial,
   .call (.transition "e1" ["executing"] "unknown" 1100 .none (some "w1")) (show "unknown" ≠ "executing" by decide),
   .tick 6400, .reconcile "e1" 6400 none]

theorem firstAttemptUnknown_sound :
    Along (step {} none) (Sound {} none) {} firstAttemptUnknown ∧
    (run (step {} none) {} firstAttemptUnknown).store.effectState? "e1" = some .unknown :=
  ⟨(requeue_sound_when {} none).1 _ ⟨trivial,trivial,trivial,trivial,.inr (by decide +kernel),trivial⟩,
    by decide +kernel⟩

/-- The first attempt was refused and the effect requeued on that evidence; the worker of
the second attempt reports that it does not know how it ended; a tick finds the effect. -/
def secondAttemptUnknown : List ReconcileAction :=
  [.call (.enqueueEffect
      { effectId := "e1", operationKey := "op:e1", payload := .typed (.text "hello" none), nowMs := 1000 }) rfl,
   .call (.claimEffect "e1" "w1" "a1" 1000 30000 none) trivial,
   .call (.transition "e1" ["executing"] "failed" 1100 .none (some "w1")) (show "failed" ≠ "executing" by decide),
   .call (.transition "e1" ["failed"] "queued" 1200 (.kind "not_executed") none)
      (show "queued" ≠ "executing" by decide),
   .call (.claimEffect "e1" "w1" "a2" 1300 30000 none) trivial,
   .call (.transition "e1" ["executing"] "unknown" 1400 .none (some "w1")) (show "unknown" ≠ "executing" by decide),
   .tick 6400, .look 0 []]

/-- The reconciler requeues an effect whose newest attempt ended unproven, because an
earlier attempt had failed. -/
theorem earlier_failure_requeues :
    ∃ w, Reachable {} none w ∧ w.store.effectState? "e1" = some .unknown ∧
      (lastAttempt? w.store.attempts "e1").map AttemptRow.outcome = some (some .unknown) ∧
      (w.step {} none (.settle 0 6500 6500 none)).store.effectState? "e1" = some .queued ∧
      ¬ Sound {} none w (.settle 0 6500 6500 none) := by
  refine ⟨run (step {} none) {} secondAttemptUnknown,⟨_,rfl⟩,?_⟩
  have hu : (run (step {} none) {} secondAttemptUnknown).store.effectState? "e1" = some .unknown := by
    decide +kernel
  have hl : (lastAttempt? (run (step {} none) {} secondAttemptUnknown).store.attempts "e1").map
      AttemptRow.outcome = some (some .unknown) := by
    decide +kernel
  have hq : ((run (step {} none) {} secondAttemptUnknown).step {} none
      (.settle 0 6500 6500 none)).store.effectState? "e1" = some .queued := by
    decide +kernel
  refine ⟨hu,hl,hq,fun hs => ?_⟩
  obtain ⟨b,hb,ho⟩ := hs rfl "e1" hu hq
  rw [hb,Option.map_some,ho] at hl
  cases hl

end Yeoman.Processing
