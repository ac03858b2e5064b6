import Yeoman.Processing.Frames

/-! What one store operation can do to the effects table: rewrite rows in place,
each by one of the writes of the source, or append one row with fresh keys. -/
namespace Yeoman.Processing
open Library Table Txn

/-- The writes to an existing effect row, with the condition of their `UPDATE`. The state
changes only to where `m` lets it. -/
inductive RowStep (m : EffectRow → EffectState → Prop) : EffectRow → EffectRow → Prop
  | keep (r : EffectRow) : RowStep m r r
  | claim (r : EffectRow) (w : String) (n l : Int) (hm : m r .executing) (h : r.state = .queued) :
      RowStep m r (claimRow w n l r)
  | release (r : EffectRow) (n : Int) (h : r.state = .executing) : RowStep m r (releaseRow n r)
  | transition (r : EffectRow) (next : EffectState) (n : Int) (hm : m r next) (h : Edge r.state next) :
      RowStep m r (transitionRow r.state next n r)
  | recover (r : EffectRow) (n : Int) (hm : m r .unknown) (h : r.state = .executing) :
      RowStep m r (recoverRow n r)
  | cancel (r : EffectRow) (n : Int) (hm : m r .cancelled) (h : unstarted r = true) :
      RowStep m r (cancelRow n r)
  | purge (r : EffectRow) (n : Int) : RowStep m r (purgeEffectRow n r)

def EffectRow.fixed (r : EffectRow) : EffectRow :=
  { r with
    state := .planned
    leaseOwner := none
    leaseUntilMs := none
    updatedMs := 0
    payloadJson := none
    payloadPurgedMs := none }

theorem EffectRow.column_of_fixed {β : Type} {f : EffectRow → β} (hf : ∀ r, f (EffectRow.fixed r) = f r)
    {r r' : EffectRow} (h : r'.fixed = r.fixed) : f r' = f r := by
  rw [← hf r',h,hf r]

namespace RowStep
variable {m : EffectRow → EffectState → Prop} {r r' : EffectRow}

theorem edge (h : RowStep m r r') : r'.state = r.state ∨ Edge r.state r'.state := by
  cases h with
  | keep | release | purge => exact .inl rfl
  | claim w n l hm hs =>
    right
    rw [hs]
    exact List.mem_cons_self
  | transition next n hm he => exact .inr he
  | recover n hm hs =>
    right
    rw [hs]
    change EffectState.unknown ∈ allowedTransitions .executing
    decide
  | cancel n hm hu =>
    right
    simp only [unstarted,Bool.or_eq_true,decide_eq_true_eq] at hu
    change EffectState.cancelled ∈ allowedTransitions r.state
    rcases hu with hs | hs <;> rw [hs] <;> decide

theorem moves (h : RowStep m r r') : r'.state = r.state ∨ m r r'.state := by
  cases h with
  | keep | release | purge => exact .inl rfl
  | claim w n l hm hs => exact .inr hm
  | transition next n hm he => exact .inr hm
  | recover n hm hs => exact .inr hm
  | cancel n hm hu => exact .inr hm

theorem fixed (h : RowStep m r r') : r'.fixed = r.fixed := by
  cases h <;> rfl

theorem effectId (h : RowStep m r r') : r'.effectId = r.effectId := by
  cases h <;> rfl

theorem operationKey (h : RowStep m r r') : r'.operationKey = r.operationKey := by
  cases h <;> rfl

theorem admissionId (h : RowStep m r r') : r'.admissionId = r.admissionId :=
  EffectRow.column_of_fixed (fun _ => rfl) h.fixed

theorem origin (h : RowStep m r r') : r'.origin = r.origin :=
  EffectRow.column_of_fixed (fun _ => rfl) h.fixed

end RowStep

inductive EffectsStep (m : EffectRow → EffectState → Prop) (t : List EffectRow) : List EffectRow → Prop
  | rewrites (t' : List EffectRow) (h : Rewrites (RowStep m) t t') : EffectsStep m t t'
  | insert (row : EffectRow) (hi : ∀ r ∈ t, r.effectId ≠ row.effectId)
      (hk : ∀ r ∈ t, r.operationKey ≠ row.operationKey) : EffectsStep m t (t ++ [row])

variable {m : EffectRow → EffectState → Prop}
  {p : EffectRow → Bool} {f : EffectRow → EffectRow} {s : Store} {origin : Origin} (t : List EffectRow)

theorem EffectsStep.same : EffectsStep m t t :=
  .rewrites t (Rewrites.refl RowStep.keep t)

theorem updateEffects_keeps {R : EffectRow → EffectRow → Prop} (hr : ∀ r, R r r) (hf : ∀ r, p r = true → R r (f r)) :
    Keeps Store.effects (Rewrites R) (updateEffects p f) :=
  fun _ => Rewrites.updateWhere hr fun r _ hp => hf r hp

private theorem rewrites_same : Rewrites (RowStep m) t t :=
  Rewrites.refl RowStep.keep t
variable (e : String)

theorem claimEffect_effects (w a : String) (n l : Int) (v : Option String) :
    Keeps Store.effects (Rewrites (RowStep fun r state => r.effectId = e ∧ state = .executing))
      (claimEffect e w a n l v) := by
  refine .frame_bind rewrites_same .require fun _ => .frame_bind rewrites_same .require
    fun _ => .atomically rewrites_same (.frame_bind rewrites_same .read fun s => ?_)
  cases s.effect? e with
  | none => exact .of_frame rewrites_same .pure
  | some row =>
    refine .ite (.of_frame rewrites_same .pure) (.bind_frame (updateEffects_keeps .keep ?_) fun _ => ?_)
    · intro r hp
      simp only [Bool.and_eq_true,decide_eq_true_eq] at hp
      exact .claim r w n l ⟨hp.1,rfl⟩ hp.2
    · exact .ite .pure (.bind (insertAttempt_frame (fun _ _ => rfl)) fun _ =>
        .bind_pure (appendEvidence_frame (fun _ _ => rfl)))

theorem releaseClaim_effects (w : String) (n : Int) :
    Keeps Store.effects (Rewrites (RowStep m)) (releaseClaim e w n) := by
  refine .atomically rewrites_same (.bind_pure (updateEffects_keeps .keep ?_))
  intro r hp
  simp only [Bool.and_eq_true,decide_eq_true_eq] at hp
  exact .release r n hp.1.2

theorem transition_effects (x : List String) (t : String) (n : Int) (v : EvidenceArg) (w : Option String) :
    Keeps Store.effects (Rewrites (RowStep fun r state => r.effectId = e ∧ state.name = t))
      (transition e x t n v w) := by
  refine .frame_bind rewrites_same .require fun _ =>
    .atomically rewrites_same (.frame_bind rewrites_same .read fun s => ?_)
  cases s.effect? e with
  | none => exact .of_frame rewrites_same .pure
  | some row =>
    refine .ite (.of_frame rewrites_same .pure) (.liftExcept_bind rewrites_same ?_)
    intro next hv
    obtain ⟨hn,he,-⟩ := validateTransition_ok.mp hv
    refine .bind_frame (updateEffects_keeps .keep ?_) fun _ => ?_
    · intro r hp
      simp only [Bool.and_eq_true,decide_eq_true_eq] at hp
      rw [← hp.2]
      rw [← hp.2] at he
      exact .transition r next n ⟨hp.1,(EffectState.ofName?_eq_some hn).symm⟩ he
    · exact .ite .pure (.bind (.ite (finishAttempts_frame (fun _ _ => rfl)) .pure) fun _ =>
        .bind_pure (appendEvidence_frame (fun _ _ => rfl)))

/-- Within one pass over a list of ids a row is written at most once, because the
write takes it out of the states the pass selects. -/
private def Once (p : EffectRow → Bool) (f : EffectRow → EffectRow) (r r' : EffectRow) : Prop :=
  r' = r ∨ (p r = true ∧ r' = f r)

private theorem once_trans (hf : ∀ r, p (f r) = false) (a b c : EffectRow) (h : Once p f a b) (h' : Once p f b c) :
    Once p f a c := by
  rcases h with rfl | ⟨hp,rfl⟩
  · exact h'
  · rcases h' with rfl | ⟨hp',-⟩
    · exact .inr ⟨hp,rfl⟩
    · rw [hf] at hp'
      cases hp'

private theorem once_same (p : EffectRow → Bool) (f : EffectRow → EffectRow) (t : List EffectRow) :
    Rewrites (Once p f) t t := Rewrites.refl (fun _ => .inl rfl) t

private theorem once_compose (hf : ∀ r, p (f r) = false) (a b c : List EffectRow) (h : Rewrites (Once p f) a b)
    (h' : Rewrites (Once p f) b c) : Rewrites (Once p f) a c := h.trans (once_trans hf) h'

theorem recoverExecuting_effects (n : Int) :
    Keeps Store.effects (Rewrites (RowStep fun _ state => state = .unknown)) (recoverExecuting n) := by
  let p : EffectRow → Bool := fun r => r.state = .executing
  have ho (e : String) : Keeps Store.effects (Rewrites (Once p (recoverRow n))) (recoverOne n e) := by
    refine .bind_frame (updateEffects_keeps (fun _ => .inl rfl) ?_) fun _ => ?_
    · intro r hp
      rw [Bool.and_eq_true] at hp
      exact .inr ⟨hp.2,rfl⟩
    · exact .bind (finishAttempts_frame (fun _ _ => rfl)) fun _ =>
        appendEvidence_frame (fun _ _ => rfl)
  have hp : Keeps Store.effects (Rewrites (Once p (recoverRow n))) (recoverExecuting n) := by
    refine .atomically (once_same p _) (.frame_bind (once_same p _) .read fun s =>
      .bind_pure ?_)
    exact .each (once_same p _) (once_compose fun _ => rfl) ho
  refine .mono (fun _ _ h => h.mono ?_) hp
  rintro r r' (rfl | ⟨hs,rfl⟩)
  · exact .keep _
  · exact .recover r n rfl (of_decide_eq_true hs)

theorem closeChatThreads_effects (c i : String) (n : Int) :
    Keeps Store.effects (Rewrites (RowStep fun _ state => state = .cancelled)) (closeChatThreads c i n) := by
  have ht := once_compose (p := unstarted) (f := cancelRow n) fun _ => rfl
  have ho (e : String) :
      Keeps Store.effects (Rewrites (Once unstarted (cancelRow n))) (cancelOne n e) := by
    refine .bind_frame (updateEffects_keeps (fun _ => .inl rfl) ?_) fun _ =>
      appendEvidence_frame (fun _ _ => rfl)
    intro r hp
    rw [Bool.and_eq_true] at hp
    exact .inr ⟨hp.2,rfl⟩
  have hw (t : String) :
      Keeps Store.effects (Rewrites (Once unstarted (cancelRow n))) (closeThreadWork n t) := by
    refine .frame_bind (once_same _ _) .read fun s =>
      .bind_frame (.each (once_same _ _) ht ho) fun _ => ?_
    exact .bind (updatePending_frame (fun _ _ => rfl)) fun _ =>
      .bind (updateGenerations_frame (fun _ _ => rfl)) fun _ =>
        .bind (updateTurns_frame (fun _ _ => rfl)) fun _ =>
          .bind_pure (updateThreads_frame (fun _ _ => rfl))
  have hp : Keeps Store.effects (Rewrites (Once unstarted (cancelRow n))) (closeChatThreads c i n) :=
    .atomically (once_same _ _) (.frame_bind (once_same _ _) .read fun _ =>
      .bind_pure (.each (once_same _ _) ht hw))
  refine .mono (fun _ _ h => h.mono ?_) hp
  rintro r r' (rfl | ⟨hs,rfl⟩)
  · exact .keep _
  · exact .cancel r n rfl hs

theorem purge_effects (rs : RetentionSettings) (n : Int) :
    Keeps Store.effects (Rewrites (RowStep m)) (purge rs n) :=
  fun _ => Rewrites.updateWhere .keep fun r _ _ => .purge r n

theorem effectByKey_none {key : String} (h : s.effectByOperationKey? key = none) :
    ∀ r ∈ s.effects, r.operationKey ≠ key := lookup_none.mp h

theorem checkFresh_ok {admissionId : Option String} {effectId : String}
    (h : checkFresh s origin admissionId effectId = .ok ()) :
    (∀ r ∈ s.effects, r.effectId ≠ effectId) ∧
    (origin = .participation → admissionId.isSome →
      ∀ r ∈ s.effects, r.origin = .participation → r.admissionId ≠ admissionId) := by
  unfold checkFresh at h
  split at h
  · cases h
  next hb =>
    split at h
    · cases h
    next hi =>
      refine ⟨lookup_none.mp hi,?_⟩
      intro ho ha r hr hp he
      have hn := List.find?_eq_none.mp hb r hr
      simp [ho,hp,ha,he] at hn

theorem Enqueued.effects {a : EnqueueArgs} {state : EffectState} {s' : Store}
    {r : Except Error String} (h : Enqueued a state origin s (r, s')) : EffectsStep m s.effects s'.effects := by
  cases h with
  | refused | known => exact .same _
  | inserted body target hb ht hp hk hf =>
    exact .insert (newEffect a body target state origin) (checkFresh_ok hf).1 (effectByKey_none hk)

theorem enqueueEffect_effects (a : EnqueueArgs) : Keeps Store.effects (EffectsStep m) (enqueueEffect a) := by
  intro s
  rcases enqueueEffect_cases a with ⟨e,he⟩ | ⟨state,origin,-,-,-,-,-,hq⟩
  · rw [he]
    exact .same _
  · exact hq.effects

theorem Admitted.effects {row : AdmissionRow} {m : Store} (h : Admitted row s m) : m.effects = s.effects := by
  cases h <;> rfl

theorem enqueueParticipationEffect_effects (v : EffectEnvelope) (a : ParticipationAdmission) :
    Keeps Store.effects (EffectsStep m) (enqueueParticipationEffect v a) := by
  intro s
  rcases enqueueParticipationEffect_cases with ⟨e,he⟩ | ⟨m,id,s',he,-,-,-,-,-,-,hm,hq⟩
  · rw [he]
    exact .same _
  · rw [he,← hm.effects]
    exact hq.effects

def Op.moves : Op → EffectRow → EffectState → Prop
  | .claimEffect e .. => fun r state => r.effectId = e ∧ state = .executing
  | .transition e _ t .. => fun r state => r.effectId = e ∧ state.name = t
  | .recoverExecuting _ => fun _ state => state = .unknown
  | .closeChatThreads .. => fun _ state => state = .cancelled
  | _ => fun _ _ => False

/-- The operations that may add an effect. -/
def Op.enqueues : Op → Bool
  | .enqueueEffect .. => true
  | .enqueueParticipationEffect .. => true
  | _ => false

theorem Op.effects_rewrites {op : Op} (h : op.enqueues = false) (s : Store) :
    Rewrites (RowStep op.moves) s.effects (op.exec s).effects := by
  by_cases hw : Tbl.effects ∈ op.writes
  · unfold Op.exec
    cases op <;> first | (simp [Op.writes] at hw; done) | (cases h; done) | (rw [Op.apply,reply_snd]; revert s)
    case claimEffect => exact claimEffect_effects _ _ _ _ _ _
    case releaseClaim => exact releaseClaim_effects _ _ _
    case transition => exact transition_effects _ _ _ _ _ _
    case recoverExecuting => exact recoverExecuting_effects _
    case closeChatThreads => exact closeChatThreads_effects _ _ _
    case purge => exact purge_effects _ _
  · have he : (op.exec s).effects = s.effects := Op.rows_eq hw s
    rw [he]
    exact rewrites_same _

theorem Op.effects_step (op : Op) (s : Store) : EffectsStep op.moves s.effects (op.exec s).effects := by
  cases he : op.enqueues with
  | false => exact .rewrites _ (Op.effects_rewrites he s)
  | true =>
    unfold Op.exec
    cases op <;> first | (cases he; done) | (rw [Op.apply,reply_snd]; revert s)
    case enqueueEffect a => exact enqueueEffect_effects a
    case enqueueParticipationEffect v a => exact enqueueParticipationEffect_effects v a

theorem EffectsStep.unique {t t' : List EffectRow} (h : EffectsStep m t t') :
    (Table.Unique EffectRow.effectId t → Table.Unique EffectRow.effectId t') ∧
    (Table.Unique EffectRow.operationKey t → Table.Unique EffectRow.operationKey t') := by
  cases h with
  | rewrites _ hr =>
    exact ⟨hr.unique fun _ _ h => h.effectId,hr.unique fun _ _ h => h.operationKey⟩
  | insert row hi hk => exact ⟨fun hu => hu.append hi,fun hu => hu.append hk⟩

theorem World.Reachable.effectsUnique {w : World} (h : w.Reachable) : w.store.EffectsUnique :=
  h.store_invariant (I := Store.EffectsUnique) (Table.Unique.nil)
    fun s op hu => (op.effects_step s).unique.1 hu

end Yeoman.Processing
