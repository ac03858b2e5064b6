import Yeoman.Processing.EffectSteps

/-! The life of one effect under any interleaving of workers: its row is never lost,
its state moves along the edges of the table, and a call that raises writes nothing. -/
namespace Yeoman.Processing
open Library Table Txn Runs

variable {effectId : String} {s : Store} {state : EffectState}
  {row : EffectRow} {P : Op → Prop} {s' : Store} {next : EffectState} (op : Op)

theorem EffectsStep.lookup {m : EffectRow → EffectState → Prop} {t t' : List EffectRow} (h : EffectsStep m t t')
    (hl : lookup EffectRow.effectId effectId t = some row) :
    ∃ row', lookup EffectRow.effectId effectId t' = some row' ∧ RowStep m row row' := by
  cases h with
  | rewrites _ hr => exact Kept.of_rewrites (fun _ _ h => h.effectId) hr effectId row hl
  | insert new hi hk => exact ⟨row,lookup_append_of_some hl,.keep row⟩

theorem Op.effect_step (h : s.effect? effectId = some row) :
    ∃ row', (op.exec s).effect? effectId = some row' ∧ RowStep op.moves row row' :=
  (op.effects_step s).lookup h

theorem Via.effect_isSome (h : Via P s s')
    (he : (s.effect? effectId).isSome = true) : (s'.effect? effectId).isSome = true := by
  refine Via.invariant (I := fun t => (t.effect? effectId).isSome = true) ?_ h he
  intro t op _ ht
  obtain ⟨row,hr⟩ := Option.isSome_iff_exists.mp ht
  obtain ⟨row',hr',-⟩ := op.effect_step hr
  rw [hr']
  rfl

theorem Via.effectsUnique (h : Via P s s') (hu : s.EffectsUnique) : s'.EffectsUnique :=
  Via.invariant (fun t op _ ht => (op.effects_step t).unique.1 ht) h hu

variable (w : World) (a : Action)

/-- One action takes an effect's row one step further at most, and the step belongs to
the operation the action performs. -/
theorem World.effect_step (h : w.store.effect? effectId = some row) :
    ∃ row', (w.step a).store.effect? effectId = some row' ∧
      (row' = row ∨ ∃ op, a.Performs op ∧ (w.step a).store = op.exec w.store ∧ RowStep op.moves row row') := by
  rcases World.step_store w with hs | ⟨op,ha,hs⟩
  · rw [hs]
    exact ⟨row,h,.inl rfl⟩
  · obtain ⟨row',hr,ho⟩ := op.effect_step h
    rw [← hs] at hr
    exact ⟨row',hr,.inr ⟨op,ha,hs,ho⟩⟩

theorem effectState?_some :
    s.effectState? effectId = some state ↔ ∃ row, s.effect? effectId = some row ∧ row.state = state :=
  Option.map_eq_some_iff

theorem effectiveState_cases {expiresAtMs : Option Int} {nowMs : Int} :
    effectiveState state expiresAtMs nowMs = state ∨ effectiveState state expiresAtMs nowMs = .expired := by
  unfold effectiveState
  split
  · split
    · exact .inr rfl
    · exact .inl rfl
  · exact .inl rfl

def Op.puts : Op → EffectState → Prop
  | .enqueueEffect a => fun state => EffectState.ofName? a.state = some state ∨ state = .expired
  | .enqueueParticipationEffect .. => fun state => state = .queued ∨ state = .expired
  | op => fun state => ∃ r, op.moves r state

theorem Enqueued.state_entered {a : EnqueueArgs} {origin : Origin}
    {r : Except Error String} (h : Enqueued a state origin s (r, s')) (hn : s'.effectState? effectId = some next) :
    s.effectState? effectId = some next ∨ (a.effectId = effectId ∧ (next = state ∨ next = .expired)) := by
  cases h with
  | refused | known => exact .inl hn
  | inserted body target hb ht hp hk hf =>
    obtain ⟨row,hr,rfl⟩ := effectState?_some.mp hn
    rcases lookup_append_singleton hr with ho | rfl
    · exact .inl (effectState?_some.mpr ⟨row,ho,rfl⟩)
    · exact .inr ⟨(lookup_some hr).2,effectiveState_cases⟩

theorem Op.effect?_eq_none {op : Op} (he : op.enqueues = false)
    (h : s.effect? effectId = none) : (op.exec s).effect? effectId = none :=
  (Op.effects_rewrites he s).lookup_none (fun _ _ h => h.effectId) h

theorem Op.state_entered (h : (op.exec s).effectState? effectId = some state) :
    s.effectState? effectId = some state ∨ op.puts state := by
  cases he : op.enqueues with
  | true =>
    unfold Op.exec at h
    cases op <;> first | (cases he; done) | rw [Op.apply,reply_snd] at h
    case enqueueEffect a =>
      rcases enqueueEffect_cases a with ⟨e,hr⟩ | ⟨first,origin,-,-,-,hst,-,hq⟩
      · rw [hr] at h
        exact .inl h
      · rcases hq.state_entered h with h | ⟨-,rfl | rfl⟩
        · exact .inl h
        · exact .inr (.inl hst)
        · exact .inr (.inr rfl)
    case enqueueParticipationEffect v a =>
      rcases enqueueParticipationEffect_cases with ⟨e,hr⟩ | ⟨m,id,s',hr,-,-,-,-,-,-,hm,hq⟩
      · rw [hr] at h
        exact .inl h
      · rw [hr] at h
        rcases hq.state_entered h with h | ⟨-,h⟩
        · rw [Store.effectState?,Store.effect?,hm.effects] at h
          exact .inl h
        · exact .inr h
  | false =>
    obtain ⟨row',hr',rfl⟩ := effectState?_some.mp h
    cases hr : s.effect? effectId with
    | none =>
      rw [Op.effect?_eq_none he hr] at hr'
      cases hr'
    | some row =>
      obtain ⟨next,hn,hs⟩ := op.effect_step hr
      cases hn.symm.trans hr'
      rcases hs.moves with hm | hm
      · exact .inl (effectState?_some.mpr ⟨row,hr,hm.symm⟩)
      · refine .inr ?_
        cases op <;> first | (cases he; done) | exact ⟨row,hm⟩

theorem World.state_step (h : w.store.effectState? effectId = some state) :
    ∃ next, (w.step a).store.effectState? effectId = some next ∧ (next = state ∨ Edge state next) := by
  obtain ⟨row,hr,rfl⟩ := effectState?_some.mp h
  obtain ⟨row',hr',hs⟩ := w.effect_step a hr
  refine ⟨row'.state,effectState?_some.mpr ⟨row',hr',rfl⟩,?_⟩
  rcases hs with rfl | ⟨op,-,-,ho⟩
  · exact .inl rfl
  · exact ho.edge

def EffectState.Terminal (state : EffectState) : Prop :=
  state = .sent ∨ state = .expired ∨ state = .cancelled

theorem EffectState.Terminal.no_edge (h : state.Terminal) : ¬ Edge state next := by
  intro he
  obtain ⟨hs,hx,hc⟩ := edge_terminal he
  rcases h with h | h | h
  · exact hs h
  · exact hx h
  · exact hc h

theorem World.terminal_run (ht : state.Terminal) {w : World}
    (h : w.store.effectState? effectId = some state) {as : List Action} :
    (run World.step w as).store.effectState? effectId = some state := by
  refine run_invariant (I := fun v : World => v.store.effectState? effectId = some state) ?_ h as
  intro w a hw
  obtain ⟨next,hn,rfl | he⟩ := w.state_step a hw
  · exact hn
  · exact absurd he ht.no_edge

theorem Op.restores (h : Tbl.effects ∈ op.writes) : Restores op.apply := by
  cases op <;> first | (simp [Op.writes] at h; done) | refine Restores.map ?_
  case enqueueEffect a =>
    exact .require (.require (.liftExcept fun _ => .require (.liftExcept fun _ => .atomically)))
  case enqueueParticipationEffect v a =>
    exact .require (.require (.require (.require (.require .atomically))))
  case claimEffect => exact .require (.require .atomically)
  case releaseClaim => exact .atomically
  case transition => exact .require .atomically
  case recoverExecuting => exact .atomically
  case closeChatThreads => exact .atomically
  case purge => exact .atomically

private theorem cancel_legal {kinds : List String} {workerId leaseOwner : Option String} :
    validateTransition .queued EffectState.cancelled.name kinds workerId leaseOwner = .ok .cancelled :=
  validateTransition_ok.mpr ⟨EffectState.ofName?_name,by decide,nofun,nofun⟩

/-- Cancelling a queued effect is always legal, so this step of `cancel_stale_effects`
never raises. -/
theorem cancelStale_returns (effectId : String) (nowMs : Int) (reason : String) (s : Store) :
    ∃ hit s', cancelStale effectId nowMs reason s = (.ok hit, s') := by
  unfold cancelStale transition
  rw [require_bind_of_pos (List.cons_ne_nil _ _)]
  rw [atomically,read_bind_apply]
  cases s.effect? effectId with
  | none => exact ⟨false,s,rfl⟩
  | some row =>
    by_cases hq : row.state = .queued
    · simp only [hq,List.mem_singleton,not_true_eq_false,if_false]
      rw [cancel_legal,bind_of_ok liftExcept_apply,updateEffects_bind_apply]
      generalize rowCount _ s.effects = count
      by_cases hc : count ≠ 1
      · rw [if_pos hc]
        exact ⟨false,_,rfl⟩
      · rw [if_neg hc]
        exact ⟨true,_,rfl⟩
    · have hx : row.state.name ∉ [EffectState.queued.name] := fun h =>
        hq (EffectState.name_injective (List.mem_singleton.mp h))
      simp only [if_pos hx]
      exact ⟨false,s,rfl⟩

/-- Whatever the workers do, and in whatever order: an effect changes state along an
edge of the table, reaches `executing` only from `queued` and stays in a terminal
state; an operation on the outbox that raises leaves every table as it was, and
`cancel_stale_effects` has no step that raises. -/
theorem effect_lifecycle (w : World) :
    (∀ effectId state, w.store.effectState? effectId = some state → ∀ a, ∃ next,
      (w.step a).store.effectState? effectId = some next ∧
      (next ≠ state → Edge state next ∧ (next = .executing → state = .queued))) ∧
    (∀ effectId state, w.store.effectState? effectId = some state → state.Terminal →
      ∀ as, (run World.step w as).store.effectState? effectId = some state) ∧
    (∀ op : Op, Tbl.effects ∈ op.writes → ∀ e s', op.apply w.store = (.error e, s') → s' = w.store) ∧
    ∀ effectId nowMs reason, ∃ hit s', cancelStale effectId nowMs reason w.store = (.ok hit, s') := by
  refine ⟨?_,?_,?_,?_⟩
  · intro effectId state h a
    obtain ⟨next,hn,hs⟩ := w.state_step a h
    refine ⟨next,hn,fun hne => ?_⟩
    have he := hs.resolve_left hne
    exact ⟨he,fun hx => edge_executing (hx ▸ he)⟩
  · intro effectId state h ht as
    exact World.terminal_run ht h
  · intro op ho e s' h
    exact op.restores ho w.store e s' h
  · intro effectId nowMs reason
    exact cancelStale_returns effectId nowMs reason w.store

end Yeoman.Processing
