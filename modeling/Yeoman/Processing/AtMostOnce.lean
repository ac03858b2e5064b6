import Yeoman.Processing.Lifecycle

/-! At-most-once dispatch. An effect that was never claimed holds one credit, a claim
spends it, and only a requeue with evidence earns another. -/
namespace Yeoman.Processing
open Library Table Runs

def claims (effectId : String) (w : World) : Action → Bool
  | .call (.claimEffect e worker attempt nowMs leaseMs version) =>
    e = effectId && (claimEffect e worker attempt nowMs leaseMs version w.store).1.toOption = some true
  | _ => false

/-- A `transition` call that moves this effect from `failed` or `unknown` back to
`queued` on evidence of one of the requeue kinds. -/
def requeues (effectId : String) (w : World) : Action → Bool
  | .call (.transition e expected target nowMs evidence worker) =>
    e = effectId && (transition e expected target nowMs evidence worker w.store).1.toOption = some true &&
      (w.store.effectState? e = some .failed || w.store.effectState? e = some .unknown) &&
      target = EffectState.queued.name && requeueEvidenceKinds.any (· ∈ evidence.kinds)
  | _ => false

def EffectState.fresh : EffectState → Bool
  | .planned => true
  | .queued => true
  | .blocked => true
  | _ => false

def credit (effectId : String) (w : World) : Nat :=
  ((w.store.effectState? effectId).all EffectState.fresh).toNat

theorem edge_fresh {a b : EffectState} (h : Edge a b) (ha : a.fresh = false) (hb : b.fresh = true) :
    b = .queued ∧ (a = .unknown ∨ a = .failed) := by
  cases a <;> cases b <;> revert h ha hb <;> decide

theorem RowStep.refreshed {m : EffectRow → EffectState → Prop} {r r' : EffectRow} (h : RowStep m r r')
    (hf : r.state.fresh = false) (hf' : r'.state.fresh = true) :
    m r .queued ∧ r'.state = .queued ∧ (r.state = .unknown ∨ r.state = .failed) := by
  cases h with
  | keep => rw [hf] at hf'; cases hf'
  | claim | recover | cancel => cases hf'
  | release n hs => rw [show (releaseRow n r).state = r.state from rfl,hf] at hf'; cases hf'
  | transition next n hm he =>
    obtain ⟨rfl,hs⟩ := edge_fresh he hf hf'
    exact ⟨hm,rfl,hs⟩
  | purge n => rw [show (purgeEffectRow n r).state = r.state from rfl,hf] at hf'; cases hf'

variable {effectId : String} {w : World} {a : Action}

theorem claims_step (hu : w.store.EffectsUnique) (h : claims effectId w a = true) :
    w.store.effectState? effectId = some .queued ∧
    (w.step a).store.effectState? effectId = some .executing := by
  unfold claims at h
  split at h
  next e worker attempt nowMs leaseMs version =>
    simp only [Bool.and_eq_true,decide_eq_true_eq] at h
    obtain ⟨rfl,hx⟩ := h
    have hs : (w.step (.call (.claimEffect e worker attempt nowMs leaseMs version))).store =
        (claimEffect e worker attempt nowMs leaseMs version w.store).2 := reply_snd _ _ _
    rw [hs]
    have hc := claimEffect_claimed hu e worker attempt nowMs leaseMs version
    revert hc hx
    generalize claimEffect e worker attempt nowMs leaseMs version w.store = result
    rintro hx (_ | _ | ⟨row,hr,hq⟩)
    · cases hx
    · cases hx
    · obtain ⟨-,rfl⟩ := lookup_some hr
      exact ⟨effectState?_some.mpr ⟨row,hr,hq⟩,
        effectState?_some.mpr ⟨_,Store.effect?_claimed hr hq,rfl⟩⟩
  · cases h

theorem transition_requeues (hu : w.store.EffectsUnique)
    {expected : List String} {target : String} {nowMs : Int} {evidence : EvidenceArg}
    {worker : Option String}
    (hs : w.store.effectState? effectId = some .unknown ∨ w.store.effectState? effectId = some .failed)
    (hq : (w.step (.call (.transition effectId expected target nowMs evidence worker))).store.effectState?
      effectId = some .queued) :
    requeues effectId w (.call (.transition effectId expected target nowMs evidence worker)) = true := by
  have hst : (w.step (.call (.transition effectId expected target nowMs evidence worker))).store =
      (transition effectId expected target nowMs evidence worker w.store).2 := reply_snd _ _ _
  rw [hst] at hq
  simp only [requeues,decide_true,Bool.true_and]
  have ht := transition_transitioned hu effectId expected target nowMs evidence worker
  revert ht hq
  generalize transition effectId expected target nowMs evidence worker w.store = result
  have hne : w.store.effectState? effectId ≠ some .queued := by
    rcases hs with h | h <;> rw [h] <;> exact nofun
  rintro hq (_ | _ | _ | ⟨row,hr,-,next,hv⟩)
  · exact absurd hq hne
  · exact absurd hq hne
  · exact absurd hq hne
  · obtain ⟨-,rfl⟩ := lookup_some hr
    rw [Store.effectState?,Store.effect?_moved hr] at hq
    cases hq
    have hrow : row.state = .unknown ∨ row.state = .failed := by
      rw [Store.effectState?,hr] at hs
      rcases hs with h | h
      · exact .inl (Option.some.inj h)
      · exact .inr (Option.some.inj h)
    obtain ⟨hn,-,-,he⟩ := validateTransition_ok.mp hv
    obtain ⟨k,hk,hk'⟩ := he rfl hrow
    simp only [decide_true,Bool.true_and,Except.toOption,EffectState.ofName?_eq_some hn,Bool.and_true,
      Bool.and_eq_true,Bool.or_eq_true,decide_eq_true_eq,List.any_eq_true]
    exact ⟨hs.symm,k,hk,hk'⟩

theorem requeues_of_refreshed (hu : w.store.EffectsUnique)
    (hf : (w.store.effectState? effectId).all EffectState.fresh = false)
    (hf' : ((w.step a).store.effectState? effectId).all EffectState.fresh = true) : requeues effectId w a = true := by
  cases hr : w.store.effect? effectId with
  | none => rw [Store.effectState?,hr] at hf; cases hf
  | some row =>
    rw [Store.effectState?,hr] at hf
    obtain ⟨row',hr',hs⟩ := w.effect_step a hr
    rw [Store.effectState?,hr'] at hf'
    rcases hs with rfl | ⟨op,ha,-,ho⟩
    · rw [hf] at hf'
      cases hf'
    obtain ⟨hm,hq,hs⟩ := ho.refreshed hf hf'
    obtain ⟨-,rfl⟩ := lookup_some hr
    cases ha with
    | resume job e nowMs reason => exact absurd hm.2 (by decide)
    | call =>
      unfold Op.moves at hm
      split at hm
      · cases hm.2
      · obtain ⟨rfl,-⟩ := hm
        refine transition_requeues hu ?_ (effectState?_some.mpr ⟨row',hr',hq⟩)
        rcases hs with h | h
        · exact .inl (effectState?_some.mpr ⟨row,hr,h⟩)
        · exact .inr (effectState?_some.mpr ⟨row,hr,h⟩)
      · cases hm
      · cases hm
      · cases hm

/-- A claim is paid with the credit, and credit comes from requeues only. -/
theorem credit_step (hu : w.store.EffectsUnique) :
    (claims effectId w a).toNat + credit effectId (w.step a) ≤
      credit effectId w + (requeues effectId w a).toNat := by
  unfold credit
  cases hc : claims effectId w a with
  | true =>
    obtain ⟨hq,hx⟩ := claims_step hu hc
    rw [hq,hx]
    exact Nat.le_add_right _ _
  | false =>
    cases hf' : ((w.step a).store.effectState? effectId).all EffectState.fresh with
    | false => exact Nat.zero_le _
    | true =>
      cases hf : (w.store.effectState? effectId).all EffectState.fresh with
      | true => exact Nat.le_add_right _ _
      | false =>
        rw [requeues_of_refreshed hu hf hf']

/-- From a reachable world on, claims and remaining credit are covered by the credit
at the start and the requeues since. -/
theorem credit_run (effectId : String) (hw : w.Reachable) (as : List Action) :
    tally World.step (claims effectId) w as + credit effectId (run World.step w as) ≤
      credit effectId w + tally World.step (requeues effectId) w as :=
  tally_le_of_potential (I := World.Reachable) (fun _ a h => h.next a)
    (fun _ _ h => credit_step h.effectsUnique) hw

/-- In every run an effect is claimed at most once more often than it is requeued with
evidence; once claimed, it is `queued` again only after such a requeue, whatever leases,
recoveries, blocks and submissions the run contains. -/
theorem dispatched_at_most_once (effectId : String) (as : List Action) :
    tally World.step (claims effectId) World.initial as ≤
      1 + tally World.step (requeues effectId) World.initial as ∧
    ∀ bs a cs, as = bs ++ a :: cs → claims effectId (run World.step World.initial bs) a = true →
      tally World.step (requeues effectId) (run World.step World.initial (bs ++ [a])) cs = 0 →
      (run World.step World.initial as).store.effectState? effectId ≠ some .queued := by
  constructor
  · have h := credit_run effectId (Runs.Reachable.init World.initial) as
    have hc : credit effectId World.initial = 1 := rfl
    omega
  · rintro bs a cs rfl hc hz hq
    have hb : (run World.step World.initial bs).Reachable := ⟨bs,rfl⟩
    obtain ⟨-,hx⟩ := claims_step hb.effectsUnique hc
    have hn : run World.step World.initial (bs ++ [a]) =
        (run World.step World.initial bs).step a := run_append _ _ _ _
    have hr : run World.step World.initial (bs ++ a :: cs) =
        run World.step ((run World.step World.initial bs).step a) cs := run_append _ _ _ _
    have h := credit_run effectId (hb.next a) cs
    rw [hn] at hz
    rw [hr] at hq
    unfold credit at h
    rw [hz,hq,hx] at h
    exact absurd h (by simp [EffectState.fresh])

end Yeoman.Processing
