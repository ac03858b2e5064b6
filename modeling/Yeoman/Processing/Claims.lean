import Yeoman.Processing.Outbox

/-! Claims, compare-and-set transitions and crash recovery of effects. -/
namespace Yeoman.Processing
open Library Table Txn

def versionOr (policyVersion fallback : Option String) : Option String :=
  match policyVersion with
  | some v => if v = "" then fallback else some v
  | none => fallback

def claimRow (workerId : String) (nowMs leaseMs : Int) (r : EffectRow) : EffectRow :=
  { r with
    state := .executing
    leaseOwner := some workerId
    leaseUntilMs := some (nowMs + leaseMs)
    updatedMs := nowMs }

def claimEffect (effectId workerId attemptId : String) (nowMs leaseMs : Int)
    (policyVersion : Option String) : StoreM Bool := do
  require (workerId ≠ "") (valueError "worker_id is required")
  require (0 < leaseMs) (valueError "lease_ms must be positive")
  atomically do
    let s ← Txn.read
    match s.effect? effectId with
    | none => return false
    | some row =>
      if row.state ∉ claimableEffectStates then return false
      else
        let count ← updateEffects (fun r => r.effectId = effectId && r.state = .queued)
          (claimRow workerId nowMs leaseMs)
        if count ≠ 1 then return false
        else
          insertAttempt
            { attemptId := attemptId, effectId := effectId, workerId := workerId, startedMs := nowMs,
              finishedMs := none, outcome := none,
              policyVersion := versionOr policyVersion row.policyVersion, detail := none }
          appendEvidence effectId "claim" .executing none nowMs (some workerId)
          return true

def releaseRow (nowMs : Int) (r : EffectRow) : EffectRow :=
  { r with leaseOwner := none, leaseUntilMs := none, updatedMs := nowMs }

def releaseClaim (effectId workerId : String) (nowMs : Int) : StoreM Bool :=
  atomically do
    let count ← updateEffects
      (fun r => r.effectId = effectId && r.state = .executing && r.leaseOwner = some workerId)
      (releaseRow nowMs)
    return count = 1

inductive EvidenceArg where
  | none
  | record (kind : String) (detail : Option String)
  | kind (kind : String)
  | mapping (data : Dict)

def EvidenceArg.coerce : EvidenceArg → Option (String × Option String)
  | .none => Option.none
  | .record k detail => some (k, detail)
  | .kind k => some (k, Option.none)
  | .mapping data => some (((data.get "kind").orElse (.str "state")).toStr, (data.get "detail").optStr)

def evidenceOf (kind detail : String) : EvidenceArg := .record kind (nonempty (some detail))

def EvidenceArg.kinds (e : EvidenceArg) : List String := (e.coerce.map Prod.fst).toList

def transitionRow (current next : EffectState) (nowMs : Int) (r : EffectRow) : EffectRow :=
  { r with
    state := next
    updatedMs := nowMs
    leaseOwner := if current = .executing then none else r.leaseOwner
    leaseUntilMs := if current = .executing then none else r.leaseUntilMs }

def settleAttempts (effectId : String) (current next : EffectState) (nowMs : Int) : StoreM Unit :=
  if current = .executing then finishAttempts effectId nowMs next else return ()
variable {effectId : String} {nowMs : Int} {policyVersion : Option String} {next : EffectState} {leaseMs : Int}

theorem settleAttempts_apply {current : EffectState} {s : Store} :
    settleAttempts effectId current next nowMs s = (.ok (), { s with
      attempts := if current = .executing then
          updateWhere (fun a => a.effectId = effectId && a.finishedMs = none)
            (fun a => { a with finishedMs := some nowMs, outcome := some next }) s.attempts
        else s.attempts }) := by
  unfold settleAttempts
  split <;> rfl

def transition (effectId : String) (expected : List String) (target : String) (nowMs : Int)
    (evidence : EvidenceArg) (workerId : Option String) : StoreM Bool := do
  require (expected ≠ []) (valueError "expected must name at least one state")
  atomically do
    let s ← Txn.read
    match s.effect? effectId with
    | none => return false
    | some row =>
      if row.state.name ∉ expected then return false
      else
        let next ← liftExcept
          (validateTransition row.state target evidence.kinds workerId row.leaseOwner)
        let count ← updateEffects (fun r => r.effectId = effectId && r.state = row.state)
          (transitionRow row.state next nowMs)
        if count ≠ 1 then return false
        else
          settleAttempts effectId row.state next nowMs
          appendEvidence effectId ((evidence.coerce.map Prod.fst).getD "state") next
            (evidence.coerce.bind Prod.snd) nowMs workerId
          return true

def recordEvidence (effectId kind : String) (nowMs : Int) (detail workerId : Option String) :
    StoreM Unit :=
  atomically do
    let s ← Txn.read
    match s.effect? effectId with
    | none => raise (processingError ("unknown effect: " ++ effectId))
    | some row => appendEvidence effectId kind row.state detail nowMs workerId

def leaseExpired (nowMs : Int) (r : EffectRow) : Bool :=
  r.state = .executing && (match r.leaseUntilMs with
    | none => true
    | some until_ => until_ ≤ nowMs)

def recoverRow (nowMs : Int) (r : EffectRow) : EffectRow :=
  { r with state := .unknown, leaseOwner := none, leaseUntilMs := none, updatedMs := nowMs }

def recoverOne (nowMs : Int) (effectId : String) : StoreM Unit := do
  let _ ← updateEffects (fun r => r.effectId = effectId && r.state = .executing)
    (recoverRow nowMs)
  finishAttempts effectId nowMs .unknown
  appendEvidence effectId "recovery" .unknown
    (some "executing claim expired; outcome unproven") nowMs none

def recoverExecuting (nowMs : Int) : StoreM (List String) :=
  atomically do
    let s ← Txn.read
    let effectIds := (s.effects.filter (leaseExpired nowMs)).map EffectRow.effectId
    each effectIds (recoverOne nowMs)
    return effectIds

/-- The queued effects of outdated revisions that `cancel_stale_effects` reads under
the lock. It then cancels them one transaction at a time. -/
def staleEffects (s : Store) (turnId : String) (currentRevision : Int) : List String :=
  (orderBy EffectRow.createdMs EffectRow.effectId
    (s.effects.filter fun r => r.turnId = turnId && r.turnRevision < currentRevision &&
      r.state = .queued)).map EffectRow.effectId

def cancelStale (effectId : String) (nowMs : Int) (reason : String) : StoreM Bool :=
  transition effectId [EffectState.queued.name] EffectState.cancelled.name nowMs
    (evidenceOf "superseded" reason) none

def Store.EffectsUnique (s : Store) : Prop := Table.Unique EffectRow.effectId s.effects

def Store.claimed (s : Store) (row : EffectRow) (workerId attemptId : String) (nowMs leaseMs : Int)
    (policyVersion : Option String) : Store :=
  { s with
    effects := updateWhere (fun r => r.effectId = row.effectId && r.state = .queued)
      (claimRow workerId nowMs leaseMs) s.effects
    attempts := s.attempts ++ [
      { attemptId := attemptId, effectId := row.effectId, workerId := workerId, startedMs := nowMs,
        finishedMs := none, outcome := none,
        policyVersion := versionOr policyVersion row.policyVersion, detail := none }]
    evidence := s.evidence ++ [
      { effectId := row.effectId, kind := "claim", state := .executing, detail := none,
        observedMs := nowMs, workerId := some workerId }] }

variable {s : Store} {row : EffectRow}

theorem Store.effect?_claimed (hr : s.effect? row.effectId = some row)
    (hq : row.state = .queued) {workerId attemptId : String} :
    (s.claimed row workerId attemptId nowMs leaseMs policyVersion).effect? row.effectId =
      some (claimRow workerId nowMs leaseMs row) := by
  refine lookup_updateWhere_of_pos ?_ hr ?_
  · exact fun _ => rfl
  · simp [hq]
variable {other : String}

private theorem effect?_updateWhere_ne (h : other ≠ effectId)
    {q : EffectRow → Bool} {f : EffectRow → EffectRow} (hf : ∀ r, (f r).effectId = r.effectId) :
    lookup EffectRow.effectId other
      (updateWhere (fun r => r.effectId = effectId && q r) f s.effects) = s.effect? other := by
  rw [lookup_updateWhere hf]
  change Option.map _ (s.effect? other) = s.effect? other
  cases hr : s.effect? other with
  | none => rfl
  | some r =>
    have hne : r.effectId ≠ effectId := (lookup_some hr).2 ▸ h
    simp [hne]

theorem Store.effect?_claimed_ne (h : other ≠ row.effectId) {workerId attemptId : String} :
    (s.claimed row workerId attemptId nowMs leaseMs policyVersion).effect? other = s.effect? other :=
  effect?_updateWhere_ne h fun _ => rfl

/-- The outcomes of `claim_effect`: it raises, it loses, or it wins a queued effect. -/
inductive Claimed (effectId workerId attemptId : String) (nowMs leaseMs : Int)
    (policyVersion : Option String) (s : Store) : Except Error Bool × Store → Prop
  | refused (e : Error) : Claimed effectId workerId attemptId nowMs leaseMs policyVersion s (.error e, s)
  | lost (h : s.effectState? effectId ≠ some .queued) :
      Claimed effectId workerId attemptId nowMs leaseMs policyVersion s (.ok false, s)
  | won (row : EffectRow) (hr : s.effect? effectId = some row) (hq : row.state = .queued)
      (hw : workerId ≠ "") (hl : 0 < leaseMs)
      (ha : lookup AttemptRow.attemptId attemptId s.attempts = none) :
      Claimed effectId workerId attemptId nowMs leaseMs policyVersion s
        (.ok true, s.claimed row workerId attemptId nowMs leaseMs policyVersion)

private theorem claim_count (hu : s.EffectsUnique)
    (hr : s.effect? effectId = some row) {state : EffectState} (hq : row.state = state) :
    rowCount (fun r => decide (r.effectId = effectId) && decide (r.state = state)) s.effects = 1 := by
  have hn := hu.rowCount_key hr fun r => decide (r.state = state)
  rwa [decide_eq_true hq,if_pos rfl] at hn

theorem claimEffect_claimed (hu : s.EffectsUnique) (effectId workerId attemptId : String)
    (nowMs leaseMs : Int) (policyVersion : Option String) :
    Claimed effectId workerId attemptId nowMs leaseMs policyVersion s
      (claimEffect effectId workerId attemptId nowMs leaseMs policyVersion s) := by
  unfold claimEffect
  by_cases hw : workerId ≠ ""
  swap
  · rw [require_bind_of_neg hw]
    exact .refused _
  by_cases hl : 0 < leaseMs
  swap
  · rw [require_bind_of_pos hw,require_bind_of_neg hl]
    exact .refused _
  rw [require_bind_of_pos hw,require_bind_of_pos hl]
  unfold atomically
  rw [read_bind_apply]
  cases hr : s.effect? effectId with
  | none => exact .lost (by rw [Store.effectState?,hr]; exact nofun)
  | some row =>
    by_cases hq : row.state = .queued
    · have hc : ¬ row.state ∉ claimableEffectStates := fun h => h (hq ▸ List.mem_singleton_self _)
      simp only [if_neg hc,updateEffects_bind_apply,claim_count hu hr hq]
      rw [if_neg (not_not_intro rfl)]
      by_cases ha : lookup AttemptRow.attemptId attemptId s.attempts = none
      · rw [bind_of_ok (insertAttempt_of_fresh ha)]
        obtain ⟨-,rfl⟩ := lookup_some hr
        exact .won row hr hq hw hl ha
      · rw [bind_of_error (insertAttempt_of_known ha)]
        exact .refused _
    · have hc : row.state ∉ claimableEffectStates := fun h => hq (List.mem_singleton.mp h)
      simp only [if_pos hc]
      exact .lost (by rw [Store.effectState?,hr]; exact fun h => hq (Option.some.inj h))

def Store.moved (s : Store) (row : EffectRow) (next : EffectState) (nowMs : Int) (evidence : EvidenceArg)
    (workerId : Option String) : Store :=
  { s with
    effects := updateWhere (fun r => r.effectId = row.effectId && r.state = row.state)
      (transitionRow row.state next nowMs) s.effects
    attempts := if row.state = .executing then
        updateWhere (fun a => a.effectId = row.effectId && a.finishedMs = none)
          (fun a => { a with finishedMs := some nowMs, outcome := some next }) s.attempts
      else s.attempts
    evidence := s.evidence ++ [
      { effectId := row.effectId, kind := (evidence.coerce.map Prod.fst).getD "state", state := next,
        detail := evidence.coerce.bind Prod.snd, observedMs := nowMs, workerId := workerId }] }

theorem Store.effect?_moved (hr : s.effect? row.effectId = some row)
    (next : EffectState) (nowMs : Int) (evidence : EvidenceArg) (workerId : Option String) :
    (s.moved row next nowMs evidence workerId).effect? row.effectId =
      some (transitionRow row.state next nowMs row) := by
  refine lookup_updateWhere_of_pos ?_ hr ?_
  · exact fun _ => rfl
  · simp

theorem Store.effect?_moved_ne (h : other ≠ row.effectId) {evidence : EvidenceArg} {workerId : Option String} :
    (s.moved row next nowMs evidence workerId).effect? other = s.effect? other :=
  effect?_updateWhere_ne h fun _ => rfl

/-- The outcomes of `transition`: an illegal request raises, a missed expectation
returns false, and both leave the store alone; otherwise the effect moves. -/
inductive Transitioned (effectId : String) (expected : List String) (target : String) (nowMs : Int)
    (evidence : EvidenceArg) (workerId : Option String) (s : Store) : Except Error Bool × Store → Prop
  | unnamed (h : expected = []) (e : Error) :
      Transitioned effectId expected target nowMs evidence workerId s (.error e, s)
  | illegal (row : EffectRow) (hr : s.effect? effectId = some row) (hx : row.state.name ∈ expected)
      (e : Error) (hv : validateTransition row.state target evidence.kinds workerId row.leaseOwner = .error e) :
      Transitioned effectId expected target nowMs evidence workerId s (.error e, s)
  | missed (h : ∀ state, s.effectState? effectId = some state → state.name ∉ expected) :
      Transitioned effectId expected target nowMs evidence workerId s (.ok false, s)
  | moved (row : EffectRow) (hr : s.effect? effectId = some row) (hx : row.state.name ∈ expected)
      (next : EffectState)
      (hv : validateTransition row.state target evidence.kinds workerId row.leaseOwner = .ok next) :
      Transitioned effectId expected target nowMs evidence workerId s
        (.ok true, s.moved row next nowMs evidence workerId)

theorem transition_transitioned (hu : s.EffectsUnique) (effectId : String)
    (expected : List String) (target : String) (nowMs : Int) (evidence : EvidenceArg)
    (workerId : Option String) :
    Transitioned effectId expected target nowMs evidence workerId s
      (transition effectId expected target nowMs evidence workerId s) := by
  unfold transition
  by_cases he : expected = []
  · rw [require_bind_of_neg (not_not_intro he)]
    exact .unnamed he _
  rw [require_bind_of_pos he]
  unfold atomically
  rw [read_bind_apply]
  cases hr : s.effect? effectId with
  | none => exact .missed (by rw [Store.effectState?,hr]; exact nofun)
  | some row =>
    by_cases hx : row.state.name ∈ expected
    · simp only [if_neg (not_not_intro hx)]
      cases hv : validateTransition row.state target evidence.kinds workerId row.leaseOwner with
      | error e => exact .illegal row hr hx e hv
      | ok next =>
        rw [bind_of_ok liftExcept_apply]
        simp only [updateEffects_bind_apply,claim_count hu hr rfl]
        rw [if_neg (not_not_intro rfl)]
        obtain ⟨-,rfl⟩ := lookup_some hr
        rw [bind_of_ok settleAttempts_apply]
        exact .moved row hr hx next hv
    · simp only [if_pos hx]
      refine .missed ?_
      rw [Store.effectState?,hr]
      rintro state ⟨⟩
      exact hx

end Yeoman.Processing
