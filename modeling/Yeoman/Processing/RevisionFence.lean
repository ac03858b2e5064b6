import Yeoman.Processing.Gateway
import Yeoman.Processing.TurnSteps
import Yeoman.Processing.Lifecycle

/-! The revision fence of the gateway. Check, decision and claim are one synchronous
segment, so a claimed effect belongs to a turn that is open and at its revision; and
because turns only move forward, no effect of an older revision is claimed later. -/
namespace Yeoman.Processing
open Library Table Txn Runs

def Op.Idle (op : Op) : Prop := ¬ op.puts .executing
variable {effectId : String}

theorem Via.executing {s s' : Store} (h : Via Op.Idle s s')
    (hx : s'.effectState? effectId = some .executing) : s.effectState? effectId = some .executing := by
  refine Via.invariant (I := fun t => t.effectState? effectId = some .executing →
    s.effectState? effectId = some .executing) ?_ h id hx
  exact fun t op ho hi ht => hi ((op.state_entered ht).resolve_right ho)

theorem receipt_frame {β : Type} {π : Store → β} (effectId state operationKey : String)
    (attemptId detail : Option String) : Frame π (receipt effectId state operationKey attemptId detail) :=
  .bind .read fun _ => .bind_pure .liftExcept

theorem transition_idle {expected : List String} {target : EffectState}
    (ht : target ≠ .executing) {nowMs : Int} {evidence : EvidenceArg} {workerId : Option String} :
    Keeps id (Via Op.Idle) (transition effectId expected target.name nowMs evidence workerId) :=
  Via.call (.transition ..) (fun ⟨_,_,h⟩ => ht (EffectState.name_injective h.symm)) rfl

namespace EffectGateway
variable (g : EffectGateway)

structure Authorized (a : SnapshotEffectAuthorizer) (s : Store) (row : EffectRow) (nowMs checkMs : Int) :
    Prop where
  queued : row.state = .queued
  healthy : a.snapshot.healthy = true
  permitted : ∃ target, decodeTarget row.targetJson = .ok (some target) ∧
    (a.resolve row.principal target row.capability).1 = true
  unexpired : unexpired row.expiresAtMs nowMs = true ∧ unexpired row.expiresAtMs checkMs = true
  turn : row.turnId ≠ "" → ∃ turn, s.turn? row.turnId = some turn ∧ turn.closedMs = none ∧
    turn.revision = row.turnRevision

variable {a : SnapshotEffectAuthorizer} {stored : StoredEffect} {effectId : String}
  {s : Store} {decisionId attemptId : String} {nowMs : Int} {v : EffectEnvelope} {decision : DecisionRecord}
  (x : Execution)
variable {checkMs : Int}

theorem Authorized.of_check
    (hq : stored.row.state = .queued) (ht : decodeTarget stored.row.targetJson = .ok stored.target)
    (hexp : ¬ stored.row.expiresAtMs.any (· ≤ nowMs) = true) (hv : stored.toEnvelope = .ok v)
    (hd : a.check s v none decisionId checkMs = .ok decision) (ho : decision.outcome = .allow) :
    Authorized a s stored.row nowMs checkMs := by
  obtain ⟨-,htv,-,-,hti,htr,hpr,hca,hex,-,-⟩ := stored.toEnvelope_ok hv
  obtain ⟨hh,hp,⟨turn,hc,hm⟩,hx⟩ := a.check_allow hd ho
  refine ⟨hq,hh,⟨v.target,htv ▸ ht,hpr ▸ hca ▸ hp⟩,⟨?_,hex ▸ hx⟩,fun hne => ?_⟩
  · cases hs : stored.row.expiresAtMs with
    | none => rfl
    | some deadline =>
      rw [hs] at hexp
      simpa [Processing.unexpired] using hexp
  · obtain ⟨row,hr,hcl,hrev⟩ := revisionMatches_persisted (hti ▸ hne) hc hm
    exact ⟨row,hti ▸ hr,hcl,hrev.trans htr⟩

/-- What `execute_ready` comes to before its await: nothing starts to execute, or the effect alone does,
under the condition, and its executor is awaited. -/
inductive Began (P : Prop) (id : String) (s : Store) : Except Error Started × Store → Prop
  | idle {r : Except Error Started} {t : Store} (hv : Via Op.Idle s t) (hr : ∀ x, r ≠ .ok (.awaiting x)) :
      Began P id s (r, t)
  | claimed {x : Execution} {t : Store} (hp : P) (hid : x.effectId = id)
      (hx : t.effectState? id = some .executing)
      (ho : ∀ e, e ≠ id → t.effectState? e = some .executing → s.effectState? e = some .executing) :
      Began P id s (.ok (.awaiting x), t)

variable {P Q : Prop} {m : Store} {r : Except Error Started × Store}

theorem Began.behind (h : Began P effectId m r) (hv : Via Op.Idle s m) (hp : P → Q) : Began Q effectId s r := by
  cases h with
  | idle h hr => exact .idle (Via.trans _ _ _ hv h) hr
  | claimed h hid hx ho => exact .claimed (hp h) hid hx fun e hne h => hv.executing (ho e hne h)

theorem Began.raised {e : Error} (hv : Via Op.Idle s m) : Began P effectId s (.error e, m) :=
  .idle hv fun _ h => nomatch h

theorem Began.finished {x : StoreM EffectReceipt} (hx : Keeps id (Via Op.Idle) x) :
    Began P effectId s ((do return Started.finished (← x)) s) :=
  bind_cases (P := Began P effectId s) (fun h => .raised (hx.ends h)) fun {a m} h =>
    .idle (r := .ok (.finished a)) (t := m) (hx.ends h) fun _ h => nomatch h

theorem Began.refused {e state key : String} {detail : Option String} :
    Began P effectId s ((do return Started.finished (← receipt e state key none detail)) s) :=
  .finished (.of_frame Via.refl (receipt_frame _ _ _ _ _))

theorem Began.settled {x : StoreM Bool} (hx : Keeps id (Via Op.Idle) x) {e state key : String} {detail : Option String} :
    Began P effectId s ((do
      let _ ← x
      return Started.finished (← receipt e state key none detail)) s) :=
  bind_cases (P := Began P effectId s) (fun h => .raised (hx.ends h)) fun h => refused.behind (hx.ends h) fun h => h

theorem dispatch_began (hu : s.EffectsUnique) :
    Began True stored.row.effectId s (g.dispatch stored v decision attemptId nowMs s) := by
  have hc := claimEffect_claimed hu stored.row.effectId g.workerId attemptId nowMs g.leaseMs
    (some decision.policyVersion)
  refine bind_cases (P := Began True stored.row.effectId s) (fun he => ?_) fun hw => ?_
  · rw [he] at hc
    cases hc
    exact .raised (Via.refl s)
  rw [hw] at hc
  rw [read_bind_apply]
  cases hc with
  | lost =>
    rw [if_pos rfl]
    exact .refused
  | won row hr hq =>
    rw [if_neg Bool.noConfusion]
    obtain ⟨-,hid⟩ := lookup_some hr
    rw [← hid] at hr ⊢
    refine .claimed (x := ⟨_,_,_,_⟩) trivial rfl (effectState?_some.mpr ⟨_,Store.effect?_claimed hr hq,rfl⟩)
      fun e hne hx => ?_
    exact (congrArg (Option.map EffectRow.state) (Store.effect?_claimed_ne hne)).symm.trans hx

theorem stateForReason_ne {reason : String} : stateForReason reason ≠ .executing := by
  unfold stateForReason
  dsimp only
  split_ifs <;> decide

theorem beginQueued_began (hu : s.EffectsUnique)
    (hq : stored.row.state = .queued) (ht : decodeTarget stored.row.targetJson = .ok stored.target) :
    Began (Authorized a s stored.row nowMs checkMs) stored.row.effectId s
      (g.beginQueued a stored decisionId attemptId nowMs checkMs s) := by
  unfold beginQueued
  split
  · exact .settled (transition_idle (by decide))
  next hexp =>
    refine liftExcept_cases (P := Began _ _ s) (fun e _ => .raised (Via.refl s)) fun v hv => ?_
    rw [read_bind_apply]
    refine liftExcept_cases (P := Began _ _ s) (fun e _ => .raised (Via.refl s)) fun decision hd => ?_
    have hr : Keeps id (Via Op.Idle) (recordDecision decision) := Via.call (.recordDecision _) (fun ⟨_,h⟩ => h) rfl
    refine bind_cases (P := Began _ _ s) (fun h => .raised (hr.ends h)) fun h => ?_
    split
    · exact (Began.settled (transition_idle stateForReason_ne)).behind (hr.ends h) fun h => h
    next ho =>
      exact (g.dispatch_began ((hr.ends h).effectsUnique hu)).behind (hr.ends h) fun _ =>
        .of_check hq ht hexp hv hd (not_not.mp ho)

/-- The only effect that `execute_ready` starts is its own, and the authorizer allowed it
in the store in which it is claimed. -/
theorem beginExecution_began (hu : s.EffectsUnique) :
    Began (∃ row, s.effect? effectId = some row ∧ Authorized a s row nowMs checkMs) effectId s
      (g.beginExecution a effectId decisionId attemptId nowMs checkMs s) := by
  rw [beginExecution,read_bind_apply]
  refine liftExcept_cases (P := Began _ effectId s) (fun e _ => .raised (Via.refl s)) fun found hg => ?_
  cases found with
  | none => exact .raised (Via.refl s)
  | some stored =>
    obtain ⟨hr,ht⟩ := Store.getEffect_some hg
    obtain ⟨-,rfl⟩ := lookup_some hr
    dsimp only
    split
    · exact .refused
    next hq => exact (g.beginQueued_began hu (not_not.mp hq) ht).behind (Via.refl s) fun ha => ⟨_,hr,ha⟩

theorem settle_idle {target : EffectState} (ht : target ≠ .executing)
    {kind detail : String} : Keeps id (Via Op.Idle) (g.settle effectId target nowMs kind detail) :=
  transition_idle ht
variable {receiptMs : Int}

theorem recordResult_idle {result : Option ExecutorResult} :
    Keeps id (Via Op.Idle) (g.recordResult x result receiptMs nowMs) := by
  have hs (target : EffectState) (ht : target ≠ .executing) (kind detail : String) : Keeps id (Via Op.Idle) (do
      let _ ← g.settle x.effectId target nowMs kind detail) :=
    .bind_pure (g.settle_idle ht)
  refine .ite ?_ (.ite (hs .failed (by decide) _ _) (hs .unknown (by decide) _ _))
  cases result.bind ExecutorResult.transportReceipt with
  | none => exact .ite (hs .unknown (by decide) _ _) (hs .sent (by decide) _ _)
  | some transport =>
    refine .bind Via.trans (Via.call (.recordTransportReceipt _) ?_ rfl) fun _ => hs .sent (by decide) _ _
    exact fun h => h.elim fun _ h => h

theorem finishExecution_idle {outcome : ExecutorOutcome} :
    Keeps id (Via Op.Idle) (g.finishExecution x receiptMs nowMs outcome) := by
  cases outcome with
  | cancelled => exact .bind_frame (g.settle_idle (by decide)) fun _ => .raise
  | raised exc =>
    have ht : raisedTarget exc ≠ .executing := by
      unfold raisedTarget
      split <;> decide
    exact .bind_frame (g.settle_idle ht) fun _ => receipt_frame _ _ _ _ _
  | returned result =>
    exact .bind_frame (g.recordResult_idle x) fun _ =>
      .bind .read fun _ => receipt_frame _ _ _ _ _

theorem beginExecution_via :
    Keeps id (Via fun _ => True) (g.beginExecution a effectId decisionId attemptId nowMs checkMs) := by
  have hf (effectId state key : String) (detail : Option String) : Keeps id (Via fun _ => True) (do
      return Started.finished (← receipt effectId state key none detail) : StoreM Started) :=
    .of_frame Via.refl (.bind_pure (receipt_frame _ _ _ _ _))
  refine .frame_bind Via.refl .read fun s => .frame_bind Via.refl .liftExcept fun found => ?_
  cases found with
  | none => exact .of_frame Via.refl .raise
  | some stored =>
    refine .ite (hf _ _ _ _) (.ite ?_ ?_)
    · exact .bind Via.trans (Via.call (.transition ..) trivial rfl) fun _ => hf _ _ _ _
    refine .frame_bind Via.refl .liftExcept fun v => .frame_bind Via.refl .read fun s =>
      .frame_bind Via.refl .liftExcept fun decision =>
        .bind Via.trans (Via.call (.recordDecision _) trivial rfl) fun _ => .ite ?_ ?_
    · exact .bind Via.trans (Via.call (.transition ..) trivial rfl) fun _ => hf _ _ _ _
    · refine .bind Via.trans (Via.call (.claimEffect ..) trivial rfl) fun won =>
        .frame_bind Via.refl .read fun s => .ite (hf _ _ _ _) (.of_frame Via.refl .pure)

end EffectGateway

/-- The store and the executions that await their executor. A finished one leaves `none`. -/
structure GatewayWorld where
  store : Store := Store.empty
  executions : List (Option Execution) := []

/-- One segment between awaits: an operation of any other worker, the start of an
`execute_ready` with the policy of the moment, the return of an executor, or a crash. -/
inductive GatewayAction where
  | call (op : Op) (idle : op.Idle)
  | execute (a : SnapshotEffectAuthorizer) (effectId decisionId attemptId : String) (nowMs checkMs : Int)
  | resume (job : Nat) (receiptMs nowMs : Int) (outcome : ExecutorOutcome)
  | crash

namespace GatewayWorld
variable (g : EffectGateway)

def execute (w : GatewayWorld) (a : SnapshotEffectAuthorizer) (effectId decisionId attemptId : String)
    (nowMs checkMs : Int) : GatewayWorld :=
  match g.beginExecution a effectId decisionId attemptId nowMs checkMs w.store with
  | (.ok (.awaiting x), s) => { store := s, executions := w.executions ++ [some x] }
  | (_, s) => { w with store := s }

def resume (w : GatewayWorld) (job : Nat) (receiptMs nowMs : Int) (outcome : ExecutorOutcome) :
    GatewayWorld :=
  match w.executions[job]? with
  | some (some x) =>
    { store := (g.finishExecution x receiptMs nowMs outcome w.store).2
      executions := w.executions.set job none }
  | _ => w

def step (w : GatewayWorld) : GatewayAction → GatewayWorld
  | .call op _ => { w with store := op.exec w.store }
  | .execute a effectId decisionId attemptId nowMs checkMs =>
    w.execute g a effectId decisionId attemptId nowMs checkMs
  | .resume job receiptMs nowMs outcome => w.resume g job receiptMs nowMs outcome
  | .crash => { w with executions := [] }

def Reachable (w : GatewayWorld) : Prop := Runs.Reachable (step g) {} w

def Claims (w : GatewayWorld) (a : GatewayAction) (effectId : String) : Prop :=
  w.store.effectState? effectId ≠ some .executing ∧
    (w.step g a).store.effectState? effectId = some .executing

variable {w : GatewayWorld} {effectId : String}

theorem execute_fst {a : SnapshotEffectAuthorizer} {decisionId attemptId : String}
    {nowMs checkMs : Int} : (w.execute g a effectId decisionId attemptId nowMs checkMs).store =
      (g.beginExecution a effectId decisionId attemptId nowMs checkMs w.store).2 := by
  unfold execute
  split
  all_goals
    rename_i h
    rw [h]

theorem resume_idle {job : Nat} {receiptMs nowMs : Int} {outcome : ExecutorOutcome} :
    Via Op.Idle w.store (w.resume g job receiptMs nowMs outcome).store := by
  unfold resume
  split
  · exact g.finishExecution_idle _ w.store
  · exact Via.refl _
variable (a : GatewayAction)

theorem step_via : Via (fun _ => True) w.store (w.step g a).store := by
  cases a with
  | call op idle => exact Relation.ReflTransGen.single ⟨op,trivial,rfl⟩
  | execute a effectId decisionId attemptId nowMs checkMs =>
    change Via _ _ (w.execute g a effectId decisionId attemptId nowMs checkMs).store
    rw [execute_fst]
    exact g.beginExecution_via w.store
  | resume job receiptMs nowMs outcome =>
    exact Via.mono (fun _ _ => trivial) _ _ (resume_idle g)
  | crash => exact Via.refl _

theorem Reachable.effectsUnique (h : w.Reachable g) : w.store.EffectsUnique := by
  refine Runs.Reachable.invariant (I := fun v : GatewayWorld => v.store.EffectsUnique) h
    (Table.Unique.nil) fun v a hv => ?_
  exact (step_via g a).effectsUnique hv

theorem turns_kept : TurnsKept w.store.turns (w.step g a).store.turns := by
  refine Via.invariant (I := fun s => TurnsKept w.store.turns s.turns) ?_ (step_via g a) .refl
  exact fun s op _ hs => hs.trans op.turns_kept

theorem execute_began (hu : w.store.EffectsUnique) (auth : SnapshotEffectAuthorizer)
    (e decisionId attemptId : String) (nowMs checkMs : Int) :
    let v := w.execute g auth e decisionId attemptId nowMs checkMs
    v.executions = w.executions ∧ Via Op.Idle w.store v.store ∨
      ∃ row x, w.store.effect? e = some row ∧ EffectGateway.Authorized auth w.store row nowMs checkMs ∧
        v.executions = w.executions ++ [some x] ∧ x.effectId = e ∧ v.store.effectState? e = some .executing ∧
        ∀ e', e' ≠ e → v.store.effectState? e' = some .executing → w.store.effectState? e' = some .executing := by
  have hb : EffectGateway.Began _ e w.store (g.beginExecution auth e decisionId attemptId nowMs checkMs w.store) :=
    g.beginExecution_began hu
  unfold execute
  generalize g.beginExecution auth e decisionId attemptId nowMs checkMs w.store = r at hb ⊢
  cases hb with
  | idle hv hr =>
    dsimp only
    split
    next x s' h =>
      cases h
      exact absurd rfl (hr x)
    next h =>
      cases h
      exact .inl ⟨rfl,hv⟩
  | claimed hp hid hx ho =>
    obtain ⟨row,hr,ha⟩ := hp
    exact .inr ⟨row,_,hr,ha,rfl,hid,hx,ho⟩

/-- A claim is the start of an `execute_ready` that the authorizer allowed. -/
theorem Claims.authorized {a : GatewayAction} (hu : w.store.EffectsUnique) (h : w.Claims g a effectId) :
    ∃ auth decisionId attemptId nowMs checkMs row x,
      a = .execute auth effectId decisionId attemptId nowMs checkMs ∧
      w.store.effect? effectId = some row ∧ EffectGateway.Authorized auth w.store row nowMs checkMs ∧
      (w.step g a).executions = w.executions ++ [some x] ∧ x.effectId = effectId := by
  obtain ⟨hn,hx⟩ := h
  cases a with
  | call op idle => exact absurd ((op.state_entered hx).resolve_right idle) hn
  | resume job receiptMs nowMs outcome =>
    exact absurd ((resume_idle g).executing hx) hn
  | crash => exact absurd hx hn
  | execute auth e decisionId attemptId nowMs checkMs =>
    rcases execute_began g hu auth e decisionId attemptId nowMs checkMs with ⟨-,hv⟩ | ⟨row,x,hr,ha,hw,hid,-,ho⟩
    · exact absurd (hv.executing hx) hn
    · have he : effectId = e := by_contra fun hne => hn (ho effectId hne hx)
      subst he
      exact ⟨auth,decisionId,attemptId,nowMs,checkMs,row,x,rfl,hr,ha,hw,hid⟩

theorem claims_of_awaits {a : GatewayAction} {x : Execution} (hu : w.store.EffectsUnique)
    (h : (w.step g a).executions = w.executions ++ [some x]) : w.Claims g a x.effectId := by
  have hlength := congrArg List.length h
  rw [List.length_append,List.length_singleton] at hlength
  cases a with
  | call op idle => exact absurd hlength (Nat.lt_succ_self _).ne
  | crash => exact absurd hlength (Nat.succ_ne_zero _).symm
  | resume job receiptMs nowMs outcome =>
    have hsame : (w.resume g job receiptMs nowMs outcome).executions.length = w.executions.length := by
      unfold resume
      split
      · exact List.length_set
      · rfl
    exact absurd (hsame.symm.trans hlength) (Nat.lt_succ_self _).ne
  | execute auth e decisionId attemptId nowMs checkMs =>
    rcases execute_began g hu auth e decisionId attemptId nowMs checkMs with ⟨hw,-⟩ | ⟨row,y,hr,ha,hw,rfl,hx,-⟩
    · exact absurd (congrArg List.length (hw.symm.trans h)) (by simp)
    · obtain rfl := Option.some.inj (List.singleton_inj.mp (List.append_cancel_left (hw.symm.trans h)))
      refine ⟨?_,hx⟩
      rw [effectState?_some.mpr ⟨row,hr,ha.queued⟩]
      exact nofun

/-- While a turn is past a revision, only effects of later revisions of it are claimed. -/
theorem claims_after (h : w.Reachable g) {turnId : String} (ht : turnId ≠ "") {revision : Int}
    (hr : ∃ turn, w.store.turn? turnId = some turn ∧ revision < turn.revision) {as : List GatewayAction} :
    Along (step g) (fun v a => ∀ effectId row, v.Claims g a effectId →
      v.store.effect? effectId = some row → row.turnId = turnId → revision < row.turnRevision) w as := by
  refine Along.of_invariant (I := fun v : GatewayWorld => v.Reachable g ∧
    ∃ turn, v.store.turn? turnId = some turn ∧ revision < turn.revision) ?_ ?_ ⟨h,hr⟩
  · rintro v a ⟨hv,turn,hl,hlt⟩
    obtain ⟨turn',hl',hs⟩ := turns_kept g a turnId turn hl
    exact ⟨hv.next a,turn',hl',hlt.trans_le hs.revision⟩
  · rintro v a ⟨hv,turn,hl,hlt⟩ effectId row hc hrow rfl
    obtain ⟨_,_,_,_,_,row',_,-,hrow',ha,-⟩ := hc.authorized g (hv.effectsUnique g)
    cases hrow.symm.trans hrow'
    obtain ⟨turn',hl',-,hrev⟩ := ha.turn ht
    cases hl.symm.trans hl'
    exact hrev ▸ hlt

end GatewayWorld

open GatewayWorld

/-- In every reachable world a claim is the start of an `execute_ready` whose authorizer
found, in the store of the claim, a healthy policy, a granted capability, no expiry and,
for an effect of a turn, that turn open and at the effect's revision; an executor is awaited
only by such a claim; and once a revision bump has returned, no run claims an effect of that
turn with an older revision. -/
theorem revision_fence (g : EffectGateway) (w : GatewayWorld) (h : w.Reachable g) :
    (∀ a effectId, w.Claims g a effectId → ∃ auth decisionId attemptId nowMs checkMs row x,
      a = .execute auth effectId decisionId attemptId nowMs checkMs ∧
      w.store.effect? effectId = some row ∧ EffectGateway.Authorized auth w.store row nowMs checkMs ∧
      (w.step g a).executions = w.executions ++ [some x] ∧ x.effectId = effectId) ∧
    (∀ a x, (w.step g a).executions = w.executions ++ [some x] → w.Claims g a x.effectId) ∧
    ∀ turnId revision nowMs idle ref s', turnId ≠ "" →
      bumpTurnRevision turnId revision nowMs w.store = (.ok ref, s') →
      ∀ as, Along (step g) (fun v a => ∀ effectId row, v.Claims g a effectId →
        v.store.effect? effectId = some row → row.turnId = turnId → revision < row.turnRevision)
        (w.step g (.call (.bumpTurnRevision turnId revision nowMs) idle)) as := by
  refine ⟨fun a effectId hc => hc.authorized g (h.effectsUnique g),fun a x => claims_of_awaits g (h.effectsUnique g),?_⟩
  intro turnId revision nowMs idle ref s' ht hb as
  obtain ⟨turn,hl,hrev⟩ := bumpTurnRevision_ok hb
  refine claims_after g (h.next _) ht ⟨turn,?_,by omega⟩
  rw [step,Op.exec,Op.apply,reply_snd,hb]
  exact hl

def answerTurn : String := turnIdFor (threadIdFor "whatsapp" "c1" "ev1") "ev1" 1

def permissive : SnapshotEffectAuthorizer where
  snapshot := { version := "v1", policyHash := "h1", version_ne := by decide }
  resolve := fun _ _ _ => (true, "allow")
  admissionLoader := none
  participationAuthorizer := none
  participationRequestBuilder := none

private theorem whatsapp_ne : "whatsapp" ≠ "" := by decide

private theorem c1_ne : "c1" ≠ "" := by decide

def answerRun : List GatewayAction :=
  [.call (.openThread "whatsapp" "c1" "p1" "dm" "ev1" 1000) (fun ⟨_,h⟩ => h),
   .call (.openTurn (threadIdFor "whatsapp" "c1" "ev1") "p1" "ev1" 1000 .open) (fun ⟨_,h⟩ => h),
   .call (.enqueueEffect
      { effectId := "e1", operationKey := "op:e1", payload := .typed (.text "hello" none), nowMs := 1000,
        target := .typed { channel := "whatsapp", chatId := "c1", channel_ne := whatsapp_ne, chatId_ne := c1_ne },
        turnId := answerTurn, principal := "p1", capability := "send_text" })
      (show ¬ (EffectState.ofName? "queued" = some .executing ∨ EffectState.executing = .expired) by decide)]

theorem answerRun_fenced :
    Claims {} (run (step {}) {} answerRun) (.execute permissive "e1" "d1" "a1" 1100 1100) "e1" ∧
    ∃ row, (run (step {}) {} answerRun).store.effect? "e1" = some row ∧
      EffectGateway.Authorized permissive (run (step {}) {} answerRun).store row 1100 1100 := by
  have hc : Claims {} (run (step {}) {} answerRun) (.execute permissive "e1" "d1" "a1" 1100 1100) "e1" :=
    ⟨by decide +kernel,by decide +kernel⟩
  obtain ⟨_,_,_,_,_,row,_,ha,hr,hau,-⟩ := (revision_fence {} _ ⟨answerRun,rfl⟩).1 _ _ hc
  cases ha
  exact ⟨hc,row,hr,hau⟩

end Yeoman.Processing
