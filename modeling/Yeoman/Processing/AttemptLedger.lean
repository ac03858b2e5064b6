import Yeoman.Processing.AtMostOnce
import Yeoman.Processing.AttemptHistory

/-! The attempt ledger: how many attempts an effect has, how many of them are open, and how
both follow its state. -/
namespace Yeoman.Processing
open Library Table Txn Runs

def attemptCount (s : Store) (effectId : String) : Nat :=
  s.attempts.countP fun a => a.effectId = effectId

/-- Those without a `finished_ms`. -/
def openAttempts (s : Store) (effectId : String) : Nat :=
  s.attempts.countP fun a => a.effectId = effectId && a.finishedMs = none
variable {op : Op} {s : Store} (effectId : String) (n : Int) (e : String)
  {outcome : EffectState} {t : List AttemptRow} {w : World}

theorem countP_closeAttempts {n : Int}
    {effectId : String} : (closeAttempts e n outcome t).countP (fun a => a.effectId = effectId) =
      t.countP fun a => a.effectId = effectId := by
  unfold closeAttempts updateWhere
  rw [List.countP_map]
  refine List.countP_congr fun a _ => ?_
  rw [Function.comp_apply]
  split <;> rfl

theorem open_closeAttempts {effectId : String} :
    (closeAttempts effectId n outcome t).countP
      (fun a => a.effectId = effectId && a.finishedMs = none) = 0 := by
  rw [List.countP_eq_zero]
  intro b hb
  obtain ⟨a,-,rfl⟩ := mem_updateWhere.mp hb
  split
  · simp
  · assumption

theorem open_closeAttempts_ne {e effectId : String} (h : e ≠ effectId) {n : Int} :
    (closeAttempts e n outcome t).countP (fun a => a.effectId = effectId && a.finishedMs = none) =
      t.countP fun a => a.effectId = effectId && a.finishedMs = none := by
  unfold closeAttempts updateWhere
  rw [List.countP_map]
  refine List.countP_congr fun a _ => ?_
  rw [Function.comp_apply]
  split_ifs with hp
  · have he : a.effectId = e := of_decide_eq_true (Bool.and_eq_true_iff.mp hp).1
    simp [he,h]
  · rfl

def Op.wins (effectId : String) (s : Store) (op : Op) : Bool := claims effectId { store := s } (.call op)

def Op.starts (effectId : String) : Op → Prop
  | .enqueueEffect a => a.effectId = effectId ∧ a.state = EffectState.executing.name
  | .transition e _ target .. => e = effectId ∧ target = EffectState.executing.name
  | _ => False

inductive LedgerStep (effectId : String) (op : Op) (s s' : Store) : Prop
  | kept (hw : op.wins effectId s = false) (hc : attemptCount s' effectId = attemptCount s effectId)
      (ho : openAttempts s' effectId = openAttempts s effectId)
      (hl : s.effectState? effectId = some .executing → s'.effectState? effectId = some .executing)
      (he : s'.effectState? effectId = some .executing →
        s.effectState? effectId = some .executing ∨ op.starts effectId)
  | opened (hw : op.wins effectId s = true) (hq : s.effectState? effectId = some .queued)
      (hx : s'.effectState? effectId = some .executing)
      (hc : attemptCount s' effectId = attemptCount s effectId + 1)
      (ho : openAttempts s' effectId = openAttempts s effectId + 1)
  | closed (hw : op.wins effectId s = false) (hx : s'.effectState? effectId ≠ some .executing)
      (hc : attemptCount s' effectId = attemptCount s effectId) (ho : openAttempts s' effectId = 0)

/-- The part of a step that opens nothing: the effect is left alone, or its attempts are
closed and it does not execute. -/
structure Settles (effectId : String) (s s' : Store) : Prop where
  count : attemptCount s' effectId = attemptCount s effectId
  settled : (openAttempts s' effectId = openAttempts s effectId ∧
      s'.effectState? effectId = s.effectState? effectId) ∨
    (openAttempts s' effectId = 0 ∧ s'.effectState? effectId ≠ some .executing)

theorem Settles.refl (s : Store) : Settles effectId s s := ⟨rfl,.inl ⟨rfl,rfl⟩⟩

theorem Settles.trans {effectId : String} (a b c : Store) (h : Settles effectId a b)
    (h' : Settles effectId b c) : Settles effectId a c := by
  refine ⟨h'.count.trans h.count,?_⟩
  rcases h'.settled with ⟨ho',hs'⟩ | hz
  · rcases h.settled with ⟨ho,hs⟩ | ⟨ho,hs⟩
    · exact .inl ⟨ho'.trans ho,hs'.trans hs⟩
    · exact .inr ⟨ho'.trans ho,hs' ▸ hs⟩
  · exact .inr hz

theorem Settles.step {effectId : String} {s' : Store} (h : Settles effectId s s')
    (hw : op.wins effectId s = false) : LedgerStep effectId op s s' := by
  rcases h.settled with ⟨ho,hs⟩ | ⟨ho,hx⟩
  · exact .kept hw h.count ho (fun he => hs.trans he) fun he => .inl (hs.symm.trans he)
  · exact .closed hw hx h.count ho

theorem recoverOne_settles : Keeps id (Settles effectId) (recoverOne n e) := by
  intro s
  have ha : (recoverOne n e s).2.attempts = closeAttempts e n .unknown s.attempts := rfl
  have hs : (recoverOne n e s).2.effect? effectId = (s.effect? effectId).map fun r =>
      if r.effectId = e && r.state = .executing then recoverRow n r else r :=
    lookup_updateWhere (f := recoverRow n) (fun _ => rfl)
  refine ⟨?_,?_⟩
  · rw [attemptCount,id,ha,countP_closeAttempts]
    rfl
  · by_cases he : e = effectId
    · subst he
      refine .inr ⟨?_,?_⟩
      · rw [openAttempts,id,ha]
        exact open_closeAttempts n
      · intro hx
        obtain ⟨r',hr',hst⟩ := effectState?_some.mp hx
        rw [id,hs] at hr'
        obtain ⟨r,hr,rfl⟩ := Option.map_eq_some_iff.mp hr'
        have hid := (lookup_some hr).2
        by_cases hex : r.state = .executing
        · rw [if_pos (by simp [hid,hex])] at hst
          cases hst
        · rw [if_neg (by simp [hex])] at hst
          exact hex hst
    · refine .inl ⟨?_,?_⟩
      · rw [openAttempts,id,ha]
        exact open_closeAttempts_ne he
      · unfold Store.effectState?
        rw [id,hs]
        cases hr : s.effect? effectId with
        | none => simp [hr]
        | some r =>
          have hid : r.effectId ≠ e := (lookup_some hr).2 ▸ Ne.symm he
          simp [hr,hid]

theorem recoverExecuting_settles : Keeps id (Settles effectId) (recoverExecuting n) := by
  refine .atomically (Settles.refl effectId) (.frame_bind (Settles.refl effectId) .read fun s =>
    .bind_pure ?_)
  exact .each (Settles.refl effectId) Settles.trans (recoverOne_settles effectId n)

theorem Op.effectState_step (op : Op) {effectId : String} {state : EffectState}
    (h : s.effectState? effectId = some state) : ∃ row next,
    s.effect? effectId = some row ∧ row.state = state ∧ (op.exec s).effectState? effectId = some next ∧
      (next = state ∨ (Edge state next ∧ op.moves row next)) := by
  obtain ⟨row,hr,rfl⟩ := effectState?_some.mp h
  obtain ⟨row',hr',hs⟩ := op.effect_step hr
  refine ⟨row,row'.state,hr,rfl,effectState?_some.mpr ⟨row',hr',rfl⟩,?_⟩
  rcases hs.moves with hm | hm
  · exact .inl hm
  · exact hs.edge.imp_right fun he => ⟨he,hm⟩

theorem edge_from_executing {next : EffectState} (h : Edge .executing next) :
    next ≠ .executing ∧ next ≠ .cancelled := by
  cases next <;> revert h <;> decide

private theorem starts_of_enqueues (he : op.enqueues = true) {effectId : String}
    (hn : s.effectState? effectId ≠ some .executing)
    (hx : (op.exec s).effectState? effectId = some .executing) : op.starts effectId := by
  unfold Op.exec at hx
  cases op <;> first | (cases he; done) | rw [Op.apply,reply_snd] at hx
  case enqueueEffect a =>
    rcases enqueueEffect_cases a with ⟨e,hr⟩ | ⟨state,origin,-,-,-,hst,-,hq⟩
    · rw [hr] at hx
      exact absurd hx hn
    · rcases hq.state_entered hx with h | ⟨hid,rfl | h⟩
      · exact absurd h hn
      · exact ⟨hid,EffectState.ofName?_eq_some hst⟩
      · cases h
  case enqueueParticipationEffect v a =>
    rcases enqueueParticipationEffect_cases with ⟨e,hr⟩ | ⟨m,id,s',hr,-,-,-,-,-,-,hm,hq⟩
    · rw [hr] at hx
      exact absurd hx hn
    · rw [hr] at hx
      rcases hq.state_entered hx with h | ⟨-,h | h⟩
      · rw [Store.effectState?,Store.effect?,hm.effects] at h
        exact absurd h hn
      · cases h
      · cases h

private theorem ledgerStep_untouched (hw : Tbl.attempts ∉ op.writes)
    {effectId : String} : LedgerStep effectId op s (op.exec s) := by
  have ha : (op.exec s).attempts = s.attempts := Op.rows_eq hw s
  have hne {row : EffectRow} {next : EffectState} (hm : op.moves row next) : next = .cancelled :=
    not_not.mp fun hx => hw (Op.attempts_mem_writes hm hx)
  refine .kept ?_ (by rw [attemptCount,ha]; rfl) (by rw [openAttempts,ha]; rfl) ?_ ?_
  · cases op <;> first | rfl | exact absurd (by simp [Op.writes]) hw
  · intro hx
    obtain ⟨row,next,-,-,hn,rfl | ⟨he,hm⟩⟩ := op.effectState_step hx
    · exact hn
    · exact absurd (hne hm) (edge_from_executing he).2
  · intro hx
    cases hs : s.effectState? effectId with
    | some state =>
      obtain ⟨row,next,-,-,hn,rfl | ⟨-,hm⟩⟩ := op.effectState_step hs
      · exact .inl (hn.symm.trans hx)
      · cases Option.some.inj (hn.symm.trans hx)
        cases hne hm
    | none =>
      right
      cases he : op.enqueues with
      | true => exact starts_of_enqueues he (by simp [hs]) hx
      | false =>
        rw [Store.effectState?,Op.effect?_eq_none he (Option.map_eq_none_iff.mp hs)] at hx
        cases hx

private theorem ledgerStep_claim (hu : s.EffectsUnique) {e w a : String} {n l : Int}
    {v : Option String} {effectId : String} :
    LedgerStep effectId (.claimEffect e w a n l v) s ((Op.claimEffect e w a n l v).exec s) := by
  have hx : (Op.claimEffect e w a n l v).exec s = (claimEffect e w a n l v s).2 := reply_snd _ _ _
  have hw : (Op.claimEffect e w a n l v).wins effectId s =
      (e = effectId && (claimEffect e w a n l v s).1.toOption = some true) := rfl
  rw [hx]
  have hc := claimEffect_claimed hu e w a n l v
  revert hc hw
  generalize claimEffect e w a n l v s = result
  rintro hw (_ | _ | ⟨row,hr,hq⟩)
  · exact (Settles.refl effectId s).step (by simp [hw,Except.toOption])
  · exact (Settles.refl effectId s).step (by simp [hw,Except.toOption])
  · obtain ⟨-,rfl⟩ := lookup_some hr
    by_cases he : row.effectId = effectId
    · subst he
      refine .opened (by simp [hw,Except.toOption]) (effectState?_some.mpr ⟨row,hr,hq⟩)
        (effectState?_some.mpr ⟨_,Store.effect?_claimed hr hq,rfl⟩) ?_ ?_
      · simp [attemptCount,Store.claimed]
      · simp [openAttempts,Store.claimed]
    · refine Settles.step ⟨?_,.inl ⟨?_,?_⟩⟩ (by simp [hw,he])
      · simp [attemptCount,Store.claimed,he]
      · simp [openAttempts,Store.claimed,he]
      · rw [Store.effectState?,Store.effect?_claimed_ne (Ne.symm he)]
        rfl

private theorem ledgerStep_transition (hu : s.EffectsUnique) {e : String} {x : List String}
    {t : String} {n : Int} {v : EvidenceArg} {w : Option String} {effectId : String} :
    LedgerStep effectId (.transition e x t n v w) s ((Op.transition e x t n v w).exec s) := by
  have hx : (Op.transition e x t n v w).exec s = (transition e x t n v w s).2 := reply_snd _ _ _
  rw [hx]
  have ht := transition_transitioned hu e x t n v w
  revert ht
  generalize transition e x t n v w s = result
  rintro (_ | _ | _ | ⟨row,hr,-,next,hv⟩)
  · exact (Settles.refl effectId s).step rfl
  · exact (Settles.refl effectId s).step rfl
  · exact (Settles.refl effectId s).step rfl
  · obtain ⟨hn,hedge,-⟩ := validateTransition_ok.mp hv
    obtain ⟨-,rfl⟩ := lookup_some hr
    have ha : (s.moved row next n v w).attempts =
        if row.state = .executing then closeAttempts row.effectId n next s.attempts else s.attempts := rfl
    by_cases he : row.effectId = effectId
    · subst he
      have hst : (s.moved row next n v w).effectState? row.effectId = some next :=
        effectState?_some.mpr ⟨_,Store.effect?_moved hr next n v w,rfl⟩
      have hs : s.effectState? row.effectId = some row.state := effectState?_some.mpr ⟨row,hr,rfl⟩
      by_cases hex : row.state = .executing
      · rw [if_pos hex] at ha
        refine .closed rfl ?_ ?_ ?_
        · rw [hst]
          rw [hex] at hedge
          exact fun h => (edge_from_executing hedge).1 (Option.some.inj h)
        · rw [attemptCount,ha]
          exact countP_closeAttempts _
        · rw [openAttempts,ha]
          exact open_closeAttempts n
      · rw [if_neg hex] at ha
        refine .kept rfl (by rw [attemptCount,ha]; rfl) (by rw [openAttempts,ha]; rfl) ?_ ?_
        · intro h
          rw [hs] at h
          exact absurd (Option.some.inj h) hex
        · intro h
          rw [hst] at h
          refine .inr ⟨rfl,?_⟩
          rw [EffectState.ofName?_eq_some hn,Option.some.inj h]
    · refine Settles.step ⟨?_,.inl ⟨?_,?_⟩⟩ rfl
      · rw [attemptCount,ha]
        split
        · exact countP_closeAttempts _
        · rfl
      · rw [openAttempts,ha]
        split
        · exact open_closeAttempts_ne he
        · rfl
      · rw [Store.effectState?,Store.effect?_moved_ne (Ne.symm he)]
        rfl

def Op.Retains : Op → Prop
  | .purge .. => False
  | _ => True

theorem Op.ledgerStep (hp : op.Retains) (hu : s.EffectsUnique) (effectId : String) :
    LedgerStep effectId op s (op.exec s) := by
  by_cases hw : Tbl.attempts ∈ op.writes
  · cases op <;> first | (simp [Op.writes] at hw; done) | skip
    case claimEffect => exact ledgerStep_claim hu
    case transition => exact ledgerStep_transition hu
    case recoverExecuting n =>
      have hx : (Op.recoverExecuting n).exec s = (Processing.recoverExecuting n s).2 := reply_snd _ _ _
      rw [hx]
      exact (recoverExecuting_settles effectId n s).step rfl
    case purge => exact absurd hp id
  · exact ledgerStep_untouched hw

structure Store.Ledger (effectId : String) (s : Store) : Prop where
  atMostOne : openAttempts s effectId ≤ 1
  settled : s.effectState? effectId ≠ some .executing → openAttempts s effectId = 0

def Store.Attended (effectId : String) (s : Store) : Prop :=
  s.effectState? effectId = some .executing → openAttempts s effectId = 1

namespace LedgerStep
variable {effectId : String} {op : Op} {s s' : Store}

theorem ledger (h : LedgerStep effectId op s s') (hl : s.Ledger effectId) : s'.Ledger effectId := by
  cases h with
  | kept hw hc ho hs he => exact ⟨ho ▸ hl.atMostOne,fun hx => ho.trans (hl.settled fun h => hx (hs h))⟩
  | opened hw hq hx hc ho =>
    have hz := hl.settled (by rw [hq]; nofun)
    exact ⟨by omega,fun h => absurd hx h⟩
  | closed hw hx hc ho => exact ⟨by omega,fun _ => ho⟩

theorem count (h : LedgerStep effectId op s s') :
    attemptCount s' effectId = attemptCount s effectId + (op.wins effectId s).toNat := by
  cases h with
  | kept hw hc ho hs he => rw [hw,hc]; rfl
  | opened hw hq hx hc ho => rw [hw,hc]; rfl
  | closed hw hx hc ho => rw [hw,hc]; rfl

theorem attended (h : LedgerStep effectId op s s') (hl : s.Ledger effectId) (ha : s.Attended effectId)
    (hn : ¬ op.starts effectId) : s'.Attended effectId := by
  intro hx
  cases h with
  | kept hw hc ho hs he => exact ho.trans (ha ((he hx).resolve_right hn))
  | opened hw hq hx' hc ho =>
    have hz := hl.settled (by rw [hq]; nofun)
    omega
  | closed hw hx' hc ho => exact absurd hx hx'

end LedgerStep

def Action.Retains (a : Action) : Prop := ∀ op, a.Performs op → op.Retains

def Action.Starts (effectId : String) (a : Action) : Prop := ∃ op, a.Performs op ∧ op.starts effectId

theorem World.ledgerStep (hu : w.store.EffectsUnique) {a : Action} (hp : a.Retains)
    {effectId : String} : ∃ op, LedgerStep effectId op w.store (w.step a).store ∧
      op.wins effectId w.store = claims effectId w a ∧ (op.starts effectId → a.Starts effectId) := by
  cases a with
  | call op => exact ⟨op,op.ledgerStep (hp op (.call op)) hu effectId,by cases op <;> rfl,fun h => ⟨op,.call op,h⟩⟩
  | beginCancel turnId revision nowMs reason =>
    exact ⟨.recoverExecuting 0,(Settles.refl _ _).step rfl,rfl,False.elim⟩
  | resumeCancel job =>
    rcases World.step_store w with hs | ⟨op,ho,hs⟩
    · rw [hs]
      exact ⟨.recoverExecuting 0,(Settles.refl _ _).step rfl,rfl,False.elim⟩
    · rw [hs]
      refine ⟨op,op.ledgerStep (hp op ho) hu effectId,?_,fun h => ⟨op,ho,h⟩⟩
      cases ho
      rfl
  | crash => exact ⟨.recoverExecuting 0,(Settles.refl _ _).step rfl,rfl,False.elim⟩

theorem World.ledger_run (hw : w.Reachable) (hl : w.store.Ledger effectId)
    {as : List Action} (hp : ∀ a ∈ as, a.Retains) :
    (run World.step w as).store.Ledger effectId ∧
    attemptCount (run World.step w as).store effectId =
      attemptCount w.store effectId + tally World.step (claims effectId) w as ∧
    ((∀ a ∈ as, ¬ a.Starts effectId) → w.store.Attended effectId →
      (run World.step w as).store.Attended effectId) := by
  induction as generalizing w with
  | nil => exact ⟨hl,rfl,fun _ h => h⟩
  | cons a as ih =>
    obtain ⟨op,hs,hwin,hst⟩ := World.ledgerStep hw.effectsUnique (hp a List.mem_cons_self)
    obtain ⟨h₁,h₂,h₃⟩ := ih (hw.next a) (hs.ledger hl) fun b hb => hp b (List.mem_cons_of_mem _ hb)
    refine ⟨h₁,?_,fun hn ha => h₃ (fun b hb => hn b (List.mem_cons_of_mem _ hb)) ?_⟩
    · have hc := hs.count
      rw [hwin] at hc
      simp only [run_cons,tally]
      omega
    · exact hs.attended hl ha fun h => hn a List.mem_cons_self (hst h)

/-- In every run without retention an effect has as many attempts as it was claimed, at most
one of them is open, and none while it does not execute. As long as nothing but claims puts
it into `executing`, exactly one attempt is open while it executes. -/
theorem attempt_ledger (effectId : String) (as : List Action) (hp : ∀ a ∈ as, a.Retains) :
    let s := (run World.step World.initial as).store
    attemptCount s effectId = tally World.step (claims effectId) World.initial as ∧
    openAttempts s effectId ≤ 1 ∧
    (s.effectState? effectId ≠ some .executing → openAttempts s effectId = 0) ∧
    ((∀ a ∈ as, ¬ a.Starts effectId) → s.effectState? effectId = some .executing →
      openAttempts s effectId = 1) := by
  obtain ⟨hl,hc,ha⟩ := World.ledger_run effectId (Runs.Reachable.init World.initial)
    ⟨Nat.zero_le _,fun _ => rfl⟩ hp
  refine ⟨hc.trans (Nat.zero_add _),hl.atMostOne,hl.settled,fun hn => ha hn nofun⟩

def queuedGreeting : EnqueueArgs :=
  { operationKey := "greeting", effectId := "fx", traceId := "trace", turnId := "turn", turnRevision := 1,
    principal := "author", capability := "reply", payload := .typed (.text "hello" none),
    target := .none, state := EffectState.queued.name, nowMs := 1 }

/-- A transition may start an execution that no attempt stands for. -/
theorem started_without_attempt :
    let s := (run World.step World.initial [.call (.enqueueEffect queuedGreeting),
      .call (.transition "fx" [EffectState.queued.name] EffectState.executing.name 2 .none none)]).store
    s.effectState? "fx" = some .executing ∧ openAttempts s "fx" = 0 := by
  decide +kernel

/-- The ledger of an effect that was queued and claimed. -/
theorem greeting_ledger :
    let as : List Action := [.call (.enqueueEffect queuedGreeting),
      .call (.claimEffect "fx" "worker" "attempt" 2 100 none)]
    let s := (run World.step World.initial as).store
    attemptCount s "fx" = tally World.step (claims "fx") World.initial as ∧
    openAttempts s "fx" ≤ 1 ∧ (s.effectState? "fx" ≠ some .executing → openAttempts s "fx" = 0) ∧
    ((∀ a ∈ as, ¬ a.Starts "fx") → s.effectState? "fx" = some .executing → openAttempts s "fx" = 1) := by
  refine attempt_ledger "fx" _ ?_
  intro a ha op ho
  rcases List.mem_cons.mp ha with rfl | ha
  · cases ho
    trivial
  · cases List.mem_singleton.mp ha
    cases ho
    trivial

end Yeoman.Processing
