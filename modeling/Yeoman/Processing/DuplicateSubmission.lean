import Yeoman.Processing.ReceiptHonesty
import Yeoman.Processing.SendBudget

/-! What a duplicate submission costs. The router reserves capacity before it executes, and
it names the attempt by the effect and the time of its last change. An effect that is not
queued any more has changed since its own reservation. -/
namespace Yeoman.Processing
open Library Txn Runs

/-- One call of `_run`, apart from its intent: the wiring, the fresh id, the clock and how
the executor ends if it is called. -/
structure RunCall where
  context : RouterContext := {}
  freshId : String
  (nowMs submitMs : Int)
  moment : RunMoment
  (receiptMs finishMs : Int)
  outcome : ExecutorOutcome

def RunCall.accept (k : RunCall) (r : RunRequest) : StoreM EffectReceipt :=
  submitIntent k.context r k.freshId k.nowMs k.submitMs

/-- `_run` from its first to its last segment. -/
def runIntent (g : EffectGateway) (r : RunRequest) (k : RunCall) : StoreM EffectReceipt := do
  let accepted ← k.accept r
  match ← dispatchIntent g k.moment r accepted.effectId with
  | .finished receipt => return receipt
  | .awaiting x => g.finishExecution x k.receiptMs k.finishMs k.outcome

def resubmit (g : EffectGateway) (r : RunRequest) (s : Store) (k : RunCall) : Store := (runIntent g r k s).2

def reservedUnits (s : Store) (chat : String × String) : Int :=
  ((chatLog s chat).map ReservationRow.units).sum

/-- The call is accepted as a duplicate of this effect, which is not queued any more. -/
structure Duplicates (r : RunRequest) (effectId : String) (s : Store) (k : RunCall) : Prop where
  accepted : (k.accept r s).1.toOption.map EffectReceipt.effectId = some effectId
  done : ∃ stored, s.getEffect effectId = .ok (some stored) ∧ stored.row.state ≠ .queued

def capacityCall (r : RunRequest) (effectId : String) (s : Store) (nowMs : Int) : ReserveCall :=
  { attemptId := effectId ++ ":" ++ toString (((s.effect? effectId).map EffectRow.updatedMs).getD 0)
    channel := r.channel, chatId := r.chatId, effectId, units := payloadUnits r.payload, nowMs }

/-- A capacity check reserves: there is a durable budget, not too many effects wait, the
attempt holds no reservation and the window has room. -/
def Charges (r : RunRequest) (effectId : String) (s : Store) (k : RunCall) : Prop :=
  ∃ c ∈ k.moment.capacity, ∃ b ∈ c.durable,
    countWaitingEffects s r.channel r.chatId ≤ c.waitingCap ∧
    Table.lookup ReservationRow.attemptId (capacityCall r effectId s k.moment.capacityMs).attemptId
      s.reservations = none ∧
    sendBudgetSpent s r.channel r.chatId k.moment.capacityMs b.windowMs + max 1 (payloadUnits r.payload) ≤
      b.limit
deriving Decidable

def charged (r : RunRequest) (effectId : String) (s : Store) (k : RunCall) : Store :=
  if Charges r effectId s k then
    { s with reservations := s.reservations ++ [(capacityCall r effectId s k.moment.capacityMs).row] }
  else s

section Segments
variable {r : RunRequest} {effectId : String} {s : Store} {k : RunCall} {s' : Store} {stored : StoredEffect}

theorem Charges.congr (he : s'.effects = s.effects) (hr : s'.reservations = s.reservations) :
    Charges r effectId s' k ↔ Charges r effectId s k := by
  unfold Charges capacityCall countWaitingEffects sendBudgetSpent Store.effect?
  rw [he,hr]

theorem charged_effects : (charged r effectId s k).effects = s.effects := by
  unfold charged
  split
  · rfl
  · rfl

theorem charged_congr (he : s'.effects = s.effects) (hr : s'.reservations = s.reservations) :
    (charged r effectId s' k).reservations = (charged r effectId s k).reservations := by
  simp only [charged,Charges.congr he hr]
  split
  · simp only [capacityCall,Store.effect?,he,hr]
  · exact hr

theorem charged_getEffect : (charged r effectId s k).getEffect effectId = s.getEffect effectId := by
  unfold Store.getEffect Store.effect?
  rw [charged_effects]
variable {m : Store} {nowMs : Int}

theorem Enqueued.known_of_isSome {a : EnqueueArgs} {state : EffectState} {origin : Origin}
    {id : String} (h : Enqueued a state origin m (.ok id, s')) (hs : (m.effect? id).isSome = true) : s' = m := by
  cases h with
  | known => rfl
  | inserted body target hb ht hp hk hf =>
    unfold checkFresh at hf
    split at hf
    · cases hf
    · split at hf
      · cases hf
      next hn =>
        rw [hn] at hs
        cases hs

theorem submitIntent_known {c : RouterContext} {freshId : String} {submitMs : Int}
    {accepted : EffectReceipt} (h : submitIntent c r freshId nowMs submitMs s = (.ok accepted, m))
    (hs : (s.effect? accepted.effectId).isSome = true) : m.effects = s.effects ∧ m.reservations = s.reservations := by
  rw [submitIntent,read_bind_apply] at h
  obtain ⟨v,-,h⟩ := liftExcept_bind_ok h
  cases ha : r.admission with
  | none =>
    rw [ha] at h
    obtain ⟨id,m₁,he,h⟩ := bind_ok h
    cases h
    rcases enqueueEffect_cases _ with ⟨e,hn⟩ | ⟨state,origin,-,-,-,-,-,hq⟩
    · cases he.symm.trans hn
    · rw [he] at hq
      cases hq.known_of_isSome hs
      exact ⟨rfl,rfl⟩
  | some admission =>
    rw [ha] at h
    rcases require_bind_cases h with ⟨-,h⟩ | ⟨-,h⟩
    · cases h
    rcases require_bind_cases h with ⟨-,h⟩ | ⟨-,h⟩
    · cases h
    obtain ⟨id,m₁,he,h⟩ := bind_ok h
    cases h
    rcases enqueueParticipationEffect_cases with ⟨e,hn⟩ | ⟨m₄,id',s',hk,-,-,-,-,-,-,hadm,hq⟩
    · cases he.symm.trans hn
    · cases he.symm.trans hk
      cases hadm with
      | present | added =>
        cases hq.known_of_isSome hs
        exact ⟨rfl,rfl⟩

/-- A capacity check reserves when it charges, and otherwise writes nothing. -/
theorem capacityReason_snd {c : Capacity}
    (hg : s.getEffect effectId = .ok (some stored)) (hc : k.moment.capacity = some c) :
    (capacityReason c r.channel r.chatId r.payload effectId k.moment.capacityMs s).2 =
      charged r effectId s k := by
  have hstamp : stored.row.updatedMs = ((s.effect? effectId).map EffectRow.updatedMs).getD 0 := by
    rw [(Store.getEffect_some hg).1]
    rfl
  rw [capacityReason,read_bind_apply]
  by_cases hw : c.waitingCap < countWaitingEffects s r.channel r.chatId
  · rw [if_pos hw,charged,if_neg]
    · rfl
    · rintro ⟨c',hc',b,-,hn,-⟩
      cases hc.symm.trans hc'
      exact absurd hw (not_lt.mpr hn)
  · rw [if_neg hw]
    cases hd : c.durable with
    | none =>
      refine (if_neg ?_).symm
      rintro ⟨c',hc',b,hb,-⟩
      cases hc.symm.trans hc'
      cases hd.symm.trans hb
    | some b =>
      dsimp only
      rw [hg,bind_of_ok liftExcept_apply,Option.map_some,Option.getD_some,hstamp,bind_pure_snd]
      change (b.request (capacityCall r effectId s k.moment.capacityMs) s).2 = _
      have hr := b.request_reserved (capacityCall r effectId s k.moment.capacityMs) s
      revert hr
      generalize b.request (capacityCall r effectId s k.moment.capacityMs) s = result
      rintro (hs | ⟨hs,hl⟩ | ⟨hs,hl⟩)
      · rw [charged,if_neg]
        rintro ⟨c',hc',b',hb',-,hn,-⟩
        rw [hn] at hs
        cases hs
      · rw [charged,if_neg]
        rintro ⟨c',hc',b',hb',-,-,hf⟩
        cases hc.symm.trans hc'
        cases hd.symm.trans hb'
        exact absurd hl (not_lt.mpr hf)
      · exact (if_pos ⟨c,hc,b,hd,not_lt.mp hw,hs,hl⟩).symm

theorem transition_of_not_queued (hu : s.EffectsUnique)
    (hg : s.getEffect effectId = .ok (some stored)) (hq : stored.row.state ≠ .queued) {target : String}
    {evidence : EvidenceArg} {workerId : Option String} :
    (transition effectId [EffectState.queued.name] target nowMs evidence workerId s).2 = s := by
  have ht := transition_transitioned hu effectId [EffectState.queued.name] target nowMs evidence workerId
  revert ht
  generalize transition effectId [EffectState.queued.name] target nowMs evidence workerId s = result
  rintro (_ | _ | _ | ⟨row,hr,hx⟩)
  · rfl
  · rfl
  · rfl
  · cases (Store.getEffect_some hg).1.symm.trans hr
    exact absurd (EffectState.name_injective (List.mem_singleton.mp hx)) hq

theorem capacityBlock_done (hu : s.EffectsUnique)
    (hg : s.getEffect effectId = .ok (some stored)) (hq : stored.row.state ≠ .queued) :
    (capacityBlock k.moment.capacity r.channel r.chatId r.payload effectId k.moment.capacityMs s).2 =
      charged r effectId s k := by
  have hu' : (charged r effectId s k).EffectsUnique := by
    rw [Store.EffectsUnique,charged_effects]
    exact hu
  cases hc : k.moment.capacity with
  | none =>
    refine (if_neg ?_).symm
    rintro ⟨c,hc',-⟩
    cases hc.symm.trans hc'
  | some c =>
    refine bind_settles (capacityReason_snd hg hc) fun reason => ?_
    cases reason with
    | none => rfl
    | some reason =>
      refine bind_settles (transition_of_not_queued hu' (charged_getEffect.trans hg) hq) fun _ => ?_
      refine bind_settles rfl fun _ => bind_settles rfl fun found => ?_
      cases found with
      | none => rfl
      | some _ => exact bind_settles (receipt_frame (π := id) _ _ _ _ _ _) fun _ => rfl
variable (g : EffectGateway)

theorem beginExecution_done {a : SnapshotEffectAuthorizer}
    (hg : s.getEffect effectId = .ok (some stored)) (hq : stored.row.state ≠ .queued)
    {decisionId attemptId : String} {checkMs : Int} :
    ∃ out : Except Error EffectReceipt,
      g.beginExecution a effectId decisionId attemptId nowMs checkMs s = (out.map Started.finished, s) := by
  rw [EffectGateway.beginExecution,read_bind_apply,hg,bind_of_ok liftExcept_apply]
  dsimp only
  rw [if_pos hq]
  exact bind_cases (P := fun p => ∃ out : Except Error EffectReceipt, p = (out.map Started.finished, s))
    (fun hr => ⟨.error _,congrArg _ ((receipt_frame (π := id) _ _ _ _ _).ends hr)⟩)
    fun hr => ⟨.ok _,congrArg _ ((receipt_frame (π := id) _ _ _ _ _).ends hr)⟩

theorem dispatchIntent_done (hu : s.EffectsUnique)
    (hg : s.getEffect effectId = .ok (some stored)) (hq : stored.row.state ≠ .queued) :
    ∃ out : Except Error EffectReceipt,
      dispatchIntent g k.moment r effectId s = (out.map Started.finished, charged r effectId s k) := by
  have hb := capacityBlock_done (r := r) (k := k) hu hg hq
  unfold dispatchIntent
  refine bind_cases (P := fun p => ∃ out : Except Error EffectReceipt, p = (out.map Started.finished, _))
    (fun hr => ?_) fun {blocked m} hr => ?_ <;> rw [hr] at hb <;> subst hb
  · exact ⟨.error _,rfl⟩
  · cases blocked with
    | some found => exact ⟨.ok found,rfl⟩
    | none => exact beginExecution_done g (charged_getEffect.trans hg) hq

theorem Duplicates.resubmit (hu : s.EffectsUnique) (h : Duplicates r effectId s k) :
    (resubmit g r s k).effects = s.effects ∧
      (resubmit g r s k).reservations = (charged r effectId s k).reservations := by
  obtain ⟨stored,hg,hq⟩ := h.done
  have ha := h.accepted
  unfold Processing.resubmit runIntent
  cases hk : k.accept r s with
  | mk out m =>
    rw [hk] at ha
    cases out with
    | error e => cases ha
    | ok accepted =>
      obtain rfl : accepted.effectId = effectId := Option.some.inj ha
      have hs : (s.effect? accepted.effectId).isSome = true := by
        rw [(Store.getEffect_some hg).1]
        rfl
      obtain ⟨he,hr⟩ := submitIntent_known hk hs
      have hu' : m.EffectsUnique := by
        rw [Store.EffectsUnique,he]
        exact hu
      have hg' : m.getEffect accepted.effectId = .ok (some stored) := by
        rw [Store.getEffect,Store.effect?,he]
        exact hg
      obtain ⟨out,hd⟩ := dispatchIntent_done (r := r) (k := k) g hu' hg' hq
      rw [bind_of_ok hk,bind_apply,hd]
      cases out <;> exact ⟨charged_effects.trans he,charged_congr he hr⟩

theorem reservedUnits_charged (hr : s'.reservations = (charged r effectId s k).reservations) :
    reservedUnits s' (r.channel, r.chatId) = reservedUnits s (r.channel, r.chatId) +
      if Charges r effectId s k then max 1 (payloadUnits r.payload) else 0 := by
  have hl : chatLog s' (r.channel, r.chatId) = chatLog (charged r effectId s k) (r.channel, r.chatId) := by
    rw [chatLog,hr]
    rfl
  rw [reservedUnits,hl,charged]
  split
  · have hchat : ((capacityCall r effectId s k.moment.capacityMs).row.channel,
        (capacityCall r effectId s k.moment.capacityMs).row.chatId) = (r.channel, r.chatId) := rfl
    rw [chatLog_append,if_pos hchat,List.map_append,List.sum_append,List.map_singleton,List.sum_singleton]
    rfl
  · exact (add_zero _).symm

end Segments

section Runs
variable {g : EffectGateway} {r : RunRequest} {effectId : String} {s : Store} {ks : List RunCall}

/-- A run of duplicates never lowers the units of its chat, and leaves them alone exactly
when none of them is charged in the store they start from. -/
theorem reservedUnits_run (hu : s.EffectsUnique) (h : Along (resubmit g r) (Duplicates r effectId) s ks) :
    reservedUnits s (r.channel, r.chatId) ≤ reservedUnits (run (resubmit g r) s ks) (r.channel, r.chatId) ∧
    (reservedUnits (run (resubmit g r) s ks) (r.channel, r.chatId) = reservedUnits s (r.channel, r.chatId) ↔
      ∀ k ∈ ks, ¬ Charges r effectId s k) := by
  induction ks generalizing s with
  | nil => exact ⟨le_refl _,iff_of_true rfl fun _ hk => absurd hk List.not_mem_nil⟩
  | cons k ks ih =>
    obtain ⟨he,hr⟩ := h.1.resubmit g hu
    have hu' : (resubmit g r s k).EffectsUnique := by
      rw [Store.EffectsUnique,he]
      exact hu
    obtain ⟨hm,hi⟩ := ih hu' h.2
    rw [reservedUnits_charged hr] at hm hi
    rw [run_cons,List.forall_mem_cons]
    by_cases hc : Charges r effectId s k
    · rw [if_pos hc] at hm
      exact ⟨by omega,iff_of_false (by omega) fun hx => hx.1 hc⟩
    · rw [if_neg hc,add_zero] at hm hi
      rw [charged,if_neg hc] at hr
      refine ⟨hm,hi.trans ?_⟩
      rw [and_iff_right hc]
      exact forall₂_congr fun k' _ => not_congr (Charges.congr he hr)

end Runs

/-- In every reachable store, submitting the intent of an effect that is not queued any more
again, any number of times and at any times, costs its chat nothing exactly when no
submission finds its attempt without a reservation and room in the window. -/
theorem duplicates_free_iff (g : EffectGateway) (w : RouterWorld) (hw : w.Reachable g) (r : RunRequest)
    (effectId : String) (ks : List RunCall)
    (h : Along (resubmit g r) (Duplicates r effectId) w.store ks) :
    reservedUnits (run (resubmit g r) w.store ks) (r.channel, r.chatId) =
        reservedUnits w.store (r.channel, r.chatId) ↔
      ∀ k ∈ ks, ¬ Charges r effectId w.store k :=
  (reservedUnits_run (hw.sane g).unique h).2

section Greeting
open RouterWorld

def greeted (capacity : Option Capacity) : RouterWorld :=
  run (step {}) {} [greet capacity, .resume 0 1500 1500 (.returned (some { state := "sent" }))]

def greetingAgain (capacity : Option Capacity) : RunCall :=
  { freshId := "e2", nowMs := 2000, submitMs := 2000, moment := momentAt capacity "2" 2000,
    receiptMs := 2000, finishMs := 2000, outcome := .cancelled }

private theorem duplicates_of_eval {r : RunRequest} {effectId : String} {s : Store} {k : RunCall}
    (h : (k.accept r s).1.toOption.map EffectReceipt.effectId = some effectId ∧
      (s.getEffect effectId).toOption.join.any (fun e => e.row.state ≠ .queued) = true) :
    Duplicates r effectId s k := by
  obtain ⟨ha,hd⟩ := h
  refine ⟨ha,?_⟩
  cases hg : s.getEffect effectId with
  | error e => rw [hg] at hd; cases hd
  | ok found =>
    rw [hg] at hd
    cases found with
    | none => cases hd
    | some stored => exact ⟨stored,rfl,of_decide_eq_true hd⟩

def sixUnits : Option Capacity := some { waitingCap := 20, durable := some {} }

/-- The text was sent; its repetition sends nothing and reserves a second unit. -/
theorem sent_charged_again :
    Reachable {} (greeted sixUnits) ∧ (greeted sixUnits).store.effectState? "e1" = some .sent ∧
    Duplicates greeting "e1" (greeted sixUnits).store (greetingAgain sixUnits) ∧
    reservedUnits (greeted sixUnits).store (greeting.channel, greeting.chatId) = 1 ∧
    reservedUnits (resubmit {} greeting (greeted sixUnits).store (greetingAgain sixUnits))
      (greeting.channel, greeting.chatId) = 2 := by
  have hw : Reachable {} (greeted sixUnits) := ⟨_,rfl⟩
  have hd : Duplicates greeting "e1" (greeted sixUnits).store (greetingAgain sixUnits) :=
    duplicates_of_eval (by decide +kernel)
  have hc : Charges greeting "e1" (greeted sixUnits).store (greetingAgain sixUnits) := by decide +kernel
  have hs : (greeted sixUnits).store.effectState? "e1" = some .sent := by decide +kernel
  have h₁ : reservedUnits (greeted sixUnits).store (greeting.channel, greeting.chatId) = 1 := by decide +kernel
  have h₂ := reservedUnits_charged (hd.resubmit {} (hw.sane {}).unique).2
  rw [h₁,if_pos hc] at h₂
  exact ⟨hw,hs,hd,h₁,h₂⟩

/-- In a chat that may send one message per minute the repetition is free. -/
theorem duplicate_free_in_full_window :
    Along (resubmit {} greeting) (Duplicates greeting "e1") (greeted oneUnit).store [greetingAgain oneUnit] ∧
    reservedUnits (run (resubmit {} greeting) (greeted oneUnit).store [greetingAgain oneUnit])
        (greeting.channel, greeting.chatId) =
      reservedUnits (greeted oneUnit).store (greeting.channel, greeting.chatId) := by
  have h : Along (resubmit {} greeting) (Duplicates greeting "e1") (greeted oneUnit).store
      [greetingAgain oneUnit] := ⟨duplicates_of_eval (by decide +kernel),trivial⟩
  refine ⟨h,(duplicates_free_iff {} _ ⟨_,rfl⟩ greeting "e1" _ h).mpr ?_⟩
  rw [List.forall_mem_singleton]
  decide +kernel

end Greeting

end Yeoman.Processing
