import Yeoman.Processing.Router
import Yeoman.Processing.RevisionFence

/-! When the receipts of the gateway and the router tell the persisted state. Most
branches report a state they read or have just written; a capacity refusal and an
executor's exception report the state they meant to write. -/
namespace Yeoman.Processing
open Library Table Txn Runs

def EffectReceipt.Honest (r : EffectReceipt) (s : Store) : Prop :=
  (s.effectState? r.effectId).map EffectState.name = some r.state

variable {r : EffectReceipt} {s : Store} {workerId : Option String}

theorem EffectReceipt.honest_iff {state : EffectState}
    (h : r.state = state.name) : r.Honest s ↔ s.effectState? r.effectId = some state := by
  rw [Honest,h,Option.map_eq_some_iff]
  constructor
  · rintro ⟨found,hf,hn⟩
    rw [hf,EffectState.name_injective hn]
  · exact fun hs => ⟨state,hs,rfl⟩
variable {effectId : String} {nowMs : Int} {evidence : EvidenceArg} {state : String} {s' : Store}

theorem receipt_ok {operationKey : String} {attemptId detail : Option String}
    (h : receipt effectId state operationKey attemptId detail s = (.ok r, s')) :
    s' = s ∧ r.effectId = effectId ∧ r.state = state := by
  rw [receipt,read_bind_apply] at h
  obtain ⟨stored,-,h⟩ := liftExcept_bind_ok h
  cases h
  exact ⟨rfl,rfl,rfl⟩

/-- A compare-and-set from one state to another that does not raise leaves the effect in
the target exactly when it was in either of the two. -/
theorem transition_reaches (hu : s.EffectsUnique) {a target : EffectState} {hit : Bool}
    (h : transition effectId [a.name] target.name nowMs evidence workerId s = (.ok hit, s')) :
    s'.effectState? effectId = some target ↔
      s.effectState? effectId = some a ∨ s.effectState? effectId = some target := by
  have ht := transition_transitioned hu effectId [a.name] target.name nowMs evidence workerId
  rw [h] at ht
  cases ht with
  | missed hm =>
    refine ⟨.inr,fun ho => ho.resolve_left fun ha => ?_⟩
    exact hm a ha (List.mem_singleton_self _)
  | moved row hr hx next hv =>
    have hs : row.state = a := EffectState.name_injective (List.mem_singleton.mp hx)
    obtain ⟨hn,-⟩ := validateTransition_ok.mp hv
    rw [EffectState.ofName?_name] at hn
    cases hn
    obtain ⟨-,rfl⟩ := lookup_some hr
    refine iff_of_true ?_ (.inl (effectState?_some.mpr ⟨row,hr,hs⟩))
    exact effectState?_some.mpr ⟨_,Store.effect?_moved hr _ _ _ _,rfl⟩

theorem transition_receipt (hu : s.EffectsUnique) {m : Store} {key : String} {a target : EffectState} {hit : Bool}
    {attemptId detail : Option String}
    (ht : transition effectId [a.name] target.name nowMs evidence workerId s = (.ok hit, m))
    (hr : receipt effectId target.name key attemptId detail m = (.ok r, s')) :
    r.Honest s' ↔ s.effectState? effectId = some a ∨ s.effectState? effectId = some target := by
  obtain ⟨rfl,hid,hst⟩ := receipt_ok hr
  rw [EffectReceipt.honest_iff hst,hid]
  exact transition_reaches hu ht

theorem capacityReason_frame {β : Type} {π : Store → β} (hr : ∀ s t, π { s with reservations := t } = π s)
    (c : Capacity) (channel chatId : String) (payload : EffectPayload) (effectId : String) (nowMs : Int) :
    Frame π (capacityReason c channel chatId payload effectId nowMs) := by
  refine .bind .read fun s => .ite .pure ?_
  cases c.durable with
  | none => exact .pure
  | some budget =>
    exact .bind .liftExcept fun _ => .bind_pure (reserveSendBudget_frame hr)

private theorem effectState?_of_effects {m : Store} (h : m.effects = s.effects) :
    m.effectState? effectId = s.effectState? effectId := by
  unfold Store.effectState? Store.effect?
  rw [h]

/-- A capacity refusal tells the truth about queued and blocked effects only. -/
theorem capacityBlock_honest_iff {capacity : Option Capacity} {channel chatId : String}
    {payload : EffectPayload} (hu : s.EffectsUnique)
    (h : capacityBlock capacity channel chatId payload effectId nowMs s = (.ok (some r), s')) :
    r.Honest s' ↔ s.effectState? effectId = some .queued ∨ s.effectState? effectId = some .blocked := by
  cases capacity with
  | none => cases h
  | some c =>
    obtain ⟨reason,m,hc,h⟩ := bind_ok h
    have hm : m.effects = s.effects := (capacityReason_frame (fun _ _ => rfl) _ _ _ _ _ _).ends hc
    rw [← effectState?_of_effects hm]
    have hum : m.EffectsUnique := by
      rw [Store.EffectsUnique,hm]
      exact hu
    cases reason with
    | none => cases h
    | some reason =>
      obtain ⟨hit,m₁,ht,h⟩ := bind_ok h
      rw [read_bind_apply] at h
      obtain ⟨found,-,h⟩ := liftExcept_bind_ok h
      cases found with
      | none => cases h
      | some stored =>
        obtain ⟨r',m₃,hr,h⟩ := bind_ok h
        cases h
        exact transition_receipt hum ht hr

def Started.Holds (s : Store) : Started → Prop
  | .finished r => r.Honest s
  | .awaiting x => (s.effect? x.effectId).isSome = true

namespace EffectGateway
variable {g : EffectGateway} {started : Started}
  {r : EffectReceipt} {stored : StoredEffect} {attemptId : String} {nowMs : Int} {a : SnapshotEffectAuthorizer}

theorem dispatch_holds {v : EffectEnvelope} {decision : DecisionRecord} {s' : Store}
    (hs : (s.effect? stored.row.effectId).isSome = true)
    (h : g.dispatch stored v decision attemptId nowMs s = (.ok started, s')) : started.Holds s' := by
  obtain ⟨won,m,hc,h⟩ := bind_ok h
  have hv : Keeps id (Via fun _ => True) (claimEffect stored.row.effectId g.workerId attemptId nowMs g.leaseMs
      (some decision.policyVersion)) := Via.call (.claimEffect ..) trivial rfl
  have hm := (hv.ends hc).effect_isSome hs
  rw [read_bind_apply] at h
  split at h
  · obtain ⟨r,m',hr,h⟩ := bind_ok h
    cases h
    obtain ⟨rfl,hid,hst⟩ := receipt_ok hr
    obtain ⟨row,hrow⟩ := Option.isSome_iff_exists.mp hm
    refine (EffectReceipt.honest_iff hst).mpr ?_
    rw [hid,Store.effectState?,show s'.effect? _ = _ from hrow]
    rfl
  · cases h
    exact hm
variable {decisionId : String} {checkMs : Int}

theorem beginQueued_holds {s' : Store} (hu : s.EffectsUnique)
    (hs : s.effect? stored.row.effectId = some stored.row) (hq : stored.row.state = .queued)
    (h : g.beginQueued a stored decisionId attemptId nowMs checkMs s = (.ok started, s')) : started.Holds s' := by
  have hst : s.effectState? stored.row.effectId = some .queued := effectState?_some.mpr ⟨_,hs,hq⟩
  unfold beginQueued at h
  split at h
  · obtain ⟨_,_,ht,h⟩ := bind_ok h
    obtain ⟨r,_,hr,h⟩ := bind_ok h
    cases h
    exact (transition_receipt hu ht hr).mpr (.inl hst)
  · obtain ⟨v,-,h⟩ := liftExcept_bind_ok h
    rw [read_bind_apply] at h
    obtain ⟨decision,-,h⟩ := liftExcept_bind_ok h
    obtain ⟨id,m,hrec,h⟩ := bind_ok h
    have hm : m.effects = s.effects := (recordDecision_frame fun _ _ => rfl).ends hrec
    split at h
    · have hum : m.EffectsUnique := by
        rw [Store.EffectsUnique,hm]
        exact hu
      obtain ⟨_,_,ht,h⟩ := bind_ok h
      obtain ⟨r,_,hr,h⟩ := bind_ok h
      cases h
      exact (transition_receipt hum ht hr).mpr (.inl ((effectState?_of_effects hm).trans hst))
    · refine dispatch_holds ?_ h
      rw [Store.effect?,hm,← Store.effect?,hs]
      rfl

theorem beginExecution_holds {s' : Store} (hu : s.EffectsUnique)
    (h : g.beginExecution a effectId decisionId attemptId nowMs checkMs s = (.ok started, s')) :
    started.Holds s' := by
  rw [beginExecution,read_bind_apply] at h
  obtain ⟨found,hg,h⟩ := liftExcept_bind_ok h
  cases found with
  | none => cases h
  | some stored =>
    obtain ⟨hr,-⟩ := Store.getEffect_some hg
    obtain ⟨-,rfl⟩ := lookup_some hr
    dsimp only at h
    split_ifs at h with hq
    · obtain ⟨r,m',hrec,h⟩ := bind_ok h
      cases h
      obtain ⟨rfl,hid,hst⟩ := receipt_ok hrec
      refine (EffectReceipt.honest_iff hst).mpr ?_
      rw [hid]
      exact effectState?_some.mpr ⟨_,hr,rfl⟩
    · exact beginQueued_holds hu hr (not_not.mp hq) h

/-- What an execution reports after its await: an executor that returned is reported
truthfully, an exception only about an effect that is still executing or already in the
state the exception stands for. -/
theorem finishExecution_honest_iff {x : Execution} {receiptMs : Int} {outcome : ExecutorOutcome}
    {s' : Store} (hu : s.EffectsUnique) (hs : (s.effect? x.effectId).isSome = true)
    (h : g.finishExecution x receiptMs nowMs outcome s = (.ok r, s')) :
    r.Honest s' ↔ ∀ exc, outcome = .raised exc → s.effectState? x.effectId = some .executing ∨
      s.effectState? x.effectId = some (raisedTarget exc) := by
  cases outcome with
  | cancelled =>
    obtain ⟨hit,m,-,h⟩ := bind_ok h
    cases h
  | raised exc =>
    obtain ⟨_,_,ht,hr⟩ := bind_ok h
    rw [transition_receipt hu ht hr]
    constructor
    · rintro ho _ ⟨⟩
      exact ho
    · exact fun ho => ho exc rfl
  | returned result =>
    refine iff_of_true ?_ nofun
    obtain ⟨_,m,hm,h⟩ := bind_ok h
    rw [read_bind_apply] at h
    obtain ⟨rfl,hid,hst⟩ := receipt_ok h
    have hv := ((g.recordResult_idle x).ends hm).effect_isSome hs
    obtain ⟨row,hr⟩ := Option.isSome_iff_exists.mp hv
    have hrow : s'.effectState? x.effectId = some row.state := effectState?_some.mpr ⟨row,hr,rfl⟩
    rw [hrow] at hst
    rw [EffectReceipt.honest_iff hst,hid]
    exact hrow

end EffectGateway

section Segments
variable (g : EffectGateway) {payload : EffectPayload}

private theorem receipt_via {P : Op → Prop} {state key : String} {attemptId detail : Option String} :
    Keeps id (Via P) (receipt effectId state key attemptId detail) :=
  .of_frame Via.refl (receipt_frame _ _ _ _ _)

theorem submitIntent_via {c : RouterContext} {r : RunRequest} {freshId : String} {submitMs : Int} :
    Keeps id (Via fun _ => True) (submitIntent c r freshId nowMs submitMs) := by
  refine .frame_bind Via.refl .read fun s => .frame_bind Via.refl .liftExcept fun v => ?_
  cases r.admission with
  | none =>
    exact .bind_frame (Via.call (.enqueueEffect _) trivial rfl) fun _ => .bind_pure .read
  | some admission =>
    refine .frame_bind Via.refl .require fun _ => .frame_bind Via.refl .require fun _ => ?_
    exact .bind_frame (Via.call (.enqueueParticipationEffect _ _) trivial rfl) fun _ =>
      .bind_pure .read

theorem capacityReason_via {c : Capacity} {channel chatId : String} :
    Keeps id (Via fun _ => True) (capacityReason c channel chatId payload effectId nowMs) := by
  refine .frame_bind Via.refl .read fun s => .ite (.of_frame Via.refl .pure) ?_
  cases c.durable with
  | none => exact .of_frame Via.refl .pure
  | some budget =>
    exact .frame_bind Via.refl .liftExcept fun _ =>
      .bind_pure (Via.call (.reserveSendBudget ..) trivial rfl)

theorem capacityBlock_via {capacity : Option Capacity} {channel chatId : String} :
    Keeps id (Via fun _ => True) (capacityBlock capacity channel chatId payload effectId nowMs) := by
  cases capacity with
  | none => exact .of_frame Via.refl .pure
  | some c =>
    refine .bind Via.trans capacityReason_via fun reason => ?_
    cases reason with
    | none => exact .of_frame Via.refl .pure
    | some reason =>
      refine .bind Via.trans (Via.call (.transition ..) trivial rfl) fun _ => .frame_bind Via.refl .read
        fun s => .frame_bind Via.refl .liftExcept fun found => ?_
      cases found with
      | none => exact .of_frame Via.refl .pure
      | some stored => exact .bind_pure receipt_via

theorem dispatchIntent_via {m : RunMoment} {r : RunRequest} :
    Keeps id (Via fun _ => True) (dispatchIntent g m r effectId) := by
  refine .bind Via.trans capacityBlock_via fun blocked => ?_
  cases blocked with
  | some receipt => exact .of_frame Via.refl .pure
  | none => exact g.beginExecution_via

variable {effectId : String} {m : RunMoment}

def Refusable (m : RunMoment) (r : RunRequest) (effectId : String) (s : Store) : Prop :=
  ∀ c, m.capacity = some c → OverCapacity c s r.channel r.chatId r.payload effectId m.capacityMs →
    s.effectState? effectId = some .queued ∨ s.effectState? effectId = some .blocked

theorem capacityBlock_some {r : RunRequest} {s' : Store} {blocked : EffectReceipt}
    (h : capacityBlock m.capacity r.channel r.chatId r.payload effectId m.capacityMs s = (.ok (some blocked), s')) :
    ∃ c, m.capacity = some c ∧ OverCapacity c s r.channel r.chatId r.payload effectId m.capacityMs := by
  cases hc : m.capacity with
  | none =>
    rw [hc] at h
    cases h
  | some c =>
    rw [hc] at h
    obtain ⟨reason,m₁,hr,h⟩ := bind_ok h
    cases reason with
    | none => cases h
    | some reason => exact ⟨c,rfl,capacityReason_some hr⟩

theorem dispatchIntent_cases {r : RunRequest} {started : Started} {s' : Store} (hu : s.EffectsUnique)
    (h : dispatchIntent g m r effectId s = (.ok started, s')) :
    (∃ blocked, started = .finished blocked ∧ (Refusable m r effectId s → blocked.Honest s')) ∨ started.Holds s' := by
  obtain ⟨blocked,m₁,hb,h⟩ := bind_ok h
  cases blocked with
  | some blocked =>
    cases h
    obtain ⟨c,hc,ho⟩ := capacityBlock_some hb
    exact .inl ⟨_,rfl,fun hr => (capacityBlock_honest_iff hu hb).mpr (hr c hc ho)⟩
  | none => exact .inr (EffectGateway.beginExecution_holds ((capacityBlock_via.ends hb).effectsUnique hu) h)

theorem dispatchIntent_honest {r : RunRequest} {s' : Store} (hu : s.EffectsUnique) (hr : Refusable m r effectId s)
    {returned : EffectReceipt} (h : dispatchIntent g m r effectId s = (.ok (.finished returned), s')) : returned.Honest s' := by
  rcases dispatchIntent_cases g hu h with ⟨_,he,hb⟩ | hh
  · cases he
    exact hb hr
  · exact hh

end Segments

inductive RouterJob where
  | accepted (request : RunRequest) (effectId : String)
  | executing (execution : Execution)

structure RouterWorld where
  store : Store := Store.empty
  jobs : List (Option RouterJob) := []

/-- One segment between awaits: an operation of any other worker, a `_run` until it awaits
the ledger or the executor, its continuation behind the ledger, a direct `execute_ready`,
the return of an executor, or a crash. -/
inductive RouterAction where
  | call (op : Op)
  | run (c : RouterContext) (r : RunRequest) (freshId : String) (nowMs submitMs : Int) (m : RunMoment)
  | proceed (job : Nat) (m : RunMoment)
  | execute (effectId : String) (m : RunMoment)
  | resume (job : Nat) (receiptMs nowMs : Int) (outcome : ExecutorOutcome)
  | crash

namespace RouterWorld
variable (g : EffectGateway)

def land (jobs : List (Option RouterJob)) (slot : Nat) :
    Except Error Started × Store → Option EffectReceipt × RouterWorld
  | (.ok (.finished r), s) => (some r, { store := s, jobs := jobs.set slot none })
  | (.ok (.awaiting x), s) => (none, { store := s, jobs := jobs.set slot (some (.executing x)) })
  | (.error _, s) => (none, { store := s, jobs := jobs.set slot none })

def start (w : RouterWorld) (c : RouterContext) (r : RunRequest) (freshId : String) (nowMs submitMs : Int)
    (m : RunMoment) : Option EffectReceipt × RouterWorld :=
  match submitIntent c r freshId nowMs submitMs w.store with
  | (.error _, s) => (none, { w with store := s })
  | (.ok accepted, s) =>
    if r.admission.isSome then
      (none, { store := s, jobs := w.jobs ++ [some (.accepted r accepted.effectId)] })
    else land (w.jobs ++ [none]) w.jobs.length (dispatchIntent g m r accepted.effectId s)

def perform (w : RouterWorld) : RouterAction → Option EffectReceipt × RouterWorld
  | .call op => (none, { w with store := op.exec w.store })
  | .run c r freshId nowMs submitMs m => w.start g c r freshId nowMs submitMs m
  | .proceed job m =>
    match w.jobs[job]? with
    | some (some (.accepted r effectId)) => land w.jobs job (dispatchIntent g m r effectId w.store)
    | _ => (none, w)
  | .execute effectId m =>
    land (w.jobs ++ [none]) w.jobs.length
      (g.beginExecution m.authorizer effectId m.decisionId m.attemptId m.nowMs m.checkMs w.store)
  | .resume job receiptMs nowMs outcome =>
    match w.jobs[job]? with
    | some (some (.executing x)) =>
      let (result, s) := g.finishExecution x receiptMs nowMs outcome w.store
      (result.toOption, { store := s, jobs := w.jobs.set job none })
    | _ => (none, w)
  | .crash => (none, { w with jobs := [] })

def step (w : RouterWorld) (a : RouterAction) : RouterWorld := (w.perform g a).2

def Honest (w : RouterWorld) (a : RouterAction) : Prop :=
  ∀ r, (w.perform g a).1 = some r → r.Honest (w.step g a).store

def Reachable (w : RouterWorld) : Prop := Runs.Reachable (step g) {} w

variable {w : RouterWorld}

structure Sane (w : RouterWorld) : Prop where
  unique : w.store.EffectsUnique
  stored : ∀ x, some (.executing x) ∈ w.jobs → (w.store.effect? x.effectId).isSome = true

variable {jobs : List (Option RouterJob)}
  {slot : Nat} {m : RunMoment} {c : RouterContext} {freshId : String} {submitMs : Int} {a : RouterAction}

theorem Sane.via (h : w.Sane) (hv : Via (fun _ => True) w.store s)
    (hj : ∀ x, some (.executing x) ∈ jobs → some (.executing x) ∈ w.jobs ∨ (s.effect? x.effectId).isSome = true) :
    Sane { store := s, jobs := jobs } :=
  ⟨hv.effectsUnique h.unique,fun x hx => (hj x hx).elim (fun ho => hv.effect_isSome (h.stored x ho)) id⟩
variable {out : Except Error Started × Store}

theorem Sane.land (h : w.Sane) (hv : Via (fun _ => True) w.store out.2)
    (ha : ∀ x, out.1 = .ok (.awaiting x) → (out.2.effect? x.effectId).isSome = true)
    (hj : ∀ x, some (.executing x) ∈ jobs → some (.executing x) ∈ w.jobs) : (land jobs slot out).2.Sane := by
  obtain ⟨result,s⟩ := out
  have done : Sane { store := s, jobs := jobs.set slot none } := h.via hv fun x hx => by
    rcases List.mem_or_eq_of_mem_set hx with hm | he
    · exact .inl (hj x hm)
    · cases he
  cases result with
  | error e => exact done
  | ok started =>
    cases started with
    | finished r => exact done
    | awaiting x =>
      refine h.via hv fun y hy => ?_
      rcases List.mem_or_eq_of_mem_set hy with hm | he
      · exact .inl (hj y hm)
      · cases he
        exact .inr (ha x rfl)

private theorem mem_snoc_none {x : Execution}
    (h : some (.executing x) ∈ jobs ++ [none]) : some (.executing x) ∈ jobs := by
  exact (mem_concat.mp h).resolve_right (Option.some_ne_none _)

theorem Sane.dispatch (h : w.Sane) {r : RunRequest}
    (hj : ∀ x, some (.executing x) ∈ jobs → some (.executing x) ∈ w.jobs)
    : (RouterWorld.land jobs slot (dispatchIntent g m r effectId w.store)).2.Sane := by
  refine h.land (dispatchIntent_via g w.store) (fun x hx => ?_) hj
  exact (dispatchIntent_cases g h.unique (Prod.ext hx rfl)).elim (fun ⟨_,he,_⟩ => by cases he) id

theorem Sane.start (h : w.Sane) {r : RunRequest} : (w.start g c r freshId nowMs submitMs m).2.Sane := by
  unfold RouterWorld.start
  split
  next s hs =>
    exact h.via (submitIntent_via.ends hs) fun x hx => .inl hx
  next accepted s hs =>
    have hv := submitIntent_via.ends hs
    have hm : Sane { w with store := s } := h.via hv fun x hx => .inl hx
    split
    · refine h.via hv fun x hx => ?_
      rcases List.mem_append.mp hx with hm | hm
      · exact .inl hm
      · cases List.mem_singleton.mp hm
    · exact hm.dispatch g (fun x hx => mem_snoc_none hx)

theorem Sane.step (h : w.Sane) : (w.step g a).Sane := by
  cases a with
  | call op => exact h.via (Relation.ReflTransGen.single ⟨op,trivial,rfl⟩) fun x hx => .inl hx
  | run c r freshId nowMs submitMs m => exact h.start g
  | proceed job m =>
    unfold RouterWorld.step perform
    dsimp only
    split
    · exact h.dispatch g (fun x hx => hx)
    · exact h
  | execute effectId m =>
    refine h.land (g.beginExecution_via w.store) (fun x hx => ?_) (fun x hx => mem_snoc_none hx)
    exact EffectGateway.beginExecution_holds h.unique (Prod.ext hx rfl)
  | resume job receiptMs nowMs outcome =>
    unfold RouterWorld.step perform
    dsimp only
    split
    · refine h.via (Via.mono (fun _ _ => trivial) _ _ (g.finishExecution_idle _ w.store)) fun x hx => ?_
      rcases List.mem_or_eq_of_mem_set hx with hm | he
      · exact .inl hm
      · cases he
    · exact h
  | crash => exact h.via (Via.refl _) fun x hx => absurd hx List.not_mem_nil

theorem sane_initial : Sane {} := ⟨Table.Unique.nil,fun _ hx => absurd hx List.not_mem_nil⟩

theorem Reachable.sane (h : w.Reachable g) : w.Sane :=
  Runs.Reachable.invariant h sane_initial fun _ _ hs => hs.step g

/-- The branches that report the state they meant to write meet an effect they can move
there, or that is there already. -/
def Foreseen (w : RouterWorld) : RouterAction → Prop
  | .run c r freshId nowMs submitMs m => r.admission = none → ∀ accepted s,
      submitIntent c r freshId nowMs submitMs w.store = (.ok accepted, s) → Refusable m r accepted.effectId s
  | .proceed job m => ∀ r effectId, w.jobs[job]? = some (some (.accepted r effectId)) →
      Refusable m r effectId w.store
  | .resume job _ _ (.raised exc) => ∀ x, w.jobs[job]? = some (some (.executing x)) →
      w.store.effectState? x.effectId = some .executing ∨
      w.store.effectState? x.effectId = some (EffectGateway.raisedTarget exc)
  | _ => True

private theorem land_honest (ho : ∀ r s, out = (.ok (.finished r), s) → r.Honest s)
    (h : (land jobs slot out).1 = some r) : r.Honest (land jobs slot out).2.store := by
  obtain ⟨result,s⟩ := out
  cases result with
  | error e => cases h
  | ok started =>
    cases started with
    | finished r' =>
      cases h
      exact ho r s rfl
    | awaiting x => cases h

theorem Sane.start_honest (h : w.Sane) {r : RunRequest} (hf : w.Foreseen (.run c r freshId nowMs submitMs m))
    {returned : EffectReceipt} (hr : (w.start g c r freshId nowMs submitMs m).1 = some returned) :
    returned.Honest (w.start g c r freshId nowMs submitMs m).2.store := by
  unfold RouterWorld.start at hr ⊢
  cases hs : submitIntent c r freshId nowMs submitMs w.store with
  | mk result s =>
    rw [hs] at hr
    cases result with
    | error e => cases hr
    | ok accepted =>
      dsimp only at hr ⊢
      split at hr
      · cases hr
      next ha =>
        rw [if_neg ha]
        have hn : r.admission = none := Option.not_isSome_iff_eq_none.mp ha
        have hu := (submitIntent_via.ends hs).effectsUnique h.unique
        exact land_honest (fun _ _ hd => dispatchIntent_honest g hu (hf hn accepted s hs) hd) hr

theorem Sane.honest (h : w.Sane) (hf : w.Foreseen a) : Honest g w a := by
  intro returned hr
  unfold RouterWorld.step
  cases a with
  | call | crash => cases hr
  | run c r freshId nowMs submitMs m => exact h.start_honest g hf hr
  | execute effectId m =>
    exact land_honest (fun _ _ hd => EffectGateway.beginExecution_holds h.unique hd) hr
  | proceed job m =>
    unfold perform at hr ⊢
    dsimp only at hr ⊢
    split at hr
    next r effectId hj =>
      exact land_honest (fun _ _ hd => dispatchIntent_honest g h.unique (hf r effectId hj) hd) hr
    · cases hr
  | resume job receiptMs nowMs outcome =>
    unfold perform at hr ⊢
    dsimp only at hr ⊢
    split at hr
    next x hj =>
      cases ho : g.finishExecution x receiptMs nowMs outcome w.store with
      | mk result s =>
        rw [ho] at hr
        cases result with
        | error e => cases hr
        | ok r =>
          cases hr
          refine (EffectGateway.finishExecution_honest_iff h.unique
            (h.stored x (List.mem_of_getElem? hj)) ho).mpr fun exc he => ?_
          subst he
          exact hf x hj
    · cases hr

end RouterWorld

open RouterWorld

/-- In every run in which a chat without capacity only refuses queued or blocked effects,
and an executor's exception only meets an effect that still executes or is in the state the
exception stands for, every receipt that is returned carries the persisted state. In each
reachable world these conditions are exact, and no other branch of `execute_ready` reports
anything but the persisted state. -/
theorem receipts_honest_when (g : EffectGateway) :
    (∀ as, Along (step g) Foreseen {} as → Along (step g) (Honest g) {} as) ∧
    ∀ w, Reachable g w →
      (∀ capacity channel chatId payload effectId nowMs r s',
        capacityBlock capacity channel chatId payload effectId nowMs w.store = (.ok (some r), s') →
        (r.Honest s' ↔ w.store.effectState? effectId = some .queued ∨
          w.store.effectState? effectId = some .blocked)) ∧
      (∀ a effectId decisionId attemptId nowMs checkMs r s',
        g.beginExecution a effectId decisionId attemptId nowMs checkMs w.store = (.ok (.finished r), s') →
        r.Honest s') ∧
      ∀ (job : Nat) (x : Execution) receiptMs nowMs outcome r s', w.jobs[job]? = some (some (.executing x)) →
        g.finishExecution x receiptMs nowMs outcome w.store = (.ok r, s') →
        (r.Honest s' ↔ ∀ exc, outcome = .raised exc → w.store.effectState? x.effectId = some .executing ∨
          w.store.effectState? x.effectId = some (EffectGateway.raisedTarget exc)) := by
  refine ⟨fun as h => ?_,fun w hw => ?_⟩
  · exact Along.imp (I := Sane) (fun v a hv _ => hv.step g) (fun v a hv hf => hv.honest g hf)
      sane_initial h
  · have hs := hw.sane g
    refine ⟨?_,?_,?_⟩
    · exact fun _ _ _ _ _ _ _ _ h => capacityBlock_honest_iff hs.unique h
    · exact fun _ _ _ _ _ _ _ _ h => EffectGateway.beginExecution_holds hs.unique h
    · exact fun job x _ _ _ _ _ hj h =>
        EffectGateway.finishExecution_honest_iff hs.unique (hs.stored x (List.mem_of_getElem? hj)) h

def greeting : RunRequest :=
  { channel := "whatsapp", chatId := "c1", principal := "p1", payload := .text "hello" none,
    operationKey := "op1", deadlineMs := 120000 }

def momentAt (capacity : Option Capacity) (id : String) (nowMs : Int) : RunMoment :=
  { authorizer := permissive, capacity, decisionId := "d" ++ id, attemptId := "a" ++ id,
    capacityMs := nowMs, nowMs, checkMs := nowMs }

def greet (capacity : Option Capacity) : RouterAction :=
  .run {} greeting "e1" 1000 1000 (momentAt capacity "1" 1000)

def disconnected : ExecutorOutcome := .raised { kind := "ConnectionError", text := "not connected" }

theorem greet_disconnected_honest :
    Along (step {}) (Honest {}) {} [greet none, .resume 0 1500 1500 disconnected] ∧
    (((step {} {} (greet none)).perform {} (.resume 0 1500 1500 disconnected)).1.map EffectReceipt.state =
      some "failed") := by
  refine ⟨(receipts_honest_when {}).1 _ ⟨?_,?_,trivial⟩,by decide +kernel⟩
  · exact fun _ _ _ _ _ hc => nomatch hc
  · intro x hx
    have he : ((step {} {} (greet none)).jobs[0]?.bind fun job => job.bind fun
        | .executing x => some x.effectId
        | .accepted _ effectId => some effectId) = some "e1" := by decide +kernel
    rw [hx] at he
    rw [show x.effectId = "e1" from Option.some.inj he]
    exact .inl (by decide +kernel)

def oneUnit : Option Capacity := some { waitingCap := 20, durable := some { limit := 1 } }

def sentRun : List RouterAction :=
  [greet oneUnit, .resume 0 1500 1500 (.returned (some { state := "sent" }))]

def greetAgain : RouterAction := .run {} greeting "e2" 2000 2000 (momentAt oneUnit "2" 2000)

def recoveredRun : List RouterAction := [greet oneUnit, .call (.recoverExecuting 31000)]

private theorem dishonest {w : RouterWorld} {a : RouterAction} {persisted : EffectState}
    (hr : (w.perform {} a).1.map (fun r => (r.effectId, r.state)) = some ("e1", state))
    (hp : (w.step {} a).store.effectState? "e1" = some persisted) (hn : persisted.name ≠ state) :
    ¬ RouterWorld.Honest {} w a := by
  intro h
  obtain ⟨r,hr',he⟩ := Option.map_eq_some_iff.mp hr
  obtain ⟨hid,hst⟩ := Prod.mk.inj he
  have hh := h r hr'
  rw [EffectReceipt.Honest,hid,hp,hst] at hh
  exact hn (Option.some.inj hh)

/-- A sent effect that is submitted again over the budget is reported blocked, and an
effect that was recovered as unknown is reported failed when its executor then raises. -/
theorem intended_state_reported :
    (∃ w, Reachable {} w ∧ (w.perform {} greetAgain).1.map (fun r => (r.effectId, r.state)) =
        some ("e1", "blocked") ∧ (w.step {} greetAgain).store.effectState? "e1" = some .sent ∧
      ¬ Honest {} w greetAgain) ∧
    ∃ w, Reachable {} w ∧ (w.perform {} (.resume 0 32000 32000 disconnected)).1.map
        (fun r => (r.effectId, r.state)) = some ("e1", "failed") ∧
      (w.step {} (.resume 0 32000 32000 disconnected)).store.effectState? "e1" = some .unknown ∧
      ¬ Honest {} w (.resume 0 32000 32000 disconnected) := by
  constructor
  · have hr : ((run (step {}) {} sentRun).perform {} greetAgain).1.map
        (fun r => (r.effectId, r.state)) = some ("e1", "blocked") := by decide +kernel
    have hp : ((run (step {}) {} sentRun).step {} greetAgain).store.effectState? "e1" = some .sent := by
      decide +kernel
    exact ⟨_,⟨sentRun,rfl⟩,hr,hp,dishonest hr hp (by decide)⟩
  · have hr : ((run (step {}) {} recoveredRun).perform {} (.resume 0 32000 32000 disconnected)).1.map
        (fun r => (r.effectId, r.state)) = some ("e1", "failed") := by decide +kernel
    have hp : ((run (step {}) {} recoveredRun).step {}
        (.resume 0 32000 32000 disconnected)).store.effectState? "e1" = some .unknown := by decide +kernel
    exact ⟨_,⟨recoveredRun,rfl⟩,hr,hp,dishonest hr hp (by decide)⟩

end Yeoman.Processing
