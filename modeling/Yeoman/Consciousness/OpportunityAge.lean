import Yeoman.Consciousness.SchedulerProgress

/-! When material that a worker picks up is too old. The age is counted from the offer that opened
the record of the chat, also for what was merged into it since. -/
namespace Yeoman.Consciousness
open Library

namespace Scheduler
variable {b : SchedulerBounds} {s t u : Scheduler} {o : ParticipationOpportunity} {key : ChatKey} {rid w : Nat}
variable {opened : ChatKey → Nat}

structure KeepsAges (s t : Scheduler) : Prop where
  records : ∀ key rid, t.record? key = some rid → s.record? key = some rid
  first : ∀ rid, (t.heap rid).firstTriggerMs = (s.heap rid).firstTriggerMs

namespace KeepsAges

theorem trans (h : KeepsAges s t) (h' : KeepsAges t u) : KeepsAges s u :=
  ⟨fun key rid hr => h.records key rid (h'.records key rid hr),fun rid => (h'.first rid).trans (h.first rid)⟩

theorem of_eq (hp : t.pending = s.pending) (hh : t.heap = s.heap) : KeepsAges s t :=
  ⟨fun key rid hr => by unfold record? at hr ⊢; rwa [hp] at hr,fun rid => by rw [hh]⟩

theorem setRecord {r : PendingChat} (hr : r.firstTriggerMs = (s.heap rid).firstTriggerMs) :
    KeepsAges s (s.setRecord rid r) := by
  refine ⟨fun _ _ h => h,fun q => ?_⟩
  rw [heap_setRecord]
  split_ifs with he
  · rw [he,hr]
  · rfl

theorem popPending : KeepsAges s (s.popPending key) := by
  refine ⟨fun k rid hr => ?_,fun _ => rfl⟩
  rw [record?_popPending] at hr
  split_ifs at hr
  exact hr

theorem enqueue : KeepsAges s (s.enqueue rid) := by
  unfold Scheduler.enqueue
  split
  · exact .of_eq rfl rfl
  · exact (KeepsAges.setRecord (by rfl)).trans (.of_eq rfl rfl)

theorem conclude (hk : (s.heap rid).key = key) : KeepsAges s (s.conclude key rid) := by
  obtain ⟨t,ht,hc⟩ := conclude_cases hk
  have hst : KeepsAges s t := by
    rw [ht]
    exact .of_eq rfl rfl
  rcases hc with ⟨-,hc⟩ | ⟨-,-,hc⟩ | ⟨-,-,hc⟩ <;> rw [hc]
  · exact hst
  · exact hst.trans .enqueue
  · exact hst.trans .popPending

end KeepsAges

theorem Merged.keepsAges {r : OfferResult × Scheduler} (hs : s.Safe b) (hm : Merged b o rid s r) :
    KeepsAges s r.2 := by
  obtain ⟨ids,bytes,refs,reported,hf⟩ := (mergeSources_progress (hs.records rid) o.offered).frame
  have hfirst : (mergeSources b (s.heap rid) o.offered).record.firstTriggerMs = (s.heap rid).firstTriggerMs := by
    rw [hf]
  cases hm with
  | empty => exact KeepsAges.popPending.trans (.of_eq rfl rfl)
  | duplicate m detail hm =>
    subst hm
    exact (KeepsAges.setRecord hfirst).trans (.of_eq rfl rfl)
  | exhausted m detail hm =>
    subst hm
    refine KeepsAges.trans ?_ .popPending
    exact (KeepsAges.setRecord hfirst).trans (.of_eq rfl rfl)
  | accepted m hm =>
    subst hm
    refine KeepsAges.trans (.setRecord ?_) .enqueue
    exact hfirst

theorem cancelChat_keepsAges {reason : String} : KeepsAges s (s.cancelChat key reason) := by
  have hpop : KeepsAges (s.popPending key) (s.cancelChat key reason) := by
    unfold Scheduler.cancelChat
    split <;> exact .of_eq rfl rfl
  exact KeepsAges.popPending.trans hpop

theorem take_keepsAges (hs : s.Safe b) {nowMs : Int} : KeepsAges s (s.take b w nowMs) := by
  have ht := take_took b w nowMs s
  generalize s.take b w nowMs = t at ht
  cases ht with
  | nothing | gone => exact .of_eq rfl rfl
  | skipped => exact (KeepsAges.setRecord (by rfl)).trans (.of_eq rfl rfl)
  | expired k rid detail hi hq hr =>
    have hset : KeepsAges s ((s.taken k rid).dispose .expired (s.heap rid).asOpportunity detail) :=
      (KeepsAges.setRecord (by rfl)).trans (.of_eq rfl rfl)
    refine hset.trans (.conclude ?_)
    simpa [taken,Scheduler.dispose,Scheduler.setRecord,PendingChat.key] using (hs.record?_key hr).2
  | started => exact (KeepsAges.setRecord (by rfl)).trans (.of_eq rfl rfl)

theorem finish_keepsAges (hs : s.Safe b) {outcome : HandlerOutcome} : KeepsAges s (s.finish w outcome) := by
  rcases finish_cases w outcome s with ⟨he,-⟩ | ⟨k,rid,o,x,extra,hh,-,-,he⟩ <;> rw [he]
  · exact .of_eq rfl rfl
  · have hset : KeepsAges s { s with
        workers := s.workers.set w x
        reports := s.reports ++ extra } := .of_eq rfl rfl
    exact hset.trans (.conclude (hs.held k rid o (List.mem_of_getElem? hh)).2.1)

def Opens (s : Scheduler) (o : ParticipationOpportunity) : Prop :=
  o.key ∉ s.cancelled ∧ ∀ rid ∈ s.record? o.key, o.activationEpoch ≠ (s.heap rid).activationEpoch

instance (s : Scheduler) (o : ParticipationOpportunity) : Decidable (s.Opens o) :=
  inferInstanceAs (Decidable (_ ∧ _))

def Dated (opened : ChatKey → Nat) (s : Scheduler) : Prop :=
  ∀ key rid, s.record? key = some rid → (s.heap rid).firstTriggerMs = opened key

theorem Dated.keep (h : s.Dated opened) (hk : KeepsAges s t) : t.Dated opened :=
  fun key rid hr => (hk.first rid).trans (h key rid (hk.records key rid hr))

theorem Dated.received {r : Option Nat × Scheduler} (h : s.Dated opened) (hs : s.Safe b) (hc : o.key ∉ s.cancelled)
    (hr : Received b o s r) :
    r.2.Dated (if s.Opens o then Function.update opened o.key o.createdAtMs else opened) := by
  have hother {k : ChatKey} (hk : k ≠ o.key) : Function.update opened o.key o.createdAtMs k = opened k :=
    Function.update_of_ne hk ..
  cases hr with
  | refused d detail hn =>
    rw [if_pos ⟨hc,by simp [hn]⟩]
    intro k q hq
    have hk : k ≠ o.key := by
      rintro rfl
      cases hn.symm.trans hq
    exact (h k q hq).trans (hother hk).symm
  | opened hn ho hl =>
    rw [if_pos ⟨hc,by simp [hn]⟩]
    intro k q hq
    rw [record?_openRecord hn] at hq
    split_ifs at hq with hk
    · cases hq
      rw [hk]
      simp [Scheduler.openRecord,PendingChat.opened]
    · rw [hother hk,← h k q hq]
      exact congrArg PendingChat.firstTriggerMs (Function.update_of_ne (Nat.ne_of_lt (hs.record?_key hq).1) ..)
  | replaced rid detail hrec he =>
    rw [if_pos ⟨hc,fun q hq => Option.some.inj (hrec.symm.trans hq) ▸ he⟩]
    intro k q hq
    rw [heap_setRecord]
    split_ifs with hrid
    · subst hrid
      rw [hs.record?_inj hq hrec,Function.update_self]
      rfl
    · have hk : k ≠ o.key := by
        rintro rfl
        exact hrid (Option.some.inj (hq.symm.trans hrec))
      exact (h k q hq).trans (hother hk).symm
  | met rid hrec he =>
    rw [if_neg fun ho => ho.2 rid hrec he]
    exact h

theorem Dated.offer (h : s.Dated opened) (hs : s.Safe b) :
    (s.offerWithResult b o).2.Dated (if s.Opens o then Function.update opened o.key o.createdAtMs else opened) := by
  rcases offerWithResult_cases b o s with ⟨hc,detail,he⟩ | ⟨hc,t,hr,he⟩ | ⟨hc,rid,t,hr,hm⟩
  · rw [he,if_neg fun ho => ho.1 hc]
    exact h
  · rw [he]
    exact h.received hs hc hr
  · exact (h.received hs hc hr).keep (hm.keepsAges (hs.received hr))

def pickedUp? (s : Scheduler) (w : Nat) : Option (ChatKey × Nat) :=
  if s.workers[w]? = some .idle then
    s.ready.head?.bind fun key => if s.active.contains key then none else (s.record? key).map fun rid => (key, rid)
  else none

theorem pickedUp?_eq_some (h : s.pickedUp? w = some (key, rid)) :
    s.workers[w]? = some .idle ∧ s.ready.head? = some key ∧ s.record? key = some rid ∧ key ∉ s.active := by
  unfold pickedUp? at h
  split_ifs at h with hw
  obtain ⟨k,hq,h⟩ := Option.bind_eq_some_iff.mp h
  split_ifs at h with ha
  obtain ⟨q,hr,he⟩ := Option.map_eq_some_iff.mp h
  cases he
  exact ⟨hw,hq,hr,fun hm => ha (List.contains_iff_mem.mpr hm)⟩

def HandsOver (b : SchedulerBounds) (s : Scheduler) (w : Nat) (nowMs : Int) (x : String) : Prop :=
  ∃ o ∈ (s.take b w nowMs).handed.drop s.handed.length, x ∈ o.sourceEventIds

theorem handsOver_iff {nowMs : Int} {x : String} (h : s.pickedUp? w = some (key, rid))
    (hx : x ∈ (s.heap rid).unreported) :
    HandsOver b s w nowMs x ↔ nowMs ≤ (s.heap rid).firstTriggerMs + b.ttlMs := by
  obtain ⟨hidle,hhead,hr,hfree⟩ := pickedUp?_eq_some h
  obtain ⟨rest,hq⟩ := List.head?_eq_some_iff.mp hhead
  have hrec : ({ s with ready := rest } : Scheduler).record? key = some rid := hr
  rw [HandsOver,Scheduler.take,hidle,hq]
  dsimp only
  rw [hrec]
  simp only [setRecord,if_neg hfree,runOne,Function.update_self]
  split_ifs with hold
  · rw [conclude_frame.2.2.1]
    refine iff_of_false ?_ (by omega)
    simp [dispose]
  · have hmem : (s.heap rid).asOpportunity ∈
        (s.handed ++ [(s.heap rid).asOpportunity]).drop s.handed.length := by simp
    exact iff_of_true ⟨_,hmem,mem_retained_of_unreported hx⟩ (by omega)

end Scheduler

/-- The desk, and for each chat when the offer was made that opened its record or last changed the
epoch of it. -/
structure DatedDesk where
  desk : OpportunityDesk
  openedMs : ChatKey → Nat

namespace DatedDesk
variable {b : SchedulerBounds} {v : DatedDesk} {a : SchedulerAction}

def initial (b : SchedulerBounds) : DatedDesk := ⟨.initial b,fun _ => 0⟩

def step (b : SchedulerBounds) (v : DatedDesk) (a : SchedulerAction) : DatedDesk where
  desk := v.desk.step b a
  openedMs :=
    match a with
    | .offer o =>
      if v.desk.scheduler.Opens o then Function.update v.openedMs o.key o.createdAtMs else v.openedMs
    | _ => v.openedMs

structure Sound (b : SchedulerBounds) (v : DatedDesk) : Prop where
  safe : v.desk.scheduler.Safe b
  dated : v.desk.scheduler.Dated v.openedMs

theorem step_sound (h : v.Sound b) : (v.step b a).Sound b := by
  refine ⟨OpportunityDesk.step_safe a h.safe,?_⟩
  cases a with
  | offer o => exact h.dated.offer h.safe
  | cancel => exact h.dated.keep Scheduler.cancelChat_keepsAges
  | release | considered => exact h.dated.keep (.of_eq rfl rfl)
  | take => exact h.dated.keep (Scheduler.take_keepsAges h.safe)
  | finish => exact h.dated.keep (Scheduler.finish_keepsAges h.safe)

theorem initial_sound : (initial b).Sound b :=
  ⟨Scheduler.initial_safe b,fun _ _ hr => nomatch hr⟩

def Recent (b : SchedulerBounds) (v : DatedDesk) (key : ChatKey) (x : String) (nowMs : Int) : Prop :=
  ∃ p ∈ v.desk.offers, p.2.accepted = true ∧ p.1.key = key ∧ x ∈ p.1.offered ∧
    nowMs ≤ p.1.createdAtMs + b.ttlMs

def Fair (b : SchedulerBounds) (v : DatedDesk) : SchedulerAction → Prop
  | .take w nowMs => ∀ p ∈ v.desk.scheduler.pickedUp? w, ∀ x ∈ (v.desk.scheduler.heap p.2).unreported,
    v.Recent b p.1 x nowMs → v.desk.scheduler.HandsOver b w nowMs x
  | _ => True

/-- A chat with such material is picked up no later than the TTL after the offer that opened its record. -/
def InTime (b : SchedulerBounds) (v : DatedDesk) : SchedulerAction → Prop
  | .take w nowMs => ∀ p ∈ v.desk.scheduler.pickedUp? w, ∀ x ∈ (v.desk.scheduler.heap p.2).unreported,
    v.Recent b p.1 x nowMs → nowMs ≤ v.openedMs p.1 + b.ttlMs
  | _ => True

instance {key : ChatKey} {x : String} {nowMs : Int} : Decidable (v.Recent b key x nowMs) :=
  inferInstanceAs (Decidable (∃ p ∈ _, _))

instance : (a : SchedulerAction) → Decidable (InTime b v a)
  | .take _ _ => inferInstanceAs (Decidable (∀ p ∈ _, _))
  | .offer _ | .cancel _ _ | .release _ | .considered .. | .finish .. => isTrue trivial

theorem fair_iff_inTime (h : v.Sound b) : v.Fair b a ↔ v.InTime b a := by
  cases a with
  | take w nowMs =>
    refine forall₂_congr fun p hp => forall₂_congr fun x hx => imp_congr_right fun _ => ?_
    obtain ⟨-,-,hr,-⟩ := Scheduler.pickedUp?_eq_some hp
    rw [Scheduler.handsOver_iff hp hx,h.dated p.1 p.2 hr]
  | offer | cancel | release | considered | finish => exact Iff.rfl

/-- In every run the material that is picked up within the TTL of its offer goes to the handler
exactly when the run picks it up within the TTL of the offer that opened the record of its chat. -/
theorem ttl_fair_iff (b : SchedulerBounds) (acts : List SchedulerAction) :
    Runs.Along (step b) (Fair b) (initial b) acts ↔ Runs.Along (step b) (InTime b) (initial b) acts := by
  have hstep : ∀ v a, Sound b v → Sound b (step b v a) := fun v a h => step_sound h
  constructor
  · exact Runs.Along.imp (fun v a h _ => hstep v a h) (fun v a h hf => (fair_iff_inTime h).mp hf) initial_sound
  · exact Runs.Along.imp (fun v a h _ => hstep v a h) (fun v a h hi => (fair_iff_inTime h).mpr hi) initial_sound

def offerAt (id : String) (revision atMs : Nat) : SchedulerAction :=
  .offer { ParticipationOpportunity.inbound "room" .production id revision with createdAtMs := atMs }

/-- Material that came while its chat was being handled is picked up in time, and goes to a handler. -/
theorem punctual_material_handed :
    Runs.Along (step {}) (Fair {}) (initial {})
      [offerAt "m1" 1 0, .take 0 5, offerAt "m2" 2 60000, .finish 0 .returned, .take 0 120000] :=
  (ttl_fair_iff {} _).mpr (by decide +kernel)

/-- Material that came while its chat was being handled is picked up after a millisecond, and
expires with the record. -/
theorem fresh_material_expires :
    let ttl := ({} : SchedulerBounds).ttlMs
    let d := OpportunityDesk.after {} [offerAt "m1" 1 0, .take 0 0, offerAt "m2" 2 ttl, .finish 0 .returned,
      .take 0 (ttl + 1)]
    d.scheduler.handed.map (·.sourceEventIds) = [["m1"]] ∧
      (d.scheduler.reports.map fun r => (r.disposition, r.opportunity.sourceEventIds)) =
        [(.started, ["m1"]), (.expired, ["m2"])] := by
  decide +kernel

end DatedDesk
end Yeoman.Consciousness
