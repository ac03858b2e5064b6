import Yeoman.Consciousness.SchedulerSafety

/-! Which lane and epoch the sources of a handed opportunity were offered with. A pending
record is keyed by its chat alone: an offer of another epoch empties it, an offer of another
lane does not. -/
namespace Yeoman.Consciousness
open Library Runs

def OfferedAs (Q : Lane → Lane → Prop) (offers : List (ParticipationOpportunity × OfferResult)) (key : ChatKey)
    (lane : Lane) (epoch : Nat) (t : String) : Prop :=
  ∃ p ∈ offers, t ∈ p.1.offered ∧ p.1.key = key ∧ Q p.1.lane lane ∧ p.1.activationEpoch = epoch

theorem OfferedAs.append {Q : Lane → Lane → Prop} {offers more : List (ParticipationOpportunity × OfferResult)}
    {key : ChatKey} {lane : Lane} {epoch : Nat} {t : String} (h : OfferedAs Q offers key lane epoch t) :
    OfferedAs Q (offers ++ more) key lane epoch t := by
  obtain ⟨p,hp,hrest⟩ := h
  exact ⟨p,List.mem_append_left _ hp,hrest⟩

namespace Scheduler
variable {b : SchedulerBounds} {Q : Lane → Lane → Prop} {offers : List (ParticipationOpportunity × OfferResult)}
  {s : Scheduler} {o : ParticipationOpportunity} {rid : Nat}

/-- Every reference of a record, and of a handler call, was offered as the record says. -/
structure Pure (Q : Lane → Lane → Prop) (offers : List (ParticipationOpportunity × OfferResult)) (s : Scheduler) :
    Prop where
  records : ∀ rid, ∀ t ∈ (s.heap rid).sourceEventIds,
    OfferedAs Q offers (s.heap rid).key (s.heap rid).lane (s.heap rid).activationEpoch t
  handed : ∀ h ∈ s.handed, ∀ t ∈ h.sourceEventIds, OfferedAs Q offers h.key h.lane h.activationEpoch t

theorem Pure.append (h : s.Pure Q offers) (more : List (ParticipationOpportunity × OfferResult)) :
    s.Pure Q (offers ++ more) :=
  ⟨fun rid t ht => (h.records rid t ht).append,fun o ho t ht => (h.handed o ho t ht).append⟩
variable {r : PendingChat}

theorem Pure.setRecord (h : s.Pure Q offers)
    (hr : ∀ t ∈ r.sourceEventIds, OfferedAs Q offers r.key r.lane r.activationEpoch t) :
    (s.setRecord rid r).Pure Q offers := by
  refine ⟨?_,h.handed⟩
  intro q t ht
  by_cases he : q = rid
  · subst he
    simp only [Scheduler.setRecord,Function.update_self] at ht ⊢
    exact hr t ht
  · simp only [Scheduler.setRecord,Function.update_of_ne he] at ht ⊢
    exact h.records q t ht
variable {w : Nat}

theorem Pure.enqueue (h : s.Pure Q offers) : (s.enqueue rid).Pure Q offers := by
  rw [Scheduler.enqueue]
  split
  · exact h
  · have hq : (s.setRecord rid { s.heap rid with queued := true }).Pure Q offers := h.setRecord (h.records rid)
    exact { hq with }

theorem Pure.retire (h : s.Pure Q offers) : (s.retire rid).Pure Q offers := by
  unfold Scheduler.retire
  split
  · exact h
  · split
    · exact h.enqueue
    · exact { h with }

theorem Pure.conclude (h : s.Pure Q offers) {key : ChatKey} : (s.conclude key rid).Pure Q offers := by
  apply Pure.retire
  exact { h with }

theorem mem_retained {t : String} (ht : t ∈ r.retained) : t ∈ r.sourceEventIds := by
  unfold PendingChat.retained at ht
  split at ht
  · exact ht
  · exact List.mem_of_mem_filter ht

theorem Pure.take (h : s.Pure Q offers) {nowMs : Int} : (s.take b w nowMs).Pure Q offers := by
  have ht := take_took b w nowMs s
  generalize s.take b w nowMs = t at ht
  have hset : ∀ rid queued reported, (s.setRecord rid { s.heap rid with
      queued := queued
      reported := reported }).Pure Q offers := fun rid _ _ => h.setRecord (h.records rid)
  cases ht with
  | nothing => exact h
  | gone key hw hq hr => exact { h with }
  | skipped key rid hw hq hr ha => exact ⟨(hset rid _ _).records,h.handed⟩
  | expired key rid detail hw hq hr ha =>
    apply Pure.conclude
    exact ⟨(hset rid _ _).records,h.handed⟩
  | started key rid detail hw hq hr ha =>
    refine ⟨(hset rid _ _).records,?_⟩
    intro p hp t ht
    rcases Table.mem_concat.mp hp with hp | rfl
    · exact h.handed p hp t ht
    · exact h.records rid t (mem_retained ht)

theorem Pure.finish (h : s.Pure Q offers) {outcome : HandlerOutcome} : (s.finish w outcome).Pure Q offers := by
  rcases finish_cases w outcome s with ⟨he,-⟩ | ⟨key,rid,o,x,extra,hw,hx,-,he⟩
  · rw [he]
    exact h
  · rw [he]
    apply Pure.conclude
    exact { h with }

theorem Pure.merged {t : OfferResult × Scheduler} (h : s.Pure Q offers) (hs : s.Safe b) (hm : Merged b o rid s t)
    (ho : ∀ t ∈ o.offered, OfferedAs Q offers (s.heap rid).key (s.heap rid).lane (s.heap rid).activationEpoch t) :
    t.2.Pure Q offers := by
  have hp := mergeSources_progress (hs.records rid) o.offered
  have hpure : ∀ t ∈ (mergeSources b (s.heap rid) o.offered).record.sourceEventIds,
      OfferedAs Q offers (s.heap rid).key (s.heap rid).lane (s.heap rid).activationEpoch t := by
    intro t ht
    rcases hp.origin t (hp.seen ht) with ht | ht
    · exact h.records rid t ht
    · exact ho t ht
  obtain ⟨ids,bytes,refs,reported,hframe⟩ := hp.frame
  have hlane : (mergeSources b (s.heap rid) o.offered).record.lane = (s.heap rid).lane := by rw [hframe]
  have hepoch : (mergeSources b (s.heap rid) o.offered).record.activationEpoch = (s.heap rid).activationEpoch := by
    rw [hframe]
  rw [← hp.key,← hlane,← hepoch] at hpure
  cases hm with
  | empty detail ho => exact { h with }
  | duplicate m detail hm ha hp' =>
    subst hm
    exact ⟨(h.setRecord hpure).records,h.handed⟩
  | exhausted m detail hm ha hn hu =>
    subst hm
    exact ⟨(h.setRecord hpure).records,h.handed⟩
  | accepted m hm ha =>
    subst hm
    apply Pure.enqueue
    exact h.setRecord hpure

/-- The record an offer is merged into is of its chat and epoch, and of its lane unless the
record was there before with that epoch. -/
theorem Received.record {t : Scheduler} (hs : s.Safe b) (hr : Received b o s (some rid, t)) :
    (t.heap rid).key = o.key ∧ (t.heap rid).activationEpoch = o.activationEpoch ∧
      ((t.heap rid).lane = o.lane ∨ t = s ∧ s.record? o.key = some rid) := by
  cases hr with
  | opened hn hl ho => simp [Scheduler.openRecord,PendingChat.opened,PendingChat.key,ParticipationOpportunity.key]
  | replaced rid detail hr he =>
    have hk := (hs.record?_key hr).2
    simpa [Scheduler.setRecord,PendingChat.replaced,PendingChat.key] using hk
  | met rid hr he => exact ⟨(hs.record?_key hr).2,he.symm,.inr ⟨rfl,hr⟩⟩

theorem Pure.received {t : Option Nat × Scheduler} (h : s.Pure Q offers) (hr : Received b o s t) :
    t.2.Pure Q offers := by
  cases hr with
  | refused d detail hn => exact { h with }
  | opened hn ho hl =>
    have ho : (s.setRecord s.nextRecord (.opened o)).Pure Q offers :=
      h.setRecord fun t ht => absurd ht List.not_mem_nil
    exact { ho with }
  | replaced rid detail hr he =>
    have hd : (s.setRecord rid ((s.heap rid).replaced o)).Pure Q offers :=
      h.setRecord fun t ht => absurd ht List.not_mem_nil
    exact { hd with }
  | met rid hr he => exact h

theorem Pure.offer (h : s.Pure Q offers) (hs : s.Safe b) (hQ : ∀ l, Q l l)
    (ho : ∀ rid ∈ s.record? o.key, o.key ∉ s.cancelled →
      (s.heap rid).activationEpoch = o.activationEpoch → Q o.lane (s.heap rid).lane) :
    (s.offerWithResult b o).2.Pure Q (offers ++ [(o, (s.offerWithResult b o).1)]) := by
  have h := h.append [(o, (s.offerWithResult b o).1)]
  rcases offerWithResult_cases b o s with ⟨-,detail,he⟩ | ⟨-,t,hr,he⟩ | ⟨hc,rid,t,hr,hm⟩
  · rw [he] at h ⊢
    exact { h with }
  · rw [he] at h ⊢
    exact h.received hr
  · obtain ⟨hk,hepoch,hlane⟩ := hr.record hs
    apply (h.received hr).merged (hs.received hr) hm
    intro q hq
    refine ⟨_,List.mem_concat_self,hq,hk.symm,?_,hepoch.symm⟩
    rcases hlane with hlane | ⟨rfl,hrec⟩
    · rw [hlane]
      exact hQ o.lane
    · exact ho rid hrec hc hepoch

end Scheduler

namespace OpportunityDesk
variable {b : SchedulerBounds} {Q : Lane → Lane → Prop}

def LaneKept (d : OpportunityDesk) : SchedulerAction → Prop
  | .offer o => ∀ rid ∈ d.scheduler.record? o.key, o.key ∉ d.scheduler.cancelled →
      (d.scheduler.heap rid).activationEpoch = o.activationEpoch → o.lane = (d.scheduler.heap rid).lane
  | _ => True

instance (d : OpportunityDesk) : (a : SchedulerAction) → Decidable (d.LaneKept a)
  | .offer o => inferInstanceAs (Decidable (∀ rid ∈ d.scheduler.record? o.key, _ → _ → _ = _))
  | .cancel .. | .release _ | .considered .. | .take .. | .finish .. => isTrue trivial

theorem step_pure {d : OpportunityDesk} {a : SchedulerAction} (hQ : ∀ l, Q l l) (hs : d.scheduler.Safe b)
    (h : d.scheduler.Pure Q d.offers)
    (ha : ∀ o, a = .offer o → ∀ rid ∈ d.scheduler.record? o.key, o.key ∉ d.scheduler.cancelled →
      (d.scheduler.heap rid).activationEpoch = o.activationEpoch → Q o.lane (d.scheduler.heap rid).lane) :
    (d.step b a).scheduler.Pure Q (d.step b a).offers := by
  cases a with
  | offer o => exact h.offer hs hQ (ha o rfl)
  | cancel key reason =>
    change (d.scheduler.cancelChat key reason).Pure Q d.offers
    unfold Scheduler.cancelChat
    split
    · exact { h with }
    · exact { h with }
  | release | considered => exact { h with }
  | take w nowMs => exact h.take
  | finish w outcome => exact h.finish

theorem initial_pure (b : SchedulerBounds) : (initial b).scheduler.Pure Q (initial b).offers :=
  ⟨fun _ _ ht => absurd ht List.not_mem_nil,fun _ hh => absurd hh List.not_mem_nil⟩

/-- Every source a handler is given was offered for that chat with the epoch it is handed in.
It was also offered in that lane, in every run in which no offer meets a pending record of its
own epoch in another lane. -/
theorem handed_as_offered (b : SchedulerBounds) (acts : List SchedulerAction) :
    (∀ h ∈ (after b acts).scheduler.handed, ∀ t ∈ h.sourceEventIds, ∃ p ∈ (after b acts).offers,
      t ∈ p.1.offered ∧ p.1.key = h.key ∧ p.1.activationEpoch = h.activationEpoch) ∧
    (Along (step b) LaneKept (initial b) acts →
      ∀ h ∈ (after b acts).scheduler.handed, ∀ t ∈ h.sourceEventIds, ∃ p ∈ (after b acts).offers,
        t ∈ p.1.offered ∧ p.1.key = h.key ∧ p.1.lane = h.lane ∧ p.1.activationEpoch = h.activationEpoch) := by
  constructor
  · have hrun := run_invariant
      (I := fun d : OpportunityDesk => d.scheduler.Safe b ∧ d.scheduler.Pure (fun _ _ => True) d.offers)
      (fun d a h => ⟨step_safe a h.1,step_pure (fun _ => trivial) h.1 h.2 fun _ _ _ _ _ _ => trivial⟩)
      ⟨Scheduler.initial_safe b,initial_pure b⟩ acts
    intro h hh t ht
    obtain ⟨p,hp,hm,hk,-,he⟩ := hrun.2.handed h hh t ht
    exact ⟨p,hp,hm,hk,he⟩
  · intro hkept
    have hrun := hkept.invariant
      (I := fun d : OpportunityDesk => d.scheduler.Safe b ∧ d.scheduler.Pure (· = ·) d.offers)
      (fun d a h hl => ⟨step_safe a h.1,step_pure (fun _ => rfl) h.1 h.2 fun o ho => by subst ho; exact hl⟩)
      ⟨Scheduler.initial_safe b,initial_pure b⟩
    exact hrun.2.handed

/-- Two offers of one lane are handed over together, another chat's shadow offer on its own. -/
theorem lanes_handed_apart :
    let acts := [.offer (.inbound "room" .production "m1" 1), .offer (.inbound "room" .production "m2" 2),
      .offer (.inbound "attic" .shadow "n1" 1), .take 0 0, .take 1 0]
    Along (step {}) LaneKept (initial {}) acts ∧
    (after {} acts).scheduler.handed.map (fun h => (h.lane, h.sourceEventIds)) =
      [(.production, ["m1", "m2"]), (.shadow, ["n1"])] ∧
    ∀ h ∈ (after {} acts).scheduler.handed, ∀ t ∈ h.sourceEventIds, ∃ p ∈ (after {} acts).offers,
      t ∈ p.1.offered ∧ p.1.key = h.key ∧ p.1.lane = h.lane ∧ p.1.activationEpoch = h.activationEpoch := by
  have hkept : Along (step {}) LaneKept (initial {}) [.offer (.inbound "room" .production "m1" 1),
      .offer (.inbound "room" .production "m2" 2), .offer (.inbound "attic" .shadow "n1" 1), .take 0 0, .take 1 0] := by
    decide +kernel
  exact ⟨hkept,by decide +kernel,(handed_as_offered {} _).2 hkept⟩

/-- A shadow offer that meets the production record of its chat is handed over as production. -/
theorem shadow_handed_as_production :
    let d := after {} [.offer (.inbound "room" .production "m1" 1), .offer (.inbound "room" .shadow "m2" 2), .take 0 0]
    ∃ h ∈ d.scheduler.handed, h.lane = .production ∧ "m2" ∈ h.sourceEventIds ∧
      ∀ p ∈ d.offers, "m2" ∈ p.1.offered → p.1.lane = .shadow := by
  decide +kernel

end OpportunityDesk
end Yeoman.Consciousness
