import Yeoman.Consciousness.SchedulerSafety

/-! Who is going to look at a pending record: its chat is in the ready queue, or its handler
runs and requeues it. This needs that no offer reaches a chat whose handler runs on a record
that is no longer the pending one. -/
namespace Yeoman.Consciousness
open Library Table

def Worker.holding? : Worker → Option (ChatKey × Nat)
  | handling key rid _ => some (key, rid)
  | _ => none

namespace Scheduler
variable {b : SchedulerBounds} {s t : Scheduler} {o : ParticipationOpportunity} {rid : Nat} {key : ChatKey}

theorem record?_popPending (s : Scheduler) (k key : ChatKey) :
    (s.popPending k).record? key = if key = k then none else s.record? key := by
  unfold record? Scheduler.popPending
  rw [lookup_remove]
  split <;> rfl

theorem record?_openRecord (hn : s.record? o.key = none) :
    (s.openRecord o).record? key = if key = o.key then some s.nextRecord else s.record? key := by
  have hnone := Option.map_eq_none_iff.mp hn
  unfold record? Scheduler.openRecord
  split_ifs with he
  · subst he
    rw [lookup_append_of_none hnone]
    simp [lookup]
  · cases hl : lookup Prod.fst key s.pending with
    | none =>
      rw [lookup_append_of_none hl]
      simp [lookup,Ne.symm he]
    | some p => rw [lookup_append_of_some hl]

theorem record?_enqueue : (s.enqueue rid).record? key = s.record? key := by
  unfold Scheduler.enqueue
  split <;> rfl

theorem heap_setRecord (s : Scheduler) (rid q : Nat) (r : PendingChat) :
    (s.setRecord rid r).heap q = if q = rid then r else s.heap q := by
  exact Function.update_apply ..

theorem heap_enqueue {q : Nat} :
    (s.enqueue rid).heap q = if q = rid then { s.heap rid with queued := true } else s.heap q := by
  unfold Scheduler.enqueue
  split
  next hq =>
    split_ifs with he
    · subst he
      rw [← hq]
    · rfl
  · exact heap_setRecord ..

theorem ready_enqueue :
    (s.enqueue rid).ready = if (s.heap rid).queued then s.ready else s.ready ++ [(s.heap rid).key] := by
  unfold Scheduler.enqueue
  split <;> rfl
variable {k : ChatKey} {w : Nat}

theorem enqueue_frame :
    (s.enqueue rid).workers = s.workers ∧ (s.enqueue rid).active = s.active ∧ (s.enqueue rid).handed = s.handed ∧
      (s.enqueue rid).reports = s.reports ∧ ∃ added, (s.enqueue rid).ready = s.ready ++ added := by
  unfold Scheduler.enqueue
  split
  · exact ⟨rfl,rfl,rfl,rfl,[],(List.append_nil _).symm⟩
  · exact ⟨rfl,rfl,rfl,rfl,_,rfl⟩

theorem mem_ready_enqueue (hk : k ∈ s.ready) : k ∈ (s.enqueue rid).ready := by
  rw [ready_enqueue]
  split
  · exact hk
  · exact List.mem_append_left _ hk

theorem conclude_frame :
    (s.conclude key rid).workers = s.workers ∧ (s.conclude key rid).active = s.active.filter (· ≠ key) ∧
      (s.conclude key rid).handed = s.handed ∧ (s.conclude key rid).reports = s.reports ∧
      ∃ added, (s.conclude key rid).ready = s.ready ++ added := by
  have hsame : ∃ added, s.ready = s.ready ++ added := ⟨[],(List.append_nil _).symm⟩
  unfold Scheduler.conclude Scheduler.retire
  dsimp only
  split_ifs
  · exact ⟨rfl,rfl,rfl,rfl,hsame⟩
  · exact enqueue_frame
  · exact ⟨rfl,rfl,rfl,rfl,hsame⟩

theorem Safe.record?_inj (h : s.Safe b) (hr : s.record? key = some rid) (hk : s.record? k = some rid) : key = k :=
  (h.record?_key hr).2.symm.trans (h.record?_key hk).2

theorem Safe.mem_active (h : s.Safe b) :
    key ∈ s.active ↔ ∃ rid o, Worker.handling key rid o ∈ s.workers := by
  rw [h.busy key]
  constructor
  · intro hk
    obtain ⟨o,ho,rfl⟩ := List.mem_map.mp hk
    obtain ⟨x,hx,hxo⟩ := List.mem_filterMap.mp ho
    cases x with
    | handling k rid p =>
      cases hxo
      exact ⟨rid,o,(h.held k rid o hx).2.2 ▸ hx⟩
    | idle | stopped => cases hxo
  · rintro ⟨rid,o,hx⟩
    exact List.mem_map.mpr ⟨o,List.mem_filterMap.mpr ⟨_,hx,rfl⟩,(h.held key rid o hx).2.2⟩

/-- A handler runs on the pending record of its chat if there is one, a record marked as queued
has its chat in the ready queue, and every pending chat but `spare` is queued or active. -/
structure Owned (spare : Option ChatKey) (s : Scheduler) : Prop where
  own : ∀ key rid o, .handling key rid o ∈ s.workers → ∀ q, s.record? key = some q → q = rid
  queued : ∀ key rid, s.record? key = some rid → (s.heap rid).queued = true → key ∈ s.ready
  waiting : ∀ key rid, s.record? key = some rid →
    key ∈ s.ready ∨ key ∈ s.active ∨ spare = some key

theorem Owned.waits (h : s.Owned none) (hr : s.record? key = some rid) : key ∈ s.ready ∨ key ∈ s.active := by
  simpa using h.waiting key rid hr

theorem Owned.weaken (h : s.Owned none) (k : ChatKey) : s.Owned (some k) :=
  ⟨h.own,h.queued,fun _ _ hr => (h.waits hr).imp_right .inl⟩

/-- Taking the pending record of a chat away settles whatever the chat was excepted from. -/
theorem Owned.popPending (h : s.Owned (some key)) : (s.popPending key).Owned none := by
  have hrec (k : ChatKey) (q : Nat) (hq : (s.popPending key).record? k = some q) : k ≠ key ∧ s.record? k = some q := by
    rw [record?_popPending] at hq
    split_ifs at hq with hne
    exact ⟨hne,hq⟩
  refine ⟨fun k rid o hw q hq => h.own k rid o hw q (hrec k q hq).2,
    fun k rid hr hq => h.queued k rid (hrec k rid hr).2 hq,fun k rid hr => ?_⟩
  obtain ⟨hne,hr⟩ := hrec k rid hr
  exact (h.waiting k rid hr).imp_right fun hw => .inl (hw.resolve_right fun he => hne (Option.some.inj he).symm)

variable {spare : Option ChatKey}

theorem Owned.dispose (h : s.Owned spare) {d : Disposition}
    {detail : Json.Members} : (s.dispose d o detail).Owned spare :=
  { h with }

theorem Owned.setRecord {r : PendingChat} (h : s.Owned spare)
    (hq : r.queued = true → (s.heap rid).queued = true) : (s.setRecord rid r).Owned spare := by
  refine ⟨h.own,?_,h.waiting⟩
  intro k q hr hk
  rw [heap_setRecord] at hk
  split_ifs at hk with he
  · subst he
    exact h.queued k q hr (hq hk)
  · exact h.queued k q hr hk

theorem Owned.mem_ready_enqueue (h : s.Owned spare) (hr : s.record? key = some rid)
    (hk : (s.heap rid).key = key) : key ∈ (s.enqueue rid).ready := by
  rw [ready_enqueue]
  split
  · exact h.queued key rid hr ‹_›
  · simp [hk]

theorem Owned.enqueue (h : s.Owned (some key)) (hs : s.Safe b) (hr : s.record? key = some rid) :
    (s.enqueue rid).Owned none := by
  have hready := h.mem_ready_enqueue hr (hs.record?_key hr).2
  obtain ⟨hworkers,hactive,-⟩ := enqueue_frame
  refine ⟨?_,?_,?_⟩
  · intro k q o hw p hp
    rw [hworkers] at hw
    rw [record?_enqueue] at hp
    exact h.own k q o hw p hp
  · intro k q hq hk
    rw [record?_enqueue] at hq
    rw [heap_enqueue] at hk
    split_ifs at hk with he
    · subst he
      rw [hs.record?_inj hq hr]
      exact hready
    · exact Scheduler.mem_ready_enqueue (h.queued k q hq hk)
  · intro k q hq
    rw [record?_enqueue] at hq
    rw [hactive]
    rcases h.waiting k q hq with hw | hw | hw
    · exact .inl (Scheduler.mem_ready_enqueue hw)
    · exact .inr (.inl hw)
    · rw [← Option.some.inj hw]
      exact .inl hready

/-- The handler that runs for the chat of an offer runs on its pending record, and the pending
record has nothing unreported left if the offer has no source or is of another epoch. -/
def Attended (s : Scheduler) (o : ParticipationOpportunity) : Prop :=
  o.key ∉ s.cancelled →
    (∀ p ∈ s.workers.filterMap Worker.holding?, p.1 = o.key → s.record? o.key = some p.2) ∧
    ∀ rid ∈ s.record? o.key, o.offered = [] ∨ o.activationEpoch ≠ (s.heap rid).activationEpoch →
      (s.heap rid).unreported = []

instance (s : Scheduler) (o : ParticipationOpportunity) : Decidable (s.Attended o) :=
  inferInstanceAs (Decidable (_ → _ ∧ _))

theorem Received.record?_eq {r : Nat} (hr : Received b o s (some r, t)) : t.record? o.key = some r := by
  cases hr with
  | opened hn hs hl =>
    rw [record?_openRecord hn,if_pos rfl]
  | replaced rid detail hr he => exact hr
  | met rid hr he => exact hr

theorem Received.waiting (h : s.Owned none) (hr : Received b o s (some rid, t)) :
    o.key ∈ t.ready ∨ o.key ∈ t.active ∨ (t.heap rid).sourceEventIds = [] := by
  cases hr with
  | opened hn hs hl => exact .inr (.inr (by simp [Scheduler.openRecord,PendingChat.opened]))
  | replaced rid detail hr he => exact .inr (.inr (by simp [Scheduler.setRecord,PendingChat.replaced]))
  | met rid hr he => exact (h.waits hr).imp_right .inl

theorem Owned.received (h : s.Owned none) (hs : s.Safe b) (ha : s.Attended o) (hc : o.key ∉ s.cancelled)
    (hr : Received b o s (some rid, t)) : t.Owned (some o.key) := by
  cases hr with
  | opened hn ho hl =>
    have hfresh : ∀ k q, s.record? k = some q → (s.openRecord o).heap q = s.heap q := fun k q hq =>
      Function.update_of_ne (Nat.ne_of_lt (hs.record?_key hq).1) _ _
    refine ⟨?_,?_,?_⟩
    · intro k q p hw x hx
      rw [record?_openRecord hn] at hx
      split at hx
      · -- a handler for this chat would run on its pending record
        rename_i he
        have hhold : (k, q) ∈ s.workers.filterMap Worker.holding? := List.mem_filterMap.mpr ⟨_,hw,rfl⟩
        rw [(ha hc).1 _ hhold he] at hn
        cases hn
      · exact h.own k q p hw x hx
    · intro k q hq hk
      rw [record?_openRecord hn] at hq
      split at hq
      · cases hq
        simp [Scheduler.openRecord,PendingChat.opened] at hk
      · rw [hfresh k q hq] at hk
        exact h.queued k q hq hk
    · intro k q hq
      rw [record?_openRecord hn] at hq
      split_ifs at hq with he
      · exact .inr (.inr (by rw [he]))
      · exact (h.waits hq).imp_right .inl
  | replaced rid detail hr he => exact ((h.weaken o.key).dispose).setRecord fun hq => hq
  | met rid hr he => exact h.weaken o.key

theorem Owned.merged {u : OfferResult × Scheduler} (h : t.Owned (some o.key)) (hs : t.Safe b)
    (hr : t.record? o.key = some rid)
    (hw : o.key ∈ t.ready ∨ o.key ∈ t.active ∨ (t.heap rid).sourceEventIds = []) (hm : Merged b o rid t u) :
    u.2.Owned none := by
  have hp := mergeSources_progress (hs.records rid) o.offered
  obtain ⟨ids,bytes,refs,reported,hframe⟩ := hp.frame
  have hqueued : (mergeSources b (t.heap rid) o.offered).record.queued = (t.heap rid).queued := by rw [hframe]
  cases hm with
  | empty detail ho => exact h.popPending.dispose
  | duplicate m detail hm ha hor =>
    subst hm
    have hset : (t.setRecord rid (mergeSources b (t.heap rid) o.offered).record).Owned (some o.key) :=
      h.setRecord fun hq => hqueued ▸ hq
    refine ⟨hset.own,hset.queued,?_⟩
    intro k q hq
    rcases hset.waiting k q hq with hk | hk | hk
    · exact .inl hk
    · exact .inr (.inl hk)
    · cases hk
      rcases hw with hw | hw | hw
      · exact .inl hw
      · exact .inr (.inl hw)
      · -- a record that was opened and stays empty is kept only for an active chat
        refine .inr (.inl (hor.resolve_right (not_not.mpr ?_)))
        have hids := hp.fresh ha
        rw [hw] at hids
        simp [PendingChat.unreported,List.subset_nil.mp hids]
  | exhausted m detail hm ha hn hu =>
    subst hm
    exact ((h.setRecord fun hq => hqueued ▸ hq).dispose).popPending
  | accepted m hm ha =>
    subst hm
    have hsafe : (t.setRecord rid ((mergeSources b (t.heap rid) o.offered).record.triggered o)).Safe b :=
      hs.setRecord (hp.fits.of_eq rfl rfl) hp.key
    exact (h.setRecord fun hq => hqueued ▸ hq).enqueue hsafe hr

theorem Owned.offerWithResult (h : s.Owned none) (hs : s.Safe b) (ha : s.Attended o) :
    (s.offerWithResult b o).2.Owned none := by
  rcases offerWithResult_cases b o s with ⟨-,detail,he⟩ | ⟨-,t,hr,he⟩ | ⟨hc,rid,t,hr,hm⟩
  · rw [he]
    exact h.dispose
  · rw [he]
    cases hr with
    | refused d detail hn => exact h.dispose
  · exact (h.received hs ha hc hr).merged (hs.received hr) hr.record?_eq (hr.waiting h) hm

theorem Owned.cancelChat (h : s.Owned none) {reason : String} : (s.cancelChat key reason).Owned none := by
  have hp := (h.weaken key).popPending
  unfold Scheduler.cancelChat
  split
  · exact { hp with }
  · exact { hp with }

theorem conclude_cases (hk : (s.heap rid).key = key) :
    ∃ t : Scheduler, t = { s with
        active := s.active.filter (· ≠ key)
        evaluatedRevision := t.evaluatedRevision } ∧
      ((s.record? key ≠ some rid ∧ s.conclude key rid = t) ∨
      (s.record? key = some rid ∧ (s.heap rid).unreported ≠ [] ∧ s.conclude key rid = t.enqueue rid) ∨
      (s.record? key = some rid ∧ (s.heap rid).unreported = [] ∧ s.conclude key rid = t.popPending key)) := by
  refine ⟨markConsidered (s.heap rid).key (s.heap rid).observedRevision (s.heap rid).lane
    { s with active := s.active.filter (· ≠ key) },rfl,?_⟩
  unfold Scheduler.conclude Scheduler.retire
  dsimp only
  split
  next hr =>
    exact .inl ⟨hk ▸ hr,rfl⟩
  next hr =>
    have hr : s.record? key = some rid := hk ▸ not_not.mp hr
    split_ifs with hu
    · exact .inr (.inl ⟨hr,hu,rfl⟩)
    · refine .inr (.inr ⟨hr,not_not.mp hu,?_⟩)
      rw [← hk]
      rfl

/-- The end of a turn puts the chat back into the ready queue unless nothing is left of it. -/
theorem Owned.conclude (h : s.Owned none) (hs : Safe b { s with active := s.active.filter (· ≠ key) })
    (hk : (s.heap rid).key = key) (hone : ∀ q, s.record? key = some q → q = rid) :
    (s.conclude key rid).Owned none := by
  obtain ⟨t,ht,hc⟩ := conclude_cases hk
  have hrec : ∀ k, t.record? k = s.record? k := fun k => by rw [ht]; rfl
  have hown : t.Owned (some key) := by
    rw [ht]
    refine ⟨h.own,h.queued,?_⟩
    intro k q hq
    by_cases he : k = key
    · exact .inr (.inr (by rw [he]))
    · exact (h.waits hq).imp_right fun hw => .inl (List.mem_filter.mpr ⟨hw,by simpa using he⟩)
  rcases hc with ⟨hr,hc⟩ | ⟨hr,hu,hc⟩ | ⟨hr,hu,hc⟩
  · -- the handler's chat has no pending record left
    rw [hc]
    refine ⟨hown.own,hown.queued,?_⟩
    intro k q hq
    rcases hown.waiting k q hq with hw | hw | hw
    · exact .inl hw
    · exact .inr (.inl hw)
    · cases hw
      rw [hrec] at hq
      exact absurd (hone q hq ▸ hq) hr
  · have hsafe : t.Safe b := by
      rw [ht]
      exact { hs with }
    rw [hc]
    exact hown.enqueue hsafe ((hrec key).trans hr)
  · rw [hc]
    exact hown.popPending

theorem mem_ready_tail (hk : k ∈ s.ready) (hq : s.ready.head? = some key) (hne : k ≠ key) : k ∈ s.ready.tail := by
  cases hr : s.ready with
  | nil =>
    rw [hr] at hk
    cases hk
  | cons x rest =>
    rw [hr] at hk hq
    cases hq
    exact (List.mem_cons.mp hk).resolve_left hne

theorem Owned.pop (h : s.Owned none) (hq : s.ready.head? = some key) (hr : s.record? key = some rid)
    (reported : List String) {active : List ChatKey} (ha : s.active ⊆ active) (hk : key ∈ active) :
    Owned none { s.setRecord rid { s.heap rid with queued := false, reported := reported } with
      ready := s.ready.tail
      active := active } := by
  refine ⟨h.own,?_,?_⟩
  · intro k q hkq hqueued
    rw [heap_setRecord] at hqueued
    split at hqueued
    · cases hqueued
    next hne =>
      refine mem_ready_tail (h.queued k q hkq hqueued) hq fun he => hne ?_
      subst he
      exact Option.some.inj (hkq.symm.trans hr)
  · intro k q hkq
    by_cases he : k = key
    · exact .inr (.inl (he ▸ hk))
    · exact (h.waits hkq).imp (mem_ready_tail · hq he) fun hw => .inl (ha hw)

theorem Owned.take (h : s.Owned none) (hs : s.Safe b) {nowMs : Int} : (s.take b w nowMs).Owned none := by
  have ht := take_took b w nowMs s
  generalize s.take b w nowMs = t at ht
  cases ht with
  | nothing => exact h
  | gone key hw hq hr =>
    have hne {k : ChatKey} {q : Nat} (hkq : s.record? k = some q) : k ≠ key := by
      rintro rfl
      cases hr.symm.trans hkq
    refine ⟨h.own,fun k q hkq hqueued => mem_ready_tail (h.queued k q hkq hqueued) hq (hne hkq),fun k q hkq => ?_⟩
    exact (h.waits hkq).imp (mem_ready_tail · hq (hne hkq)) .inl
  | skipped key rid hw hq hr ha =>
    have hp := h.pop hq hr (s.heap rid).reported (List.Subset.refl s.active) ha
    exact { hp with }
  | expired key rid detail hw hq hr ha =>
    have hp := h.pop hq hr ((s.heap rid).reported ++ (s.heap rid).sourceEventIds)
      (List.subset_append_left s.active [key]) List.mem_concat_self
    have hkey := (hs.record?_key hr).2
    refine Owned.conclude (b := b) { hp with } ?_ ?_ ?_
    · have hs := hs.givenUp ha rid
      exact { hs with }
    · simpa [taken,Scheduler.dispose,Scheduler.setRecord,PendingChat.key] using hkey
    · intro q hq
      exact Option.some.inj (hq.symm.trans hr)
  | started key rid detail hw hq hr ha =>
    have hp := h.pop hq hr ((s.heap rid).reported ++ (s.heap rid).sourceEventIds)
      (List.subset_append_left s.active [key]) List.mem_concat_self
    refine ⟨?_,hp.queued,hp.waiting⟩
    intro k q p hm x hx
    rcases List.mem_or_eq_of_mem_set hm with hm | hm
    · exact h.own k q p hm x hx
    · cases hm
      exact Option.some.inj (hx.symm.trans hr)

theorem Owned.finish (h : s.Owned none) (hs : s.Safe b) {outcome : HandlerOutcome} :
    (s.finish w outcome).Owned none := by
  rcases finish_cases w outcome s with ⟨he,-⟩ | ⟨key,rid,o,x,extra,hw,hx,-,he⟩
  · rw [he]
    exact h
  · have hin := List.mem_of_getElem? hw
    have hr := hs.release hw hx
    rw [he]
    refine Owned.conclude (b := b) ⟨?_,h.queued,h.waiting⟩
      { hr with }
      (hs.held key rid o hin).2.1 (h.own key rid o hin)
    intro k q p hm
    rcases List.mem_or_eq_of_mem_set hm with hm | rfl
    · exact h.own k q p hm
    · cases hx

end Scheduler

namespace OpportunityDesk
variable {b : SchedulerBounds} {d : OpportunityDesk}

def Attended (d : OpportunityDesk) : SchedulerAction → Prop
  | .offer o => d.scheduler.Attended o
  | _ => True

instance (d : OpportunityDesk) : (a : SchedulerAction) → Decidable (d.Attended a)
  | .offer o => inferInstanceAs (Decidable (d.scheduler.Attended o))
  | .cancel .. | .release _ | .considered .. | .take .. | .finish .. => isTrue trivial

theorem step_owned {a : SchedulerAction} (hs : d.scheduler.Safe b) (h : d.scheduler.Owned none)
    (ha : d.Attended a) : (d.step b a).scheduler.Owned none := by
  cases a with
  | offer o => exact h.offerWithResult hs ha
  | cancel key reason => exact h.cancelChat
  | release | considered => exact { h with }
  | take w nowMs => exact h.take hs
  | finish w outcome => exact h.finish hs

theorem initial_owned : (initial b).scheduler.Owned none where
  own _ _ _ hw := nomatch List.eq_of_mem_replicate hw
  queued _ _ hr := nomatch hr
  waiting _ _ hr := nomatch hr

end OpportunityDesk
end Yeoman.Consciousness
