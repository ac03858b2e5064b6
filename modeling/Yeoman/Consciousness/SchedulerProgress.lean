import Mathlib.Data.List.Infix
import Yeoman.Consciousness.SchedulerQueue

/-! Where the sources of accepted offers are: handed to a handler, withdrawn or dropped by name,
or waiting unreported in the pending record of their chat. -/
namespace Yeoman.Consciousness
open Library

/-- A report that takes the sources it names out of the scheduler's hands: they expired, or were
cancelled while they were pending. -/
def DispositionReport.Withdraws (r : DispositionReport) : Prop :=
  r.disposition = .expired ∨ r.disposition = .cancelled ∧ ("stage", .str "pending") ∈ r.detail

namespace Scheduler
variable {b : SchedulerBounds} {s t u : Scheduler} {o : ParticipationOpportunity} {rid : Nat} {key : ChatKey}

def Released (s t : Scheduler) (key : ChatKey) (q : String) : Prop :=
  (∃ h ∈ t.handed.drop s.handed.length, h.key = key ∧ q ∈ h.sourceEventIds) ∨
  ∃ r ∈ t.reports.drop s.reports.length, r.Withdraws ∧ r.opportunity.key = key ∧ q ∈ r.opportunity.sourceEventIds

def Waiting (s : Scheduler) (key : ChatKey) (q : String) : Prop :=
  ∃ rid, s.record? key = some rid ∧ q ∈ (s.heap rid).unreported

structure Grows (s t : Scheduler) : Prop where
  handed : s.handed <+: t.handed
  reports : s.reports <+: t.reports

theorem Grows.trans (h : Grows s t) (h' : Grows t u) : Grows s u :=
  ⟨h.handed.trans h'.handed,h.reports.trans h'.reports⟩

theorem Grows.of_eq (hh : t.handed = s.handed) (hr : t.reports = s.reports) : Grows s t :=
  ⟨hh ▸ List.prefix_refl _,hr ▸ List.prefix_refl _⟩

theorem Grows.of_report {extra : List DispositionReport} (hh : t.handed = s.handed)
    (hr : t.reports = s.reports ++ extra) : Grows s t :=
  ⟨hh ▸ List.prefix_refl _,hr ▸ List.prefix_append _ _⟩

variable {q : String} {k : ChatKey}

theorem Released.grow (h : s.Released t key q) (hg : Grows t u) : s.Released u key q := by
  rcases h with ⟨x,hx,hrest⟩ | ⟨x,hx,hrest⟩
  · exact .inl ⟨x,(hg.handed.drop _).subset hx,hrest⟩
  · exact .inr ⟨x,(hg.reports.drop _).subset hx,hrest⟩

theorem Released.since (h : t.Released u key q) (hg : Grows s t) : s.Released u key q := by
  rcases h with ⟨x,hx,hrest⟩ | ⟨x,hx,hrest⟩
  · exact .inl ⟨x,List.drop_subset_drop_left _ hg.handed.length_le hx,hrest⟩
  · exact .inr ⟨x,List.drop_subset_drop_left _ hg.reports.length_le hx,hrest⟩

theorem Released.of_handed {h : ParticipationOpportunity} (ht : t.handed = s.handed ++ [h]) (hk : h.key = key)
    (hq : q ∈ h.sourceEventIds) : s.Released t key q :=
  .inl ⟨h,by simp [ht],hk,hq⟩

theorem Released.of_report {r : DispositionReport} (ht : t.reports = s.reports ++ [r]) (hw : r.Withdraws)
    (hk : r.opportunity.key = key) (hq : q ∈ r.opportunity.sourceEventIds) : s.Released t key q :=
  .inr ⟨r,by simp [ht],hw,hk,hq⟩
variable {reason : String} {w : Nat}

theorem enqueue_grows : Grows s (s.enqueue rid) := by
  obtain ⟨-,-,hh,hr,-⟩ := enqueue_frame
  exact .of_eq hh hr

theorem conclude_grows : Grows s (s.conclude key rid) := by
  obtain ⟨-,-,hh,hr,-⟩ := conclude_frame
  exact .of_eq hh hr

theorem Received.grows {t : Option Nat × Scheduler} (hr : Received b o s t) : Grows s t.2 := by
  cases hr with
  | refused | replaced => exact .of_report rfl rfl
  | opened | met => exact .of_eq rfl rfl
variable {r : OfferResult × Scheduler}

theorem Merged.grows (hm : Merged b o rid s r) : Grows s r.2 := by
  cases hm with
  | empty | duplicate | exhausted => exact .of_report rfl rfl
  | accepted m hm ha =>
    refine Grows.trans ?_ enqueue_grows
    exact .of_eq rfl rfl

theorem offerWithResult_grows (b : SchedulerBounds) (o : ParticipationOpportunity) (s : Scheduler) :
    Grows s (s.offerWithResult b o).2 := by
  rcases offerWithResult_cases b o s with ⟨-,detail,he⟩ | ⟨-,t,hr,he⟩ | ⟨-,rid,t,hr,hm⟩
  · rw [he]
    exact .of_report rfl rfl
  · rw [he]
    exact hr.grows
  · exact hr.grows.trans hm.grows

/-- The pending record of the chat keeps its sources and which of them are reported. -/
structure Carries (key : ChatKey) (s t : Scheduler) : Prop where
  record : t.record? key = s.record? key
  sources : ∀ rid, s.record? key = some rid → (t.heap rid).sourceEventIds = (s.heap rid).sourceEventIds ∧
    (t.heap rid).reported = (s.heap rid).reported

theorem Carries.of_eq (hp : t.pending = s.pending) (hh : t.heap = s.heap) : Carries key s t :=
  ⟨by unfold record?; rw [hp],fun rid _ => by rw [hh]; exact ⟨rfl,rfl⟩⟩

theorem Carries.trans (h : Carries key s t) (h' : Carries key t u) : Carries key s u := by
  refine ⟨h'.record.trans h.record,?_⟩
  intro rid hr
  obtain ⟨hi,hp⟩ := h.sources rid hr
  obtain ⟨hi',hp'⟩ := h'.sources rid (h.record.trans hr)
  exact ⟨hi'.trans hi,hp'.trans hp⟩

theorem Carries.waiting (h : Carries key s t) (hw : s.Waiting key q) : t.Waiting key q := by
  obtain ⟨rid,hr,hq⟩ := hw
  obtain ⟨hi,hp⟩ := h.sources rid hr
  refine ⟨rid,h.record.trans hr,?_⟩
  unfold PendingChat.unreported at hq ⊢
  rw [hi,hp]
  exact hq

theorem Carries.setRecord (hs : s.Safe b) (hr : s.record? k = some rid) (hk : key ≠ k) {r : PendingChat} :
    Carries key s (s.setRecord rid r) := by
  refine ⟨rfl,?_⟩
  intro q hq
  have hne : q ≠ rid := fun he => hk (hs.record?_inj (he ▸ hq) hr)
  rw [heap_setRecord,if_neg hne]
  exact ⟨rfl,rfl⟩
variable {nowMs : Int} {outcome : HandlerOutcome}

theorem Carries.setQueued {queued : Bool} : Carries key s (s.setRecord rid { s.heap rid with queued := queued }) := by
  refine ⟨rfl,?_⟩
  intro q hq
  rw [heap_setRecord]
  split_ifs with he
  · subst he
    exact ⟨rfl,rfl⟩
  · exact ⟨rfl,rfl⟩

theorem Carries.popPending (hk : key ≠ k) : Carries key s (s.popPending k) :=
  ⟨by rw [record?_popPending,if_neg hk],fun _ _ => ⟨rfl,rfl⟩⟩

theorem Carries.enqueue : Carries key s (s.enqueue rid) := by
  unfold Scheduler.enqueue
  split
  · exact .of_eq rfl rfl
  · exact Carries.setQueued.trans (.of_eq rfl rfl)

theorem Received.carries {t : Option Nat × Scheduler} (hs : s.Safe b) (hr : Received b o s t) (hk : key ≠ o.key) :
    Carries key s t.2 := by
  cases hr with
  | refused | met => exact .of_eq rfl rfl
  | opened hn ho hl =>
    refine ⟨by rw [record?_openRecord hn,if_neg hk],?_⟩
    intro q hq
    have hne := Nat.ne_of_lt (hs.record?_key hq).1
    simp [Scheduler.openRecord,Function.update_of_ne hne]
  | replaced rid detail hr he =>
    have hc : Carries key s (s.dispose .cancelled o detail) := .of_eq rfl rfl
    exact hc.trans (.setRecord (hs.dispose) hr hk)

theorem Merged.carries (hs : s.Safe b) (hr : s.record? o.key = some rid)
    (hm : Merged b o rid s r) (hk : key ≠ o.key) : Carries key s r.2 := by
  cases hm with
  | empty detail ho => exact (Carries.popPending hk).trans (.of_eq rfl rfl)
  | duplicate m detail hm ha hp => exact (Carries.setRecord hs hr hk).trans (.of_eq rfl rfl)
  | exhausted m detail hm ha hn hu =>
    have hc : Carries key s ((s.setRecord rid m.record).dispose .duplicate o detail) :=
      (Carries.setRecord hs hr hk).trans (.of_eq rfl rfl)
    exact hc.trans (Carries.popPending hk)
  | accepted m hm ha => exact (Carries.setRecord hs hr hk).trans (.enqueue)

theorem Merged.left (hr : s.record? o.key = some rid) (hm : Merged b o rid s r) :
    (o.offered ≠ [] → r.1.droppedSourceEventIds = (mergeSources b (s.heap rid) o.offered).droppedSourceIds) ∧
      (r.2.record? o.key = none ∧ (o.offered = [] ∨ (mergeSources b (s.heap rid) o.offered).record.unreported = []) ∨
      r.2.record? o.key = some rid ∧
        (r.2.heap rid).unreported = (mergeSources b (s.heap rid) o.offered).record.unreported ∧
        (r.2.heap rid).reported = (mergeSources b (s.heap rid) o.offered).record.reported) := by
  cases hm with
  | empty detail ho => exact ⟨fun h => absurd ho h,.inl ⟨(record?_popPending ..).trans (if_pos rfl),.inl ho⟩⟩
  | duplicate m detail hm =>
    subst hm
    have hheap := heap_setRecord s rid rid (mergeSources b (s.heap rid) o.offered).record
    rw [if_pos rfl] at hheap
    exact ⟨fun _ => rfl,.inr ⟨hr,congrArg PendingChat.unreported hheap,congrArg PendingChat.reported hheap⟩⟩
  | exhausted m detail hm ha hn hu =>
    subst hm
    exact ⟨fun _ => rfl,.inl ⟨(record?_popPending ..).trans (if_pos rfl),.inr hu⟩⟩
  | accepted m hm ha =>
    subst hm
    refine ⟨fun _ => rfl,.inr ⟨record?_enqueue.trans hr,?_⟩⟩
    rw [heap_enqueue,if_pos rfl,heap_setRecord,if_pos rfl]
    exact ⟨rfl,rfl⟩

/-- Every source of a record and of the offer merged into it is dropped by name, was reported,
or waits; an offer without sources may only meet a record that is all reported. -/
theorem Merged.accounted (hs : s.Safe b) (hr : s.record? o.key = some rid)
    (hm : Merged b o rid s r) (he : o.offered = [] → (s.heap rid).unreported = [])
    (hq : q ∈ (s.heap rid).sourceEventIds ∨ q ∈ o.offered) :
    q ∈ r.1.droppedSourceEventIds ∨ q ∈ (s.heap rid).reported ∨ r.2.Waiting o.key q := by
  have hp := mergeSources_progress (hs.records rid) o.offered
  obtain ⟨hdropped,hleft⟩ := hm.left hr
  by_cases hrep : q ∈ (s.heap rid).reported
  · exact .inr (.inl hrep)
  have hne : o.offered ≠ [] := fun ho => by
    have hi : q ∈ (s.heap rid).sourceEventIds := hq.resolve_right (by simp [ho])
    have hu : q ∈ (s.heap rid).unreported := List.mem_filter.mpr ⟨hi,by simpa using hrep⟩
    simp [he ho] at hu
  rcases hp.accounted q (hq.imp_right fun hq => .inr ⟨hq,by simpa using (List.mem_filter.mp hq).2⟩) with hi | hd | hi
  · have hu : q ∈ (mergeSources b (s.heap rid) o.offered).record.unreported :=
      List.mem_filter.mpr ⟨hi,by simpa using fun ht => hrep (hp.reported ht)⟩
    rcases hleft with ⟨-,hnone⟩ | ⟨hrec,hun,-⟩
    · simp [hnone.resolve_left hne] at hu
    · exact .inr (.inr ⟨rid,hrec,hun ▸ hu⟩)
  · exact .inl (hdropped hne ▸ hd)
  · exact absurd hi hrep

theorem Received.reported (hr : Received b o s (some rid, t)) :
    (t.heap rid).reported = [] ∨ s.record? o.key = some rid ∧ (t.heap rid).reported = (s.heap rid).reported := by
  cases hr with
  | opened hn hs hl => exact .inl (by simp [Scheduler.openRecord,PendingChat.opened])
  | replaced rid detail hr he => exact .inr ⟨hr,by simp [Scheduler.setRecord,PendingChat.replaced]⟩
  | met rid hr he => exact .inr ⟨hr,rfl⟩

theorem mem_retained_of_unreported {r : PendingChat} (hq : q ∈ r.unreported) : q ∈ r.retained := by
  rw [PendingChat.retained,if_neg (List.ne_nil_of_mem hq)]
  exact hq

/-- Nothing handed out or reported is taken back, and what waits goes on waiting until it is released. -/
structure Moves (s t : Scheduler) : Prop extends Grows s t where
  waits : ∀ key q, s.Waiting key q → s.Released t key q ∨ t.Waiting key q

theorem cancelChat_moves (hs : s.Safe b) : Moves s (s.cancelChat k reason) := by
  have hgrows : Grows s (s.cancelChat k reason) := by
    unfold Scheduler.cancelChat
    split
    · exact .of_eq rfl rfl
    · exact .of_report rfl rfl
  refine ⟨hgrows,fun key q hw => ?_⟩
  by_cases hk : key = k
  · subst hk
    obtain ⟨rid,hr,hq⟩ := hw
    have hrep : (s.cancelChat key reason).reports = s.reports ++ [⟨.cancelled,(s.heap rid).asOpportunity,
        [("reason", .str reason), ("stage", .str "pending")]⟩] := by
      rw [Scheduler.cancelChat,hr]
      rfl
    refine .inl (.of_report hrep (.inr ⟨rfl,?_⟩) (hs.record?_key hr).2 (mem_retained_of_unreported hq))
    simp
  · have hpop : Carries key (s.popPending k) (s.cancelChat k reason) := by
      unfold Scheduler.cancelChat
      split
      · exact .of_eq rfl rfl
      · exact .of_eq rfl rfl
    exact .inr (((Carries.popPending hk).trans hpop).waiting hw)

theorem Waiting.conclude (hk : (s.heap rid).key = k) (hw : s.Waiting key q) : (s.conclude k rid).Waiting key q := by
  obtain ⟨t,ht,hc⟩ := conclude_cases hk
  have hst : Carries key s t := by
    rw [ht]
    exact .of_eq rfl rfl
  rcases hc with ⟨-,hc⟩ | ⟨-,-,hc⟩ | ⟨hr,hu,hc⟩
  · rw [hc]
    exact hst.waiting hw
  · rw [hc]
    exact (hst.trans .enqueue).waiting hw
  · rw [hc]
    have hne : key ≠ k := by
      rintro rfl
      obtain ⟨p,hp,hq⟩ := hw
      cases hr.symm.trans hp
      rw [hu] at hq
      cases hq
    exact (hst.trans (.popPending hne)).waiting hw

theorem Took.released {rid : Nat} (ht : Took b w s t) (hs : s.Safe b) (hidle : s.workers[w]? = some .idle)
    (hhead : s.ready.head? = some key) (hr : s.record? key = some rid) (ha : key ∉ s.active)
    (hu : q ∈ (s.heap rid).unreported) : s.Released t key q := by
  have hkey := (hs.record?_key hr).2
  cases ht with
  | nothing h =>
    rcases h with h | h
    · exact absurd hidle h
    · rw [h] at hhead
      cases hhead
  | gone k hi hk hn =>
    cases hk.symm.trans hhead
    cases hn.symm.trans hr
  | skipped k p hi hk hp hm =>
    cases hk.symm.trans hhead
    exact absurd hm ha
  | expired k p detail hi hk hp hm =>
    cases hk.symm.trans hhead
    cases hp.symm.trans hr
    exact .of_report conclude_frame.2.2.2.1 (.inl rfl) hkey (mem_retained_of_unreported hu)
  | started k p detail hi hk hp hm =>
    cases hk.symm.trans hhead
    cases hp.symm.trans hr
    exact .of_handed rfl hkey (mem_retained_of_unreported hu)

theorem take_moves (hs : s.Safe b) : Moves s (s.take b w nowMs) := by
  have ht := take_took b w nowMs s
  have hrel : ∀ {key rid q}, s.workers[w]? = some .idle → s.ready.head? = some key → s.record? key = some rid →
      key ∉ s.active → q ∈ (s.heap rid).unreported → s.Released (s.take b w nowMs) key q := ht.released hs
  generalize s.take b w nowMs = t at ht hrel
  cases ht with
  | nothing | gone => exact ⟨.of_eq rfl rfl,fun _ _ hw => .inr (Carries.waiting (.of_eq rfl rfl) hw)⟩
  | skipped =>
    exact ⟨.of_eq rfl rfl,fun _ _ hw => .inr ((Carries.setQueued.trans (.of_eq rfl rfl)).waiting hw)⟩
  | expired k rid detail hidle hq hr ha =>
    refine ⟨Grows.trans (by exact .of_report rfl rfl) conclude_grows,fun key q hw => ?_⟩
    by_cases hk : key = k
    · obtain ⟨p,hp,hu⟩ := hw
      subst hk
      exact .inl (hrel hidle hq hp ha hu)
    · have hc : Carries key s ((s.taken k rid).dispose .expired (s.heap rid).asOpportunity detail) :=
        (Carries.setRecord hs hr hk).trans (.of_eq rfl rfl)
      refine .inr ((hc.waiting hw).conclude ?_)
      simpa [taken,Scheduler.dispose,Scheduler.setRecord,PendingChat.key] using (hs.record?_key hr).2
  | started k rid detail hidle hq hr ha =>
    refine ⟨⟨List.prefix_append _ _,List.prefix_append _ _⟩,fun key q hw => ?_⟩
    by_cases hk : key = k
    · obtain ⟨p,hp,hu⟩ := hw
      subst hk
      exact .inl (hrel hidle hq hp ha hu)
    · exact .inr (((Carries.setRecord hs hr hk).trans (.of_eq rfl rfl)).waiting hw)

theorem finish_moves (hs : s.Safe b) : Moves s (s.finish w outcome) := by
  rcases finish_cases w outcome s with ⟨he,-⟩ | ⟨k,rid,o,x,extra,hh,hx,-,he⟩ <;> rw [he]
  · exact ⟨.of_eq rfl rfl,fun _ _ hw => .inr hw⟩
  · refine ⟨Grows.trans (by exact .of_report rfl rfl) conclude_grows,fun key q hw => .inr ?_⟩
    have hc : Carries key s { s with
        workers := s.workers.set w x
        reports := s.reports ++ extra } := .of_eq rfl rfl
    exact (hc.waiting hw).conclude (hs.held k rid o (List.mem_of_getElem? hh)).2.1

end Scheduler

namespace OpportunityDesk
variable {b : SchedulerBounds} {d e f : OpportunityDesk} {key : ChatKey} {t : String}

/-- Between two desks the source of a chat was handed to a handler, withdrawn by name, or reported dropped. -/
def Settled (d e : OpportunityDesk) (key : ChatKey) (t : String) : Prop :=
  d.scheduler.Released e.scheduler key t ∨
    ∃ p ∈ e.offers.drop d.offers.length, p.1.key = key ∧ t ∈ p.2.droppedSourceEventIds

structure Grows (d e : OpportunityDesk) : Prop extends Scheduler.Grows d.scheduler e.scheduler where
  offers : d.offers <+: e.offers

theorem Grows.trans (h : Grows d e) (h' : Grows e f) : Grows d f :=
  ⟨h.toGrows.trans h'.toGrows,h.offers.trans h'.offers⟩

theorem Settled.grow (h : d.Settled e key t) (hg : Grows e f) : d.Settled f key t := by
  refine h.imp (·.grow hg.toGrows) ?_
  rintro ⟨p,hp,hrest⟩
  exact ⟨p,(hg.offers.drop _).subset hp,hrest⟩

theorem Settled.since (h : e.Settled f key t) (hg : Grows d e) : d.Settled f key t := by
  refine h.imp (·.since hg.toGrows) ?_
  rintro ⟨p,hp,hrest⟩
  exact ⟨p,List.drop_subset_drop_left _ hg.offers.length_le hp,hrest⟩

variable {a : SchedulerAction}

theorem step_grows (hs : d.scheduler.Safe b) : Grows d (d.step b a) := by
  cases a with
  | offer o => exact ⟨Scheduler.offerWithResult_grows b o _,List.prefix_append _ _⟩
  | cancel => exact ⟨(Scheduler.cancelChat_moves hs).toGrows,List.prefix_refl _⟩
  | release | considered => exact ⟨.of_eq rfl rfl,List.prefix_refl _⟩
  | take => exact ⟨(Scheduler.take_moves hs).toGrows,List.prefix_refl _⟩
  | finish => exact ⟨(Scheduler.finish_moves hs).toGrows,List.prefix_refl _⟩

theorem settled_of_dropped {o : ParticipationOpportunity} {r : OfferResult × Scheduler}
    (hd : t ∈ r.1.droppedSourceEventIds) : d.Settled ⟨r.2,d.offers ++ [(o, r.1)]⟩ o.key t :=
  .inr ⟨(o, r.1),by simp,rfl,hd⟩

/-- A waiting source keeps waiting until it is settled. -/
theorem waiting_step (hs : d.scheduler.Safe b) (ha : d.Attended a)
    (hw : d.scheduler.Waiting key t) : d.Settled (d.step b a) key t ∨ (d.step b a).scheduler.Waiting key t := by
  cases a with
  | offer o =>
    have hc := Scheduler.offerWithResult_cases b o d.scheduler
    change d.Settled ⟨(d.scheduler.offerWithResult b o).2,d.offers ++ [(o, (d.scheduler.offerWithResult b o).1)]⟩ key t ∨
      (d.scheduler.offerWithResult b o).2.Waiting key t
    generalize d.scheduler.offerWithResult b o = r at hc ⊢
    rcases hc with ⟨-,detail,rfl⟩ | ⟨-,u,hr,rfl⟩ | ⟨hc,rid,u,hr,hm⟩
    · exact .inr (Scheduler.Carries.waiting (.of_eq rfl rfl) hw)
    · cases hr with
      | refused x detail hn => exact .inr (Scheduler.Carries.waiting (.of_eq rfl rfl) hw)
    · by_cases hk : key = o.key
      · -- the offer meets the record in which the source waits
        subst hk
        obtain ⟨p,hp,hq⟩ := hw
        obtain ⟨hi,hn⟩ := List.mem_filter.mp hq
        have hempty := (ha hc).2 p hp
        cases hr with
        | opened hn hs hl => cases hn.symm.trans hp
        | replaced rid detail hr he =>
          cases hr.symm.trans hp
          rw [hempty (.inr he)] at hq
          cases hq
        | met rid hr he =>
          cases hr.symm.trans hp
          rcases hm.accounted hs hr (fun h => hempty (.inl h)) (.inl hi) with hd | hd | hd
          · exact .inl (settled_of_dropped hd)
          · exact absurd hd (by simpa using hn)
          · exact .inr hd
      · exact .inr (((hr.carries hs hk).trans (hm.carries (hs.received hr) hr.record?_eq hk)).waiting hw)
  | cancel k reason => exact ((Scheduler.cancelChat_moves hs).waits key t hw).imp_left .inl
  | release | considered => exact .inr (Scheduler.Carries.waiting (.of_eq rfl rfl) hw)
  | take w nowMs => exact ((Scheduler.take_moves hs).waits key t hw).imp_left .inl
  | finish w outcome => exact ((Scheduler.finish_moves hs).waits key t hw).imp_left .inl

def Fresh (d : OpportunityDesk) (o : ParticipationOpportunity) : Prop :=
  ∀ rid ∈ d.scheduler.record? o.key, ∀ q ∈ o.offered, q ∉ (d.scheduler.heap rid).reported

instance (d : OpportunityDesk) (o : ParticipationOpportunity) : Decidable (d.Fresh o) :=
  inferInstanceAs (Decidable (∀ rid ∈ _, _))

theorem accepted_settled (hs : d.scheduler.Safe b) {o : ParticipationOpportunity} (hf : d.Fresh o)
    (ha : (d.scheduler.offerWithResult b o).1.accepted = true) {q : String} (hq : q ∈ o.offered) :
    d.Settled (d.step b (.offer o)) o.key q ∨ (d.step b (.offer o)).scheduler.Waiting o.key q := by
  have hc := Scheduler.offerWithResult_cases b o d.scheduler
  change d.Settled ⟨(d.scheduler.offerWithResult b o).2,d.offers ++ [(o, (d.scheduler.offerWithResult b o).1)]⟩ o.key q ∨
    (d.scheduler.offerWithResult b o).2.Waiting o.key q
  generalize d.scheduler.offerWithResult b o = r at hc ha ⊢
  rcases hc with ⟨-,detail,rfl⟩ | ⟨-,u,hr,rfl⟩ | ⟨-,rid,u,hr,hm⟩
  · cases ha
  · cases ha
  · have hne : o.offered = [] → (u.heap rid).unreported = [] := fun he => absurd (he ▸ hq) List.not_mem_nil
    rcases hm.accounted (hs.received hr) hr.record?_eq hne (.inr hq) with hd | hrep | hw
    · exact .inl (settled_of_dropped hd)
    · rcases hr.reported with he | ⟨hrec,he⟩
      · rw [he] at hrep
        cases hrep
      · rw [he] at hrep
        exact absurd hrep (hf rid hrec q hq)
    · exact .inr hw

structure Sound (b : SchedulerBounds) (d : OpportunityDesk) : Prop where
  safe : d.scheduler.Safe b
  owned : d.scheduler.Owned none

theorem step_sound (h : d.Sound b) (ha : d.Attended a) : (d.step b a).Sound b :=
  ⟨step_safe a h.safe,step_owned h.safe h.owned ha⟩

theorem initial_sound : (initial b).Sound b :=
  ⟨Scheduler.initial_safe b,initial_owned⟩

theorem Sound.pending_eq_nil (h : d.Sound b) (hf : d.scheduler.inFlight = []) (hr : d.scheduler.ready = []) :
    d.scheduler.pending = [] := by
  cases hp : d.scheduler.pending with
  | nil => rfl
  | cons p rest =>
    have hrec : d.scheduler.record? p.1 = some p.2 := by
      simp [Scheduler.record?,Table.lookup,hp]
    rcases h.owned.waits hrec with hw | hw
    · rw [hr] at hw
      cases hw
    · rw [h.safe.busy,hf] at hw
      cases hw

end OpportunityDesk
end Yeoman.Consciousness
