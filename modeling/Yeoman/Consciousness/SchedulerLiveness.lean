import Yeoman.Consciousness.SchedulerProgress
import Yeoman.Library.Fairness

/-! Endless runs in which every handler call returns and the workers keep taking ready chats:
every source of an accepted offer is settled sooner or later. A waiting source first waits for
the handler of its chat to end, then for its chat to come to the front of the ready queue. -/
namespace Yeoman.Consciousness
open Library

namespace Scheduler
variable {b : SchedulerBounds} {s t : Scheduler} {o : ParticipationOpportunity} {rid w : Nat} {key : ChatKey}

theorem offerWithResult_frame :
    (s.offerWithResult b o).2.workers = s.workers ∧ (s.offerWithResult b o).2.active = s.active ∧
      ∃ added, (s.offerWithResult b o).2.ready = s.ready ++ added := by
  have hsame : ∃ added, s.ready = s.ready ++ added := ⟨[],(List.append_nil _).symm⟩
  have hreceived : ∀ {t : Option Nat × Scheduler}, Received b o s t →
      t.2.workers = s.workers ∧ t.2.active = s.active ∧ t.2.ready = s.ready := by
    intro t ht
    cases ht with
    | refused | opened | replaced | met => exact ⟨rfl,rfl,rfl⟩
  have hc := offerWithResult_cases b o s
  generalize s.offerWithResult b o = r at hc ⊢
  rcases hc with ⟨-,detail,rfl⟩ | ⟨-,t,hr,rfl⟩ | ⟨-,rid,t,hr,hm⟩
  · exact ⟨rfl,rfl,hsame⟩
  · obtain ⟨hw,ha,hq⟩ := hreceived hr
    exact ⟨hw,ha,hq ▸ hsame⟩
  · obtain ⟨hw,ha,hq⟩ := hreceived hr
    rw [← hw,← ha,← hq]
    rw [← hq] at hsame
    cases hm with
    | empty | duplicate | exhausted => exact ⟨rfl,rfl,hsame⟩
    | accepted m hm ha =>
      obtain ⟨hw',ha',-,-,hr'⟩ := enqueue_frame
      exact ⟨hw',ha',hr'⟩

end Scheduler

namespace OpportunityDesk
variable {b : SchedulerBounds} {d : OpportunityDesk} {key : ChatKey} {q : String} {w : Nat}

def served (d : OpportunityDesk) : SchedulerAction → List ChatKey
  | .take w _ => if d.scheduler.workers[w]? = some .idle then d.scheduler.ready.take 1 else []
  | _ => []

/-- What an action does to the queue and the pool: chats leave the front of the queue and become
active only when they are served, and an idle worker starts a handler, or a handler ends. -/
structure Moved (d e : OpportunityDesk) (a : SchedulerAction) : Prop where
  ready : ∃ rest added, d.scheduler.ready = d.served a ++ rest ∧ e.scheduler.ready = rest ++ added
  active : ∀ key ∈ e.scheduler.active, key ∈ d.scheduler.active ∨ key ∈ d.served a
  workers : e.scheduler.workers = d.scheduler.workers ∨
    (∃ w x, d.scheduler.workers[w]? = some .idle ∧ x ≠ .stopped ∧
      e.scheduler.workers = d.scheduler.workers.set w x) ∨
    ∃ w outcome x, a = .finish w outcome ∧ (outcome ≠ .cancelled → x = .idle) ∧
      e.scheduler.workers = d.scheduler.workers.set w x

theorem Moved.of_eq {e : OpportunityDesk} {a : SchedulerAction} (hs : d.served a = [])
    (hr : ∃ added, e.scheduler.ready = d.scheduler.ready ++ added) (ha : e.scheduler.active = d.scheduler.active)
    (hw : e.scheduler.workers = d.scheduler.workers) : Moved d e a := by
  obtain ⟨added,hr⟩ := hr
  exact ⟨⟨_,added,by rw [hs]; rfl,hr⟩,fun key hk => .inl (ha ▸ hk),.inl hw⟩

theorem take_moved (b : SchedulerBounds) (w : Nat) (nowMs : Int) :
    Moved d (d.step b (.take w nowMs)) (.take w nowMs) := by
  have ht := Scheduler.take_took b w nowMs d.scheduler
  rw [step]
  generalize d.scheduler.take b w nowMs = t at ht ⊢
  have hserved {k} (hw : d.scheduler.workers[w]? = some .idle) (hq : d.scheduler.ready.head? = some k) :
      d.served (.take w nowMs) = [k] := by
    rw [served,if_pos hw,List.take_one,hq]
    rfl
  have hhead {k} (hw : d.scheduler.workers[w]? = some .idle) (hq : d.scheduler.ready.head? = some k) :
      d.scheduler.ready = d.served (.take w nowMs) ++ d.scheduler.ready.tail := by
    rw [hserved hw hq]
    exact List.eq_cons_of_mem_head? hq
  cases ht with
  | nothing h =>
    refine .of_eq ?_ ⟨[],(List.append_nil _).symm⟩ rfl rfl
    rcases h with h | h
    · rw [served,if_neg h]
    · rw [served,h]
      simp
  | gone k hw hq hr | skipped k rid hw hq hr ha =>
    exact ⟨⟨_,[],hhead hw hq,(List.append_nil _).symm⟩,fun _ h => .inl h,.inl rfl⟩
  | expired k rid detail hw hq hr ha =>
    obtain ⟨hworkers,hactive,-,-,added,hadd⟩ := Scheduler.conclude_frame
    refine ⟨⟨_,added,hhead hw hq,hadd⟩,fun key h => ?_,.inl hworkers⟩
    rw [hactive] at h
    obtain ⟨hm,hne⟩ := List.mem_filter.mp h
    exact .inl ((Table.mem_concat.mp hm).resolve_right (by simpa using hne))
  | started k rid detail hw hq hr ha =>
    refine ⟨⟨_,[],hhead hw hq,(List.append_nil _).symm⟩,fun key h => ?_,
      .inr (.inl ⟨w,.handling ..,hw,Worker.noConfusion,rfl⟩)⟩
    rw [hserved hw hq]
    exact List.mem_append.mp h

theorem step_moved (b : SchedulerBounds) (d : OpportunityDesk) (a : SchedulerAction) : Moved d (d.step b a) a := by
  have hsame : ∃ added, d.scheduler.ready = d.scheduler.ready ++ added := ⟨[],(List.append_nil _).symm⟩
  cases a with
  | offer o =>
    obtain ⟨hw,ha,hr⟩ := Scheduler.offerWithResult_frame
    exact .of_eq rfl hr ha hw
  | cancel k reason =>
    rw [step,Scheduler.cancelChat]
    split
    · exact .of_eq rfl hsame rfl rfl
    · exact .of_eq rfl hsame rfl rfl
  | release | considered => exact .of_eq rfl hsame rfl rfl
  | take w nowMs => exact take_moved b w nowMs
  | finish w outcome =>
    rcases Scheduler.finish_cases w outcome d.scheduler with ⟨he,-⟩ | ⟨k,rid,o,x,extra,hh,hx,hi,he⟩
    · rw [step,he]
      exact .of_eq rfl hsame rfl rfl
    · obtain ⟨hworkers,hactive,-,-,added,hadd⟩ := Scheduler.conclude_frame
      rw [step,he]
      refine ⟨⟨_,added,rfl,hadd⟩,fun key h => ?_,.inr (.inr ⟨w,outcome,x,rfl,hi,hworkers⟩)⟩
      rw [hactive] at h
      exact .inl (List.mem_of_mem_filter h)
variable {a : SchedulerAction}

theorem step_handling {rid : Nat} {o : ParticipationOpportunity}
    (h : d.scheduler.workers[w]? = some (.handling key rid o)) (ha : ∀ outcome, a ≠ .finish w outcome) :
    (d.step b a).scheduler.workers[w]? = some (.handling key rid o) := by
  rcases (step_moved b d a).workers with he | ⟨v,x,hv,-,he⟩ | ⟨v,outcome,x,rfl,-,he⟩
  · rw [he]
    exact h
  · have hne : v ≠ w := by
      rintro rfl
      cases hv.symm.trans h
    rw [he,List.getElem?_set_ne hne]
    exact h
  · have hne : v ≠ w := by
      rintro rfl
      exact ha outcome rfl
    rw [he,List.getElem?_set_ne hne]
    exact h

abbrev during (b : SchedulerBounds) (acts : Nat → SchedulerAction) (n : Nat) : OpportunityDesk :=
  Fairness.states (step b) (initial b) acts n

/-- An endless run in which every handler call returns or raises, and an idle worker takes a ready
chat again and again while there is one. Every offer is attended, and every accepted one is fresh. -/
structure FairRun (b : SchedulerBounds) (acts : Nat → SchedulerAction) : Prop where
  attended : ∀ n, (during b acts n).Attended (acts n)
  fresh : ∀ n o, acts n = .offer o → ((during b acts n).scheduler.offerWithResult b o).1.accepted = true →
    (during b acts n).Fresh o
  returns : ∀ (n w : Nat) key rid o,
    (during b acts n).scheduler.workers[w]? = some (.handling key rid o) →
      ∃ m, n ≤ m ∧ ∃ outcome, acts m = .finish w outcome
  uncancelled : ∀ n w, acts n ≠ .finish w .cancelled
  serves : ∀ n w : Nat, (during b acts n).scheduler.workers[w]? = some .idle →
    (during b acts n).scheduler.ready ≠ [] →
      ∃ m, n ≤ m ∧ (during b acts m).served (acts m) ≠ []

namespace FairRun
variable {acts : Nat → SchedulerAction}

theorem sound (h : FairRun b acts) {n : Nat} : (during b acts n).Sound b :=
  Fairness.states_invariant (fun _ _ hd ha => step_sound hd ha) initial_sound h.attended

theorem running (h : FairRun b acts) {n : Nat} : .stopped ∉ (during b acts n).scheduler.workers := by
  induction n with
  | zero => exact fun hm => nomatch List.eq_of_mem_replicate hm
  | succ n ih =>
    intro hm
    change .stopped ∈ ((during b acts n).step b (acts n)).scheduler.workers at hm
    rcases (step_moved b (during b acts n) (acts n)).workers with
      he | ⟨v,x,-,hx,he⟩ | ⟨v,outcome,x,ha,hx,he⟩
    · exact ih (he ▸ hm)
    · rw [he] at hm
      rcases List.mem_or_eq_of_mem_set hm with hm | hm
      · exact ih hm
      · exact hx hm.symm
    · rw [he,hx fun hc => h.uncancelled n v (hc ▸ ha)] at hm
      rcases List.mem_or_eq_of_mem_set hm with hm | hm
      · exact ih hm
      · cases hm

theorem fifo :
    Fairness.Fifo (fun n => (during b acts n).scheduler.ready)
      (fun n => (during b acts n).served (acts n)) :=
  fun _ => (step_moved ..).ready
variable {n : Nat} {o : ParticipationOpportunity} {rid : Nat}

theorem ends (h : FairRun b acts) (hw : (during b acts n).scheduler.workers[w]? = some (.handling key rid o)) :
    ∃ m outcome, n ≤ m ∧ acts m = .finish w outcome ∧ outcome ≠ .cancelled ∧
      (during b acts m).scheduler.workers[w]? = some (.handling key rid o) := by
  obtain ⟨m,hm,⟨outcome,ha⟩,hfirst⟩ := Fairness.exists_first (h.returns n w key rid o hw)
  refine ⟨m,outcome,hm,ha,fun hc => h.uncancelled m w (hc ▸ ha),?_⟩
  exact Fairness.persists
    (R := fun j => (during b acts j).scheduler.workers[w]? = some (.handling key rid o))
    hm hw fun j hj hlt hr => step_handling hr fun out he => hfirst j hj hlt ⟨out,he⟩

theorem idle_after (h : FairRun b acts) {outcome : HandlerOutcome}
    (hw : (during b acts n).scheduler.workers[w]? = some (.handling key rid o)) (ha : acts n = .finish w outcome) :
    (during b acts (n + 1)).scheduler.workers[w]? = some .idle ∧
      key ∉ (during b acts (n + 1)).scheduler.active := by
  have hstep : (during b acts (n + 1)).scheduler =
      (during b acts n).scheduler.finish w outcome := by
    rw [during,Fairness.states,ha]
    rfl
  have hlt := (List.getElem?_eq_some_iff.mp hw).1
  rw [hstep]
  rcases Scheduler.finish_cases w outcome (during b acts n).scheduler with
    ⟨-,hn⟩ | ⟨k,p,o',x,extra,hh,hx,hi,he⟩
  · exact absurd hw (hn key rid o)
  · cases hw.symm.trans hh
    rw [he,Scheduler.conclude_frame.1,Scheduler.conclude_frame.2.1,hi fun hc => h.uncancelled n w (hc ▸ ha)]
    exact ⟨List.getElem?_set_self hlt,by simp⟩

/-- While the ready queue is not empty a chat is taken from it sooner or later. -/
theorem keeps_serving (h : FairRun b acts) (n : Nat) (hq : (during b acts n).scheduler.ready ≠ []) :
    ∃ m, n ≤ m ∧ (during b acts m).served (acts m) ≠ [] := by
  have hlt : 0 < (during b acts n).scheduler.workers.length := by
    rw [h.sound.safe.workers]
    exact b.concurrent_pos
  have hget := List.getElem?_eq_getElem hlt
  have hmem := List.getElem_mem hlt
  cases hx : (during b acts n).scheduler.workers[0] with
  | idle => exact h.serves n 0 (hx ▸ hget) hq
  | stopped => exact absurd (hx ▸ hmem) h.running
  | handling key rid o =>
    obtain ⟨m,outcome,hm,ha,-,hw⟩ := h.ends (hx ▸ hget)
    by_contra hnone
    have hempty : ∀ j, n ≤ j → (during b acts j).served (acts j) = [] := by
      intro j hj
      by_contra hne
      exact hnone ⟨j,hj,hne⟩
    have hprefix := (fifo).waits (Nat.le_succ_of_le hm) (fun j hj _ => hempty j hj)
      (List.prefix_refl (during b acts n).scheduler.ready)
    obtain ⟨m',hm',hs⟩ := h.serves (m + 1) 0 (h.idle_after hw ha).1 fun he => by
      rw [he,List.prefix_nil] at hprefix
      exact hq hprefix
    exact hs (hempty m' (by omega))

theorem grows (h : FairRun b acts) {m : Nat} (hnm : n ≤ m) : Grows (during b acts n) (during b acts m) :=
  Fairness.persists (R := fun j => Grows (during b acts n) (during b acts j)) hnm
    ⟨.of_eq rfl rfl,List.prefix_refl _⟩ fun _ _ _ hj => hj.trans (step_grows h.sound.safe)

theorem settled_or_waiting (h : FairRun b acts) {m : Nat} (hnm : n ≤ m)
    (hn : (during b acts n).scheduler.Waiting key q) :
    (during b acts n).Settled (during b acts m) key q ∨ (during b acts m).scheduler.Waiting key q := by
  refine Fairness.persists (R := fun j => (during b acts n).Settled (during b acts j) key q ∨
    (during b acts j).scheduler.Waiting key q) hnm (.inr hn) fun j hj _ hw => ?_
  rcases hw with hw | hw
  · exact .inl (hw.grow (step_grows h.sound.safe))
  · exact (waiting_step h.sound.safe (h.attended j) hw).imp_left (·.since (h.grows hj))

/-- A source that waits while no handler runs for its chat is settled when its chat has come to
the front of the ready queue. -/
theorem settles_of_free (h : FairRun b acts) (hw : (during b acts n).scheduler.Waiting key q)
    (ha : key ∉ (during b acts n).scheduler.active) :
    ∃ m, n ≤ m ∧ (during b acts n).Settled (during b acts m) key q := by
  have hready : key ∈ (during b acts n).scheduler.ready := by
    obtain ⟨rid,hr,-⟩ := hw
    exact (h.sound.owned.waits hr).resolve_right ha
  obtain ⟨m,hm,hserved,hfirst⟩ := Fairness.exists_first ((fifo).served h.keeps_serving hready)
  have hfree : key ∉ (during b acts m).scheduler.active :=
    Fairness.persists (R := fun j => key ∉ (during b acts j).scheduler.active) hm ha
      fun j hj hlt hn hm => ((step_moved ..).active _ hm).elim hn (hfirst j hj hlt)
  rcases h.settled_or_waiting hm hw with hset | ⟨rid,hr,hu⟩
  · exact ⟨m,hm,hset⟩
  · refine ⟨m + 1,by omega,Settled.since ?_ (h.grows hm)⟩
    change (during b acts m).Settled ((during b acts m).step b (acts m)) key q
    generalize acts m = a at hserved
    cases a with
    | take v nowMs =>
      rw [served] at hserved
      split_ifs at hserved with hidle
      · rw [List.take_one] at hserved
        have ht := Scheduler.take_took b v nowMs (during b acts m).scheduler
        exact .inl (ht.released h.sound.safe hidle (Option.mem_toList.mp hserved) hr hfree hu)
      · cases hserved
    | offer | cancel | release | considered | finish => cases hserved

theorem settles (h : FairRun b acts) (hw : (during b acts n).scheduler.Waiting key q) :
    ∃ m, n ≤ m ∧ (during b acts n).Settled (during b acts m) key q := by
  by_cases ha : key ∈ (during b acts n).scheduler.active
  · -- the handler that runs for the chat ends first
    obtain ⟨rid,o,hin⟩ := h.sound.safe.mem_active.mp ha
    obtain ⟨v,hv⟩ := List.mem_iff_getElem?.mp hin
    obtain ⟨m,outcome,hm,hact,-,hhold⟩ := h.ends hv
    have hlater : n ≤ m + 1 := by omega
    rcases h.settled_or_waiting hlater hw with hset | hwait
    · exact ⟨m + 1,hlater,hset⟩
    · obtain ⟨m',hm',hset⟩ := h.settles_of_free hwait (h.idle_after hhold hact).2
      exact ⟨m',by omega,hset.since (h.grows hlater)⟩
  · exact h.settles_of_free hw ha

end FairRun

/-- In every run whose offers are all attended nothing is pending once no handler is in flight and
the ready queue is empty; and in every such endless run in which handlers return, the workers keep
going and accepted offers are fresh, every source of an accepted offer is handed over, dropped by
name or withdrawn by name from that offer on. -/
theorem nothing_stranded (b : SchedulerBounds) :
    (∀ acts, Runs.Along (step b) Attended (initial b) acts → (after b acts).scheduler.inFlight = [] →
      (after b acts).scheduler.ready = [] → (after b acts).scheduler.pending = []) ∧
    ∀ acts, FairRun b acts → ∀ n o, acts n = .offer o →
      ((during b acts n).scheduler.offerWithResult b o).1.accepted = true → ∀ q ∈ o.offered,
        ∃ m, n < m ∧ (during b acts n).Settled (during b acts m) o.key q := by
  constructor
  · intro acts ha hf hr
    have hsound : (after b acts).Sound b :=
      ha.invariant (I := fun d => Sound b d) (fun _ _ hd hat => step_sound hd hat) initial_sound
    exact hsound.pending_eq_nil hf hr
  · intro acts h n o ho hacc q hq
    have hstep : during b acts (n + 1) = (during b acts n).step b (.offer o) := by
      rw [during,Fairness.states,ho]
    have hoffer := accepted_settled h.sound.safe (h.fresh n o ho hacc) hacc hq
    rw [← hstep] at hoffer
    rcases hoffer with hset | hw
    · exact ⟨n + 1,Nat.lt_succ_self n,hset⟩
    · obtain ⟨m,hm,hset⟩ := h.settles hw
      exact ⟨m,hm,hset.since (h.grows (Nat.le_succ n))⟩

/-- A source is offered while the handler runs on another one of its chat; both are handled, and
after that nothing happens. -/
def quietRun : Nat → SchedulerAction
  | 0 => .offer (.inbound "room" .production "m1" 1)
  | 1 => .take 0 0
  | 2 => .offer (.inbound "room" .production "m2" 2)
  | 3 => .finish 0 .returned
  | 4 => .take 1 0
  | 5 => .finish 1 .returned
  | _ => .release ("whatsapp", "room")

theorem quietRun_rests {n : Nat} : during {} quietRun (n + 6) = during {} quietRun 6 := by
  induction n with
  | zero => rfl
  | succ n ih =>
    have hrest : (during {} quietRun 6).step {} (.release ("whatsapp", "room")) = during {} quietRun 6 := rfl
    exact (congrArg (fun d => step {} d _) ih).trans hrest

theorem quietRun_fair : FairRun {} quietRun := by
  have hidle : ∀ w : Nat, ∀ k p o, ([.idle, .idle] : List Worker)[w]? ≠ some (.handling k p o) := by
    rintro (_ | _ | w) k p o h <;> cases h
  constructor
  · rintro (_ | _ | _ | n)
    · decide +kernel
    · trivial
    · decide +kernel
    · rcases n with _ | _ | _ | n <;> trivial
  · rintro (_ | _ | _ | _ | _ | _ | n) o ho <;> cases ho
    · exact fun _ => by decide +kernel
    · exact fun _ => by decide +kernel
  · rintro (_ | _ | _ | _ | _ | _ | n) w key rid o hw
    · exact absurd hw (hidle w key rid o)
    · exact absurd hw (hidle w key rid o)
    · rcases w with _ | _ | w
      · exact ⟨3,by decide,.returned,rfl⟩
      · cases hw
      · cases hw
    · rcases w with _ | _ | w
      · exact ⟨3,by decide,.returned,rfl⟩
      · cases hw
      · cases hw
    · exact absurd hw (hidle w key rid o)
    · rcases w with _ | _ | w
      · cases hw
      · exact ⟨5,by decide,.returned,rfl⟩
      · cases hw
    · rw [quietRun_rests] at hw
      exact absurd hw (hidle w key rid o)
  · rintro (_ | _ | _ | _ | _ | _ | n) w h <;> cases h
  · rintro (_ | _ | _ | _ | _ | _ | n) w - hr
    · exact absurd rfl hr
    · exact ⟨1,by decide,by decide +kernel⟩
    · exact absurd rfl hr
    · exact ⟨4,by decide,by decide +kernel⟩
    · exact ⟨4,by decide,by decide +kernel⟩
    · exact absurd rfl hr
    · rw [quietRun_rests] at hr
      exact absurd rfl hr

/-- The second source is settled after its offer, and the finished prefix leaves nothing pending. -/
theorem quietRun_settles :
    FairRun {} quietRun ∧
    (∃ m, 2 < m ∧ (during {} quietRun 2).Settled (during {} quietRun m) ("whatsapp", "room") "m2") ∧
    (after {} ((List.range 6).map quietRun)).scheduler.pending = [] := by
  refine ⟨quietRun_fair,?_,?_⟩
  · exact (nothing_stranded {}).2 quietRun quietRun_fair 2 (.inbound "room" .production "m2" 2) rfl
      (by decide +kernel) "m2" (by decide +kernel)
  · exact (nothing_stranded {}).1 _ (by decide +kernel) (by decide +kernel) (by decide +kernel)

/-- A chat is cancelled and released while its handler runs; the next offer opens a second record,
another worker discards its ready entry because the chat is active, and the first handler does not
requeue a record that is not its own. In a second run an offer of another epoch empties the pending
record, and the report names the sources of the new offer only. -/
theorem record_stranded :
    let d := after {} [.offer (.inbound "room" .production "m1" 1), .take 0 0,
      .cancel ("whatsapp", "room") "direct", .release ("whatsapp", "room"),
      .offer (.inbound "room" .production "m2" 2), .take 1 0, .finish 0 .returned]
    let e := after {} [.offer (.inbound "room" .production "m1" 1),
      .offer { ParticipationOpportunity.inbound "room" .production "m2" 2 with activationEpoch := 2 },
      .take 0 0, .finish 0 .returned]
    (d.scheduler.inFlight = [] ∧ d.scheduler.ready = [] ∧
      d.scheduler.pending.map Prod.fst = [("whatsapp", "room")] ∧
      d.offers.map (fun p => (p.1.offered, p.2.accepted, p.2.droppedSourceEventIds)) =
        [(["m1"], true, []), (["m2"], true, [])] ∧
      d.scheduler.handed.map (·.sourceEventIds) = [["m1"]] ∧
      ∀ r ∈ d.scheduler.reports, "m2" ∉ r.opportunity.sourceEventIds) ∧
    e.scheduler.pending = [] ∧
    e.offers.map (fun p => (p.1.offered, p.2.accepted, p.2.droppedSourceEventIds)) =
      [(["m1"], true, []), (["m2"], true, [])] ∧
    e.scheduler.handed.map (·.sourceEventIds) = [["m2"]] ∧
    ∀ r ∈ e.scheduler.reports, "m1" ∉ r.opportunity.sourceEventIds := by
  decide +kernel

end OpportunityDesk
end Yeoman.Consciousness
