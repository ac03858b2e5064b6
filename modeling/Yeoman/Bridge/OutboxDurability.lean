import Yeoman.Bridge.OutboxSteps

/-! An event whose append was answered stays in the outbox until it is acknowledged, through every
crash, and the outbox lists its events in the order in which they were written. -/
namespace Yeoman.Bridge
open Library Table Runs

namespace Outbox
variable {o o' : Outbox} {w : Write} {rest : List Write} {ok : Bool} {r : Nat × ReplayableBridgeEvent}

def records (o : Outbox) : List (Nat × ReplayableBridgeEvent) := o.entries.map OutboxEntry.record

structure Kept (r : Nat × ReplayableBridgeEvent) (o : Outbox) : Prop where
  durable : ∀ d ∈ o.disk.states, r ∈ recordsOf d
  known : o.opening = .opened → r ∈ o.records

theorem Sound.records_on_disk (h : o.Sound) (ho : o.opening = .opened) (hr : r ∈ o.records) :
    r ∈ recordsOf o.disk.directory := by
  obtain ⟨temporary,-,hdir⟩ := h.agrees ho
  rw [hdir,recordsOf,entriesOf_append,h.entriesOf_base,List.map_append]
  exact List.mem_append_left _ hr

theorem Ran.states (hr : Ran ok o w rest o') : ∀ d ∈ o'.disk.states, d = o'.disk.directory ∨ d ∈ o.disk.states := by
  intro d hd
  cases hr with
  | created | synced | torn | published | removed => exact List.mem_cons.mp hd
  | refused | found | remembered | absent => exact .inr hd

theorem Ran.records (hr : Ran ok o w rest o') (ha : w.operation ≠ .ack r.2.eventId) (h : r ∈ o.records) :
    r ∈ o'.records := by
  cases hr with
  | created | synced | refused | found | torn | absent => exact h
  | published e | remembered e =>
    obtain ⟨x,hx,he⟩ := List.mem_map.mp h
    exact List.mem_map.mpr ⟨x,List.mem_append_left _ hx,he⟩
  | removed eventId x ack =>
    obtain ⟨y,hy,rfl⟩ := List.mem_map.mp h
    refine List.mem_map.mpr ⟨y,mem_remove.mpr ⟨hy,?_⟩,rfl⟩
    rintro rfl
    exact ha ack

theorem Kept.ran (h : Kept r o) (hs : o.Sound) (hb : o.batch = w :: rest) (hr : Ran ok o w rest o')
    (ha : w.operation ≠ .ack r.2.eventId) : Kept r o' := by
  have hknown : r ∈ o'.records := hr.records ha (h.known (hs.opened hb))
  have ho : o'.opening = .opened := by
    have ho := hs.opened hb
    cases hr <;> exact ho
  refine ⟨fun d hd => ?_,fun _ => hknown⟩
  rcases hr.states d hd with rfl | hd
  · exact (hs.ran hb hr).records_on_disk ho hknown
  · exact h.durable d hd

theorem Kept.load (h : Kept r o) (hs : o.Sound) : Kept r o.load := by
  have htidy := hs.tidy o.disk.directory List.mem_cons_self
  have hdir := h.durable o.disk.directory List.mem_cons_self
  constructor
  · unfold Outbox.load
    dsimp only
    split
    · exact h.durable
    · intro d hd
      rw [List.mem_singleton.mp hd]
      change r ∈ recordsOf (o.disk.directory.filter fun f => f.name ∉ (scan o.disk.directory).rejected)
      rw [recordsOf,Scan.entriesOf_unlink htidy fun _ hn => hn]
      exact hdir
  · intro _
    have hentries : o.load.entries = entriesOf o.disk.directory := Scan.listed_tidy htidy
    rw [Outbox.records,hentries]
    exact hdir

theorem Kept.failLoad (h : Kept r o) (hs : o.Sound) {n : Nat} : Kept r (o.failLoad n) := by
  refine ⟨fun d hd => ?_,fun ho => Opening.noConfusion ho⟩
  rcases List.mem_cons.mp hd with rfl | hd
  · have htidy := hs.tidy o.disk.directory List.mem_cons_self
    have hsame : entriesOf (o.failLoad n).disk.directory = entriesOf o.disk.directory :=
      Scan.entriesOf_unlink htidy fun _ hn => List.mem_of_mem_take hn
    rw [recordsOf,hsame]
    exact h.durable o.disk.directory List.mem_cons_self
  · exact h.durable d hd

theorem Kept.endProcess (h : Kept r o) {disk : Disk} (hd : ∀ d ∈ disk.states, d ∈ o.disk.states) :
    Kept r (o.endProcess disk) :=
  ⟨fun d hm => h.durable d (hd d hm),fun ho => Opening.noConfusion ho⟩

/-- Every call has its own number. -/
structure Numbered (o : Outbox) : Prop where
  unrun : ∀ w ∈ o.unrun, w.ticket < o.calls
  settled : ∀ x ∈ o.settled, x.1.ticket < o.calls
  outcomes : ∀ x ∈ o.outcomes, x.1 < o.calls
  failed : o.opening = .failed → o.writes = []

def Answers (e e' : ReplayableBridgeEvent) : Prop := e'.eventId = e.eventId ∧ sameReplayableEvent e' e = true

/-- What becomes of a numbered append while its event is not acknowledged: it waits, or the record
it is answered with is kept. -/
inductive Tracked (t : Nat) (e : ReplayableBridgeEvent) (o : Outbox) : Prop where
  | queued (before later : List Write) (unrun : o.unrun = before ++ ⟨t,.append e⟩ :: later)
    (others : ∀ w ∈ before ++ later, w.ticket ≠ t) (unacked : ∀ w ∈ later, w.operation ≠ .ack e.eventId)
    (unsettled : ∀ x ∈ o.settled, x.1.ticket ≠ t) (unanswered : ∀ x ∈ o.outcomes, x.1 ≠ t)
  | passed (others : ∀ w ∈ o.unrun, w.ticket ≠ t ∧ w.operation ≠ .ack e.eventId)
    (settled : ∀ x ∈ o.settled, x.1.ticket = t → ∀ n e', x.2 = .stored n e' → Answers e e' ∧ (n, e') ∈ o.records)
    (answered : ∀ n e', (t, .stored n e') ∈ o.outcomes → Answers e e' ∧ Kept (n, e') o)

theorem Ran.frame (hr : Ran ok o w rest o') :
    o'.opening = o.opening ∧ o'.writes = o.writes ∧ o'.calls = o.calls ∧ o'.outcomes = o.outcomes ∧
      (o'.batch = o.batch ∧ o'.settled = o.settled ∨
        ∃ outcome, o'.batch = rest ∧ o'.settled = o.settled ++ [(w, outcome)]) := by
  cases hr with
  | created | synced => exact ⟨rfl,rfl,rfl,rfl,.inl ⟨rfl,rfl⟩⟩
  | refused | found | torn | published | remembered | absent | removed =>
    exact ⟨rfl,rfl,rfl,rfl,.inr ⟨_,rfl,rfl⟩⟩

namespace Numbered

theorem ran (h : Numbered o) (hb : o.batch = w :: rest) (hr : Ran ok o w rest o') : Numbered o' := by
  have hw : ∀ v ∈ o.batch ++ o.writes, v.ticket < o.calls := h.unrun
  obtain ⟨hopen,hwrites,hcalls,hout,hsame | ⟨outcome,hrest,hset⟩⟩ := hr.frame
  all_goals refine ⟨?_,?_,by rw [hout,hcalls]; exact h.outcomes,by rw [hopen,hwrites]; exact h.failed⟩
  · rw [Outbox.unrun,hsame.1,hwrites,hcalls]
    exact hw
  · rw [hsame.2,hcalls]
    exact h.settled
  · rw [Outbox.unrun,hrest,hwrites,hcalls]
    exact fun v hv => hw v (hb ▸ List.mem_cons_of_mem w hv)
  · rw [hset,hcalls]
    exact forall_mem_concat h.settled (hw w (hb ▸ List.mem_cons_self))

theorem call (h : Numbered o) {operation : Operation} : Numbered (o.call operation) := by
  have hlt : ∀ {n}, n < o.calls → n < o.calls + 1 := Nat.lt_succ_of_lt
  unfold Outbox.call
  split
  · exact ⟨fun w hw => hlt (h.unrun w hw),fun x hx => hlt (h.settled x hx),
      forall_mem_concat (fun x hx => hlt (h.outcomes x hx)) (Nat.lt_succ_self _),h.failed⟩
  next hn =>
    refine ⟨?_,fun x hx => hlt (h.settled x hx),fun x hx => hlt (h.outcomes x hx),fun hf => absurd hf hn⟩
    rw [Outbox.unrun,← List.append_assoc]
    exact forall_mem_concat (fun w hw => hlt (h.unrun w hw)) (Nat.lt_succ_self _)

theorem step (h : Numbered o) {a : OutboxAction} (hc : a.cleans = true) : Numbered (o.step a) := by
  cases a with
  | append | ack => exact h.call
  | load failsAfter =>
    unfold Outbox.step
    dsimp only
    split
    · exact { h with failed := fun hf => Opening.noConfusion hf }
    · refine ⟨fun w hw => ?_,h.settled,fun x hx => ?_,fun _ => rfl⟩
      · refine h.unrun w (List.mem_append_left _ ?_)
        change w ∈ o.batch ++ [] at hw
        rwa [List.append_nil] at hw
      · exact List.forall_mem_append.mpr ⟨h.outcomes,List.forall_mem_map.mpr fun w hw =>
          h.unrun w (List.mem_append_right _ hw)⟩ x hx
    · exact h
  | beginBatch =>
    change Numbered o.beginBatch
    unfold Outbox.beginBatch
    split_ifs with hb
    · refine ⟨?_,h.settled,h.outcomes,fun hf => Opening.noConfusion (hb.1.symm.trans hf)⟩
      change ∀ w ∈ o.writes.take groupSize ++ o.writes.drop groupSize, w.ticket < o.calls
      rw [List.take_append_drop]
      exact fun w hw => h.unrun w (List.mem_append_right _ hw)
    · exact h
  | runWrite ok =>
    cases hb : o.batch with
    | nil =>
      have hstep : o.step (.runWrite ok) = o := runWrite_idle hb
      rw [hstep]
      exact h
    | cons w rest => exact h.ran hb (runWrite_ran hb)
  | abandonWrite => cases hc
  | barrier ok =>
    change Numbered (o.barrier ok)
    unfold Outbox.barrier
    split
    · exact ⟨h.unrun,fun _ hx => absurd hx List.not_mem_nil,
        List.forall_mem_append.mpr ⟨h.outcomes,List.forall_mem_map.mpr h.settled⟩,h.failed⟩
    · exact h
  | restart | powerLoss k =>
    exact ⟨fun _ hw => absurd hw List.not_mem_nil,fun _ hx => absurd hx List.not_mem_nil,h.outcomes,fun _ => rfl⟩

end Numbered

theorem numbered_after {acts : List OutboxAction} (hc : ∀ a ∈ acts, a.cleans = true) : Numbered (after acts) := by
  refine (Along.of_forall hc).invariant (fun _ _ h hc => h.step hc) ?_
  exact ⟨fun _ hw => absurd hw List.not_mem_nil,fun _ hx => absurd hx List.not_mem_nil,
    fun _ hx => absurd hx List.not_mem_nil,fun _ => rfl⟩

namespace Tracked
variable {t : Nat} {e : ReplayableBridgeEvent}

theorem call (h : Tracked t e o) (ht : t < o.calls) {operation : Operation} (ha : operation ≠ .ack e.eventId) :
    Tracked t e (o.call operation) := by
  have hne : o.calls ≠ t := Nat.ne_of_gt ht
  unfold Outbox.call
  split
  · cases h with
    | queued before later unrun others unacked unsettled unanswered =>
      exact .queued before later unrun others unacked unsettled (forall_mem_concat unanswered hne)
    | passed others settled answered =>
      refine .passed others settled fun n e' hx => ?_
      rcases mem_concat.mp hx with hx | hx
      · exact (answered n e' hx).imp_right fun hk => ⟨hk.durable,hk.known⟩
      · exact absurd (congrArg Prod.fst hx).symm hne
  · cases h with
    | queued before later unrun others unacked unsettled unanswered =>
      refine .queued before (later ++ [⟨o.calls,operation⟩]) ?_ ?_ ?_ unsettled unanswered
      · change o.batch ++ (o.writes ++ [_]) = _
        rw [← List.append_assoc]
        change o.unrun ++ [_] = _
        rw [unrun,List.append_assoc,List.cons_append]
      · rw [← List.append_assoc]
        exact forall_mem_concat others hne
      · exact forall_mem_concat unacked ha
    | passed others settled answered =>
      refine .passed ?_ settled fun n e' hx => (answered n e' hx).imp_right fun hk => ⟨hk.durable,hk.known⟩
      rw [Outbox.unrun,← List.append_assoc]
      exact forall_mem_concat others ⟨hne,ha⟩

theorem load (h : Tracked t e o) (hs : o.Sound) (hc : o.opening = .closed) : Tracked t e o.load := by
  obtain ⟨-,hsettled,-⟩ := hs.idle (by rw [hc]; exact Opening.noConfusion)
  cases h with
  | queued before later unrun others unacked unsettled unanswered =>
    exact .queued before later unrun others unacked unsettled unanswered
  | passed others settled answered =>
    refine .passed others (fun x hx => ?_) fun n e' hx => (answered n e' hx).imp_right fun hk => hk.load hs
    change x ∈ o.settled at hx
    rw [hsettled] at hx
    cases hx

theorem dropped (h : Tracked t e o) (hw : o'.unrun = []) (hx : o'.settled = [])
    (ho : ∀ n e', (t, .stored n e') ∈ o'.outcomes → (t, .stored n e') ∈ o.outcomes)
    (hk : ∀ r, Kept r o → Kept r o') : Tracked t e o' := by
  refine .passed (fun w hm => ?_) (fun x hm => ?_) fun n e' hm => ?_
  · rw [hw] at hm
    cases hm
  · rw [hx] at hm
    cases hm
  · cases h with
    | queued before later unrun others unacked unsettled unanswered => exact absurd rfl (unanswered _ (ho n e' hm))
    | passed others settled answered => exact (answered n e' (ho n e' hm)).imp_right (hk _)

theorem beginBatch (h : Tracked t e o) : Tracked t e o.beginBatch := by
  unfold Outbox.beginBatch
  split_ifs with hb
  · have hunrun : o.writes.take groupSize ++ o.writes.drop groupSize = o.unrun := by
      rw [List.take_append_drop,Outbox.unrun,hb.2.1,List.nil_append]
    cases h with
    | queued before later unrun others unacked unsettled unanswered =>
      exact .queued before later (hunrun.trans unrun) others unacked unsettled unanswered
    | passed others settled answered =>
      exact .passed (fun w hw => others w (hunrun ▸ hw)) settled fun n e' hx =>
        (answered n e' hx).imp_right fun hk => ⟨hk.durable,hk.known⟩
  · exact h

theorem answers_of_ran (hr : Ran ok o ⟨t,.append e⟩ rest o') {n : Nat} {e' : ReplayableBridgeEvent}
    (hx : (⟨t,.append e⟩, .stored n e') ∈ o'.settled) (hu : ∀ x ∈ o.settled, x.1.ticket ≠ t) :
    Answers e e' ∧ (n, e') ∈ o'.records := by
  have hnew : ∀ {outcome : Outcome}, (Write.mk t (.append e), Outcome.stored n e') ∈
      o.settled ++ [(⟨t,.append e⟩, outcome)] → Outcome.stored n e' = outcome := by
    intro outcome hm
    rcases mem_concat.mp hm with hm | hm
    · exact absurd rfl (hu _ hm)
    · exact congrArg Prod.snd hm
  cases hr with
  | created | synced => exact absurd rfl (hu _ hx)
  | refused | torn | remembered => cases hnew hx
  | found e₀ x append unstaged stored same =>
    cases append
    cases hnew hx
    obtain ⟨hm,hid⟩ := lookup_some stored
    exact ⟨⟨hid,same⟩,List.mem_map_of_mem hm⟩
  | published e₀ append =>
    cases append
    cases hnew hx
    refine ⟨⟨rfl,sameReplayableEvent_refl⟩,?_⟩
    exact List.mem_map_of_mem (f := OutboxEntry.record) List.mem_concat_self
  | absent eventId ack | removed eventId x ack => cases ack

theorem ran (h : Tracked t e o) (hs : o.Sound) (hb : o.batch = w :: rest) (hr : Ran ok o w rest o') : Tracked t e o' := by
  obtain ⟨hopen,hwrites,-,hout,hsame | ⟨outcome,hrest,hset⟩⟩ := hr.frame
  · have hunrun : o'.unrun = o.unrun := by rw [Outbox.unrun,Outbox.unrun,hsame.1,hwrites]
    cases h with
    | queued before later unrun others unacked unsettled unanswered =>
      exact .queued before later (hunrun.trans unrun) others unacked (hsame.2 ▸ unsettled) (hout ▸ unanswered)
    | passed others settled answered =>
      have hw := (others w (by rw [Outbox.unrun,hb]; exact List.mem_cons_self)).2
      refine .passed (hunrun ▸ others) (fun x hx ht n e' he => ?_) fun n e' hx => ?_
      · obtain ⟨hanswers,hknown⟩ := settled x (hsame.2 ▸ hx) ht n e' he
        exact ⟨hanswers,hr.records (hanswers.1.symm ▸ hw) hknown⟩
      · obtain ⟨hanswers,hkept⟩ := answered n e' (hout ▸ hx)
        exact ⟨hanswers,hkept.ran hs hb hr (hanswers.1.symm ▸ hw)⟩
  · have hunrun : o.unrun = w :: o'.unrun := by rw [Outbox.unrun,Outbox.unrun,hb,hrest,hwrites,List.cons_append]
    cases h with
    | queued before later unrun others unacked unsettled unanswered =>
      rw [hunrun] at unrun
      cases before with
      | nil =>
        -- the append itself has run
        obtain ⟨rfl,hlater⟩ := List.cons.inj unrun
        refine .passed (fun v hv => ?_) (fun x hx ht n e' he => ?_) fun n e' hx => absurd rfl (unanswered _ (hout ▸ hx))
        · rw [hlater] at hv
          exact ⟨others v hv,unacked v hv⟩
        · have hx' := hx
          rw [hset] at hx'
          rcases mem_concat.mp hx' with hx' | hx'
          · exact absurd ht (unsettled x hx')
          · have hw : x.1 = ⟨t,.append e⟩ := congrArg Prod.fst hx'
            refine answers_of_ran hr ?_ unsettled
            rw [← hw,← he]
            exact hx
      | cons v before =>
        obtain ⟨rfl,hlater⟩ := List.cons.inj unrun
        refine .queued before later hlater (fun v hv => others v (List.mem_cons_of_mem _ hv)) unacked ?_ (hout ▸ unanswered)
        rw [hset]
        exact forall_mem_concat unsettled (others w List.mem_cons_self)
    | passed others settled answered =>
      rw [hunrun] at others
      have hw := others w List.mem_cons_self
      refine .passed (fun v hv => others v (List.mem_cons_of_mem _ hv)) (fun x hx ht n e' he => ?_) fun n e' hx => ?_
      · rw [hset] at hx
        rcases mem_concat.mp hx with hx | rfl
        · obtain ⟨hanswers,hknown⟩ := settled x hx ht n e' he
          exact ⟨hanswers,hr.records (hanswers.1.symm ▸ hw.2) hknown⟩
        · exact absurd ht hw.1
      · obtain ⟨hanswers,hkept⟩ := answered n e' (hout ▸ hx)
        exact ⟨hanswers,hkept.ran hs hb hr (hanswers.1.symm ▸ hw.2)⟩

theorem barrier (h : Tracked t e o) (hs : o.Sound) : Tracked t e (o.barrier ok) := by
  unfold Outbox.barrier
  split
  next hb =>
    have hstates : ∀ d ∈ (if ok = true ∧ o.settled ≠ [] then o.disk.sync else o.disk).states, d ∈ o.disk.states := by
      split
      · intro d hd
        rw [List.mem_singleton.mp hd]
        exact List.mem_cons_self
      · exact fun _ hd => hd
    cases h with
    | queued before later unrun others unacked unsettled unanswered =>
      exact .queued before later unrun others unacked (fun _ hx => absurd hx List.not_mem_nil)
        (List.forall_mem_append.mpr ⟨unanswered,List.forall_mem_map.mpr unsettled⟩)
    | passed others settled answered =>
      refine .passed others (fun _ hx => absurd hx List.not_mem_nil) fun n e' hx => ?_
      rcases List.mem_append.mp hx with hx | hx
      · exact (answered n e' hx).imp_right fun hk => ⟨fun d hd => hk.durable d (hstates d hd),hk.known⟩
      · obtain ⟨y,hy,he⟩ := List.mem_map.mp hx
        obtain ⟨ht,hout⟩ := Prod.mk.inj he
        cases ok with
        | false => cases hout
        | true =>
          -- the barrier leaves the one state in which the record is known
          obtain ⟨hanswers,hknown⟩ := settled y hy ht n e' hout
          have hne : o.settled ≠ [] := List.ne_nil_of_mem hy
          have ho : o.opening = .opened := by
            by_contra hn
            exact hne (hs.idle hn).2.1
          refine ⟨hanswers,fun d hd => ?_,fun _ => hknown⟩
          rw [if_pos ⟨rfl,hne⟩] at hd
          rw [List.mem_singleton.mp hd]
          exact hs.records_on_disk ho hknown
  · exact h

theorem step (h : Tracked t e o) (hs : o.Sound) (ht : t < o.calls) {a : OutboxAction} (hc : a.cleans = true)
    (ha : a ≠ .ack e.eventId) :
    Tracked t e (o.step a) := by
  cases a with
  | append e' => exact h.call ht Operation.noConfusion
  | ack eventId => exact h.call ht fun he => ha (congrArg OutboxAction.ack (Operation.ack.inj he))
  | load failsAfter =>
    clear ha hc
    unfold Outbox.step
    dsimp only
    split
    next hc =>
      exact h.load hs hc
    next n hc =>
      obtain ⟨hb,hx,-⟩ := hs.idle (by rw [hc]; exact Opening.noConfusion)
      refine h.dropped ?_ hx (fun n e' hm => ?_) fun r hk => hk.failLoad hs
      · change o.batch ++ [] = []
        rw [hb,List.append_nil]
      · rcases List.mem_append.mp hm with hm | hm
        · exact hm
        · obtain ⟨w,-,he⟩ := List.mem_map.mp hm
          cases (Prod.mk.inj he).2
    · exact h
  | beginBatch => exact h.beginBatch
  | runWrite ok =>
    cases hb : o.batch with
    | nil =>
      have hstep : o.step (.runWrite ok) = o := runWrite_idle hb
      rw [hstep]
      exact h
    | cons w rest => exact h.ran hs hb (runWrite_ran hb)
  | abandonWrite => cases hc
  | barrier ok => exact h.barrier hs
  | restart => exact h.dropped rfl rfl (fun _ _ hm => hm) fun r hk => hk.endProcess fun _ hd => hd
  | powerLoss k => exact h.dropped rfl rfl (fun _ _ hm => hm) fun r hk => hk.endProcess powerLoss_states

end Tracked
variable {e : ReplayableBridgeEvent}

theorem Tracked.called (hs : o.Sound) (hn : Numbered o) : Tracked o.calls e (o.call (.append e)) := by
  have hw : ∀ w ∈ o.unrun, w.ticket ≠ o.calls := fun w hm => Nat.ne_of_lt (hn.unrun w hm)
  have hx : ∀ x ∈ o.settled, x.1.ticket ≠ o.calls := fun x hm => Nat.ne_of_lt (hn.settled x hm)
  have ho : ∀ x ∈ o.outcomes, x.1 ≠ o.calls := fun x hm => Nat.ne_of_lt (hn.outcomes x hm)
  unfold Outbox.call
  split
  next hf =>
    have hnone : o.unrun = [] := by
      rw [unrun,(hs.idle (by rw [hf]; exact Opening.noConfusion)).1,hn.failed hf,List.append_nil]
    refine .passed (fun w hm => ?_) (fun x hm ht => absurd ht (hx x hm)) fun n e' hm => ?_
    · change w ∈ o.unrun at hm
      rw [hnone] at hm
      cases hm
    · rcases mem_concat.mp hm with hm | hm
      · exact absurd rfl (ho _ hm)
      · cases (Prod.mk.inj hm).2
  · refine .queued o.unrun [] ?_ (by simpa using hw) (fun _ hm => absurd hm List.not_mem_nil) hx ho
    exact (List.append_assoc ..).symm

theorem calls_le {a : OutboxAction} (hc : a.cleans = true) : o.calls ≤ (o.step a).calls := by
  have hcall : ∀ operation, o.calls ≤ (o.call operation).calls := by
    intro operation
    unfold call
    split <;> exact Nat.le_succ _
  cases a with
  | append | ack => exact hcall _
  | load failsAfter =>
    unfold step
    dsimp only
    split <;> exact Nat.le_refl _
  | beginBatch =>
    change o.calls ≤ o.beginBatch.calls
    unfold beginBatch
    split <;> exact Nat.le_refl _
  | runWrite ok =>
    cases hb : o.batch with
    | nil => exact (congrArg calls (runWrite_idle hb)).ge
    | cons w rest => exact (runWrite_ran hb).frame.2.2.1.ge
  | abandonWrite => cases hc
  | barrier ok =>
    change o.calls ≤ (o.barrier ok).calls
    unfold barrier
    split <;> exact Nat.le_refl _
  | restart | powerLoss k => exact Nat.le_refl _

/-- By induction over what comes after the call: the append stays tracked while its event is not
acknowledged. -/
theorem tracked_run {t : Nat} {later : List OutboxAction} (hc : ∀ a ∈ later, a.cleans = true)
    (ha : ∀ a ∈ later, a ≠ .ack e.eventId) (hs : o.Sound) (ht : t < o.calls) (h : Tracked t e o) :
    Tracked t e (run Outbox.step o later) := by
  induction later generalizing o with
  | nil => exact h
  | cons a later ih =>
    have hclean := hc a List.mem_cons_self
    exact ih (fun b hb => hc b (List.mem_cons_of_mem a hb)) (fun b hb => ha b (List.mem_cons_of_mem a hb))
      (hs.step hclean) (ht.trans_le (calls_le hclean)) (h.step hs ht hclean (ha a List.mem_cons_self))

theorem Sound.listed_eq (h : o.Sound) : o.listed = o.entries :=
  (h.sequences.imp Nat.le_of_lt).insertionSort_eq

theorem Sound.records_written (h : o.Sound) : o.records.Sublist o.written := by
  by_cases ho : o.opening = .opened
  · have hw := (h.base ho).written
    rwa [recordsOf,h.entriesOf_base] at hw
  · rw [records,(h.idle ho).2.2.2]
    exact List.nil_sublist _

/-- Whatever appends, acknowledgements, failed file operations, failed barriers, crashes and
reopenings follow one another, as long as a failed write is cleaned up: an event whose append was answered and that no later call
acknowledges is listed whenever the outbox is open, every event is listed once, the listed records
stand in the order in which they were written, and an append of an event the outbox holds is
answered with what it holds. -/
theorem answered_events_stay (acts : List OutboxAction) (hc : ∀ a ∈ acts, a.cleans = true) :
    (∀ before e later n e', acts = before ++ .append e :: later → (∀ a ∈ later, a ≠ .ack e.eventId) →
      ((after before).calls, .stored n e') ∈ (after acts).outcomes →
        sameReplayableEvent e' e = true ∧ ((after acts).opening = .opened → e' ∈ (after acts).pending)) ∧
    ((after acts).pending.map ReplayableBridgeEvent.eventId).Nodup ∧
    ((after acts).listed.map OutboxEntry.record).Sublist (after acts).written ∧
    ∀ w e rest x ok, (after acts).batch = w :: rest → w.operation = .append e → x ∈ (after acts).entries →
      x.eventId = e.eventId → sameReplayableEvent x.event e = true →
        (after acts).runWrite ok = (after acts).ended w rest
          (if maxBridgeFrameBytes < e.serializedBytes then .failed .tooLarge else .stored x.sequence x.event) := by
  have hs := sound_after hc
  refine ⟨?_,?_,?_,?_⟩
  · rintro before e later n e' rfl ha hout
    have hcalls : (after before).calls < ((after before).call (.append e)).calls := by
      unfold call
      split <;> exact Nat.lt_succ_self _
    obtain ⟨hbefore,hlater⟩ := List.forall_mem_append.mp hc
    have hstart := sound_after hbefore
    have htracked := tracked_run (fun a hm => hlater a (List.mem_cons_of_mem _ hm)) ha hstart.call hcalls
      (.called hstart (numbered_after hbefore))
    have hrun : after (before ++ .append e :: later) = run step ((after before).call (.append e)) later := by
      rw [after,run_append]
      rfl
    rw [hrun] at hout ⊢
    cases htracked with
    | queued _ _ _ _ _ _ unanswered => exact absurd rfl (unanswered _ hout)
    | passed _ _ answered =>
      obtain ⟨hanswers,hkept⟩ := answered n e' hout
      refine ⟨hanswers.2,fun ho => ?_⟩
      obtain ⟨x,hx,he⟩ := List.mem_map.mp (hkept.known ho)
      refine List.mem_map.mpr ⟨x,(List.perm_insertionSort _ _).mem_iff.mpr hx,congrArg Prod.snd he⟩
  · rw [pending,hs.listed_eq,List.map_map]
    exact hs.distinct
  · rw [hs.listed_eq]
    exact hs.records_written
  · intro w e rest x ok hb ha hx hid hsame
    have hfind : (after acts).find e.eventId = some x := by
      rw [← hid]
      exact hs.distinct.lookup_of_mem hx
    cases hst : (after acts).staging with
    | some stage => cases hfind.symm.trans (hs.staged hb ha hst).2.1
    | none =>
      rw [runWrite,hb,hst]
      dsimp only
      rw [ha]
      dsimp only
      rw [startAppend,hfind]
      dsimp only
      rw [if_pos hsame,settle_eq hb,settle_eq hb]
      split <;> rfl

/-- A stored and answered event is there after a power loss. -/
theorem stored_event_survives_power_loss :
    let a := ReplayableBridgeEvent.messageWithId "a" "first" (by decide)
    let later : List OutboxAction := [.beginBatch, .runWrite true, .runWrite true, .runWrite true, .barrier true,
      .powerLoss 1, .load none]
    ∃ e ∈ (after ([.load none] ++ .append a :: later)).pending, sameReplayableEvent e a = true := by
  intro a later
  have hanswer : (after ([.load none] ++ .append a :: later)).outcomes.map (fun x => (x.1, x.2.eventId?)) =
      [((after [.load none]).calls, some "a")] := by decide +kernel
  have hopen : (after ([.load none] ++ .append a :: later)).opening = .opened := by decide +kernel
  have hstays := fun n e => (answered_events_stay ([.load none] ++ .append a :: later) (by decide +kernel)).1
    [.load none] a later n e rfl (by simp [later])
  generalize after ([.load none] ++ .append a :: later) = o at hanswer hopen hstays ⊢
  generalize (after [.load none]).calls = ticket at hanswer hstays
  have hmem : (ticket, some "a") ∈ o.outcomes.map fun x => (x.1, x.2.eventId?) := by
    rw [hanswer]
    exact List.mem_singleton_self _
  obtain ⟨⟨_,outcome⟩,hout,hstored⟩ := List.mem_map.mp hmem
  obtain ⟨rfl,hid⟩ := Prod.mk.inj hstored
  cases outcome with
  | stored n e => exact ⟨e,(hstays n e hout).2 hopen,(hstays n e hout).1⟩
  | acknowledged | failed => cases hid

/-- The append of the first event fails at its barrier, the second one is answered, and then the
first one is tried again and answered: it is listed first all the same. -/
theorem retried_append_listed_first :
    let a := ReplayableBridgeEvent.messageWithId "a" "first" (by decide)
    let b := ReplayableBridgeEvent.messageWithId "b" "second" (by decide)
    let stored : List OutboxAction := [.beginBatch, .runWrite true, .runWrite true, .runWrite true]
    let o := after ([.load none, .append a] ++ stored ++ [.barrier false, .append b] ++ stored ++
      [.barrier true, .append a, .beginBatch, .runWrite true, .barrier true])
    o.outcomes.map (fun x => (x.1, x.2.eventId?)) = [(0, none), (1, some "b"), (2, some "a")] ∧
      o.pending.map ReplayableBridgeEvent.eventId = ["a", "b"] := by
  decide +kernel

end Outbox
end Yeoman.Bridge
