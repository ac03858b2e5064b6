import Yeoman.Processing.AuditTrail
import Yeoman.Processing.ReplyEvidence
import Yeoman.Processing.TurnSteps

/-! What retention takes and what the database keeps: a pass leaves nothing for a pass that is not later, no
operation touches an event of the canonical log but to say where it belongs, conversations are never lost, and
without retention the ledgers only grow. -/
namespace Yeoman.Processing
open Library Table Txn Runs

/-- An event without the place it was put in. -/
def EventRow.content (e : EventRow) : EventRow := { e with threadId := none, turnId := none }

def EventsKept (p : EventRow → Prop) (t t' : List EventRow) : Prop :=
  ∀ e ∈ t, p e → ∃ e' ∈ t', e'.content = e.content

section Journal
variable {e e' : EventRow} {op : Op}

theorem channel_of_content (h : e'.content = e.content) : e'.channel = e.channel :=
  show e'.content.channel = e.content.channel from congrArg EventRow.channel h

theorem Op.events_kept (op : Op) (s : Store) :
    EventsKept (fun e => e.channel = "whatsapp" ∨ op.Retains) s.events (op.exec s).events := by
  intro e he hp
  cases op.journal_step (s := s) with
  | kept h =>
    rw [show (op.exec s).events = s.events from h]
    exact ⟨e,he,rfl⟩
  | appended h hs hs' =>
    rw [← show _ = (op.exec s).events from congrArg Prod.fst hs']
    rw [← show _ = s.events from congrArg Prod.fst hs] at he
    cases h with
    | refused | replayed => exact ⟨e,he,rfl⟩
    | journaled => exact ⟨e,List.mem_append_left _ he,rfl⟩
  | attached eventId th tu hop h =>
    rw [show (op.exec s).events = _ from congrArg Prod.fst h]
    refine ⟨_,mem_updateWhere.mpr ⟨e,he,rfl⟩,?_⟩
    split <;> rfl
  | purged rs n hop =>
    subst hop
    have hw : e.channel = "whatsapp" := hp.resolve_right id
    refine ⟨e,List.mem_filter.mpr ⟨mem_updateWhere.mpr ⟨e,he,?_⟩,?_⟩,rfl⟩
    · simp [payloadDue,hw]
    · simp [eventDue,hw]

theorem EventsKept.trans {p : EventRow → Prop} (hp : ∀ e e' : EventRow, e'.content = e.content → p e → p e')
    (a b c : List EventRow) (h : EventsKept p a b) (h' : EventsKept p b c) : EventsKept p a c := by
  intro e he hpe
  obtain ⟨e₁,h₁,hc₁⟩ := h e he hpe
  obtain ⟨e₂,h₂,hc₂⟩ := h' e₁ h₁ (hp e e₁ hc₁ hpe)
  exact ⟨e₂,h₂,hc₂.trans hc₁⟩

/-- Over every run, retention and crashes included, the events of the canonical log stay as they
were journaled; so do all others as long as retention does not run. -/
theorem journal_kept (w : World) (as : List Action) :
    EventsKept (fun e => e.channel = "whatsapp" ∨ ∀ a ∈ as, a.Retains) w.store.events
      (run World.step w as).store.events :=
  w.run_store (R := fun s s' => EventsKept _ s.events s'.events) (P := fun op => (∀ a ∈ as, a.Retains) → op.Retains)
    (fun _ e he _ => ⟨e,he,rfl⟩)
    (fun _ _ _ => .trans (fun _ _ hc => Or.imp_left (channel_of_content hc).trans) _ _ _)
    (fun op s ho e he hp => op.events_kept s e he (hp.imp_right ho))
    fun a ha op hop h => h a ha op hop

end Journal

/-- Over every run the conversations stay sound: ids are keys, every turn has its thread, no thread leaves its chat
and no turn its thread, revisions only grow, and a turn that has a closing time keeps one. -/
theorem conversations_kept (as bs : List Action) :
    let s := (run World.step World.initial as).store
    let s' := (run World.step World.initial (as ++ bs)).store
    Keyed (conversation s) ∧ Housed (conversation s) ∧ Carries (conversation s) (conversation s') ∧
      TurnsKept s.turns s'.turns := by
  have hrun (w : World) (cs : List Action) :
      Conversed (conversation w.store) (conversation (run World.step w cs).store) :=
    w.run_store (R := fun s s' => Conversed (conversation s) (conversation s')) (P := fun _ => True)
      (fun _ => .refl _) (fun _ _ _ => .trans _ _ _) (fun op s _ => .exec op s) fun _ _ _ _ => trivial
  have hs := (hrun World.initial as).carries
  refine ⟨hs.keyed ⟨Table.Unique.nil,Table.Unique.nil⟩,hs.housed fun _ h => absurd h List.not_mem_nil,?_⟩
  rw [run_append]
  exact ⟨(hrun _ bs).carries,(hrun _ bs).turnsKept⟩

def ledgers : List Tbl := [.decisions, .admissions, .generationSources, .receipts, .reservations]

theorem insertIgnore_prefix {α κ : Type} [DecidableEq κ] {key : α → κ} {row : α} {t : List α} :
    t <+: insertIgnore key row t := by
  unfold insertIgnore
  split_ifs
  · exact List.prefix_rfl
  · exact List.prefix_append _ _

theorem recordDecision_grows (r : DecisionRecord) : Keeps Store.decisions (· <+: ·) (recordDecision r) := by
  refine .atomically List.prefix_refl (.frame_bind List.prefix_refl .read fun s => ?_)
  cases lookup DecisionRecord.decisionId r.decisionId s.decisions with
  | none => exact .bind_pure (.modify fun _ => List.prefix_append _ _)
  | some row => exact .of_frame List.prefix_refl (.bind_pure .require)

theorem recordGeneration_grows (row : GenerationRow) (sources : List SourceRef) :
    Keeps Store.generationSources (· <+: ·) (recordGeneration row sources) := by
  refine .atomically List.prefix_refl (.frame_bind List.prefix_refl (.modify fun _ => rfl) fun _ =>
    .bind_frame ?_ fun _ => .bind_pure fun _ => rfl)
  exact .each List.prefix_refl (fun _ _ _ => .trans) fun _ => .modify fun _ => insertIgnore_prefix

theorem recordTransportReceipt_grows (a : ReceiptArgs) :
    Keeps Store.receipts (· <+: ·) (recordTransportReceipt a) := by
  refine .atomically List.prefix_refl (.frame_bind List.prefix_refl .read fun s => ?_)
  cases s.effect? a.effectId with
  | none => exact .of_frame List.prefix_refl .raise
  | some effect =>
    refine .bind_frame (.modify fun _ => insertIgnore_prefix) fun _ => .ite (.bind .liftExcept fun _ => ?_) .pure
    exact .bind (appendEventConnection_frame (fun _ _ => rfl) (fun _ _ => rfl) fun _ _ => rfl) fun _ => .pure

theorem Op.ledgers_grow {op : Op} {t : Tbl} (ht : t ∈ ledgers) (hr : op.Retains) (s : Store) :
    t.rows s <+: t.rows (op.exec s) := by
  by_cases hw : t ∈ op.writes
  · unfold Op.exec
    revert ht hw
    cases op <;> try rw [Op.apply,reply_snd]
    case purge => exact absurd hr id
    all_goals cases t <;> simp only [ledgers,Op.writes,List.mem_cons,List.not_mem_nil,reduceCtorEq,or_false,or_true,
      false_implies,implies_true,true_implies]
    case recordDecision.decisions r => exact recordDecision_grows r s
    case recordGeneration.generationSources g u => exact recordGeneration_grows g u s
    case recordTransportReceipt.receipts a => exact recordTransportReceipt_grows a s
    case reserveSendBudget.reservations =>
      exact Keeps.atomically (π := Store.reservations) List.prefix_refl (.frame_bind List.prefix_refl .read fun _ =>
        .ite (.of_frame List.prefix_refl .pure) (.ite (.of_frame List.prefix_refl .pure)
          (.bind_pure (.modify fun _ => List.prefix_append _ _)))) s
    case enqueueParticipationEffect.admissions v a =>
      rcases enqueueParticipationEffect_cases with ⟨e,hr⟩ | ⟨m,id,s',hr,-,-,-,-,-,-,hm,hq⟩
      · exact hr.symm ▸ List.prefix_rfl
      · have hadm : s'.admissions = m.admissions := by cases hq <;> rfl
        rw [hr,Tbl.rows,Tbl.rows,hadm]
        cases hm with
        | present => exact List.prefix_rfl
        | added => exact List.prefix_append _ _
  · exact (op.rows_eq hw s).symm ▸ List.prefix_rfl

/-- In every run without retention the ledgers are append-only. -/
theorem ledgers_append_only (w : World) (as : List Action) (h : ∀ a ∈ as, a.Retains) :
    ∀ t ∈ ledgers, t.rows w.store <+: t.rows (run World.step w as).store := by
  intro t ht
  exact w.run_store (R := fun s s' => t.rows s <+: t.rows s') (fun _ => List.prefix_rfl) (fun _ _ _ => .trans)
    (fun _ s hr => Op.ledgers_grow ht hr s) h

theorem reservation_stays :
    let w := run World.step World.initial [.call (.reserveSendBudget "attempt" "whatsapp" "chat" "fx" 1 2 5 60)]
    w.store.reservations.length = 1 ∧
      w.store.reservations <+: (run World.step w [.call (.enqueueEffect queuedGreeting)]).store.reservations := by
  exact ⟨by decide +kernel,ledgers_append_only _ _ (by simp [Op.Retains]) .reservations (by simp [ledgers])⟩

/-- Retention has nothing to do at an instant. -/
structure Store.SettledAt (rs : RetentionSettings) (t : Int) (s : Store) : Prop where
  payloads : ∀ e ∈ s.events, payloadDue (t - rs.journalPayloadMs) e = false
  events : ∀ e ∈ s.events, eventDue s (t - rs.metadataMs) (t - rs.unresolvedMs) e = false
  effects : ∀ r ∈ s.effects, effectPayloadDue (t - rs.journalPayloadMs) r = false
  decisions : ∀ d ∈ s.decisions, t - rs.metadataMs < d.createdMs
  attempts : ∀ a ∈ s.attempts, t - rs.metadataMs < a.startedMs
  evidence : ∀ v ∈ s.evidence, t - rs.metadataMs < v.observedMs
  probes : ∀ p ∈ s.probes, finishedBefore (t - rs.metadataMs) p = false
  receipts : ∀ r ∈ s.receipts, t - rs.metadataMs < r.confirmedMs

section Settled
variable {rs : RetentionSettings} {n t : Int} {k : Nat} {s : Store} {e : EventRow}

theorem updateWhere_none {α : Type} {p : α → Bool} {f : α → α} {l : List α} (h : ∀ a ∈ l, p a = false) :
    updateWhere p f l = l ∧ rowCount p l = 0 := by
  refine ⟨?_,List.countP_eq_zero.mpr fun a ha => by simp [h a ha]⟩
  exact (List.map_congr_left fun a ha => by simp [h a ha]).trans (List.map_id l)

theorem filter_young {α : Type} {time : α → Int} {l : List α} (h : ∀ a ∈ l, t < time a) :
    (l.filter fun a => !(time a ≤ t)) = l := by
  refine List.filter_eq_self.mpr fun a ha => ?_
  simpa using h a ha

theorem Store.SettledAt.purge (h : s.SettledAt rs t) :
    Processing.purge rs t s = (.ok ⟨0,0,0,0,0,0,0,0,0⟩, s) := by
  obtain ⟨hpay,hpays⟩ := updateWhere_none (f := purgeEventRow t) h.payloads
  obtain ⟨heff,heffs⟩ := updateWhere_none (f := purgeEffectRow t) h.effects
  have hevents : (s.events.filter fun e => !eventDue s (t - rs.metadataMs) (t - rs.unresolvedMs) e) = s.events :=
    List.filter_eq_self.mpr fun e he => by simp [h.events e he]
  have hrelations : (s.relations.filter fun r => !(s.events.any fun e => e.eventId = r.eventId &&
      eventDue s (t - rs.metadataMs) (t - rs.unresolvedMs) e)) = s.relations := by
    refine List.filter_eq_self.mpr fun r _ => ?_
    simp only [Bool.not_eq_true',List.any_eq_false]
    intro e he
    simp [h.events e he]
  have hprobes : (s.probes.filter fun p => !finishedBefore (t - rs.metadataMs) p) = s.probes :=
    List.filter_eq_self.mpr fun p hp => by simp [h.probes p hp]
  have hs : purgeStore rs t s = s := by
    rw [purgeStore,hpay,heff,hevents,hrelations,hprobes,filter_young h.decisions,filter_young h.attempts,
      filter_young h.evidence,filter_young h.receipts]
  rw [Processing.purge,atomically,read_bind_apply,modify_bind_apply,hs,read_bind_apply,hpays,heffs]
  simp

theorem young_of_mem {α : Type} {time : α → Int} {l : List α} {a : α} (h : a ∈ l.filter fun a => !(time a ≤ t)) :
    t - k < time a := by
  have ht := (List.mem_filter.mp h).2
  simp only [Bool.not_eq_true',decide_eq_false_iff_not,not_le] at ht
  omega

theorem eventDue_iff {metadata unresolved : Int} : eventDue s metadata unresolved e = true ↔
    e.createdMs ≤ metadata ∧ e.channel ≠ "whatsapp" ∧
      (unresolved < e.createdMs → ∀ x ∈ s.relations, x.eventId = e.eventId → x.resolved = true) := by
  simp [eventDue,and_assoc,or_iff_not_imp_left]

/-- An event that was not due keeps its unresolved references, so it does not become due. -/
theorem eventDue_settled (hu : Table.Unique EventRow.eventId s.events) (he : e ∈ (purgeStore rs n s).events) :
    eventDue (purgeStore rs n s) (n - k - rs.metadataMs) (n - k - rs.unresolvedMs) e = false := by
  obtain ⟨hm,hd⟩ := List.mem_filter.mp he
  obtain ⟨r,hr,hre⟩ := mem_updateWhere.mp hm
  have hsame : r.eventId = e.eventId ∧ ∀ a b, eventDue s a b r = eventDue s a b e := by
    rw [← hre]
    split <;> exact ⟨rfl,fun _ _ => rfl⟩
  have hdue : eventDue s (n - rs.metadataMs) (n - rs.unresolvedMs) e = false := by simpa using hd
  refine Bool.eq_false_iff.mpr fun h => ?_
  obtain ⟨ht,hc,hx⟩ := eventDue_iff.mp h
  refine Bool.eq_false_iff.mp hdue (eventDue_iff.mpr ⟨by omega,hc,fun hlate x hmem hid => hx (by omega) x ?_ hid⟩)
  -- the relations of an event go only with the event
  refine List.mem_filter.mpr ⟨hmem,?_⟩
  simp only [Bool.not_eq_true',List.any_eq_false,Bool.and_eq_true,decide_eq_true_eq,not_and]
  intro y hy hyx
  obtain rfl := hu.eq_of_mem hy hr (hyx.trans (hid.trans hsame.1.symm))
  simp [hsame.2,hdue]

theorem purgeStore_settledAt (hu : Table.Unique EventRow.eventId s.events) :
    (purgeStore rs n s).SettledAt rs (n - k) where
  payloads e he := by
    obtain ⟨r,-,rfl⟩ := mem_updateWhere.mp (List.mem_filter.mp he).1
    split
    · rfl
    next hd =>
      refine Bool.eq_false_iff.mpr fun h => hd ?_
      simp only [payloadDue,Bool.and_eq_true,decide_eq_true_eq] at h ⊢
      exact ⟨⟨h.1.1,by omega⟩,h.2⟩
  events e he := eventDue_settled hu he
  effects r' hr' := by
    obtain ⟨r,-,rfl⟩ := mem_updateWhere.mp hr'
    split
    · rfl
    next hd =>
      refine Bool.eq_false_iff.mpr fun h => hd ?_
      simp only [effectPayloadDue,Bool.and_eq_true,decide_eq_true_eq] at h ⊢
      exact ⟨h.1,by omega⟩
  decisions d hd := sub_right_comm n _ _ ▸ young_of_mem hd
  attempts a ha := sub_right_comm n _ _ ▸ young_of_mem ha
  evidence v hv := sub_right_comm n _ _ ▸ young_of_mem hv
  probes p hp := by
    have hf : finishedBefore (n - rs.metadataMs) p = false := by simpa using (List.mem_filter.mp hp).2
    cases ht : p.finishedMs with
    | none => simp [finishedBefore,ht]
    | some at_ =>
      simp only [finishedBefore,ht,decide_eq_false_iff_not] at hf ⊢
      omega
  receipts r hr := sub_right_comm n _ _ ▸ young_of_mem hr

/-- In every reachable database a second pass at the same time or an earlier one finds nothing to do. -/
theorem purge_settled (as : List Action) (rs : RetentionSettings) (n : Int) (k : Nat) :
    let s := (purge rs n (run World.step World.initial as).store).2
    purge rs (n - k) s = (.ok ⟨0,0,0,0,0,0,0,0,0⟩, s) := by
  have hu : Table.Unique EventRow.eventId (run World.step World.initial as).store.events :=
    World.Reachable.store_invariant (I := fun s => Table.Unique EventRow.eventId s.events) Table.Unique.nil
      (fun s op h => op.eventIds_step s h) ⟨as,rfl⟩
  exact (purgeStore_settledAt hu).purge

end Settled

end Yeoman.Processing
