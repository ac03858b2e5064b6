import Yeoman.Processing.JournalSteps

/-! The evidence a closed thread is reopened from: its turn sources and what retention has
left of their events. -/
namespace Yeoman.Processing
open Library Table Txn Runs

def EventIdsStep (t t' : List EventRow) : Prop :=
  Table.Unique EventRow.eventId t → Table.Unique EventRow.eventId t'
variable {t : List EventRow}

theorem EventIdsStep.refl : EventIdsStep t t := id

theorem EventIdsStep.updateWhere {p : EventRow → Bool} {f : EventRow → EventRow}
    (hf : ∀ e, (f e).eventId = e.eventId) : EventIdsStep t (updateWhere p f t) := by
  intro h
  unfold Table.Unique
  rwa [keys_updateWhere hf]

theorem Appended.eventIds {e : CanonicalEvent} {s s' : Store} {r : Except Error String}
    (h : Appended e s (r, s')) : EventIdsStep s.events s'.events := by
  cases h with
  | refused | replayed => exact .refl
  | journaled hk hi =>
    intro hu
    exact hu.append fun x hx => lookup_none.mp hi x hx

theorem Op.eventIds_step (op : Op) (s : Store) : EventIdsStep s.events (op.exec s).events := by
  cases op.journal_step with
  | kept h =>
    rw [show (op.exec s).events = s.events from h]
    exact .refl
  | appended h hs hs' =>
    rw [← (Prod.mk.inj hs).1,← (Prod.mk.inj hs').1]
    exact h.eventIds
  | attached eventId th tu hop h =>
    rw [(Prod.mk.inj h).1]
    refine EventIdsStep.updateWhere (fun e => ?_)
    rfl
  | purged rs n hop due h =>
    rw [(Prod.mk.inj h).1]
    refine fun hu => Table.Unique.filter (EventIdsStep.updateWhere (fun e => ?_) hu)
    rfl

theorem run_eventIds {ops : List Op} : Table.Unique EventRow.eventId (run Op.exec Store.empty ops).events :=
  run_invariant (I := fun s => Table.Unique EventRow.eventId s.events)
    (fun s op h => op.eventIds_step s h) (Table.Unique.nil) ops

namespace Store

/-- Complete evidence: the thread has a turn source, and every one of its sources still has
an event with a payload. -/
def EvidenceComplete (s : Store) (threadId : String) : Prop :=
  s.threadSources threadId ≠ [] ∧
  ∀ r ∈ s.threadSources threadId, ∃ e ∈ s.events, e.eventId = r.eventId ∧ e.payloadJson ≠ none

def Journaled (s : Store) (r : TurnSourceRow) : Prop := ∃ e ∈ s.events, e.eventId = r.eventId

def Tombstoned (s : Store) (r : TurnSourceRow) : Prop :=
  ∃ e ∈ s.events, e.eventId = r.eventId ∧ e.payloadJson = none
variable {s : Store}

theorem threadSourcesAvailable_iff {threadId : String} :
    s.threadSourcesAvailable threadId = true ↔
      s.threadSources threadId ≠ [] ∧ ∀ r ∈ s.threadSources threadId, ¬ s.Tombstoned r := by
  simp [threadSourcesAvailable,Tombstoned]

theorem payload_iff (h : Table.Unique EventRow.eventId s.events) {r : TurnSourceRow} :
    (∃ e ∈ s.events, e.eventId = r.eventId ∧ e.payloadJson ≠ none) ↔ s.Journaled r ∧ ¬ s.Tombstoned r := by
  constructor
  · rintro ⟨e,he,hi,hp⟩
    refine ⟨⟨e,he,hi⟩,?_⟩
    rintro ⟨e',he',hi',hp'⟩
    rw [h.eq_of_mem he he' (hi.trans hi'.symm)] at hp
    exact hp hp'
  · rintro ⟨⟨e,he,hi⟩,ht⟩
    exact ⟨e,he,hi,fun hp => ht ⟨e,he,hi,hp⟩⟩

end Store

/-- The check agrees with complete evidence exactly when no source has lost its whole event,
or some other source shows a tombstone. -/
theorem thread_sources_available_iff (ops : List Op) (threadId : String) :
    let s := run Op.exec Store.empty ops
    (s.threadSourcesAvailable threadId = true ↔ s.EvidenceComplete threadId) ↔
      (∀ r ∈ s.threadSources threadId, s.Journaled r) ∨ ∃ r ∈ s.threadSources threadId, s.Tombstoned r := by
  intro s
  have hc : s.EvidenceComplete threadId ↔
      s.threadSources threadId ≠ [] ∧ ∀ r ∈ s.threadSources threadId, s.Journaled r ∧ ¬ s.Tombstoned r :=
    and_congr_right' (forall₂_congr fun r _ => Store.payload_iff run_eventIds)
  rw [hc,Store.threadSourcesAvailable_iff]
  by_cases ht : ∃ r ∈ s.threadSources threadId, s.Tombstoned r
  · obtain ⟨r,hr,hd⟩ := ht
    refine iff_of_true (iff_of_false ?_ ?_) (.inr ⟨r,hr,hd⟩)
    · exact fun h => h.2 r hr hd
    · exact fun h => (h.2 r hr).2 hd
  · have hn : ∀ r ∈ s.threadSources threadId, ¬ s.Tombstoned r := fun r hr hd => ht ⟨r,hr,hd⟩
    rw [or_iff_left ht]
    constructor
    · intro h r hr
      exact ((h.mp ⟨List.ne_nil_of_mem hr,hn⟩).2 r hr).1
    · intro hj
      exact and_congr_right' ⟨fun _ r hr => ⟨hj r hr,hn r hr⟩,fun _ => hn⟩

def agedReply : List Op :=
  let threadId := threadIdFor "telegram" "c1" "ev1"
  let turnId := turnIdFor threadId "ev1" 1
  let event : CanonicalEvent :=
    { eventId := "ev1", eventKey := "key:ev1", traceId := "trace", kind := .message, origin := "telegram",
      principal := "u1", channel := "telegram", chatId := "c1", account := "", direction := .inbound,
      revision := 1, audienceRef := none, occurredMs := none, createdMs := 100, sourceMessageId := some "m1",
      targetMessageId := none, threadId := none, turnId := none, payload := Dict.empty, payloadHash := "",
      revision_pos := revision_one }
  [.openThread "telegram" "c1" "u1" "dm" "ev1" 100,
   .openTurn threadId "u1" "ev1" 100 .open,
   .appendEvent { eventKey := "key:ev1", eventId := "ev1", traceId := "trace", payload := .canonical event, nowMs := 100 },
   .addTurnSource turnId "ev1" (some "m1") "trigger" 1 100,
   .purge defaultRetention (100 + 31 * dayMs)]

/-- The only source of the thread has no event any more, and the check still passes. -/
theorem purged_thread_passes :
    let s := run Op.exec Store.empty agedReply
    s.threadSourcesAvailable (threadIdFor "telegram" "c1" "ev1") = true ∧
    ¬ s.EvidenceComplete (threadIdFor "telegram" "c1" "ev1") := by
  intro s
  have hs : s.threadSourcesAvailable (threadIdFor "telegram" "c1" "ev1") = true ∧ s.events = [] := by
    decide +kernel
  refine ⟨hs.1,fun h => ?_⟩
  obtain ⟨r,hr⟩ := List.exists_mem_of_ne_nil _ h.1
  obtain ⟨e,he,-⟩ := h.2 r hr
  rw [hs.2] at he
  cases he

end Yeoman.Processing
