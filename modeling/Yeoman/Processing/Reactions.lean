import Yeoman.Processing.RegistrySteps

/-! Which assignments create a thread or a turn, and when a reaction creates neither. -/
namespace Yeoman.Processing
open Library Table

def CreatesNothing (s s' : Store) : Prop :=
  s'.threads.map ThreadRow.threadId = s.threads.map ThreadRow.threadId ∧
  s'.turns.map TurnRow.turnId = s.turns.map TurnRow.turnId
deriving Decidable

namespace AssignCall
variable {c : AssignCall} {kind : String} {thread turn : Option String} {s s' : Store}

theorem threadsWith_keys_iff :
    (c.threadsWith kind thread s).map ThreadRow.threadId = s.threads.map ThreadRow.threadId ↔
      thread ≠ none ∨ s.thread? c.ownThread ≠ none := by
  unfold threadsWith
  split_ifs with h
  · simp [h.1,h.2]
  · rw [not_and_or] at h
    exact iff_of_true rfl h

theorem turnsWith_keys_iff :
    (c.turnsWith thread turn s).map TurnRow.turnId = s.turns.map TurnRow.turnId ↔
      turn ≠ none ∨ c.allowTurn = false ∨
        s.turn? (nextTurnId s (c.place thread) c.event.eventId) ≠ none := by
  unfold turnsWith
  split_ifs with h
  · rw [keys_insertIgnore_iff,h.1,h.2]
    simp [Store.turn?,openedTurn]
  · rw [not_and_or,Bool.not_eq_true] at h
    exact iff_of_true rfl (h.imp_right .inl)

theorem Placed.createsNothing_iff (h : c.Placed kind thread turn s s') :
    CreatesNothing s s' ↔ (thread ≠ none ∨ s.thread? c.ownThread ≠ none) ∧
      (turn ≠ none ∨ c.allowTurn = false ∨
        s.turn? (nextTurnId s (c.place thread) c.event.eventId) ≠ none) := by
  unfold CreatesNothing
  rw [h.threads.keys fun _ _ h => h.threadId,h.turns.keys fun _ _ h => h.turnId,threadsWith_keys_iff,
    turnsWith_keys_iff]

end AssignCall

/-- A reaction can only be observed: its event is answered from the stored assignment or
stays in the background, or it joins a thread that is there and gets no turn. -/
def Observed (reg : ThreadRegistry) (s : Store) (c : AssignCall) : Prop :=
  ThreadRegistry.storedAnswer s c ≠ none ∨ reg.Background s c ∨
  ((reg.decision s c).threadId ≠ none ∨ s.thread? c.ownThread ≠ none) ∧
    (c.allowTurn = false ∨
      ((reg.decision s c).threadId ≠ none ∧ s.thread? (c.place (reg.decision s c).threadId) = none) ∨
      s.turn? (nextTurnId s (c.place (reg.decision s c).threadId) c.event.eventId) ≠ none)

/-- A reaction creates neither a thread nor a turn exactly when it can only be observed. -/
theorem reaction_creates_nothing_iff (reg : ThreadRegistry) (s : Store) (c : AssignCall)
    (hk : c.event.kind = .reaction) :
    CreatesNothing s (reg.assign c s).2 ↔ Observed reg s c := by
  have hturn : reg.joinedTurn s c = none := if_pos hk
  have ha := reg.assign_assigned c s
  generalize (reg.assign c s).1 = r at ha
  generalize (reg.assign c s).2 = s' at ha ⊢
  cases ha with
  | answered d threadId turnId topics hs => exact iff_of_true ⟨rfl,rfl⟩ (.inl (by simp [hs]))
  | background d topics hs hb => exact iff_of_true ⟨rfl,rfl⟩ (.inr (.inl hb))
  | placed d kind s' hs hb hp =>
    have hacc := hp.accepted
    rw [hturn] at hacc
    rw [hp.createsNothing_iff,hturn]
    constructor
    · rintro ⟨hthread,hnew | hnone | htaken⟩
      · exact absurd rfl hnew
      · exact .inr (.inr ⟨hthread,.inl hnone⟩)
      · exact .inr (.inr ⟨hthread,.inr (.inr htaken)⟩)
    · rintro (h | h | ⟨hthread,hnone | ⟨hsome,hunknown⟩ | htaken⟩)
      · exact absurd hs h
      · exact absurd h hb
      · exact ⟨hthread,.inr (.inl hnone)⟩
      · -- an unknown thread is no place for a new turn
        refine ⟨hthread,.inr (.inl (Bool.eq_false_iff.mpr fun hallow => hacc ?_))⟩
        exact ⟨hallow,Option.isSome_iff_ne_none.mpr hsome,hunknown⟩
      · exact ⟨hthread,.inr (.inr htaken)⟩
  | raised e kind s' hs hb hr =>
    have href := hr.refused
    rw [hturn] at href
    have hsome := Option.isSome_iff_ne_none.mp href.2.1
    refine iff_of_true ⟨?_,by rw [hr.rest]⟩ (.inr (.inr ⟨.inl hsome,.inr (.inl ⟨hsome,href.2.2⟩)⟩))
    rw [hr.threads.keys fun _ _ h => h.threadId]
    exact AssignCall.threadsWith_keys_iff.mpr (.inl hsome)

def chatEvent (eventId : String) (kind : EventKind) (channel chatId principal : String) (payload : Dict) :
    CanonicalEvent :=
  { eventId := eventId, eventKey := "key:" ++ eventId, traceId := "trace", kind := kind, origin := channel,
    principal := principal, channel := channel, chatId := chatId, account := "", direction := .inbound,
    revision := 1, audienceRef := none, occurredMs := none, createdMs := 0, sourceMessageId := none,
    targetMessageId := none, threadId := none, turnId := none, payload := payload, payloadHash := "",
    revision_pos := revision_one }

def answeredIn (chatId kind : String) : List Action :=
  [.call (.openThread "whatsapp" chatId "u" kind "m1" 1000),
   .call (.openTurn (threadIdFor "whatsapp" chatId "m1") "u" "m1" 1000 .open),
   .call (.registerThreadMessage (threadIdFor "whatsapp" chatId "m1") 1000 .outbound
      (some (turnIdFor (threadIdFor "whatsapp" chatId "m1") "m1" 1)) none none (some "prov-1"))]

def answeredChat : List Action := answeredIn "u" "dm"

def groupReaction : AssignCall :=
  { event := chatEvent "r1" .reaction "whatsapp" "g@g.us" "v" ((Dict.empty.setStr "emoji" "+1").setBool "removed" false),
    nowMs := 2000 }

/-- In a group with a thread, a turn and a message, the reaction of another member is only observed. -/
theorem group_reaction_observed :
    let s := (Runs.run World.step World.initial (answeredIn "g@g.us" "group")).store
    s.threads.length = 1 ∧ s.turns.length = 1 ∧ CreatesNothing s (({} : ThreadRegistry).assign groupReaction s).2 :=
  ⟨by decide +kernel,by decide +kernel,
    (reaction_creates_nothing_iff {} _ groupReaction rfl).mpr (.inr (.inl (by decide +kernel)))⟩

def quotedReaction : AssignCall :=
  { event := chatEvent "r1" .reaction "whatsapp" "u" "u" (Dict.empty.setStr "reply_to_message_id" "prov-1"),
    nowMs := 2000 }

theorem quoted_reaction_opens_turn : ∃ w : World, w.Reachable ∧ quotedReaction.event.kind = .reaction ∧
    ¬ CreatesNothing w.store (({} : ThreadRegistry).assign quotedReaction w.store).2 :=
  ⟨Runs.run World.step World.initial answeredChat,⟨answeredChat,rfl⟩,rfl,by decide +kernel⟩

end Yeoman.Processing
