import Yeoman.Processing.JournalSteps
import Yeoman.Processing.Reactions

/-! Assigning an event again: the journal keeps where the event was put, and a second call
answers from there. -/
namespace Yeoman.Processing
open Library Table Txn Runs

structure EventRow.Bound (eventId : String) (r r' : EventRow) : Prop where
  id : r'.eventId = r.eventId
  threadId : r.eventId = eventId → r'.threadId = r.threadId
  turnId : r.eventId = eventId → r'.turnId = r.turnId
variable {eventId : String}

theorem EventRow.Bound.refl (r : EventRow) : EventRow.Bound eventId r r :=
  ⟨rfl,fun _ => rfl,fun _ => rfl⟩

theorem EventRow.Bound.trans {eventId : String} (a b c : EventRow) (h : EventRow.Bound eventId a b)
    (h' : EventRow.Bound eventId b c) : EventRow.Bound eventId a c :=
  ⟨h'.id.trans h.id,fun he => (h'.threadId (h.id.trans he)).trans (h.threadId he),
    fun he => (h'.turnId (h.id.trans he)).trans (h.turnId he)⟩

def BindingKept (eventId : String) (t t' : List EventRow) : Prop :=
  Kept EventRow.eventId (EventRow.Bound eventId) t t'

namespace BindingKept
variable {eventId : String} {t : List EventRow}

theorem refl : BindingKept eventId t t := Kept.refl EventRow.Bound.refl t

theorem trans {a b c : List EventRow} (h : BindingKept eventId a b) (h' : BindingKept eventId b c) :
    BindingKept eventId a c := Kept.trans EventRow.Bound.trans h h'

theorem of_attach {e : String} (he : e ≠ eventId) {threadId turnId : Option String} :
    BindingKept eventId t (updateWhere (fun r => r.eventId = e)
      (fun r => { r with threadId := threadId, turnId := turnId }) t) := by
  refine Kept.of_rewrites (fun _ _ h => h.id) (.updateWhere EventRow.Bound.refl fun r _ hr => ?_)
  have hne : r.eventId ≠ eventId := fun h => he ((of_decide_eq_true hr).symm.trans h)
  exact ⟨rfl,fun h => absurd h hne,fun h => absurd h hne⟩

end BindingKept
variable {s : Store} {reg : ThreadRegistry}

theorem Appended.binding {e : CanonicalEvent} {s' : Store} {r : Except Error String}
    (h : Appended e s (r, s')) : BindingKept eventId s.events s'.events := by
  cases h with
  | refused | replayed => exact .refl
  | journaled hk hi => exact Kept.append EventRow.Bound.refl _

def Op.rebinds (eventId : String) : Op → Bool
  | .attachEventAssignment e .. => e = eventId
  | .purge .. => true
  | _ => false

theorem Op.binding_kept {op : Op} (h : op.rebinds eventId = false) :
    BindingKept eventId s.events (op.exec s).events := by
  cases op.journal_step with
  | kept hs =>
    rw [show (op.exec s).events = s.events from hs]
    exact .refl
  | appended ha hs hs' =>
    rw [← (Prod.mk.inj hs).1,← (Prod.mk.inj hs').1]
    exact ha.binding
  | attached e th tu hop hs =>
    subst hop
    exact .of_attach (of_decide_eq_false h)
  | purged rs n hop due hs =>
    subst hop
    cases h

theorem assign_binding {c : AssignCall} (hc : c.event.eventId ≠ eventId) :
    BindingKept eventId s.events (reg.assign c s).2.events := by
  have ha := reg.assign_assigned c s
  generalize (reg.assign c s).1 = r at ha
  generalize (reg.assign c s).2 = s' at ha ⊢
  cases ha with
  | answered | background => exact .refl
  | placed d kind s' hs hb hp =>
    rw [hp.events]
    exact .of_attach hc
  | raised e kind s' hs hb hr =>
    rw [hr.rest]
    exact .refl

def RegistryAction.Spares (eventId : String) : RegistryAction → Prop
  | .assign c => c.event.eventId ≠ eventId
  | .call op => op.rebinds eventId = false

theorem spared_binding {steps : List RegistryAction}
    (h : ∀ a ∈ steps, a.Spares eventId) : BindingKept eventId s.events (run reg.step s steps).events := by
  induction steps generalizing s with
  | nil => exact .refl
  | cons a steps ih =>
    refine .trans ?_ (ih fun b hb => h b (List.mem_cons_of_mem a hb))
    have ha := h a List.mem_cons_self
    cases a with
    | assign c => exact assign_binding ha
    | call op => exact Op.binding_kept ha

def Persisted (eventId : String) (r : Except Error JoinDecision) (s' : Store) : Prop :=
  ∃ row, s'.event? eventId = some row ∧ row.threadId ≠ none ∧
    (placeOf r).map Prod.fst = some row.threadId

instance (eventId : String) (r : Except Error JoinDecision) (s' : Store) :
    Decidable (Persisted eventId r s') :=
  match h : s'.event? eventId with
  | some row => decidable_of_iff (row.threadId ≠ none ∧ (placeOf r).map Prod.fst = some row.threadId)
      ⟨fun hr => ⟨row,h,hr⟩,fun ⟨_,hq,hr⟩ => Option.some.inj (h.symm.trans hq) ▸ hr⟩
  | none => .isFalse fun ⟨_,hq,_⟩ => nomatch h.symm.trans hq

/-- The second call answers like the first and adds no thread, turn or turn source. -/
structure Repeats (first second : Except Error JoinDecision) (s s' : Store) : Prop where
  place : placeOf second = placeOf first
  threads : s'.threads = s.threads
  turns : s'.turns = s.turns
  turnSources : s'.turnSources = s.turnSources

namespace ThreadRegistry

def Withheld (reg : ThreadRegistry) (s : Store) (c : AssignCall) : Prop :=
  c.event.kind = .reaction ∧ c.allowTurn = true ∧ storedAnswer s c = none ∧ (reg.decision s c).rule ≠ .ambient
deriving Decidable

variable {c : AssignCall} {s : Store} {threadId : String} {reg : ThreadRegistry}

theorem storedAnswer_of_row {row : EventRow}
    (h : s.event? c.event.eventId = some row) (ht : row.threadId = some threadId) :
    storedAnswer s c =
      if row.turnId.isSome || !c.allowTurn then some (threadId, row.turnId) else none := by
  have ha : s.eventAssignment c.event.eventId = some (some threadId, row.turnId) := by
    rw [Store.eventAssignment,show lookup EventRow.eventId c.event.eventId s.events = some row from h]
    simp [ht]
  rw [storedAnswer,ha]

theorem assign_answered {turnId : Option String} (h : storedAnswer s c = some (threadId, turnId)) :
    placeOf (reg.assign c s).1 = some (some threadId, turnId) ∧
      ∃ topics, (reg.assign c s).2 = { s with topics := topics } := by
  have ha := reg.assign_assigned c s
  generalize (reg.assign c s).1 = r at ha ⊢
  generalize (reg.assign c s).2 = s' at ha ⊢
  cases ha with
  | answered d threadId' turnId' topics hs ht hu =>
    cases h.symm.trans hs
    refine ⟨?_,topics,rfl⟩
    rw [placeOf,Except.toOption,Option.map_some,ht,hu]
  | background d topics hs => cases h.symm.trans hs
  | placed d kind s' hs => cases h.symm.trans hs
  | raised e kind s' hs => cases h.symm.trans hs

/-- The turn a placed event is bound to is the one its answer names, unless it is withheld. -/
theorem placed_turn (hs : storedAnswer s c = none) :
    (if c.event.kind = .reaction ∧ (reg.decision s c).rule ≠ .ambient then none
      else c.turnIn s (reg.decision s c).threadId (reg.joinedTurn s c)) =
    if reg.Withheld s c then none else c.turnIn s (reg.decision s c).threadId (reg.joinedTurn s c) := by
  by_cases hr : c.event.kind = .reaction ∧ (reg.decision s c).rule ≠ .ambient
  · rw [if_pos hr]
    cases ha : c.allowTurn with
    | true => rw [if_pos ⟨hr.1,ha,hs,hr.2⟩]
    | false =>
      -- without a turn there is nothing to withhold
      have hj : reg.joinedTurn s c = none := if_pos hr.1
      rw [if_neg fun h => Bool.false_ne_true (ha.symm.trans h.2.1),hj,AssignCall.turnIn,ha]
      rfl
  · rw [if_neg hr,if_neg fun h => hr ⟨h.1,h.2.2.2⟩]

theorem turnIn_isSome {thread turn : Option String} : ((c.turnIn s thread turn).isSome || !c.allowTurn) = true := by
  unfold AssignCall.turnIn
  cases turn with
  | some turnId => rfl
  | none => cases c.allowTurn <;> rfl

theorem persisted_row (hp : Persisted c.event.eventId (reg.assign c s).1 (reg.assign c s).2) :
    ∃ row threadId, (reg.assign c s).2.event? c.event.eventId = some row ∧ row.threadId = some threadId ∧
      (row.turnId.isSome || !c.allowTurn) = true ∧
      placeOf (reg.assign c s).1 = some (some threadId, if reg.Withheld s c then none else row.turnId) := by
  have ha := reg.assign_assigned c s
  generalize (reg.assign c s).1 = r at ha hp ⊢
  generalize (reg.assign c s).2 = s' at ha hp ⊢
  obtain ⟨row,hrow,hne,hplace⟩ := hp
  obtain ⟨threadId,ht⟩ := Option.ne_none_iff_exists'.mp hne
  cases ha with
  | answered d threadId' turnId topics hs hd hu =>
    have hrow' : s.event? c.event.eventId = some row := hrow
    rw [storedAnswer_of_row hrow' ht] at hs
    split at hs
    · cases hs
      refine ⟨row,threadId,hrow,ht,‹_›,?_⟩
      rw [if_neg fun h => ?_,placeOf,Except.toOption,Option.map_some,hd,hu]
      rw [Withheld,storedAnswer_of_row hrow' ht,if_pos ‹_›] at h
      exact nomatch h.2.2.1
    · cases hs
  | background d topics hs hb hd =>
    rw [placeOf,Except.toOption,Option.map_some,Option.map_some,hd,ht] at hplace
    cases hplace
  | placed d kind s' hs hb hpl hd hu =>
    refine ⟨row,c.place (reg.decision s c).threadId,hrow,?_⟩
    have hbound : row.threadId = some (c.place (reg.decision s c).threadId) ∧
        row.turnId = c.turnIn s (reg.decision s c).threadId (reg.joinedTurn s c) := by
      obtain ⟨hm,hid⟩ := lookup_some hrow
      rw [hpl.events] at hm
      exact AssignCall.mem_attached hm hid
    rw [placed_turn hs] at hu
    rw [hbound.2]
    refine ⟨hbound.1,turnIn_isSome,?_⟩
    rw [placeOf,Except.toOption,Option.map_some,hd,hu]
  | raised e kind s' hs hb hr => cases hplace

/-- A second call for the event answers like the first exactly when the first call did not
withhold its turn, whatever was assigned or stored in between. -/
theorem reassignment_repeats_iff (reg : ThreadRegistry) (s : Store) (c : AssignCall)
    (hp : Persisted c.event.eventId (reg.assign c s).1 (reg.assign c s).2) :
    (∀ steps : List RegistryAction, (∀ a ∈ steps, a.Spares c.event.eventId) →
      ∀ c' : AssignCall, c'.event = c.event → c'.allowTurn = c.allowTurn →
        Repeats (reg.assign c s).1 (reg.assign c' (run reg.step (reg.assign c s).2 steps)).1
          (run reg.step (reg.assign c s).2 steps)
          (reg.assign c' (run reg.step (reg.assign c s).2 steps)).2) ↔
    ¬ reg.Withheld s c := by
  obtain ⟨row,threadId,hrow,ht,hturn,hplace⟩ := persisted_row hp
  constructor
  · intro h hw
    have hr := (h [] (by simp) c rfl rfl).place
    obtain ⟨ha,-⟩ := assign_answered ((storedAnswer_of_row hrow ht).trans (if_pos hturn))
    rw [hplace,if_pos hw] at hr
    have hnone : row.turnId = none := congrArg Prod.snd (Option.some.inj (ha.symm.trans hr))
    rw [hnone,hw.2.1] at hturn
    cases hturn
  · intro hw steps hsteps c' he hallow
    obtain ⟨row',hrow',hb⟩ := spared_binding hsteps _ row hrow
    have hid := (lookup_some hrow).2
    have hs : storedAnswer (run reg.step (reg.assign c s).2 steps) c' = some (threadId, row.turnId) := by
      rw [← hb.turnId hid]
      refine (storedAnswer_of_row (by rw [he]; exact hrow') ((hb.threadId hid).trans ht)).trans (if_pos ?_)
      rw [hb.turnId hid,hallow]
      exact hturn
    obtain ⟨ha,topics,hst⟩ := assign_answered hs
    rw [hst]
    refine ⟨?_,rfl,rfl,rfl⟩
    rw [ha,hplace,if_neg hw]

end ThreadRegistry

def journalEntry (event : CanonicalEvent) : AppendArgs :=
  { eventKey := event.eventKey, eventId := event.eventId, traceId := event.traceId, nowMs := 1500,
    payload := .canonical event }

def mention : AssignCall :=
  { event := chatEvent "m2" .message "whatsapp" "g@g.us" "u" (Dict.empty.setStr "mentioned_bot" "yes"),
    nowMs := 2000 }

def mentionedGroup : World := World.step World.initial (.call (.appendEvent (journalEntry mention.event)))

def mentionFollowed : Store :=
  run ({} : ThreadRegistry).step (({} : ThreadRegistry).assign mention mentionedGroup.store).2
    [.assign quotedReaction]

theorem mention_repeats : Repeats (({} : ThreadRegistry).assign mention mentionedGroup.store).1
    (({} : ThreadRegistry).assign { mention with nowMs := 9000 } mentionFollowed).1 mentionFollowed
    (({} : ThreadRegistry).assign { mention with nowMs := 9000 } mentionFollowed).2 := by
  refine (ThreadRegistry.reassignment_repeats_iff {} mentionedGroup.store mention (by decide +kernel)).mpr
    (by decide +kernel) [.assign quotedReaction] ?_ { mention with nowMs := 9000 } rfl rfl
  intro a ha
  cases List.mem_singleton.mp ha
  exact show quotedReaction.event.eventId ≠ mention.event.eventId by decide

def reactedChat : World :=
  run World.step World.initial (answeredChat ++ [.call (.appendEvent (journalEntry quotedReaction.event))])

/-- The first answer has no turn, the second has the turn the first call opened. -/
theorem reaction_reassigned_differently : reactedChat.Reachable ∧
    Persisted "r1" (({} : ThreadRegistry).assign quotedReaction reactedChat.store).1
      (({} : ThreadRegistry).assign quotedReaction reactedChat.store).2 ∧
    ∃ second, second = ({} : ThreadRegistry).assign { quotedReaction with nowMs := 3000 }
        (({} : ThreadRegistry).assign quotedReaction reactedChat.store).2 ∧
      ¬ Repeats (({} : ThreadRegistry).assign quotedReaction reactedChat.store).1 second.1
        (({} : ThreadRegistry).assign quotedReaction reactedChat.store).2 second.2 := by
  refine ⟨⟨_,rfl⟩,by decide +kernel,_,rfl,fun h => absurd h.place ?_⟩
  decide +kernel

end Yeoman.Processing
