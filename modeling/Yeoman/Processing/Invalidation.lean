import Yeoman.Knowledge.Statements
import Yeoman.Processing.Actor
import Yeoman.Processing.ConversationSteps
import Yeoman.Processing.Lifecycle
import Yeoman.Processing.Signals

/-! Edits and deletions by the author of a message: the turn of the message gets a new
revision, and what was derived from the message is invalidated. -/
namespace Yeoman.Processing
open Library Table Txn Runs
open Knowledge (KnowledgeStore)

structure DerivedWorld where
  store : Store
  knowledge : KnowledgeStore

structure SignalInvalidation where
  kind : String
  sourceEventIds : List String := []
  turnId : String := ""
  turnRevision : Int := 0
  effectsCancelled : List String := []
  refused : String := ""

def invalidatingKinds : List SignalKind := [.edit, .delete]

def Store.eventsBySourceMessage (s : Store) (messageId : String) : List EventRow :=
  if messageId = "" then []
  else orderBy EventRow.createdMs EventRow.eventId
    (s.events.filter fun e => e.sourceMessageId = some messageId)

/-- `_queued_effect_ids`: `list_effects` takes no turn id, so the filter is on its first
hundred rows. -/
def Store.queuedEffectIds (s : Store) (turnId : String) : List String :=
  (((orderBy EffectRow.createdMs EffectRow.effectId
    (s.effects.filter fun e => e.state = .queued || e.state = .executing)).take 100).filter
      fun e => e.turnId = turnId).map EffectRow.effectId

def JournalSignal.target (σ : JournalSignal) : String :=
  ((nonempty σ.targetMessageId).or (nonempty σ.sourceMessageId)).getD ""

def Store.originals (s : Store) (σ : JournalSignal) : List EventRow :=
  (s.eventsBySourceMessage σ.target).filter fun e => e.kind = .message

def Store.mine (s : Store) (σ : JournalSignal) : List EventRow :=
  (s.originals σ).filter fun e => e.principal = σ.principal

/-- The mapper, and the authority of the actor registry where one is wired. An object without
`actor_for` raises at once and is caught, as if there were none. -/
structure SignalInvalidator where
  mapper : SignalMapper
  actors : Option TurnAuthority := none

namespace SignalInvalidator
variable (v : SignalInvalidator)

def reviseTurn (turnId : String) (before : List String) (nowMs : Int) : StoreM (List String) := do
  let s ← Txn.read
  match s.turn? turnId with
  | none => return []
  | some turn =>
    let ref ← bumpTurnRevision turnId turn.revision nowMs
    let _ ← cancelStaleEffects turnId ref.revision nowMs "superseded"
    return before

def invalidateTurn (turnId : String) (newest : EventRow) (principal : String) (nowMs : Int) :
    StoreM (List String) := do
  let s ← Txn.read
  let before := s.queuedEffectIds turnId
  match v.actors, nonempty newest.threadId with
  | some authority, some _ =>
    recover
      (do
        let _ ← correctTurn authority turnId principal newest.channel newest.chatId nowMs
        return before)
      (reviseTurn turnId before nowMs)
  | _, _ => reviseTurn turnId before nowMs

def invalidateNewest (newest : EventRow) (principal : String) (nowMs : Int) : StoreM (List String) :=
  match nonempty newest.turnId with
  | none => return []
  | some turnId => v.invalidateTurn turnId newest principal nowMs

def invalidateDerived (eventIds : List String) (reason : String) (nowMs : Int) (k : KnowledgeStore) :
    KnowledgeStore :=
  (k.invalidateEventSources eventIds reason nowMs).markPersonNotesStale (eventIds.map (.message, ·)) reason

def turnRevision (s : Store) (turnId : String) : Int := ((s.turn? turnId).map TurnRow.revision).getD 0

def applySignal (kind : SignalKind) (principal : String) (mine : List EventRow) (newest : EventRow) (nowMs : Int) :
    Txn DerivedWorld Error SignalInvalidation := do
  let cancelled ← zoom DerivedWorld.store (fun s w => { w with store := s })
    (v.invalidateNewest newest principal nowMs)
  let w ← Txn.read
  let eventIds := mine.map EventRow.eventId
  let turnId := nonempty newest.turnId
  Txn.modify fun w => { w with
    knowledge := invalidateDerived eventIds ("source_" ++ kind.event.name) nowMs w.knowledge }
  return { kind := kind.event.name, sourceEventIds := eventIds, turnId := turnId.getD "",
           turnRevision := turnId.elim 0 (turnRevision w.store), effectsCancelled := cancelled }

def call (kind : SignalKind) (payload : Dict) (nowMs : Int) : Txn DerivedWorld Error SignalInvalidation := do
  let refuse (reason : String) : SignalInvalidation := { kind := kind.event.name, refused := reason }
  if kind ∉ invalidatingKinds then return refuse "not_an_invalidating_signal"
  else
    match ← liftExcept (v.mapper.map { kind := kind, payload := payload, nowMs := nowMs }) with
    | none => return refuse "unmappable_signal"
    | some σ =>
      if σ.target = "" then return refuse "no_target_message"
      else
        let w ← Txn.read
        if (w.store.originals σ).isEmpty then return refuse "no_journaled_source"
        else
          match (w.store.mine σ).getLast?.filter fun _ => σ.principal ≠ "" with
          | none => return refuse "sender_is_not_author"
          | some newest => v.applySignal kind σ.principal (w.store.mine σ) newest nowMs

end SignalInvalidator
variable {nowMs : Int} {revision : Int}

theorem cancelStaleEffects_returns {turnId : String} {reason : String} :
    Returns (cancelStaleEffects turnId revision nowMs reason) :=
  .bind .read fun _ => .select fun effectId => cancelStale_returns effectId nowMs reason

def Store.bumped (s : Store) (turnId : String) (revision nowMs : Int) : Store :=
  { s with
    turns := updateWhere (fun t => t.turnId = turnId && t.revision = revision) (bumpRow nowMs) s.turns }
variable {s : Store} {turnId : String} {turn : TurnRow}

def ReturnsIff {α : Type} (p : Prop) (m : StoreM α) (s : Store) : Prop :=
  (p → ∃ a s', m s = (.ok a, s')) ∧ (¬ p → ∃ e, m s = (.error e, s))

namespace ReturnsIff
variable {p : Prop} {α β : Type} {m : StoreM α}

theorem read {f : Store → StoreM α} (h : ReturnsIff p (f s) s) : ReturnsIff p (Txn.read >>= f) s := h

theorem bind (h : ReturnsIff p m s) {f : α → StoreM β} (hf : ∀ a, Returns (f a)) : ReturnsIff p (m >>= f) s := by
  refine ⟨fun hp => ?_,fun hp => ?_⟩
  · obtain ⟨a,s',hm⟩ := h.1 hp
    obtain ⟨b,s'',hb⟩ := hf a s'
    exact ⟨b,s'',(bind_of_ok hm).trans hb⟩
  · obtain ⟨e,hm⟩ := h.2 hp
    exact ⟨e,bind_of_error hm⟩

theorem recover {m' : StoreM α} (h : ReturnsIff p m s ∨ ∃ e, m s = (.error e, s)) (h' : ReturnsIff p m' s) :
    ReturnsIff p (Txn.recover m m') s := by
  by_cases hm : ∃ e, m s = (.error e, s)
  · obtain ⟨e,hm⟩ := hm
    unfold ReturnsIff
    rwa [recover_of_error hm]
  · have h := h.resolve_right hm
    refine ⟨fun hp => ?_,fun hp => absurd (h.2 hp) hm⟩
    obtain ⟨a,s',hm⟩ := h.1 hp
    exact ⟨a,s',recover_of_ok hm⟩

end ReturnsIff

theorem bumpTurnRevision_returnsIff (hh : Housed (conversation s)) (h : s.turn? turnId = some turn) :
    ReturnsIff (turnLive turn) (bumpTurnRevision turnId turn.revision nowMs) s := by
  obtain ⟨hm,hid⟩ := lookup_some h
  obtain ⟨hrev,th,hth,hthid⟩ := hh turn hm
  obtain ⟨thread,hthread⟩ := Option.isSome_iff_exists.mp (lookup_isSome.mpr ⟨th,hth,hthid⟩)
  have hj : s.turnJoin? turnId = some (turn, thread) := by
    rw [Store.turnJoin?,h,Option.bind_some,show s.thread? turn.threadId = some thread from hthread]
    rfl
  refine ⟨fun hl => ?_,fun hl => ?_⟩
  · have hafter : (s.bumped turnId turn.revision nowMs).turn? turnId = some (bumpRow nowMs turn) :=
      lookup_updateWhere_of_pos (f := bumpRow nowMs) (fun _ => rfl) h (by simp [hid])
    have href : (bumpRow nowMs turn).toRef thread.channel thread.chatId = .ok _ :=
      dif_pos (hrev.trans (Int.le_add_one le_rfl))
    refine ⟨_,_,(bind_of_ok (a := (bumpRow nowMs turn, thread))
      (atomically_of_ok (?_ : _ = (_, s.bumped turnId turn.revision nowMs)))).trans (congrArg (·, _) href)⟩
    rw [read_bind_apply,hj]
    dsimp only
    rw [require_bind_of_pos hl,require_bind_of_pos rfl]
    exact congrArg (fun found : Option TurnRow => (Except.ok (found.getD turn, thread), _)) hafter
  · refine ⟨turnStateError ("turn " ++ turnId ++ " is " ++ turn.state.name ++ " and cannot be revised"),
      bind_of_error (atomically_of_error (?_ : _ = (_, s)))⟩
    rw [read_bind_apply,hj]
    exact require_bind_of_neg hl

def Store.revisable (s : Store) (turnId : String) : Bool := (s.turn? turnId).all turnLive

theorem correctTurn_returnsIff (hh : Housed (conversation s)) {authority : TurnAuthority}
    {principal channel chatId : String} :
    ReturnsIff (s.revisable turnId) (correctTurn authority turnId principal channel chatId nowMs) s ∨
      ∃ e, correctTurn authority turnId principal channel chatId nowMs s = (.error e, s) := by
  unfold ReturnsIff Store.revisable
  rw [correctTurn,read_bind_apply]
  cases ht : s.turn? turnId with
  | none => exact .inr ⟨_,rfl⟩
  | some turn =>
    dsimp only
    by_cases hmay : (authority.mayModify turn principal channel chatId).1 = true
    · rw [require_bind_of_pos hmay]
      exact .inl ((bumpTurnRevision_returnsIff hh ht).bind fun _ => .bind cancelStaleEffects_returns fun _ => .pure)
    · exact .inr ⟨_,require_bind_of_neg hmay⟩

namespace SignalInvalidator
variable (v : SignalInvalidator) {s : Store} {turnId : String}
  {before : List String} {nowMs : Int} {principal : String} {kind : SignalKind} {newest : EventRow}

theorem reviseTurn_returnsIff (hh : Housed (conversation s)) :
    ReturnsIff (s.revisable turnId) (reviseTurn turnId before nowMs) s := by
  refine .read ?_
  unfold Store.revisable
  cases ht : s.turn? turnId with
  | none => exact ⟨fun _ => ⟨[],s,rfl⟩,fun h => absurd rfl h⟩
  | some turn => exact (bumpTurnRevision_returnsIff hh ht).bind fun _ => .bind cancelStaleEffects_returns fun _ => .pure

theorem invalidateTurn_returnsIff (hh : Housed (conversation s)) :
    ReturnsIff (s.revisable turnId) (v.invalidateTurn turnId newest principal nowMs) s := by
  refine .read ?_
  split
  · refine ReturnsIff.recover ?_ (reviseTurn_returnsIff hh)
    refine (correctTurn_returnsIff hh).imp (fun h => h.bind fun _ => .pure) fun ⟨e,hc⟩ => ⟨e,bind_of_error hc⟩
  · exact reviseTurn_returnsIff hh

def TurnOpen (s : Store) (newest : EventRow) : Prop :=
  ∀ turnId ∈ nonempty newest.turnId, s.revisable turnId = true
deriving Decidable

theorem invalidateNewest_returnsIff (hh : Housed (conversation s)) :
    ReturnsIff (TurnOpen s newest) (v.invalidateNewest newest principal nowMs) s := by
  unfold invalidateNewest TurnOpen
  cases ht : nonempty newest.turnId with
  | none => exact ⟨fun _ => ⟨[],s,rfl⟩,fun h => absurd (by simp) h⟩
  | some turnId => simpa using v.invalidateTurn_returnsIff hh
variable {w : DerivedWorld}

theorem call_of_author {payload : Dict} {σ : JournalSignal} (hk : kind ∈ invalidatingKinds)
    (hσ : v.mapper.map { kind := kind, payload := payload, nowMs := nowMs } = .ok (some σ)) (ht : σ.target ≠ "")
    (hp : σ.principal ≠ "") (hn : (w.store.mine σ).getLast? = some newest) :
    v.call kind payload nowMs w = v.applySignal kind σ.principal (w.store.mine σ) newest nowMs w := by
  have hne : (w.store.originals σ).isEmpty = false := by
    have hm : newest ∈ w.store.originals σ := (List.mem_filter.mp (List.mem_of_getLast? hn)).1
    cases ho : w.store.originals σ with
    | nil =>
      rw [ho] at hm
      cases hm
    | cons e es => rfl
  rw [call,if_neg (not_not.mpr hk),hσ]
  refine (bind_of_ok liftExcept_apply).trans ?_
  have hauthor : (some newest).filter (fun _ => decide (σ.principal ≠ "")) = some newest := by
    simp [Option.filter,hp]
  dsimp only
  rw [if_neg ht,read_bind_apply,hne,if_neg Bool.false_ne_true,hn,hauthor]

/-- Where the revision raises, everything that was derived stays in place. -/
theorem applySignal_knowledge (hh : Housed (conversation w.store)) {mine : List EventRow} :
    (v.applySignal kind principal mine newest nowMs w).2.knowledge =
      if TurnOpen w.store newest then
        invalidateDerived (mine.map EventRow.eventId) ("source_" ++ kind.event.name) nowMs w.knowledge
      else w.knowledge := by
  have h : ReturnsIff (TurnOpen w.store newest) (v.invalidateNewest newest principal nowMs) w.store :=
    v.invalidateNewest_returnsIff hh
  split
  next hopen =>
    obtain ⟨ids,m,hi⟩ := h.1 hopen
    rw [applySignal,bind_of_ok (zoom_of_eq hi)]
    rfl
  next hclosed =>
    obtain ⟨e,hi⟩ := h.2 hclosed
    rw [applySignal,bind_of_error (zoom_of_eq hi)]

end SignalInvalidator

/-- Every store that operations reach has its turns in threads that are there. -/
theorem housed_run (ops : List Op) : Housed (conversation (run Op.exec Store.empty ops)) :=
  run_invariant (I := fun s => Housed (conversation s)) (fun _ op h => op.carries.housed h)
    (fun _ ht => absurd ht List.not_mem_nil) ops

theorem mem_mine {σ : JournalSignal} {e : EventRow} :
    e ∈ s.mine σ ↔ e ∈ s.events ∧ e.sourceMessageId = some σ.target ∧ σ.target ≠ "" ∧ e.kind = .message ∧
      e.principal = σ.principal := by
  unfold Store.mine Store.originals Store.eventsBySourceMessage orderBy
  split
  · simp_all
  · simp only [List.mem_filter,List.mem_insertionSort,decide_eq_true_eq]
    tauto

/-- For an edit or deletion of a journaled message by its author, what was derived from the
message is invalidated exactly when the turn of the author's newest version of it is open or
unknown, or when there is nothing to invalidate. -/
theorem derived_invalidated_iff (v : SignalInvalidator) (ops : List Op) (k : KnowledgeStore) (kind : SignalKind)
    (payload : Dict) (nowMs : Int) (σ : JournalSignal) (e : EventRow) (hk : kind ∈ invalidatingKinds)
    (hσ : v.mapper.map { kind := kind, payload := payload, nowMs := nowMs } = .ok (some σ))
    (he : e ∈ (run Op.exec Store.empty ops).events) (hm : e.kind = .message) (ht : σ.target ≠ "")
    (hs : e.sourceMessageId = some σ.target) (hp : σ.principal ≠ "") (ha : e.principal = σ.principal) :
    let s := run Op.exec Store.empty ops
    KnowledgeStore.Invalidated e.eventId ("source_" ++ kind.event.name) k
        (v.call kind payload nowMs ⟨s,k⟩).2.knowledge ↔
      (∀ newest ∈ (s.mine σ).getLast?, SignalInvalidator.TurnOpen s newest) ∨ k.Settled e.eventId := by
  intro s
  have hmine : e ∈ s.mine σ := mem_mine.mpr ⟨he,hs,ht,hm,ha⟩
  have hn : (s.mine σ).getLast? = some ((s.mine σ).getLast (List.ne_nil_of_mem hmine)) :=
    List.getLast?_eq_some_getLast _
  rw [v.call_of_author (w := ⟨s,k⟩) hk hσ ht hp hn,hn,v.applySignal_knowledge (w := ⟨s,k⟩) (housed_run ops)]
  split
  next hopen =>
    refine iff_of_true (k.invalidateEventSources_invalidated (List.mem_map_of_mem hmine)).mark (.inl ?_)
    rintro newest ⟨⟩
    exact hopen
  next hclosed =>
    rw [KnowledgeStore.invalidated_self_iff]
    exact ⟨.inr,fun h => h.resolve_left fun hall => hclosed (hall _ rfl)⟩

def boundMessage : List Op :=
  let threadId := threadIdFor "whatsapp" "c1" "ev1"
  let turnId := turnIdFor threadId "ev1" 1
  let event : CanonicalEvent :=
    { eventId := "ev1", eventKey := "key:ev1", traceId := "trace", kind := .message, origin := "whatsapp",
      principal := "u1", channel := "whatsapp", chatId := "c1", account := "", direction := .inbound,
      revision := 1, audienceRef := none, occurredMs := none, createdMs := 100, sourceMessageId := some "m1",
      targetMessageId := none, threadId := none, turnId := none, payload := Dict.empty, payloadHash := "",
      revision_pos := revision_one }
  [.openThread "whatsapp" "c1" "u1" "dm" "ev1" 100,
   .openTurn threadId "u1" "ev1" 100 .open,
   .appendEvent { eventKey := "key:ev1", eventId := "ev1", traceId := "trace", payload := .canonical event, nowMs := 100 },
   .attachEventAssignment "ev1" (some threadId) (some turnId)]

def deletion : Dict :=
  ((Dict.empty.setStr "chatJid" "c1").setStr "messageId" "m1").setStr "senderId" "u1@s.whatsapp.net"

def derivedStatement : KnowledgeStore where
  statementSources :=
    [{ statementId := "st1", eventId := "ev1", revision := 1, status := .active, eventId_ne := by decide }]
  statements :=
    [{ statementId := "st1", status := .assertion, supersessionReason := "unknown", revokedAtMs := none,
       revision := 1, updatedMs := 150 }]
  notes := [{ noteId := "n1", status := .active, staleReason := none }]
  noteSources := [{ noteId := "n1", kind := .statement, ref := "st1", ref_ne := by decide }]

def plainInvalidator : SignalInvalidator := { mapper := { toMs := fun _ => none } }

def deletionSignal : JournalSignal :=
  plainInvalidator.mapper.signal .delete "whatsapp:c1:delete:m1" "c1" "u1" deletion
    (SignalBody.empty.setBool .revoked true) (some "m1") (some "m1") none

theorem deletion_signal : plainInvalidator.mapper.map { kind := .delete, payload := deletion, nowMs := 200 } =
    .ok (some deletionSignal) := by
  rfl

theorem boundMessage_journaled : ∃ e ∈ (run Op.exec Store.empty boundMessage).events,
    e.eventId = "ev1" ∧ e.kind = .message ∧ e.sourceMessageId = some "m1" ∧ e.principal = "u1" := by
  decide +kernel

theorem deletion_invalidates_statement :
    KnowledgeStore.Invalidated "ev1" "source_delete" derivedStatement
      (plainInvalidator.call .delete deletion 200
        ⟨run Op.exec Store.empty boundMessage,derivedStatement⟩).2.knowledge := by
  obtain ⟨e,he,hid,hm,hs,ha⟩ := boundMessage_journaled
  have h := (derived_invalidated_iff plainInvalidator boundMessage derivedStatement .delete deletion 200
    deletionSignal e (by decide) deletion_signal he hm (by decide) hs (by decide) ha).mpr (.inl (by decide +kernel))
  rwa [hid] at h

def closedMessage : List Op :=
  boundMessage ++ [.closeTurn (turnIdFor (threadIdFor "whatsapp" "c1" "ev1") "ev1" 1) 150 "closed"]

/-- The deletion raises on the closed turn; the source stays active and so does the note. -/
theorem closed_turn_keeps_statement :
    (∃ e ∈ (run Op.exec Store.empty closedMessage).events, e.eventId = "ev1" ∧ e.kind = .message ∧
      e.sourceMessageId = some deletionSignal.target ∧ e.principal = deletionSignal.principal) ∧
    ¬ KnowledgeStore.Invalidated "ev1" "source_delete" derivedStatement
      (plainInvalidator.call .delete deletion 200
        ⟨run Op.exec Store.empty closedMessage,derivedStatement⟩).2.knowledge := by
  have hk : (plainInvalidator.call .delete deletion 200
      ⟨run Op.exec Store.empty closedMessage,derivedStatement⟩).2.knowledge = derivedStatement := by
    have hturn : ¬ ∀ newest ∈ ((run Op.exec Store.empty closedMessage).mine deletionSignal).getLast?,
        SignalInvalidator.TurnOpen (run Op.exec Store.empty closedMessage) newest := by
      decide +kernel
    push Not at hturn
    obtain ⟨newest,hn,hclosed⟩ := hturn
    have hcall := plainInvalidator.call_of_author (w := ⟨run Op.exec Store.empty closedMessage,derivedStatement⟩)
      (by decide) deletion_signal (by decide) (by decide) hn
    rw [hcall]
    exact (plainInvalidator.applySignal_knowledge (w := ⟨run Op.exec Store.empty closedMessage,derivedStatement⟩)
      (housed_run closedMessage)).trans (if_neg hclosed)
  rw [hk,KnowledgeStore.invalidated_self_iff]
  decide +kernel

end Yeoman.Processing
