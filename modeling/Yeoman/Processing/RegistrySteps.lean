import Yeoman.Processing.ConversationSteps
import Yeoman.Processing.ThreadRegistry

/-! What an assignment does to the store: which rows it adds, which identities it keeps,
and of which store operations it consists. -/
namespace Yeoman.Processing
open Library Table Txn

def nextTurnId (s : Store) (threadId eventId : String) : String :=
  turnIdFor threadId eventId (((s.thread? threadId).map ThreadRow.turnSeq).getD 0 + 1)

structure Sourced (eventId : String) (turnId : Option String) (rows rows' : List TurnSourceRow) : Prop where
  only : ∀ r ∈ rows', r ∈ rows ∨ turnId = some r.turnId ∧ r.eventId = eventId
  kept : ∀ r ∈ rows, r ∈ rows'
  joined : ∀ t, turnId = some t → ∃ r ∈ rows', r.turnId = t ∧ r.eventId = eventId

def SourceRefused (s : Store) (turnId eventId : String) : Prop :=
  s.turn? turnId = none ∧ lookup TurnSourceRow.key (turnId, eventId) s.turnSources = none
deriving Decidable

def addedSource (turnId eventId : String) (m : Option String) (role : String) (v n : Int) : TurnSourceRow :=
  { turnId := turnId, eventId := eventId, sourceMessageId := m, role := role, revisionAtJoin := v,
    addedMs := n, removedMs := none }
variable {s : Store} {m : Option String} {role : String}

theorem addTurnSource_refused {turnId eventId : String} {v n : Int} (h : SourceRefused s turnId eventId) :
    addTurnSource turnId eventId m role v n s = (.error foreignKeyError, s) := by
  apply atomically_of_error
  rw [read_bind_apply,h.2,Option.isSome_none,if_neg Bool.false_ne_true]
  exact require_bind_of_neg (by simp [h.1])

theorem addTurnSource_accepted {turnId eventId : String} (h : ¬ SourceRefused s turnId eventId) {v n : Int} :
    ∃ rows, addTurnSource turnId eventId m role v n s = (.ok (), { s with turnSources := rows }) ∧
      Sourced eventId (some turnId) s.turnSources rows := by
  cases hl : lookup TurnSourceRow.key (turnId, eventId) s.turnSources with
  | some row =>
    refine ⟨s.turnSources,atomically_of_ok ?_,fun r hr => .inl hr,fun r hr => hr,?_⟩
    · rw [read_bind_apply,hl]
      rfl
    · rintro t ⟨⟩
      obtain ⟨hm,hk⟩ := lookup_some hl
      exact ⟨row,hm,congrArg Prod.fst hk,congrArg Prod.snd hk⟩
  | none =>
    have ht : (s.turn? turnId).isSome := Option.isSome_iff_ne_none.mpr fun hn => h ⟨hn,hl⟩
    refine ⟨s.turnSources ++ [addedSource turnId eventId m role v n],atomically_of_ok ?_,?_,
      fun r hr => List.mem_append_left _ hr,?_⟩
    · rw [read_bind_apply,hl,Option.isSome_none,if_neg Bool.false_ne_true]
      exact require_bind_of_pos ht _ _ s
    · intro r hr
      rcases mem_concat.mp hr with hr | rfl
      · exact .inl hr
      · exact .inr ⟨rfl,rfl⟩
    · rintro t ⟨⟩
      exact ⟨_,List.mem_concat_self,rfl,rfl⟩

namespace AssignCall
variable (c : AssignCall)

def place (thread : Option String) : String := thread.getD c.ownThread

def threadsWith (kind : String) (thread : Option String) (s : Store) : List ThreadRow :=
  if thread = none ∧ s.thread? c.ownThread = none then
    s.threads ++ [openedThread c.event.channel c.event.chatId c.event.principal kind c.event.eventId c.nowMs]
  else s.threads

def turnIn (s : Store) (thread turn : Option String) : Option String :=
  match turn with
  | some turnId => some turnId
  | none => if c.allowTurn then some (nextTurnId s (c.place thread) c.event.eventId) else none

def turnsWith (thread turn : Option String) (s : Store) : List TurnRow :=
  if turn = none ∧ c.allowTurn = true then
    insertIgnore TurnRow.turnId (openedTurn (c.place thread) c.event.principal
      (nextTurnId s (c.place thread) c.event.eventId) c.nowMs .open) s.turns
  else s.turns

def attached (threadId : String) (turnId : Option String) (rows : List EventRow) : List EventRow :=
  updateWhere (fun e => e.eventId = c.event.eventId)
    (fun e => { e with threadId := some threadId, turnId := turnId }) rows

theorem mem_attached {c : AssignCall} {threadId : String} {turnId : Option String} {rows : List EventRow}
    {e : EventRow} (h : e ∈ c.attached threadId turnId rows) (hid : e.eventId = c.event.eventId) :
    e.threadId = some threadId ∧ e.turnId = turnId := by
  obtain ⟨old,-,rfl⟩ := List.mem_map.mp h
  by_cases hm : old.eventId = c.event.eventId
  · rw [if_pos (decide_eq_true hm)]
    exact ⟨rfl,rfl⟩
  · rw [if_neg (by simpa using hm)] at hid
    exact absurd hid hm

/-- The store cannot put the event there: a new turn in a thread that is not there, or a
turn that is not there. -/
def Refused (s : Store) (thread turn : Option String) : Prop :=
  match turn with
  | none => c.allowTurn = true ∧ thread.isSome ∧ s.thread? (c.place thread) = none
  | some turnId => SourceRefused s turnId c.event.eventId

instance (s : Store) (thread turn : Option String) : Decidable (c.Refused s thread turn) := by
  unfold Refused
  split <;> infer_instance

structure Placed (kind : String) (thread turn : Option String) (s s' : Store) : Prop where
  accepted : ¬ c.Refused s thread turn
  threads : Rewrites ThreadRow.Same (c.threadsWith kind thread s) s'.threads
  turns : Rewrites TurnRow.Same (c.turnsWith thread turn s) s'.turns
  sources : Sourced c.event.eventId (c.turnIn s thread turn) s.turnSources s'.turnSources
  events : s'.events = c.attached (c.place thread) (c.turnIn s thread turn) s.events

structure Raised (kind : String) (thread turn : Option String) (s s' : Store) : Prop where
  refused : c.Refused s thread turn
  threads : Rewrites ThreadRow.Same (c.threadsWith kind thread s) s'.threads
  rest : s' = { s with threads := s'.threads, topics := s'.topics }

end AssignCall

namespace ThreadRegistry
variable (reg : ThreadRegistry) (c : AssignCall) (threadId : String) (d : JoinDecision) (data : JoinInput)
  (kind : String) (nowMs : Int)
variable {sourceId : String}

theorem wake_woken {newTurn : Bool} {nowMs : Int} :
    ∃ ts, reg.wake threadId newTurn nowMs s = (.ok (), { s with threads := ts }) ∧
      Rewrites ThreadRow.Woken s.threads ts := by
  obtain ⟨b,ts,hr,hw⟩ := reactivate_woken threadId nowMs s
  rw [wake,bind_of_ok hr]
  cases b with
  | true => exact ⟨ts,rfl,hw⟩
  | false =>
    rw [if_neg Bool.false_ne_true,read_bind_apply]
    have ht : ∀ {a b c : ThreadRow}, a.Woken b → b.Woken c → a.Woken c := fun h h' =>
      ⟨h.toSame.trans _ _ _ h'.toSame,h'.turnSeq.trans h.turnSeq⟩
    split
    · obtain ⟨_,ts',hr',hw'⟩ := reopenThread_woken threadId nowMs { s with threads := ts }
      rw [bind_of_ok hr']
      exact ⟨ts',rfl,hw.trans (fun _ _ _ => ht) hw'⟩
    · obtain ⟨ts',hr',hw'⟩ := touchThread_woken threadId nowMs { s with threads := ts }
      exact ⟨ts',hr',hw.trans (fun _ _ _ => ht) hw'⟩

theorem openThread_woken :
    ∃ ts, openThread c.event.channel c.event.chatId c.event.principal kind c.event.eventId c.nowMs s =
        (.ok c.ownThread, { s with threads := ts }) ∧
      Rewrites ThreadRow.Woken (c.threadsWith kind none s) ts := by
  unfold AssignCall.threadsWith
  cases h : s.thread? c.ownThread with
  | none =>
    rw [if_pos ⟨rfl,rfl⟩]
    exact ⟨_,openThread_fresh h,.refl ThreadRow.Woken.refl _⟩
  | some row =>
    rw [if_neg fun hn => nomatch hn.2]
    exact openThread_known h

def threadKind (c : AssignCall) : String := if c.data.isGroup then "group" else "dm"

theorem threadFor_woken :
    ∃ ts, reg.threadFor c d s = (.ok (c.place d.threadId, d.threadId.isNone), { s with threads := ts }) ∧
      Rewrites ThreadRow.Woken (c.threadsWith (threadKind c) d.threadId s) ts := by
  unfold threadFor
  cases d.threadId with
  | none =>
    obtain ⟨ts,ho,hw⟩ := openThread_woken c (threadKind c)
    exact ⟨ts,bind_of_ok ho,hw⟩
  | some threadId =>
    obtain ⟨ts,ho,hw⟩ := reg.wake_woken threadId
    exact ⟨ts,bind_of_ok ho,hw⟩

variable {thread : Option String} {s : Store} {ts : List ThreadRow}

theorem thread?_unknown (hs : thread.isSome) (hn : s.thread? (c.place thread) = none)
    (hw : Rewrites ThreadRow.Woken (c.threadsWith kind thread s) ts) :
    lookup ThreadRow.threadId (c.place thread) ts = none := by
  have hold : c.threadsWith kind thread s = s.threads := if_neg fun h => by simp [h.1] at hs
  exact hw.lookup_none (fun _ _ h => h.threadId) (hold ▸ hn)

theorem thread?_placed (hk : thread.isSome → s.thread? (c.place thread) ≠ none)
    (hw : Rewrites ThreadRow.Woken (c.threadsWith kind thread s) ts) :
    ∃ row, lookup ThreadRow.threadId (c.place thread) ts = some row ∧
      row.turnSeq = ((s.thread? (c.place thread)).map ThreadRow.turnSeq).getD 0 := by
  have hbase : ∃ row, lookup ThreadRow.threadId (c.place thread) (c.threadsWith kind thread s) = some row ∧
      row.turnSeq = ((s.thread? (c.place thread)).map ThreadRow.turnSeq).getD 0 := by
    unfold AssignCall.threadsWith
    cases hs : s.thread? (c.place thread) with
    | some row =>
      refine ⟨row,?_,rfl⟩
      split
      · exact lookup_append_of_some hs
      · exact hs
    | none =>
      cases thread with
      | some threadId => exact absurd hs (hk rfl)
      | none =>
        rw [if_pos ⟨rfl,hs⟩,lookup_append_of_none hs]
        exact ⟨openedThread c.event.channel c.event.chatId c.event.principal kind c.event.eventId c.nowMs,
          by simp [lookup,openedThread,AssignCall.place,AssignCall.ownThread],rfl⟩
  obtain ⟨row,hrow,hseq⟩ := hbase
  obtain ⟨row',hrow',h⟩ := Kept.of_rewrites (fun _ _ h => h.threadId) hw _ row hrow
  exact ⟨row',hrow',h.turnSeq.trans hseq⟩

theorem openTurn_placed {c : AssignCall} {kind : String} (ha : c.allowTurn = true) (hacc : ¬ c.Refused s thread none)
    (hw : Rewrites ThreadRow.Woken (c.threadsWith kind thread s) ts) :
    ∃ us, openTurn (c.place thread) c.event.principal c.event.eventId c.nowMs .open { s with threads := ts } =
        (.ok (nextTurnId s (c.place thread) c.event.eventId),
          { s with threads := us, turns := c.turnsWith thread none s }) ∧
      Rewrites ThreadRow.Same (c.threadsWith kind thread s) us ∧
      ¬ SourceRefused { s with threads := us, turns := c.turnsWith thread none s }
        (nextTurnId s (c.place thread) c.event.eventId) c.event.eventId := by
  have hturns : c.turnsWith thread none s = _ := if_pos ⟨rfl,ha⟩
  obtain ⟨row,hrow,hseq⟩ := thread?_placed c kind (fun hs hn => hacc ⟨ha,hs,hn⟩) hw
  obtain ⟨us,ho,hus⟩ := openTurn_known (s := { s with threads := ts }) hrow
  rw [hseq] at ho
  rw [hturns]
  refine ⟨us,ho,(hw.mono fun _ _ h => h.toSame).trans ThreadRow.Same.trans hus,fun hr => ?_⟩
  obtain ⟨r,hm,hk⟩ := exists_insertIgnore TurnRow.turnId (openedTurn (c.place thread)
    c.event.principal (nextTurnId s (c.place thread) c.event.eventId) c.nowMs .open) s.turns
  exact lookup_none.mp hr.1 r hm hk

/-- What `_persist` does once thread and turn are known. -/
theorem joinTurn_attach {threadId : String} {turnId : Option String}
    (h : ∀ t, turnId = some t → ¬ SourceRefused s t c.event.eventId) :
    ∃ rows, Sourced c.event.eventId turnId s.turnSources rows ∧ ∀ {β : Type} (k : StoreM β),
      (do joinTurn c role turnId; attachEventAssignment c.event.eventId (some threadId) turnId; k) s =
        k { s with turnSources := rows, events := c.attached threadId turnId s.events } := by
  cases turnId with
  | none => exact ⟨s.turnSources,⟨fun r hr => .inl hr,fun r hr => hr,nofun⟩,fun k => rfl⟩
  | some t =>
    obtain ⟨rows,ha,hr⟩ := addTurnSource_accepted (h t rfl)
    refine ⟨rows,hr,fun k => ?_⟩
    rw [bind_of_ok (show joinTurn c role (some t) s = _ from ha)]
    rfl

def PersistsAt (reg : ThreadRegistry) (c : AssignCall) (d : JoinDecision) (s : Store) : Prop :=
  ∃ r s', reg.persist c d s = (.ok r, s') ∧ c.Placed (threadKind c) d.threadId d.turnId s s' ∧
    r.threadId = some (c.place d.threadId) ∧
    r.turnId = if d.observesOnly then none else c.turnIn s d.threadId d.turnId

private theorem persist_accepted {reg : ThreadRegistry} {c : AssignCall} {d : JoinDecision}
    {us : List ThreadRow} (vs : List TurnRow)
    (ht : reg.threadFor c d s = (.ok (c.place d.threadId, d.threadId.isNone), { s with threads := ts }))
    (hu : turnFor c d (c.place d.threadId) { s with threads := ts } =
      (.ok (c.turnIn s d.threadId d.turnId), { s with threads := us, turns := vs }))
    (hacc : ¬ c.Refused s d.threadId d.turnId)
    (hus : Rewrites ThreadRow.Same (c.threadsWith (threadKind c) d.threadId s) us)
    (hvs : Rewrites TurnRow.Same (c.turnsWith d.threadId d.turnId s) vs)
    (hsrc : ∀ t, c.turnIn s d.threadId d.turnId = some t →
      ¬ SourceRefused { s with threads := us, turns := vs } t c.event.eventId) :
    reg.PersistsAt c d s := by
  obtain ⟨rows,hr,hk⟩ := joinTurn_attach c hsrc
  have hp : reg.persist c d s = _ := (bind_of_ok ht).trans ((bind_of_ok hu).trans (hk _))
  exact ⟨_,_,hp,⟨hacc,hus,hvs,hr,rfl⟩,rfl,rfl⟩

theorem persist_cases :
    reg.PersistsAt c d s ∨
    ∃ e s', reg.persist c d s = (.error e, s') ∧ c.Raised (threadKind c) d.threadId d.turnId s s' := by
  obtain ⟨ts,ht,hw⟩ := reg.threadFor_woken c d
  have hsame := hw.mono fun _ _ h => h.toSame
  cases hd : d.turnId with
  | some turnId =>
    have hu : turnFor c d (c.place d.threadId) { s with threads := ts } =
        (.ok (some turnId), { s with threads := ts }) := by
      rw [turnFor,hd]
      rfl
    by_cases href : SourceRefused s turnId c.event.eventId
    · have hp : reg.persist c d s = _ := (bind_of_ok ht).trans ((bind_of_ok hu).trans
        (bind_of_error (addTurnSource_refused href)))
      exact .inr ⟨_,_,hp,href,hsame,rfl⟩
    · refine .inl (persist_accepted s.turns ht (by rw [hd]; exact hu) (by rwa [hd]) hsame
        (by rw [hd]; exact .refl TurnRow.Same.refl _) ?_)
      intro t hin
      rw [hd] at hin
      cases hin
      exact href
  | none =>
    cases ha : c.allowTurn with
    | false =>
      have hin : c.turnIn s d.threadId d.turnId = none := by rw [hd,AssignCall.turnIn,ha]; rfl
      refine .inl (persist_accepted s.turns ht ?_ ?_ hsame ?_ ?_)
      · rw [hin,turnFor,hd,ha]
        rfl
      · rw [hd]
        exact fun h => Bool.false_ne_true (ha.symm.trans h.1)
      · rw [AssignCall.turnsWith,if_neg fun h => Bool.false_ne_true (ha.symm.trans h.2)]
        exact .refl TurnRow.Same.refl _
      · intro t hs
        cases hin.symm.trans hs
    | true =>
      have hin : c.turnIn s d.threadId d.turnId =
          some (nextTurnId s (c.place d.threadId) c.event.eventId) := by
        rw [hd,AssignCall.turnIn,ha]
        rfl
      by_cases href : c.Refused s d.threadId none
      · have hts := thread?_unknown c _ href.2.1 href.2.2 hw
        have hu : turnFor c d (c.place d.threadId) { s with threads := ts } =
            (.error (processingError ("unknown thread: " ++ c.place d.threadId)), { s with threads := ts }) := by
          rw [turnFor,hd,ha]
          exact bind_of_error (openTurn_unknown hts)
        have hp : reg.persist c d s = _ := (bind_of_ok ht).trans (bind_of_error hu)
        exact .inr ⟨_,_,hp,href,hsame,rfl⟩
      · obtain ⟨us,ho,hus,hsrc⟩ := openTurn_placed ha href hw
        rw [← hd] at href hsrc
        refine .inl (persist_accepted _ ht ?_ href hus (.refl TurnRow.Same.refl _) ?_)
        · rw [hin,turnFor,hd,ha]
          exact bind_of_ok ho
        · intro t hs
          cases hin.symm.trans hs
          exact hsrc

def Tidies (x : StoreM Unit) : Prop :=
  ∀ s, ∃ ts us, x s = (.ok (), { s with threads := ts, turns := us }) ∧
    Rewrites ThreadRow.Same s.threads ts ∧ Rewrites TurnRow.Same s.turns us

theorem Tidies.skip : Tidies (pure ()) := fun s =>
  ⟨s.threads,s.turns,rfl,.refl ThreadRow.Same.refl _,.refl TurnRow.Same.refl _⟩

theorem Tidies.bind {x y : StoreM Unit} (hx : Tidies x) (hy : Tidies y) : Tidies (do x; y) := by
  intro s
  obtain ⟨ts,us,hr,ht,hu⟩ := hx s
  obtain ⟨ts',us',hr',ht',hu'⟩ := hy { s with threads := ts, turns := us }
  exact ⟨ts',us',(bind_of_ok hr).trans hr',ht.trans ThreadRow.Same.trans ht',
    hu.trans TurnRow.Same.trans hu'⟩

theorem Tidies.each {β : Type} {bs : List β} {f : β → StoreM Unit} (hf : ∀ b, Tidies (f b)) :
    Tidies (each bs f) := by
  induction bs with
  | nil => exact .skip
  | cons b bs ih => exact (hf b).bind ih

theorem closePreviousAmbientThreads_tidies {keep : String} {nowMs : Int} :
    Tidies (closePreviousAmbientThreads data keep nowMs) := by
  intro s
  refine Tidies.each (fun thread => ?_) s
  split
  · exact .skip
  refine Tidies.bind (fun s => ?_) fun s => ?_
  · rw [closeActiveTurn,read_bind_apply]
    cases s.activeTurn thread.threadId with
    | none => exact Tidies.skip s
    | some turn =>
      exact ⟨s.threads,_,rfl,.refl ThreadRow.Same.refl _,
        .updateWhere (f := closeTurnRow .closed nowMs) TurnRow.Same.refl fun _ _ _ => ⟨rfl,rfl,le_rfl⟩⟩
  · obtain ⟨ts,hr,hw⟩ := touchThread_woken thread.threadId nowMs s
    exact ⟨ts,s.turns,hr,hw.mono fun _ _ h => h.toSame,.refl TurnRow.Same.refl _⟩

theorem persistAmbient_placed (ha : c.allowTurn = true) :
    ∃ r s', persistAmbient c d s = (.ok r, s') ∧ c.Placed "ambient" none none s s' ∧
      r.threadId = some c.ownThread ∧ r.turnId = c.turnIn s none none := by
  have hacc : ¬ c.Refused s none none := fun h => Bool.false_ne_true h.2.1
  have hin : c.turnIn s none none = some (nextTurnId s c.ownThread c.event.eventId) := by
    rw [AssignCall.turnIn,ha]
    rfl
  obtain ⟨ts,ht,hw⟩ := openThread_woken c "ambient"
  obtain ⟨us,ho,hus,hsrc⟩ := openTurn_placed ha hacc hw
  have hsrcs : ∀ t, some (nextTurnId s c.ownThread c.event.eventId) = some t →
      ¬ SourceRefused { s with threads := us, turns := c.turnsWith none none s } t c.event.eventId := by
    rintro t ⟨⟩
    exact hsrc
  obtain ⟨rows,hr,hk⟩ := joinTurn_attach c hsrcs
  obtain ⟨us',vs,hc,hus',hvs⟩ := closePreviousAmbientThreads_tidies c.data
    { s with
      threads := us
      turns := c.turnsWith none none s
      turnSources := rows
      events := c.attached c.ownThread (some (nextTurnId s c.ownThread c.event.eventId)) s.events }
  have hp : persistAmbient c d s = _ := (bind_of_ok ht).trans ((bind_of_ok ho).trans
    ((hk _).trans (bind_of_ok hc)))
  rw [← hin] at hr
  refine ⟨_,_,hp,⟨hacc,hus.trans ThreadRow.Same.trans hus',hvs,hr,?_⟩,rfl,hin.symm⟩
  rw [hin]
  rfl

theorem forgetRevised_apply : ∃ topics, forgetRevised data nowMs s = (.ok (), { s with topics := topics }) := by
  unfold forgetRevised forgetTopicSource
  split_ifs
  · exact ⟨s.topics,rfl⟩
  · exact ⟨_,rfl⟩
  · exact ⟨s.topics,rfl⟩

theorem noteTopic_apply {threadId : Option String} {nowMs : Int} :
    ∃ topics, noteTopic data threadId nowMs s = (.ok (), { s with topics := topics }) := by
  unfold noteTopic noteThreadTopic
  cases nonempty threadId with
  | none => exact ⟨s.topics,rfl⟩
  | some threadId =>
    dsimp only
    split_ifs
    · exact ⟨s.topics,rfl⟩
    · exact ⟨_,rfl⟩
    · exact ⟨s.topics,rfl⟩

theorem correctionTargets_length {data : JoinInput} : (correctionTargets s data).length ≤ 1 := by
  unfold correctionTargets
  split
  · split
    · exact le_rfl
    · exact Nat.zero_le 1
  · exact Nat.zero_le 1

theorem decision_placed (s : Store) (c : AssignCall) :
    (reg.decision s c).Placed c.data (reg.viewFor s c.data c.nowMs) := decideJoin_placed

@[simp] theorem proposal_threadId {c : AssignCall} : (reg.proposal s c).threadId = (reg.decision s c).threadId := by
  unfold proposal
  split <;> rfl

@[simp] theorem proposal_rule {c : AssignCall} : (reg.proposal s c).rule = (reg.decision s c).rule := by
  unfold proposal
  split <;> rfl

def joinedTurn (reg : ThreadRegistry) (s : Store) (c : AssignCall) : Option String :=
  if c.event.kind = .reaction then none else (reg.decision s c).turnId

@[simp] theorem proposal_turnId {c : AssignCall} : (reg.proposal s c).turnId = reg.joinedTurn s c := by
  unfold proposal joinedTurn
  split <;> rfl

@[simp] theorem proposal_observesOnly {c : AssignCall} :
    (reg.proposal s c).observesOnly = decide (c.event.kind = .reaction) := by
  unfold proposal
  split
  · simp [*]
  · rw [decide_eq_false ‹_›]
    exact (reg.decision_placed s c).joinsIn

/-- At most one message can be corrected, so no decision asks back. -/
@[simp] theorem proposal_needsClarification {c : AssignCall} : (reg.proposal s c).needsClarification = false := by
  have hd : (reg.decision s c).needsClarification = false := by
    refine Bool.eq_false_iff.mpr fun h => ?_
    exact absurd ((reg.decision_placed s c).clear h) (not_lt.mpr correctionTargets_length)
  unfold proposal
  split <;> exact hd

def Background (reg : ThreadRegistry) (s : Store) (c : AssignCall) : Prop :=
  (reg.decision s c).rule = .ambient ∧ (c.allowTurn && reg.ambientAllowed c.data) = false
deriving Decidable

/-- Everything a call can do: answer from the stored assignment, leave the event in the
background, put it into its place, or raise before it is attached anywhere. -/
inductive Assigned (reg : ThreadRegistry) (c : AssignCall) (s : Store) :
    Except Error JoinDecision → Store → Prop
  | answered (d : JoinDecision) (threadId : String) (turnId : Option String) (topics : List TopicRow)
      (hs : storedAnswer s c = some (threadId, turnId)) (ht : d.threadId = some threadId)
      (hu : d.turnId = turnId) : Assigned reg c s (.ok d) { s with topics := topics }
  | background (d : JoinDecision) (topics : List TopicRow) (hs : storedAnswer s c = none)
      (hb : reg.Background s c) (ht : d.threadId = none) (hu : d.turnId = none) :
      Assigned reg c s (.ok d) { s with topics := topics }
  | placed (d : JoinDecision) (kind : String) (s' : Store) (hs : storedAnswer s c = none)
      (hb : ¬ reg.Background s c)
      (hp : c.Placed kind (reg.decision s c).threadId (reg.joinedTurn s c) s s')
      (ht : d.threadId = some (c.place (reg.decision s c).threadId))
      (hu : d.turnId = if c.event.kind = .reaction ∧ (reg.decision s c).rule ≠ .ambient then none
        else c.turnIn s (reg.decision s c).threadId (reg.joinedTurn s c)) :
      Assigned reg c s (.ok d) s'
  | raised (e : Error) (kind : String) (s' : Store) (hs : storedAnswer s c = none)
      (hb : ¬ reg.Background s c)
      (hr : c.Raised kind (reg.decision s c).threadId (reg.joinedTurn s c) s s') :
      Assigned reg c s (.error e) s'

theorem ambient_nowhere {reg : ThreadRegistry} {c : AssignCall} (h : (reg.decision s c).rule = .ambient) :
    (reg.decision s c).threadId = none ∧ (reg.decision s c).turnId = none := by
  have hj := (reg.decision_placed s c).joins
  rw [h] at hj
  generalize (reg.decision s c).threadId = thread at hj ⊢
  generalize (reg.decision s c).turnId = turn at hj ⊢
  generalize (reg.decision s c).newTurn = new at hj
  cases hj
  exact ⟨rfl,rfl⟩

private theorem settle_assigned {topics : List TopicRow}
    (hs : storedAnswer s c = none) {r : Except Error JoinDecision} {s' : Store}
    (h : reg.settle c (reg.proposal s c) { s with topics := topics } = (r, s')) : Assigned reg c s r s' := by
  unfold settle at h
  simp only [proposal_needsClarification,Bool.false_eq_true,if_false,proposal_threadId,proposal_rule] at h
  by_cases hamb : (reg.decision s c).rule = .ambient
  · obtain ⟨hthread,hturn⟩ := ambient_nowhere hamb
    have hjoined : reg.joinedTurn s c = none := by rw [joinedTurn,hturn,ite_self]
    rw [if_pos ⟨hthread,hamb⟩] at h
    cases hb : c.allowTurn && reg.ambientAllowed c.data with
    | true =>
      obtain ⟨d,m,hp,hpl,ht,hu⟩ := persistAmbient_placed c (reg.proposal s c)
        (Bool.and_eq_true_iff.mp hb).1
      rw [if_pos hb,hp] at h
      cases h
      refine .placed d "ambient" _ hs (fun h => Bool.false_ne_true (h.2.symm.trans hb)) ?_ ?_ ?_
      · rw [hthread,hjoined]
        exact { hpl with }
      · rw [ht,hthread]
        rfl
      · rw [hu,if_neg fun h => h.2 hamb,hthread,hjoined]
        rfl
    | false =>
      rw [hb] at h
      cases h
      refine .background _ _ hs ⟨hamb,hb⟩ ?_ ?_
      · rw [proposal_threadId,hthread]
      · rw [proposal_turnId,hjoined]
  · rw [if_neg fun h => hamb h.2] at h
    have hb : ¬ reg.Background s c := fun h => hamb h.1
    rcases reg.persist_cases c (reg.proposal s c) with
      ⟨d,m,hp,hpl,ht,hu⟩ | ⟨e,m,hp,hr⟩
    · obtain ⟨topics',hn⟩ := noteTopic_apply c.data
      rw [bind_of_ok hp,bind_of_ok hn] at h
      cases h
      rw [proposal_threadId] at hpl ht hu
      rw [proposal_turnId] at hpl hu
      refine .placed d _ _ hs hb { hpl with } ht ?_
      rw [hu,proposal_observesOnly]
      by_cases hk : c.event.kind = .reaction
      · rw [if_pos (decide_eq_true hk),if_pos ⟨hk,hamb⟩]
      · rw [decide_eq_false hk,if_neg Bool.false_ne_true,if_neg fun h => hk h.1]
        rfl
    · rw [bind_of_error hp] at h
      cases h
      rw [proposal_threadId,proposal_turnId] at hr
      exact .raised e _ _ hs hb { hr with }

theorem assign_assigned (s : Store) : Assigned reg c s (reg.assign c s).1 (reg.assign c s).2 := by
  obtain ⟨topics,hf⟩ := forgetRevised_apply c.data c.nowMs
  have ha : reg.assign c s = _ := (bind_of_ok hf).trans (read_bind_apply _ _)
  rw [ha,show storedAnswer { s with topics := topics } c = storedAnswer s c from rfl]
  cases hs : storedAnswer s c with
  | none => exact settle_assigned reg c hs rfl
  | some answer => exact .answered _ answer.1 answer.2 topics hs rfl rfl

end ThreadRegistry

theorem nonempty_eq_some {v : Option String} {x : String} (h : nonempty v = some x) : v = some x :=
  (Option.filter_eq_some_iff.mp h).1

theorem mem_listThreads {channel chatId principal : Option String} {state : Option ThreadState}
    {limit : Option Nat} {t : ThreadRow} (h : t ∈ s.listThreads channel chatId principal state limit) :
    t ∈ s.threads ∧ (∀ x ∈ channel, t.channel = x) ∧ (∀ x ∈ chatId, t.chatId = x) ∧
      (∀ x ∈ principal, t.rootPrincipal = x) ∧ ∀ x ∈ state, t.state = x := by
  have hm : t ∈ s.threads.filter fun t =>
      channel.all (t.channel = ·) && chatId.all (t.chatId = ·) && principal.all (t.rootPrincipal = ·) &&
        state.all (t.state = ·) := by
    cases limit with
    | none => exact (List.mem_insertionSort _).mp h
    | some n => exact (List.mem_insertionSort _).mp (List.mem_of_mem_take h)
  simpa [Option.all_eq_true,and_assoc] using hm

namespace ThreadRegistry

variable {threadId : String} {s : Store} {data : JoinInput}

theorem activeThreads_open {reg : ThreadRegistry} {nowMs : Int}
    {turnId : Option String} (h : (threadId, turnId) ∈ reg.activeThreads s data nowMs) :
    ∃ t ∈ s.threads, t.threadId = threadId ∧ t.chatId = data.chatId ∧ t.state = .open ∧
      (data.channel ≠ "" → t.channel = data.channel) ∧
      turnId = (s.activeTurn threadId).map TurnRow.turnId := by
  obtain ⟨t,ht,heq⟩ := List.mem_map.mp h
  cases heq
  obtain ⟨hm,hchannel,hchat,-,hstate⟩ := mem_listThreads (List.mem_filter.mp ht).1
  refine ⟨t,hm,rfl,hchat _ rfl,hstate _ rfl,fun hne => hchannel _ ?_,rfl⟩
  simp [nonempty,hne]

theorem lastDmThread_open (h : lastDmThread s data = some threadId) :
    ∃ t ∈ s.threads, t.threadId = threadId ∧ t.chatId = data.chatId ∧ t.state = .open := by
  obtain ⟨t,ht,rfl⟩ := Option.map_eq_some_iff.mp h
  obtain ⟨hm,-,hchat,-,hstate⟩ := mem_listThreads (List.mem_filter.mp (mem_of_maxBy ht)).1
  exact ⟨t,hm,rfl,hchat _ rfl,hstate _ rfl⟩

theorem semanticTarget_open (h : semanticTarget s data = some threadId) :
    ∃ t ∈ s.threads, t.threadId = threadId ∧ t.channel = data.channel ∧ t.chatId = data.chatId ∧
      t.state = .open := by
  obtain ⟨t,ht,hif⟩ := Option.bind_eq_some_iff.mp h
  obtain ⟨id,-,hlook⟩ := Option.bind_eq_some_iff.mp ht
  split at hif
  next hs =>
    have hsleep : t.state = .open ∧ t.conversationState = .dormant := by
      simpa [ThreadRow.sleeping] using hs.2.2.1
    cases hif
    exact ⟨t,(lookup_some hlook).1,rfl,hs.1,hs.2.1,hsleep.1⟩
  · cases hif

end ThreadRegistry
section
variable (reg : ThreadRegistry) (c : AssignCall) (d : JoinDecision) {threadId : Option String}

private theorem attach_via {eventId : String} {turnId : Option String} :
    Keeps id (Via fun _ => True) (attachEventAssignment eventId threadId turnId) :=
  Via.call (.attachEventAssignment ..) trivial rfl

private theorem threadFor_via : Keeps id (Via fun _ => True) (reg.threadFor c d) := by
  unfold ThreadRegistry.threadFor
  cases d.threadId with
  | none => exact .bind_pure (Via.call (.openThread ..) trivial rfl)
  | some threadId =>
    refine .bind_pure (.bind Via.trans (Via.call (.reactivate ..) trivial rfl) fun _ => ?_)
    refine .ite (.of_frame Via.refl .pure) (.frame_bind Via.refl .read fun _ => .ite ?_ ?_)
    · exact .bind_pure (Via.call (.reopenThread ..) trivial rfl)
    · exact Via.call (.touchThread ..) trivial rfl

private theorem turnFor_via {threadId : String} :
    Keeps id (Via fun _ => True) (ThreadRegistry.turnFor c d threadId) := by
  unfold ThreadRegistry.turnFor
  cases d.turnId with
  | some turnId => exact .of_frame Via.refl .pure
  | none =>
    exact .ite (.bind_pure (Via.call (.openTurn ..) trivial rfl)) (.of_frame Via.refl .pure)

private theorem persist_via : Keeps id (Via fun _ => True) (reg.persist c d) := by
  refine .bind Via.trans (threadFor_via reg c d) fun _ => .bind Via.trans (turnFor_via c d) fun turnId => ?_
  refine .bind Via.trans ?_ fun _ => .bind_frame attach_via fun _ => .bind_pure .read
  cases turnId with
  | none => exact .of_frame Via.refl .pure
  | some turnId => exact Via.call (.addTurnSource ..) trivial rfl

private theorem persistAmbient_via : Keeps id (Via fun _ => True) (ThreadRegistry.persistAmbient c d) := by
  refine .bind Via.trans (Via.call (.openThread ..) trivial rfl) fun _ =>
    .bind Via.trans (Via.call (.openTurn ..) trivial rfl) fun _ =>
      .bind Via.trans (Via.call (.addTurnSource ..) trivial rfl) fun _ =>
        .bind Via.trans attach_via fun _ => .bind_pure ?_
  refine .frame_bind Via.refl .read fun _ => .each Via.refl Via.trans fun t =>
    .ite (.of_frame Via.refl .pure) (.bind Via.trans (.frame_bind Via.refl .read fun s => ?_) fun _ =>
      Via.call (.touchThread ..) trivial rfl)
  cases s.activeTurn t.threadId with
  | none => exact .of_frame Via.refl .pure
  | some turn => exact .bind_pure (Via.call (.closeTurn ..) trivial rfl)

private theorem noteTopic_via : Keeps id (Via fun _ => True) (ThreadRegistry.noteTopic c.data threadId c.nowMs) := by
  unfold ThreadRegistry.noteTopic
  cases nonempty threadId with
  | none => exact .of_frame Via.refl .pure
  | some threadId =>
    exact .ite (Via.call (.noteThreadTopic ..) trivial rfl) (.of_frame Via.refl .pure)

private theorem settle_via : Keeps id (Via fun _ => True) (reg.settle c d) := by
  refine .ite (.ite (persistAmbient_via c d) (.ite ?_ (.of_frame Via.refl .pure))) (.ite ?_ ?_)
  · exact .bind_pure attach_via
  · exact .bind_pure attach_via
  · exact .bind Via.trans (persist_via reg c d) fun _ => .bind_pure (noteTopic_via c)

/-- An assignment is a sequence of store operations. -/
theorem ThreadRegistry.assign_via : Keeps id (Via fun _ => True) (reg.assign c) := by
  refine .bind Via.trans (.ite (Via.call (.forgetTopicSource ..) trivial rfl) (.of_frame Via.refl .pure))
    fun _ => .frame_bind Via.refl .read fun s => ?_
  cases ThreadRegistry.storedAnswer s c with
  | none => exact settle_via reg c _
  | some answer => exact .of_frame Via.refl .pure

end

def placeOf (r : Except Error JoinDecision) : Option (Option String × Option String) :=
  r.toOption.map fun d => (d.threadId, d.turnId)

inductive RegistryAction where
  | assign (c : AssignCall)
  | call (op : Op)

def ThreadRegistry.step (reg : ThreadRegistry) (s : Store) : RegistryAction → Store
  | .assign c => (reg.assign c s).2
  | .call op => op.exec s

end Yeoman.Processing
