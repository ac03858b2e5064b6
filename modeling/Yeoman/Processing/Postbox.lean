import Yeoman.Processing.ActorSteps

/-! Runs of a thread actor: which inputs its postbox loses and which it strands. -/
namespace Yeoman.Processing
open Library Table Txn Runs

/-- The store, the actor's count of additional generations, and the provider calls in flight. -/
structure ActorWorld where
  store : Store
  additional : Nat
  frozen : List GenerationSnapshot

inductive ActorAction (threadId : String) where
  | accept (f : FollowUp) (nowMs : Int)
  | freeze (generationId : String) (nowMs : Int)
  | returned (snapshot : GenerationSnapshot) (text : Option String) (nowMs : Int)
  | failed (snapshot : GenerationSnapshot) (outcome : String) (detail : Option String) (nowMs : Int)
  | forgotten
  | other (op : Op) (h : op.drains threadId = false)

def ActorWorld.start : ActorWorld := ⟨Store.empty,0,[]⟩

namespace ThreadActor
variable (a : ThreadActor)

def step (w : ActorWorld) : ActorAction a.threadId → ActorWorld
  | .accept f nowMs => { w with store := (a.accept f nowMs w.store).2 }
  | .freeze generationId nowMs =>
    match a.freezeSnapshot generationId nowMs w.store with
    | (.ok (some snapshot), s) => { w with store := s, frozen := snapshot :: w.frozen }
    | (_, s) => { w with store := s }
  | .returned snapshot text nowMs =>
    if snapshot ∈ w.frozen then
      match a.evaluatePostbox w.additional snapshot text nowMs w.store with
      | (.ok (_, additional), s) => ⟨s,additional,w.frozen.erase snapshot⟩
      | (.error _, s) => ⟨s,w.additional,w.frozen.erase snapshot⟩
    else w
  | .failed snapshot outcome detail nowMs =>
    { w with
      store := (failGeneration snapshot outcome detail nowMs w.store).2
      frozen := w.frozen.erase snapshot }
  -- `forget`, or a new process: the count is not stored
  | .forgotten => { w with additional := 0, frozen := [] }
  | .other op _ => { w with store := op.exec w.store }

def drainedStore (nowMs : Int) (s : Store) : Store :=
  { s with
    pending := updateWhere (fun p => p.inputId ∈ (s.drained a.threadId (some a.cap)).map PendingRow.inputId)
      (consumedRow nowMs) s.pending }

theorem evaluatePostbox_apply (additional : Nat) (snapshot : GenerationSnapshot) (text : Option String)
    (nowMs : Int) (s : Store) :
    a.evaluatePostbox additional snapshot text nowMs s =
      a.settleDrained additional snapshot text nowMs (s.drained a.threadId (some a.cap)) (a.drainedStore nowMs s) :=
  bind_of_ok (drainPendingInputs_apply a.threadId nowMs (some a.cap) s)

/-- What an evaluation drains is a source of the thread already, or it continues the turn and
becomes one: of that turn, or of a follow-up turn whose id no other thread has taken. -/
def Records (w : ActorWorld) : ActorAction a.threadId → Prop
  | .returned snapshot _ _ =>
    let drained := w.store.drained a.threadId (some a.cap)
    snapshot ∈ w.frozen →
      (∀ p ∈ drained, w.store.Sources a.threadId p.eventId) ∨
      Continues snapshot drained w.store ∧ (w.additional < maxAdditionalGenerations ∨
        w.store.thread? a.threadId ≠ none ∧ ∀ t ∈ w.store.turns, ∀ p ∈ drained.head?,
          t.turnId = nextTurnId w.store a.threadId p.eventId → t.threadId = a.threadId)
  | _ => True

instance (w : ActorWorld) : (act : ActorAction a.threadId) → Decidable (a.Records w act)
  | .returned .. => inferInstanceAs (Decidable (_ → _))
  | .accept .. | .freeze .. | .failed .. | .forgotten | .other .. => isTrue trivial

/-- Consumed inputs are sources, and the provider calls in flight are about turns of the thread. -/
structure Accounted (w : ActorWorld) : Prop where
  inputs : Table.Unique PendingRow.inputId w.store.pending
  consumed : ∀ p ∈ w.store.pending, p.threadId = a.threadId → p.state = .consumed →
    w.store.Sources a.threadId p.eventId
  frozen : ∀ g ∈ w.frozen, ∃ t ∈ w.store.turns, t.turnId = g.turnId ∧ t.threadId = a.threadId

theorem accept_calls {f : FollowUp} {nowMs : Int} : Keeps id (Calls a.threadId) (a.accept f nowMs) :=
  .frame_bind Via.refl .require fun _ => .ite (.of_frame Via.refl .pure)
    (.bind_frame (call (.enqueuePendingInput (f.row a.threadId nowMs) (some a.cap)) rfl rfl) fun _ =>
      .bind_pure .read)

theorem freezeSnapshot_calls (generationId : String) (nowMs : Int) :
    Keeps id (Calls a.threadId) (a.freezeSnapshot generationId nowMs) := by
  refine .frame_bind Via.refl .read fun s => ?_
  cases s.activeTurn a.threadId with
  | none => exact .of_frame Via.refl .pure
  | some turn => exact .bind_pure (call (.recordGeneration _ _) rfl rfl)

theorem freezeSnapshot_turn {generationId : String} {nowMs : Int} {s m : Store} {snapshot : GenerationSnapshot}
    (h : a.freezeSnapshot generationId nowMs s = (.ok (some snapshot), m)) :
    ∃ t ∈ s.turns, t.turnId = snapshot.turnId ∧ t.threadId = a.threadId := by
  rw [freezeSnapshot,read_bind_apply] at h
  cases ht : s.activeTurn a.threadId with
  | none =>
    rw [ht] at h
    cases h
  | some turn =>
    rw [ht] at h
    obtain ⟨_,_,_,hr⟩ := bind_ok h
    cases hr
    have hm : turn ∈ s.turns.filter fun t => t.threadId = a.threadId && turnLive t :=
      (List.mem_insertionSort _).mp (List.mem_of_head? ht)
    rw [List.mem_filter,Bool.and_eq_true,decide_eq_true_eq] at hm
    exact ⟨turn,hm.1,rfl,hm.2.1⟩

variable {a} {w : ActorWorld} {s : Store}

theorem Accounted.calls (h : a.Accounted w) (hs : Calls a.threadId w.store s) {n : Nat}
    {frozen : List GenerationSnapshot} (hf : ∀ g ∈ frozen, g ∈ w.frozen) : a.Accounted ⟨s,n,frozen⟩ := by
  have hu := hs.unspent h.inputs
  refine ⟨hu.inputs,fun p hp ht hc => ?_,fun g hg => ?_⟩
  · obtain ⟨q,hq,hqt,hqe,hqc⟩ := hu.consumed p hp ht hc
    exact hqe ▸ hs.sources_kept (h.consumed q hq hqt hqc)
  · obtain ⟨t,ht,hid,hth⟩ := h.frozen g (hf g hg)
    obtain ⟨t',ht',hsame⟩ := hs.carries.turns t ht
    exact ⟨t',ht',hsame.turnId.trans hid,hsame.threadId.trans hth⟩

theorem Accounted.freeze (h : a.Accounted w) {generationId : String} {nowMs : Int} :
    a.Accounted (a.step w (.freeze generationId nowMs)) := by
  have hcalls := a.freezeSnapshot_calls generationId nowMs w.store
  have hturn := fun m snapshot => @freezeSnapshot_turn a generationId nowMs w.store m snapshot
  rw [step]
  generalize a.freezeSnapshot generationId nowMs w.store = r at hcalls hturn ⊢
  obtain ⟨r,m⟩ := r
  have hkept : a.Accounted { w with store := m } := h.calls hcalls fun _ => id
  rcases r with e | snapshot
  · exact hkept
  cases snapshot with
  | none => exact hkept
  | some snapshot =>
    refine ⟨hkept.inputs,hkept.consumed,fun g hg => ?_⟩
    rcases List.mem_cons.mp hg with rfl | hg
    · obtain ⟨t,ht,hid,hth⟩ := hturn m g rfl
      obtain ⟨t',ht',hsame⟩ := (Via.carries hcalls).turns t ht
      exact ⟨t',ht',hsame.turnId.trans hid,hsame.threadId.trans hth⟩
    · exact hkept.frozen g hg
variable {nowMs : Int} {snapshot : GenerationSnapshot} {text : Option String}

theorem mem_drainedStore (hu : Table.Unique PendingRow.inputId s.pending)
    {p : PendingRow} (hp : p ∈ (a.drainedStore nowMs s).pending) :
    p ∈ s.pending ∧ p ∉ s.drained a.threadId (some a.cap) ∨
      ∃ r ∈ s.drained a.threadId (some a.cap), p = consumedRow nowMs r := by
  obtain ⟨r,hr,rfl⟩ := mem_updateWhere.mp hp
  split_ifs with hid
  · obtain ⟨r',hr',he⟩ := List.mem_map.mp (of_decide_eq_true hid)
    cases hu.eq_of_mem (Store.mem_drained hr').1 hr he
    exact .inr ⟨r,hr',rfl⟩
  · exact .inl ⟨hr,fun hm => hid (decide_eq_true (List.mem_map_of_mem hm))⟩

/-- Under the condition every drained input is a source once the evaluation is done. -/
theorem Accounted.drained_sourced (h : a.Accounted w)
    (hf : snapshot ∈ w.frozen) (hr : a.Records w (.returned snapshot text nowMs)) {r : PendingRow}
    (hm : r ∈ w.store.drained a.threadId (some a.cap)) :
    (a.evaluatePostbox w.additional snapshot text nowMs w.store).2.Sources a.threadId r.eventId := by
  have hcalls : Calls a.threadId (a.drainedStore nowMs w.store) _ :=
    a.settleDrained_calls w.additional snapshot text nowMs (w.store.drained a.threadId (some a.cap)) _
  rw [evaluatePostbox_apply]
  rcases hr hf with hsourced | ⟨hcont,hroom⟩
  · exact hcalls.sources_kept (s := a.drainedStore nowMs w.store) (hsourced r hm)
  have hcont : Continues snapshot (w.store.drained a.threadId (some a.cap)) (a.drainedStore nowMs w.store) := hcont
  have hsettled : (a.settleDrained w.additional snapshot text nowMs _ _).2 = _ :=
    a.settleDrained_continues hcont text nowMs
  by_cases hadd : w.additional < maxAdditionalGenerations
  · rw [if_pos hadd] at hsettled
    obtain ⟨t,ht,hid,hth⟩ := h.frozen snapshot hf
    obtain ⟨t',ht',hsame⟩ := hcalls.carries.turns t ht
    obtain ⟨-,hjoined⟩ := restart_known hcont.turn (w.store.drained a.threadId (some a.cap)) nowMs
    rw [← hsettled] at hjoined
    obtain ⟨q,hq,hqt,hqe⟩ := hjoined r hm
    exact ⟨q,hq,hqe,t',ht',(hsame.turnId.trans hid).trans hqt.symm,hsame.threadId.trans hth⟩
  · rw [if_neg hadd] at hsettled
    obtain ⟨hthread,hfree⟩ := hroom.resolve_left hadd
    obtain ⟨row,hrow⟩ := Option.ne_none_iff_exists'.mp hthread
    cases hd : w.store.drained a.threadId (some a.cap) with
    | nil => exact absurd hd hcont.2.1
    | cons followup rest =>
      rw [hd] at hsettled hm hfree
      obtain ⟨-,hturns,hjoined⟩ := a.handOver_known (s := a.drainedStore nowMs w.store) hrow snapshot text followup
        rest nowMs
      rw [← hsettled] at hturns hjoined
      obtain ⟨q,hq,hqt,hqe⟩ := hjoined r hm
      obtain ⟨t,ht,hid⟩ := exists_insertIgnore TurnRow.turnId (openedTurn a.threadId followup.principal
        (nextTurnId w.store a.threadId followup.eventId) nowMs .open) w.store.turns
      refine ⟨q,hq,hqe,t,hturns ▸ ht,hid.trans hqt.symm,?_⟩
      -- the id is new, or a turn of this thread has it
      rcases mem_insertIgnore ht with hold | ⟨rfl,-⟩
      · exact hfree t hold followup rfl hid
      · rfl

theorem Accounted.evaluated (h : a.Accounted w)
    (hf : snapshot ∈ w.frozen) (hr : a.Records w (.returned snapshot text nowMs)) (n : Nat) :
    a.Accounted ⟨(a.evaluatePostbox w.additional snapshot text nowMs w.store).2,n,w.frozen.erase snapshot⟩ := by
  have hsourced := fun r hm => h.drained_sourced (r := r) hf hr hm
  have hcalls : Calls a.threadId (a.drainedStore nowMs w.store) _ :=
    a.settleDrained_calls w.additional snapshot text nowMs (w.store.drained a.threadId (some a.cap)) _
  rw [evaluatePostbox_apply] at hsourced ⊢
  have hinputs : Table.Unique PendingRow.inputId (a.drainedStore nowMs w.store).pending := by
    unfold Table.Unique drainedStore
    rw [keys_updateWhere (f := consumedRow nowMs) fun _ => rfl]
    exact h.inputs
  have hu := hcalls.unspent hinputs
  refine ⟨hu.inputs,fun p hp ht hc => ?_,fun g hg => ?_⟩
  · obtain ⟨q,hq,hqt,hqe,hqc⟩ := hu.consumed p hp ht hc
    rcases mem_drainedStore h.inputs hq with ⟨hold,-⟩ | ⟨r,hr,rfl⟩
    · exact hqe ▸ hcalls.sources_kept (s := a.drainedStore nowMs w.store) (h.consumed q hold hqt hqc)
    · exact hqe ▸ hsourced r hr
  · obtain ⟨t,ht,hid,hth⟩ := h.frozen g (List.mem_of_mem_erase hg)
    obtain ⟨t',ht',hsame⟩ := hcalls.carries.turns t ht
    exact ⟨t',ht',hsame.turnId.trans hid,hsame.threadId.trans hth⟩

theorem Accounted.step (h : a.Accounted w) {act : ActorAction a.threadId} (hr : a.Records w act) :
    a.Accounted (a.step w act) := by
  cases act with
  | accept f nowMs => exact h.calls (a.accept_calls w.store) fun _ => id
  | freeze generationId nowMs => exact h.freeze
  | returned snapshot text nowMs =>
    rw [ThreadActor.step]
    split_ifs with hf
    · have hev := h.evaluated hf hr
      generalize a.evaluatePostbox w.additional snapshot text nowMs w.store = r at hev ⊢
      obtain ⟨r,m⟩ := r
      cases r with
      | ok r => exact hev r.2
      | error e => exact hev w.additional
    · exact h
  | failed snapshot outcome detail nowMs =>
    exact h.calls (failGeneration_calls w.store) fun _ => List.mem_of_mem_erase
  | forgotten => exact ⟨h.inputs,h.consumed,fun g hg => absurd hg List.not_mem_nil⟩
  | other op hop => exact h.calls (Relation.ReflTransGen.single ⟨op,hop,rfl⟩) fun _ => id

/-- In every run in which each evaluation records what it drains, every consumed input of the
thread is a source of one of its turns. -/
theorem consumed_inputs_are_sources (a : ThreadActor) (as : List (ActorAction a.threadId))
    (h : Along a.step a.Records .start as) :
    ∀ p ∈ (run a.step .start as).store.pending, p.threadId = a.threadId → p.state = .consumed →
      (run a.step .start as).store.Sources a.threadId p.eventId := by
  have hstart : a.Accounted .start :=
    ⟨Table.Unique.nil,fun p hp => absurd hp List.not_mem_nil,fun g hg => absurd hg List.not_mem_nil⟩
  exact (Along.invariant (fun w act hw hr => hw.step hr) hstart h).consumed

def orderActor : ThreadActor := .create (threadIdFor "whatsapp" "c1" "m1") 1

def answering : List (ActorAction orderActor.threadId) :=
  [.other (.openThread "whatsapp" "c1" "u1" "dm" "m1" 100) rfl,
   .other (.openTurn orderActor.threadId "u1" "m1" 101 .open) rfl,
   .freeze "g1" 102]

def followUp (eventId : String) : FollowUp :=
  { inputId := eventId ++ ":in", eventId := eventId, principal := "u1", authorized := true }

def andReturn (nowMs : Int) (as : List (ActorAction orderActor.threadId)) : List (ActorAction orderActor.threadId) :=
  as ++ (run orderActor.step .start as).frozen.map fun g => .returned g (some "ok") nowMs

def followedUp : List (ActorAction orderActor.threadId) :=
  andReturn 105 (answering ++ [.accept (followUp "m2") 103])

theorem follow_up_becomes_source :
    Along orderActor.step orderActor.Records .start followedUp ∧
      (run orderActor.step .start followedUp).store.Sources orderActor.threadId "m2" := by
  have hrun : Along orderActor.step orderActor.Records .start followedUp := by decide +kernel
  refine ⟨hrun,consumed_inputs_are_sources orderActor followedUp hrun
    (consumedRow 105 ((followUp "m2").row orderActor.threadId 103)) ?_ rfl rfl⟩
  decide +kernel

def correctedRun : List (ActorAction orderActor.threadId) :=
  andReturn 106 (answering ++ [.accept (followUp "m2") 103,
    .other (.bumpTurnRevision (turnIdFor orderActor.threadId "m1" 1) 1 104) rfl])

/-- The superseded generation consumes the follow-up, and it is a source of nothing. -/
theorem superseded_generation_drops_follow_up :
    consumedRow 106 ((followUp "m2").row orderActor.threadId 103) ∈
        (run orderActor.step .start correctedRun).store.pending ∧
      ¬ (run orderActor.step .start correctedRun).store.Sources orderActor.threadId "m2" := by
  decide +kernel

end ThreadActor

end Yeoman.Processing
