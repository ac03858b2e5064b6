import Yeoman.Processing.Postbox

/-! Inputs deferred by a full postbox: after which evaluations one of them is left while
nothing waits any more. -/
namespace Yeoman.Processing
open Library Table Txn Runs

def Store.holds (s : Store) (threadId : String) (state : PendingState) : Bool :=
  s.pending.any (PendingRow.inBox threadId state)
variable {s : Store} {threadId : String}

theorem Store.holds_iff {state : PendingState} :
    s.holds threadId state = true ↔ ∃ p ∈ s.pending, p.threadId = threadId ∧ p.state = state := by
  simp [Store.holds,PendingRow.inBox]
variable {t : String} {capacity : Int} {nowMs : Int}

theorem promoteDeferred_waiting (h : s.holds threadId .waiting = true) :
    (promoteDeferred t nowMs capacity s).2.holds threadId .waiting = true := by
  obtain ⟨p,hp,ht,hw⟩ := Store.holds_iff.mp h
  rw [promoteDeferred_apply]
  refine Store.holds_iff.mpr ⟨_,mem_updateWhere.mpr ⟨p,hp,rfl⟩,?_⟩
  split
  · exact ⟨ht,rfl⟩
  · exact ⟨ht,hw⟩

theorem promoteDeferred_deferred (h : s.holds threadId .deferred = false) :
    (promoteDeferred t nowMs capacity s).2.holds threadId .deferred = false := by
  rw [← Bool.not_eq_true,Store.holds_iff] at h ⊢
  rintro ⟨p,hp,ht,hd⟩
  rw [promoteDeferred_apply] at hp
  obtain ⟨q,hq,rfl⟩ := mem_updateWhere.mp hp
  split_ifs at hd with hid
  · cases hd
  · rw [if_neg hid] at ht
    exact h ⟨q,hq,ht,hd⟩

theorem promoteDeferred_moves (hc : 1 ≤ capacity)
    (hw : s.holds threadId .waiting = false) (hd : s.holds threadId .deferred = true) :
    (promoteDeferred threadId nowMs capacity s).2.holds threadId .waiting = true := by
  obtain ⟨p,hp,ht,hs⟩ := Store.holds_iff.mp hd
  have hempty : (s.pending.countP fun p => p.threadId = threadId && p.state = .waiting) = 0 := by
    rw [List.countP_eq_zero]
    exact fun q hq hb => Bool.false_ne_true (hw.symm.trans (List.any_eq_true.mpr ⟨q,hq,hb⟩))
  have hne : s.promoted threadId capacity ≠ [] := by
    have hmem : p ∈ orderBy PendingRow.enqueuedMs PendingRow.inputId
        (s.pending.filter fun p => p.threadId = threadId && p.state = .deferred) :=
      (List.mem_insertionSort _).mpr (List.mem_filter.mpr ⟨hp,by simp [ht,hs]⟩)
    intro hnil
    rcases List.take_eq_nil_iff.mp hnil with hz | hz
    · omega
    · rw [hz] at hmem
      cases hmem
  obtain ⟨q,hq⟩ := List.exists_mem_of_ne_nil _ hne
  obtain ⟨hqp,hqt,-⟩ := Store.mem_promoted hq
  rw [promoteDeferred_apply]
  refine Store.holds_iff.mpr ⟨promotedRow nowMs q,mem_updateWhere.mpr ⟨q,hqp,if_pos ?_⟩,hqt,rfl⟩
  exact decide_eq_true (List.mem_map_of_mem hq)

namespace Store

def waitingInputs (s : Store) (threadId : String) : List PendingRow :=
  orderBy PendingRow.enqueuedMs PendingRow.inputId (s.pending.filter (PendingRow.inBox threadId .waiting))

theorem drained_some {n : Nat} :
    s.drained threadId (some n) = (s.waitingInputs threadId).take (max 1 n) := rfl

theorem mem_waitingInputs {p : PendingRow} :
    p ∈ s.waitingInputs threadId ↔ p ∈ s.pending ∧ p.threadId = threadId ∧ p.state = .waiting := by
  simp [waitingInputs,orderBy,PendingRow.inBox]

theorem length_waitingInputs :
    (s.waitingInputs threadId).length = s.pending.countP (PendingRow.inBox threadId .waiting) := by
  simp [waitingInputs,orderBy,List.countP_eq_length_filter]

theorem waitingInputs_nodup (h : Table.Unique PendingRow.inputId s.pending) : (s.waitingInputs threadId).Nodup :=
  (List.perm_insertionSort _ _).nodup_iff.mpr ((h.filter).of_map _)

end Store

namespace ThreadActor
variable (a : ThreadActor) {s : Store} {nowMs : Int}

theorem drainedStore_deferred (hu : Table.Unique PendingRow.inputId s.pending) :
    (a.drainedStore nowMs s).holds a.threadId .deferred = s.holds a.threadId .deferred := by
  rw [Bool.eq_iff_iff,Store.holds_iff,Store.holds_iff]
  constructor
  · rintro ⟨p,hp,ht,hd⟩
    rcases mem_drainedStore hu hp with ⟨hold,-⟩ | ⟨r,-,rfl⟩
    · exact ⟨p,hold,ht,hd⟩
    · cases hd
  · rintro ⟨p,hp,ht,hd⟩
    refine ⟨p,mem_updateWhere.mpr ⟨p,hp,if_neg fun hid => ?_⟩,ht,hd⟩
    obtain ⟨r,hr,he⟩ := List.mem_map.mp (of_decide_eq_true hid)
    obtain ⟨hr,-,hw⟩ := Store.mem_drained hr
    cases hu.eq_of_mem hr hp he
    rw [hd] at hw
    cases hw

theorem drainedStore_waiting (hu : Table.Unique PendingRow.inputId s.pending) :
    (a.drainedStore nowMs s).holds a.threadId .waiting = true ↔
      a.cap < s.pending.countP (PendingRow.inBox a.threadId .waiting) := by
  have hdrained : s.drained a.threadId (some a.cap) = (s.waitingInputs a.threadId).take a.cap := by
    rw [Store.drained_some,max_eq_right a.cap_pos]
  rw [Store.holds_iff,← Store.length_waitingInputs]
  constructor
  · rintro ⟨p,hp,ht,hw⟩
    rcases mem_drainedStore hu hp with ⟨hold,hnot⟩ | ⟨r,-,rfl⟩
    · refine Nat.lt_of_not_le fun hle => hnot ?_
      rw [hdrained,List.take_of_length_le hle]
      exact Store.mem_waitingInputs.mpr ⟨hold,ht,hw⟩
    · cases hw
  · intro hlt
    -- the drain returns fewer rows than wait, so it leaves one of them
    have hex : ∃ p ∈ s.waitingInputs a.threadId, p ∉ s.drained a.threadId (some a.cap) := by
      by_contra hall
      push Not at hall
      have hle := (List.subperm_of_subset (Store.waitingInputs_nodup hu) hall).length_le
      rw [hdrained,List.length_take] at hle
      omega
    obtain ⟨p,hp,hnot⟩ := hex
    obtain ⟨hp,ht,hw⟩ := Store.mem_waitingInputs.mp hp
    refine ⟨p,mem_updateWhere.mpr ⟨p,hp,if_neg fun hid => ?_⟩,ht,hw⟩
    obtain ⟨r,hr,he⟩ := List.mem_map.mp (of_decide_eq_true hid)
    cases hu.eq_of_mem (Store.mem_drained hr).1 hp he
    exact hnot hr

def HandsOver (additional : Nat) (snapshot : GenerationSnapshot) (s : Store) : Prop :=
  Continues snapshot (s.drained a.threadId (some a.cap)) s ∧ maxAdditionalGenerations ≤ additional ∧
    s.thread? a.threadId ≠ none
deriving Decidable

variable (additional : Nat) (snapshot : GenerationSnapshot) (text : Option String)

theorem evaluatePostbox_pending (nowMs : Int) (s : Store) :
    (a.evaluatePostbox additional snapshot text nowMs s).2.pending =
      if a.HandsOver additional snapshot s then
        (promoteDeferred a.threadId nowMs a.cap (a.drainedStore nowMs s)).2.pending
      else (a.drainedStore nowMs s).pending := by
  rw [evaluatePostbox_apply]
  by_cases hcont : Continues snapshot (s.drained a.threadId (some a.cap)) (a.drainedStore nowMs s)
  · rw [settleDrained_continues a hcont]
    by_cases hadd : additional < maxAdditionalGenerations
    · rw [if_pos hadd,if_neg fun h => Nat.not_lt_of_le h.2.1 hadd]
      exact (restart_known hcont.turn _ nowMs).1
    · rw [if_neg hadd]
      cases hd : s.drained a.threadId (some a.cap) with
      | nil => exact absurd hd hcont.2.1
      | cons followup rest =>
        cases hthread : s.thread? a.threadId with
        | none =>
          rw [handOver_unknown a (s := a.drainedStore nowMs s) hthread,if_neg fun h => h.2.2 hthread]
        | some row =>
          rw [if_pos ⟨hcont,Nat.le_of_not_lt hadd,by simp [hthread]⟩]
          exact (a.handOver_known (s := a.drainedStore nowMs s) hthread snapshot text followup rest nowMs).1
  · rw [settleDrained_pending a hcont,if_neg fun h => hcont h.1]

theorem evaluatePostbox_via (nowMs : Int) (s : Store) :
    Via (fun _ => True) s (a.evaluatePostbox additional snapshot text nowMs s).2 := by
  refine Keeps.bind Via.trans (Via.call (.drainPendingInputs a.threadId nowMs (some a.cap)) trivial rfl)
    (fun pending => ?_) s
  have hcalls : Keeps id (Calls a.threadId) (a.settleDrained additional snapshot text nowMs pending) :=
    a.settleDrained_calls additional snapshot text nowMs pending
  exact hcalls.mono (Via.mono fun _ _ => trivial)

theorem step_via {w : ActorWorld} {act : ActorAction a.threadId} :
    Via (fun _ => True) w.store (a.step w act).store := by
  have hall : ∀ {m : Store}, Calls a.threadId w.store m → Via (fun _ => True) w.store m :=
    fun h => Via.mono (fun _ _ => trivial) _ _ h
  cases act with
  | accept f nowMs => exact hall (a.accept_calls w.store)
  | freeze generationId nowMs =>
    have hcalls := a.freezeSnapshot_calls generationId nowMs w.store
    rw [step]
    generalize a.freezeSnapshot generationId nowMs w.store = r at hcalls ⊢
    rcases r with e | _ | snapshot <;> exact hall hcalls
  | returned snapshot text nowMs =>
    have hev := a.evaluatePostbox_via w.additional snapshot text nowMs w.store
    rw [step]
    split
    · generalize a.evaluatePostbox w.additional snapshot text nowMs w.store = r at hev ⊢
      obtain ⟨r,m⟩ := r
      cases r <;> exact hev
    · exact Via.refl _
  | failed snapshot outcome detail nowMs =>
    exact hall (failGeneration_calls w.store)
  | forgotten => exact Via.refl _
  | other op hop => exact hall (Relation.ReflTransGen.single ⟨op,hop,rfl⟩)

/-- The ids of the postbox are keys after every run, whatever its evaluations drained. -/
theorem run_inputs_unique (as : List (ActorAction a.threadId)) :
    Table.Unique PendingRow.inputId (run a.step .start as).store.pending :=
  run_invariant (I := fun w : ActorWorld => Table.Unique PendingRow.inputId w.store.pending)
    (fun _ _ h => a.step_via.inputs_unique h) Table.Unique.nil as

/-- An evaluation that leaves nothing waiting leaves nothing deferred exactly when nothing was
deferred before it, more waited than the cap, or the evaluation hands over. -/
theorem evaluation_strands_nothing_iff (a : ThreadActor) (as : List (ActorAction a.threadId))
    (snapshot : GenerationSnapshot) (text : Option String) (nowMs : Int) :
    let w := run a.step .start as
    let s := (a.evaluatePostbox w.additional snapshot text nowMs w.store).2
    (s.holds a.threadId .waiting = false → s.holds a.threadId .deferred = false) ↔
      w.store.holds a.threadId .deferred = false ∨
        a.cap < w.store.pending.countP (PendingRow.inBox a.threadId .waiting) ∨
        a.HandsOver w.additional snapshot w.store := by
  intro w s
  have hu : Table.Unique PendingRow.inputId w.store.pending := a.run_inputs_unique as
  have hp := a.evaluatePostbox_pending w.additional snapshot text nowMs w.store
  by_cases hh : a.HandsOver w.additional snapshot w.store
  · -- with room in the emptied postbox a deferred input would have been promoted
    rw [if_pos hh] at hp
    refine iff_of_true (fun hw => ?_) (.inr (.inr hh))
    rw [Store.holds,hp] at hw ⊢
    have hidle : (a.drainedStore nowMs w.store).holds a.threadId .waiting = false :=
      Bool.eq_false_iff.mpr fun h => Bool.false_ne_true (hw.symm.trans (promoteDeferred_waiting h))
    refine promoteDeferred_deferred (Bool.eq_false_iff.mpr fun hd => ?_)
    exact Bool.false_ne_true (hw.symm.trans (promoteDeferred_moves (by exact_mod_cast a.cap_pos) hidle hd))
  · rw [if_neg hh] at hp
    have hwait : s.holds a.threadId .waiting = (a.drainedStore nowMs w.store).holds a.threadId .waiting := by
      rw [Store.holds,hp,Store.holds]
    have hdef : s.holds a.threadId .deferred = w.store.holds a.threadId .deferred := by
      rw [Store.holds,hp]
      exact a.drainedStore_deferred hu
    rw [hwait,hdef,← Bool.not_eq_true,a.drainedStore_waiting hu]
    tauto

def overflowed : List (ActorAction orderActor.threadId) :=
  andReturn 105 (answering ++ [.accept (followUp "m2") 103, .accept (followUp "m3") 104])

/-- The restarted generation takes the waiting input and leaves the deferred one behind. -/
theorem restart_strands_deferred_input :
    let s := (run orderActor.step .start overflowed).store
    s.holds orderActor.threadId .waiting = false ∧ s.holds orderActor.threadId .deferred = true := by
  decide +kernel

end ThreadActor

end Yeoman.Processing
