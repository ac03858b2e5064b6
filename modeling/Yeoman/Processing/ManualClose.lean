import Yeoman.Processing.Reactions

/-! What `/new` ends stays ended: no assignment opens the thread again, and only one kind of
event still finds a turn in it. -/
namespace Yeoman.Processing
open Library Table Txn Runs

/-- The thread is there, and `/new` closed it. -/
def Ended (threadId : String) (rows : List ThreadRow) : Prop :=
  threadId ∈ rows.map ThreadRow.threadId ∧
  ∀ t ∈ rows, t.threadId = threadId → t.state = .closed ∧ t.closeReason = some "manual_new"
deriving Decidable

def turnIdsOf (threadId : String) (rows : List TurnRow) : List String :=
  (rows.filter fun t => t.threadId = threadId).map TurnRow.turnId

structure StaysEnded (threadId : String) (a b : List ThreadRow × List TurnRow) : Prop where
  ended : Ended threadId a.1 → Ended threadId b.1
  turns : turnIdsOf threadId b.2 = turnIdsOf threadId a.2
variable {threadId : String}

theorem turnIdsOf_rewrites {rows rows' : List TurnRow}
    (h : Rewrites TurnRow.Same rows rows') : turnIdsOf threadId rows' = turnIdsOf threadId rows := by
  unfold turnIdsOf
  induction h with
  | nil => rfl
  | @cons r r' rows rows' hr _ ih =>
    simp only [List.filter_cons,hr.threadId]
    split
    · rw [List.map_cons,List.map_cons,hr.turnId,ih]
    · exact ih

namespace StaysEnded
variable {threadId : String}

theorem refl (a : List ThreadRow × List TurnRow) : StaysEnded threadId a a := ⟨id,rfl⟩

theorem trans (a b c : List ThreadRow × List TurnRow) (h : StaysEnded threadId a b)
    (h' : StaysEnded threadId b c) : StaysEnded threadId a c :=
  ⟨h'.ended ∘ h.ended,h'.turns.trans h.turns⟩

theorem updateThreads {p : ThreadRow → Bool} {f : ThreadRow → ThreadRow} (hid : ∀ t, (f t).threadId = t.threadId)
    (h : ∀ t, p t = true → t.threadId = threadId → t.state = .closed → t.closeReason = some "manual_new" →
      (f t).state = .closed ∧ (f t).closeReason = some "manual_new") :
    Keeps conversation (StaysEnded threadId) (Processing.updateThreads p f) := by
  intro s
  refine ⟨fun he => ⟨(keys_updateWhere hid s.threads).symm ▸ he.1,fun t ht hk => ?_⟩,rfl⟩
  obtain ⟨old,hold,rfl⟩ := List.mem_map.mp ht
  cases hp : p old with
  | true =>
    simp only [hp,if_true] at hk ⊢
    rw [hid] at hk
    exact h old hp hk (he.2 old hold hk).1 (he.2 old hold hk).2
  | false =>
    simp only [hp,Bool.false_eq_true,if_false] at hk ⊢
    exact he.2 old hold hk

theorem touchThread (t : String) (nowMs : Int) :
    Keeps conversation (StaysEnded threadId) (Processing.touchThread t nowMs) :=
  .atomically refl (.bind_pure (updateThreads (fun _ => rfl) fun _ _ _ hc hr => ⟨hc,hr⟩))

theorem reactivate (t : String) (nowMs : Int) :
    Keeps conversation (StaysEnded threadId) (Processing.reactivate t nowMs) := by
  refine .atomically refl (.bind_pure (updateThreads (fun _ => rfl) fun row hp _ hc _ => ?_))
  -- only open threads are reactivated
  simp [hc] at hp
variable {t : String} (reg : ThreadRegistry) {nowMs : Int}

theorem reopenThread (h : t ≠ threadId) :
    Keeps conversation (StaysEnded threadId) (Processing.reopenThread t nowMs) := by
  refine .atomically refl (.bind_pure (updateThreads (fun _ => rfl) fun row hp hid _ _ => ?_))
  simp only [Bool.and_eq_true,decide_eq_true_eq] at hp
  exact absurd (hp.1.symm.trans hid) h

theorem openThread {channel chatId triggerEventId : String}
    (h : threadIdFor channel chatId triggerEventId ≠ threadId) (rootPrincipal kind : String) (nowMs : Int) :
    Keeps conversation (StaysEnded threadId)
      (Processing.openThread channel chatId rootPrincipal kind triggerEventId nowMs) := by
  refine .atomically refl (.frame_bind refl .read fun s => ?_)
  cases s.thread? (threadIdFor channel chatId triggerEventId) with
  | none =>
    refine .bind_pure (.modify fun s => ⟨fun he => ⟨?_,fun t ht hk => ?_⟩,rfl⟩)
    · exact List.map_append ▸ List.mem_append_left _ he.1
    rcases mem_concat.mp ht with ht | rfl
    · exact he.2 t ht hk
    · exact absurd hk h
  | some row =>
    refine .bind_pure (updateThreads (fun _ => rfl) fun row hp hid _ _ => ?_)
    exact absurd ((of_decide_eq_true hp).symm.trans hid) h

theorem openTurn (h : t ≠ threadId) (principal triggerEventId : String) (nowMs : Int) (state : TurnState) :
    Keeps conversation (StaysEnded threadId)
      (Processing.openTurn t principal triggerEventId nowMs state) := by
  refine .atomically refl (.bind trans (updateThreads (fun _ => rfl) fun _ _ _ hc hr => ⟨hc,hr⟩) fun _ => ?_)
  refine .frame_bind refl .read fun s => ?_
  cases s.thread? t with
  | none => exact .of_frame refl .raise
  | some row =>
    refine .bind_pure (.modify fun s => ⟨id,?_⟩)
    simp only [conversation,turnIdsOf,insertIgnore]
    split
    · rfl
    · simp [h]

theorem closeTurn {turnId : String} {state : String} :
    Keeps conversation (StaysEnded threadId) (Processing.closeTurn turnId nowMs state) := by
  refine .frame_bind refl .liftExcept fun state => .atomically refl ?_
  refine .bind_pure (fun s => ⟨id,turnIdsOf_rewrites ?_⟩)
  exact .updateWhere TurnRow.Same.refl fun _ _ _ => ⟨rfl,rfl,le_rfl⟩

theorem wake {newTurn : Bool} (h : t = threadId → newTurn = false) {reg : ThreadRegistry}
    : Keeps conversation (StaysEnded threadId) (reg.wake t newTurn nowMs) := by
  refine .bind trans (reactivate t nowMs) fun b => ?_
  refine .ite (.of_frame refl .pure) (.frame_bind refl .read fun s => ?_)
  split_ifs with hn
  · have hne : t ≠ threadId := fun ht => by simp [h ht] at hn
    exact .bind_pure (reopenThread hne)
  · exact touchThread t nowMs

def Apart (threadId : String) (c : AssignCall) (d : JoinDecision) : Prop :=
  d.threadId = some threadId → d.newTurn = false ∧ (d.turnId.isSome ∨ c.allowTurn = false)

variable {c : AssignCall} {d : JoinDecision}

theorem apart_place (hd : Apart threadId c d) (hown : c.ownThread ≠ threadId)
    (hp : c.place d.threadId = threadId) : d.newTurn = false ∧ (d.turnId.isSome ∨ c.allowTurn = false) := by
  refine hd ?_
  cases ht : d.threadId with
  | none =>
    rw [ht] at hp
    exact absurd hp hown
  | some t =>
    rw [ht] at hp
    exact congrArg some hp

theorem threadFor (hd : Apart threadId c d) (hown : c.ownThread ≠ threadId) :
    Keeps conversation (StaysEnded threadId) (reg.threadFor c d) := by
  unfold ThreadRegistry.threadFor
  cases ht : d.threadId with
  | none => exact .bind_pure (openThread hown _ _ _)
  | some t =>
    refine .bind_pure (wake (fun h => ?_))
    exact (hd (ht.trans (congrArg some h))).1

theorem turnFor (hd : Apart threadId c d) (hown : c.ownThread ≠ threadId) :
    Keeps conversation (StaysEnded threadId) (ThreadRegistry.turnFor c d (c.place d.threadId)) := by
  unfold ThreadRegistry.turnFor
  cases ht : d.turnId with
  | some turnId => exact .of_frame refl .pure
  | none =>
    dsimp only
    split_ifs with ha
    · refine .bind_pure (openTurn (fun hp => ?_) _ _ _ _)
      rcases (apart_place hd hown hp).2 with h | h
      · simp [ht] at h
      · exact Bool.false_ne_true (h.symm.trans ha)
    · exact .of_frame refl .pure

theorem persist (hd : Apart threadId c d) (hown : c.ownThread ≠ threadId) :
    Keeps conversation (StaysEnded threadId) (reg.persist c d) := by
  intro s
  obtain ⟨ts,ht,-⟩ := reg.threadFor_woken c d
  have hrest : Keeps conversation (StaysEnded threadId) (do
      let turnId ← ThreadRegistry.turnFor c d (c.place d.threadId)
      ThreadRegistry.joinTurn c (if d.newTurn || d.threadId.isNone then "trigger" else "context") turnId
      attachEventAssignment c.event.eventId (some (c.place d.threadId)) turnId
      let s ← Txn.read
      return ({ d with
        threadId := some (c.place d.threadId)
        turnId := if d.observesOnly then none else turnId
        newThread := d.threadId.isNone
        sourceMessageIds := ThreadRegistry.liveSources s turnId } : JoinDecision)) := by
    refine .bind_frame (turnFor hd hown) fun turnId => .bind ?_ fun _ =>
      .bind (attachEventAssignment_frame (fun _ _ => rfl)) fun _ => .bind_pure .read
    cases turnId with
    | none => exact .pure
    | some t => exact addTurnSource_frame (fun _ _ => rfl)
  have h := trans _ _ _ ((threadFor reg hd hown).ends ht) (hrest { s with threads := ts })
  rwa [ThreadRegistry.persist,bind_of_ok ht]

theorem closePreviousAmbientThreads {data : JoinInput} {keep : String} :
    Keeps conversation (StaysEnded threadId) (ThreadRegistry.closePreviousAmbientThreads data keep nowMs) := by
  refine .frame_bind refl .read fun s => .each refl trans fun t => .ite (.of_frame refl .pure) ?_
  refine .bind trans (.frame_bind refl .read fun s => ?_) fun _ => touchThread _ _
  cases s.activeTurn t.threadId with
  | none => exact .of_frame refl .pure
  | some turn => exact .bind_pure (closeTurn)

theorem persistAmbient (hown : c.ownThread ≠ threadId) :
    Keeps conversation (StaysEnded threadId) (ThreadRegistry.persistAmbient c d) := by
  intro s
  obtain ⟨ts,ht,-⟩ := ThreadRegistry.openThread_woken c "ambient"
  have hopen : Keeps conversation (StaysEnded threadId) _ :=
    openThread hown c.event.principal "ambient" c.nowMs
  have hturn : Keeps conversation (StaysEnded threadId) _ :=
    openTurn hown c.event.principal c.event.eventId c.nowMs .open
  refine trans _ _ _ (hopen.ends ht) ?_
  rw [ThreadRegistry.persistAmbient,bind_of_ok ht]
  refine Keeps.bind trans hturn (fun turnId => ?_) { s with threads := ts }
  exact .frame_bind refl (addTurnSource_frame (fun _ _ => rfl)) fun _ =>
    .frame_bind refl (attachEventAssignment_frame (fun _ _ => rfl)) fun _ =>
      .bind_pure (closePreviousAmbientThreads)

theorem settle (hd : Apart threadId c d) (hown : c.ownThread ≠ threadId) :
    Keeps conversation (StaysEnded threadId) (reg.settle c d) := by
  have hattach : Frame conversation (attachEventAssignment c.event.eventId none none) :=
    attachEventAssignment_frame (fun _ _ => rfl)
  refine .ite (.ite (persistAmbient hown) (.of_frame refl ?_)) (.ite (.of_frame refl ?_) ?_)
  · exact .ite (.bind_pure hattach) .pure
  · exact .bind_pure hattach
  · refine .bind_frame (persist reg hd hown) fun r => .bind_pure (fun s => ?_)
    obtain ⟨topics,hn⟩ := ThreadRegistry.noteTopic_apply c.data
    rw [hn]
    rfl

end StaysEnded

namespace ThreadRegistry
variable {reg : ThreadRegistry} {threadId : String} {s : Store}

/-- A reaction that corrects a message of the thread: it finds the thread like a correction
and then asks for a turn of its own. -/
def CorrectingReaction (s : Store) (c : AssignCall) (threadId : String) : Prop :=
  c.event.kind = .reaction ∧ c.allowTurn = true ∧ storedAnswer s c = none ∧
  c.data.explicitCorrection = true ∧ nonempty (replyThread s c.data) = none ∧
  (correctionTargets s c.data).map Prod.fst = [threadId]
deriving Decidable

variable {c : AssignCall}

/-- An ended thread can be named by a correction only. -/
theorem decision_ended (he : Ended threadId s.threads) (ht : (reg.decision s c).threadId = some threadId) :
    (reg.decision s c).newTurn = false ∧ (reg.decision s c).turnId.isSome ∧
      (c.data.explicitCorrection = true ∨ c.data.kind.revises = true) ∧
      nonempty (replyThread s c.data) = none ∧ (correctionTargets s c.data).map Prod.fst = [threadId] := by
  have hj := (reg.decision_placed s c).joins
  have hclosed : ∀ t ∈ s.threads, t.threadId = threadId → t.state ≠ .open := fun t hm hid ho => by
    rw [(he.2 t hm hid).1] at ho
    cases ho
  rw [ht] at hj
  generalize (reg.decision s c).rule = rule at hj
  generalize (reg.decision s c).turnId = turn at hj ⊢
  generalize (reg.decision s c).newTurn = new at hj ⊢
  cases hj with
  | reply _ hr hopen =>
    obtain ⟨row,hrow⟩ := Option.isSome_iff_exists.mp (lookup_isSome.mpr (List.mem_map.mp he.1))
    obtain ⟨hstate,hreason⟩ := he.2 row (lookup_some hrow).1 (lookup_some hrow).2
    have hreply : (replyThread s c.data).bind s.thread? = some row := by
      rw [show replyThread s c.data = some threadId from nonempty_eq_some hr]
      exact hrow
    have hended : (reg.viewFor s c.data c.nowMs).replyEnded = true := by
      simp [JoinView.replyEnded,viewFor,replyThreadState,hreply,ThreadRow.replyState,ThreadRow.sleeping,hstate]
    have hreopen : reg.replyReopenable s c.data c.nowMs = false := by
      simp [replyReopenable,hreply,hreason]
    exact absurd (hopen hended) (Bool.eq_false_iff.mp hreopen)
  | correction _ turnId hr hc htargets =>
    refine ⟨rfl,rfl,hc,hr,?_⟩
    rw [show correctionTargets s c.data = _ from htargets]
    rfl
  | followup _ _ htargets =>
    have hactive : (threadId, turn) ∈ reg.activeThreads s c.data c.nowMs := by
      rw [show reg.activeThreads s c.data c.nowMs = _ from htargets]
      exact List.mem_singleton_self _
    obtain ⟨t,hm,hid,-,ho,-⟩ := activeThreads_open hactive
    exact absurd ho (hclosed t hm hid)
  | semantic _ htarget =>
    obtain ⟨t,hm,hid,-,-,ho⟩ := semanticTarget_open (nonempty_eq_some htarget)
    exact absurd ho (hclosed t hm hid)
  | dmLast _ hg htarget =>
    obtain ⟨t,hm,hid,-,ho⟩ := lastDmThread_open (nonempty_eq_some htarget)
    exact absurd ho (hclosed t hm hid)

theorem proposal_apart (he : Ended threadId s.threads)
    (hs : storedAnswer s c = none) (hc : ¬ CorrectingReaction s c threadId) :
    StaysEnded.Apart threadId c (reg.proposal s c) := by
  intro ht
  rw [proposal_threadId] at ht
  obtain ⟨hnew,hturn,hcorrects,hreply,htargets⟩ := decision_ended he ht
  have hkind : c.data.kind = c.event.kind := rfl
  by_cases hk : c.event.kind = .reaction
  · rw [hkind,hk] at hcorrects
    refine ⟨by simp [proposal,hk],.inr (Bool.eq_false_iff.mpr fun ha => hc ?_)⟩
    exact ⟨hk,ha,hs,hcorrects.resolve_right Bool.false_ne_true,hreply,htargets⟩
  · refine ⟨?_,.inl ?_⟩
    · rw [proposal,if_neg hk]
      exact hnew
    · rw [proposal_turnId,joinedTurn,if_neg hk]
      exact hturn

theorem assign_staysEnded (he : Ended threadId s.threads) (hown : c.ownThread ≠ threadId)
    (hc : ¬ CorrectingReaction s c threadId) :
    StaysEnded threadId (conversation s) (conversation (reg.assign c s).2) := by
  obtain ⟨topics,hf⟩ := forgetRevised_apply c.data c.nowMs
  have ha : reg.assign c s = _ := (bind_of_ok hf).trans (read_bind_apply _ _)
  rw [ha,show storedAnswer { s with topics := topics } c = storedAnswer s c from rfl]
  cases hs : storedAnswer s c with
  | some answer => exact .refl _
  | none => exact StaysEnded.settle reg (proposal_apart he hs hc) hown { s with topics := topics }

end ThreadRegistry

/-- An assignment of another event than the thread's own trigger, unless it is a reaction
that corrects the thread; or an operation on other tables. -/
def RegistryAction.LeavesEnded (threadId : String) (s : Store) : RegistryAction → Prop
  | .assign c => c.ownThread ≠ threadId ∧ ¬ ThreadRegistry.CorrectingReaction s c threadId
  | .call op => Tbl.threads ∉ op.writes ∧ Tbl.turns ∉ op.writes

theorem step_staysEnded (reg : ThreadRegistry) {s : Store} {a : RegistryAction}
    (he : Ended threadId s.threads) (h : a.LeavesEnded threadId s) :
    StaysEnded threadId (conversation s) (conversation (reg.step s a)) := by
  cases a with
  | assign c => exact reg.assign_staysEnded he h.1 h.2
  | call op =>
    have ht : (op.exec s).threads = s.threads := Op.rows_eq h.1 s
    have hu : (op.exec s).turns = s.turns := Op.rows_eq h.2 s
    exact ⟨fun he => (congrArg (Ended threadId) ht).mpr he,congrArg (turnIdsOf threadId) hu⟩

/-- Whatever follows, a thread `/new` closed stays closed and gets no further turn. -/
theorem ended_thread_stays_ended (reg : ThreadRegistry) (threadId : String) (s : Store)
    (he : Ended threadId s.threads) (steps : List RegistryAction)
    (h : Along reg.step (RegistryAction.LeavesEnded threadId) s steps) :
    Ended threadId (run reg.step s steps).threads ∧
      turnIdsOf threadId (run reg.step s steps).turns = turnIdsOf threadId s.turns := by
  refine h.invariant (I := fun s' => Ended threadId s'.threads ∧
    turnIdsOf threadId s'.turns = turnIdsOf threadId s.turns) (fun m a hi ha => ?_) ⟨he,rfl⟩
  have hs := step_staysEnded reg hi.1 ha
  exact ⟨hs.ended hi.1,hs.turns.trans hi.2⟩

def renewedChat : World :=
  run World.step World.initial (answeredChat ++ [.call (.closeChatThreads "whatsapp" "u" 1500)])

def lateReply : AssignCall :=
  { event := chatEvent "m2" .message "whatsapp" "u" "u" (Dict.empty.setStr "reply_to_message_id" "prov-1"),
    nowMs := 2000 }

theorem late_reply_leaves_ended :
    Ended (threadIdFor "whatsapp" "u" "m1") (run ({} : ThreadRegistry).step renewedChat.store
        [.assign lateReply]).threads ∧
      turnIdsOf (threadIdFor "whatsapp" "u" "m1") (run ({} : ThreadRegistry).step renewedChat.store
        [.assign lateReply]).turns = turnIdsOf (threadIdFor "whatsapp" "u" "m1") renewedChat.store.turns :=
  ended_thread_stays_ended {} (threadIdFor "whatsapp" "u" "m1") renewedChat.store (by decide +kernel)
    [.assign lateReply] ⟨⟨by decide +kernel,by decide +kernel⟩,trivial⟩

def correctingReaction : AssignCall :=
  { event := chatEvent "r1" .reaction "whatsapp" "u" "u" (Dict.empty.setStr "target_message_id" "prov-1"),
    nowMs := 2000, explicitCorrection := some true }

theorem correcting_reaction_opens_turn : renewedChat.Reachable ∧
    Ended (threadIdFor "whatsapp" "u" "m1") renewedChat.store.threads ∧
    correctingReaction.ownThread ≠ threadIdFor "whatsapp" "u" "m1" ∧
    (turnIdsOf (threadIdFor "whatsapp" "u" "m1") renewedChat.store.turns).length = 1 ∧
    (turnIdsOf (threadIdFor "whatsapp" "u" "m1")
      (({} : ThreadRegistry).assign correctingReaction renewedChat.store).2.turns).length = 2 := by
  refine ⟨⟨_,rfl⟩,?_⟩
  decide +kernel

end Yeoman.Processing
