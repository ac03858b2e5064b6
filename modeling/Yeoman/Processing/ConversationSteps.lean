import Yeoman.Processing.Frames

/-! What every store operation does to threads and turns: their ids stay keys, and each row
stays, with the identity it has. -/
namespace Yeoman.Processing
open Library Table Txn

structure ThreadRow.Same (r r' : ThreadRow) : Prop where
  threadId : r'.threadId = r.threadId
  channel : r'.channel = r.channel
  chatId : r'.chatId = r.chatId

/-- The turn sequence is untouched as well. -/
structure ThreadRow.Woken (r r' : ThreadRow) : Prop extends ThreadRow.Same r r' where
  turnSeq : r'.turnSeq = r.turnSeq
variable (threadId : String) (nowMs : Int) (s : Store) (r : ThreadRow)

theorem ThreadRow.Same.refl : ThreadRow.Same r r := ⟨rfl,rfl,rfl⟩

theorem ThreadRow.Same.trans (a b c : ThreadRow) (h : ThreadRow.Same a b) (h' : ThreadRow.Same b c) :
    ThreadRow.Same a c :=
  ⟨h'.threadId.trans h.threadId,h'.channel.trans h.channel,h'.chatId.trans h.chatId⟩

theorem ThreadRow.Woken.refl : ThreadRow.Woken r r := ⟨.refl r,rfl⟩

structure TurnRow.Same (r r' : TurnRow) : Prop where
  turnId : r'.turnId = r.turnId
  threadId : r'.threadId = r.threadId
  revision : r.revision ≤ r'.revision

theorem TurnRow.Same.refl (r : TurnRow) : TurnRow.Same r r := ⟨rfl,rfl,le_rfl⟩

theorem TurnRow.Same.trans (a b c : TurnRow) (h : TurnRow.Same a b) (h' : TurnRow.Same b c) :
    TurnRow.Same a c :=
  ⟨h'.turnId.trans h.turnId,h'.threadId.trans h.threadId,h.revision.trans h'.revision⟩

/-- A closing time stays one. -/
structure TurnRow.Later (r r' : TurnRow) : Prop extends TurnRow.Same r r' where
  closed : r.closedMs ≠ none → r'.closedMs ≠ none

theorem TurnRow.Later.refl (r : TurnRow) : TurnRow.Later r r := ⟨.refl r,id⟩

def conversation (s : Store) : List ThreadRow × List TurnRow := (s.threads, s.turns)

theorem reactivate_woken :
    ∃ b ts, reactivate threadId nowMs s = (.ok b, { s with threads := ts }) ∧
      Rewrites ThreadRow.Woken s.threads ts :=
  ⟨_,_,rfl,.updateWhere ThreadRow.Woken.refl fun _ _ _ => ⟨⟨rfl,rfl,rfl⟩,rfl⟩⟩

theorem reopenThread_woken :
    ∃ b ts, reopenThread threadId nowMs s = (.ok b, { s with threads := ts }) ∧
      Rewrites ThreadRow.Woken s.threads ts :=
  ⟨_,_,rfl,.updateWhere ThreadRow.Woken.refl fun _ _ _ => ⟨⟨rfl,rfl,rfl⟩,rfl⟩⟩

theorem touchThread_woken :
    ∃ ts, touchThread threadId nowMs s = (.ok (), { s with threads := ts }) ∧
      Rewrites ThreadRow.Woken s.threads ts :=
  ⟨_,rfl,.updateWhere ThreadRow.Woken.refl fun _ _ _ => ⟨⟨rfl,rfl,rfl⟩,rfl⟩⟩

def openedThread (channel chatId rootPrincipal kind triggerEventId : String) (nowMs : Int) : ThreadRow :=
  { threadId := threadIdFor channel chatId triggerEventId, channel := channel, chatId := chatId,
    rootPrincipal := rootPrincipal, kind := kind, state := .open, openedMs := nowMs,
    lastActivityMs := nowMs, closedMs := none, closeReason := none, reopenCount := 0, turnSeq := 0,
    conversationState := .active, dormantMs := none, dormantReason := none }
variable {triggerEventId : String}

theorem openThread_fresh {channel chatId rootPrincipal kind : String} {nowMs : Int} {s : Store}
    (h : s.thread? (threadIdFor channel chatId triggerEventId) = none) :
    openThread channel chatId rootPrincipal kind triggerEventId nowMs s =
      (.ok (threadIdFor channel chatId triggerEventId),
        { s with threads := s.threads ++ [openedThread channel chatId rootPrincipal kind triggerEventId nowMs] }) := by
  apply atomically_of_ok
  rw [read_bind_apply,h]
  rfl

theorem openThread_known {channel chatId rootPrincipal kind triggerEventId : String} {nowMs : Int} {s : Store}
    {row : ThreadRow} (h : s.thread? (threadIdFor channel chatId triggerEventId) = some row) :
    ∃ ts, openThread channel chatId rootPrincipal kind triggerEventId nowMs s =
        (.ok (threadIdFor channel chatId triggerEventId), { s with threads := ts }) ∧
      Rewrites ThreadRow.Woken s.threads ts := by
  refine ⟨updateWhere (fun t => t.threadId = threadIdFor channel chatId triggerEventId) (fun t =>
    { t with
      state := .open
      lastActivityMs := nowMs
      closedMs := none
      closeReason := none
      reopenCount := if t.state = .closed then t.reopenCount + 1 else t.reopenCount }) s.threads,?_,?_⟩
  · apply atomically_of_ok
    rw [read_bind_apply,h]
    rfl
  · exact .updateWhere ThreadRow.Woken.refl fun _ _ _ => ⟨⟨rfl,rfl,rfl⟩,rfl⟩

def openedTurn (threadId principal turnId : String) (nowMs : Int) (state : TurnState) : TurnRow :=
  { turnId := turnId, threadId := threadId, principal := principal, revision := 1, contextVersion := 1,
    state := state, openedMs := nowMs, updatedMs := nowMs, closedMs := none, lastGenerationId := none }

def sequencedRow (nowMs : Int) (t : ThreadRow) : ThreadRow :=
  { t with turnSeq := t.turnSeq + 1, lastActivityMs := nowMs }

def sequenced (threadId : String) (nowMs : Int) (s : Store) : List ThreadRow :=
  updateWhere (fun t => t.threadId = threadId) (sequencedRow nowMs) s.threads

private theorem draw_apply :
    updateThreads (fun t => t.threadId = threadId)
        (fun t => { t with turnSeq := t.turnSeq + 1, lastActivityMs := nowMs }) s =
      (.ok (rowCount (fun t => t.threadId = threadId) s.threads),
        { s with threads := sequenced threadId nowMs s }) := rfl

private theorem thread?_sequenced :
    Store.thread? { s with threads := sequenced threadId nowMs s } threadId =
      (s.thread? threadId).map (sequencedRow nowMs) := by
  refine (lookup_updateWhere (f := sequencedRow nowMs) (fun _ => rfl)).trans ?_
  unfold Store.thread?
  cases h : lookup ThreadRow.threadId threadId s.threads with
  | none => rfl
  | some row => simp [(lookup_some h).2]

theorem openTurn_unknown {threadId principal triggerEventId : String} {nowMs : Int} {state : TurnState}
    {s : Store} (h : s.thread? threadId = none) :
    openTurn threadId principal triggerEventId nowMs state s =
      (.error (processingError ("unknown thread: " ++ threadId)), s) := by
  have hn : Store.thread? { s with threads := sequenced threadId nowMs s } threadId = none := by
    rw [thread?_sequenced,h]
    rfl
  apply atomically_of_error
  rw [bind_of_ok (draw_apply threadId nowMs s),read_bind_apply,hn]
  rfl

theorem openTurn_known {threadId : String} {s : Store} {row : ThreadRow} (h : s.thread? threadId = some row)
    {principal : String} {nowMs : Int} {state : TurnState} :
    ∃ ts, openTurn threadId principal triggerEventId nowMs state s =
        (.ok (turnIdFor threadId triggerEventId (row.turnSeq + 1)),
          { s with
            threads := ts
            turns := insertIgnore TurnRow.turnId (openedTurn threadId principal
              (turnIdFor threadId triggerEventId (row.turnSeq + 1)) nowMs state) s.turns }) ∧
      Rewrites ThreadRow.Same s.threads ts := by
  refine ⟨sequenced threadId nowMs s,?_,.updateWhere ThreadRow.Same.refl fun _ _ _ => ⟨rfl,rfl,rfl⟩⟩
  have hn : Store.thread? { s with threads := sequenced threadId nowMs s } threadId =
      some (sequencedRow nowMs row) := by
    rw [thread?_sequenced,h]
    rfl
  apply atomically_of_ok
  rw [bind_of_ok (draw_apply threadId nowMs s),read_bind_apply,hn]
  rfl

structure Keyed (a : List ThreadRow × List TurnRow) : Prop where
  threads : Table.Unique ThreadRow.threadId a.1
  turns : Table.Unique TurnRow.turnId a.2

def Housed (a : List ThreadRow × List TurnRow) : Prop :=
  ∀ t ∈ a.2, 1 ≤ t.revision ∧ ∃ th ∈ a.1, th.threadId = t.threadId

structure Carries (a b : List ThreadRow × List TurnRow) : Prop where
  keyed : Keyed a → Keyed b
  housed : Housed a → Housed b
  threads : ∀ t ∈ a.1, ∃ t' ∈ b.1, ThreadRow.Same t t'
  turns : ∀ t ∈ a.2, ∃ t' ∈ b.2, TurnRow.Same t t'

/-- What the operations do to threads and turns: rows change within their identity, a thread is opened, or a
turn is opened in a thread that is there. -/
inductive Conversed : List ThreadRow × List TurnRow → List ThreadRow × List TurnRow → Prop
  | rewritten {a b : List ThreadRow × List TurnRow} (ht : Rewrites ThreadRow.Same a.1 b.1)
      (hu : Rewrites TurnRow.Later a.2 b.2) : Conversed a b
  | opened {a : List ThreadRow × List TurnRow} (row : ThreadRow)
      (h : lookup ThreadRow.threadId row.threadId a.1 = none) : Conversed a (a.1 ++ [row], a.2)
  | turned {a : List ThreadRow × List TurnRow} (row : TurnRow) (hr : 1 ≤ row.revision)
      (h : ∃ th ∈ a.1, th.threadId = row.threadId) : Conversed a (a.1, insertIgnore TurnRow.turnId row a.2)
  | trans (a b c : List ThreadRow × List TurnRow) (h : Conversed a b) (h' : Conversed b c) : Conversed a c

theorem Conversed.carries {a b : List ThreadRow × List TurnRow} (h : Conversed a b) : Carries a b := by
  induction h with
  | @rewritten a b ht hu =>
    refine ⟨fun h => ⟨ht.unique (fun _ _ h => h.threadId) h.threads,hu.unique (fun _ _ h => h.turnId) h.turns⟩,
      fun h t' ht' => ?_,fun _ => ht.mem_old,fun _ => (hu.mono fun _ _ h => h.toSame).mem_old⟩
    obtain ⟨t,hm,hs⟩ := hu.mem_new ht'
    obtain ⟨hrev,th,hth,hid⟩ := h t hm
    obtain ⟨th',hth',hs'⟩ := ht.mem_old hth
    exact ⟨hrev.trans hs.revision,th',hth',(hs'.threadId.trans hid).trans hs.threadId.symm⟩
  | @opened a row hn =>
    refine ⟨fun h => ⟨h.threads.append (lookup_none.mp hn),h.turns⟩,fun h t ht => ?_,
      fun t ht => ⟨t,List.mem_append_left _ ht,.refl t⟩,fun t ht => ⟨t,ht,.refl t⟩⟩
    obtain ⟨hrev,th,hth,hid⟩ := h t ht
    exact ⟨hrev,th,List.mem_append_left _ hth,hid⟩
  | @turned a row hr hth =>
    refine ⟨fun h => ⟨h.threads,h.turns.insertIgnore⟩,fun h t hm => ?_,fun t ht => ⟨t,ht,.refl t⟩,
      fun t ht => ⟨t,mem_insertIgnore_of_mem ht,.refl t⟩⟩
    rcases mem_insertIgnore hm with hm | ⟨rfl,-⟩
    · exact h t hm
    · exact ⟨hr,hth⟩
  | trans a b c _ _ h h' =>
    refine ⟨h'.keyed ∘ h.keyed,h'.housed ∘ h.housed,fun t ht => ?_,fun t ht => ?_⟩
    · obtain ⟨t₁,ht₁,hs₁⟩ := h.threads t ht
      obtain ⟨t₂,ht₂,hs₂⟩ := h'.threads t₁ ht₁
      exact ⟨t₂,ht₂,hs₁.trans _ _ _ hs₂⟩
    · obtain ⟨t₁,ht₁,hs₁⟩ := h.turns t ht
      obtain ⟨t₂,ht₂,hs₂⟩ := h'.turns t₁ ht₁
      exact ⟨t₂,ht₂,hs₁.trans _ _ _ hs₂⟩

namespace Conversed

theorem refl (a : List ThreadRow × List TurnRow) : Conversed a a :=
  .rewritten (.refl ThreadRow.Same.refl a.1) (.refl TurnRow.Later.refl a.2)

theorem updateThreads {p : ThreadRow → Bool} {f : ThreadRow → ThreadRow}
    (hf : ∀ t, ThreadRow.Same t (f t)) : Keeps conversation Conversed (updateThreads p f) :=
  fun s => rewritten (.updateWhere ThreadRow.Same.refl fun t _ _ => hf t) (.refl TurnRow.Later.refl s.turns)

theorem updateTurns {p : TurnRow → Bool} {f : TurnRow → TurnRow} (hf : ∀ t, TurnRow.Later t (f t)) :
    Keeps conversation Conversed (updateTurns p f) :=
  fun s => rewritten (.refl ThreadRow.Same.refl s.threads) (.updateWhere TurnRow.Later.refl fun t _ _ => hf t)

theorem openThread (channel chatId rootPrincipal kind triggerEventId : String) (nowMs : Int) :
    Keeps conversation Conversed (openThread channel chatId rootPrincipal kind triggerEventId nowMs) := by
  intro s
  cases hs : s.thread? (threadIdFor channel chatId triggerEventId) with
  | none =>
    rw [openThread_fresh hs]
    exact opened (a := conversation s) _ hs
  | some row =>
    obtain ⟨ts,ho,hw⟩ := @openThread_known channel chatId rootPrincipal kind triggerEventId nowMs s row hs
    rw [ho]
    exact rewritten (a := conversation s) (hw.mono fun _ _ h => h.toSame) (.refl TurnRow.Later.refl s.turns)
variable (threadId : String) (turnId : String)

theorem closeChatThreads (channel chatId : String) (nowMs : Int) :
    Keeps conversation Conversed (closeChatThreads channel chatId nowMs) := by
  refine .atomically refl (.frame_bind refl .read fun _ => .bind_pure (.each refl trans fun t => ?_))
  refine .frame_bind refl .read fun s => .frame_bind refl (.each fun e => ?_) fun _ => ?_
  · exact .bind (updateEffects_frame (fun _ _ => rfl)) fun _ =>
      appendEvidence_frame (fun _ _ => rfl)
  · exact .frame_bind refl (updatePending_frame (fun _ _ => rfl)) fun _ =>
      .frame_bind refl (updateGenerations_frame (fun _ _ => rfl)) fun _ =>
        .bind trans (updateTurns fun _ => ⟨⟨rfl,rfl,le_rfl⟩,fun _ => nofun⟩) fun _ =>
          .bind_pure (updateThreads fun _ => ⟨rfl,rfl,rfl⟩)

theorem openTurn (principal triggerEventId : String) (nowMs : Int) (state : TurnState) :
    Keeps conversation Conversed (openTurn threadId principal triggerEventId nowMs state) := by
  intro s
  cases hs : s.thread? threadId with
  | none =>
    rw [openTurn_unknown hs]
    exact refl _
  | some row =>
    obtain ⟨ts,ho,ht⟩ := openTurn_known hs
    rw [ho]
    refine trans _ (ts, s.turns) _ (rewritten (a := conversation s) ht (.refl TurnRow.Later.refl s.turns)) ?_
    -- the new turn is of the thread that was just read
    obtain ⟨hrow,hid⟩ := lookup_some hs
    obtain ⟨th,hth,hsame⟩ := ht.mem_old hrow
    exact turned (a := (ts, s.turns)) _ le_rfl ⟨th,hth,hsame.threadId.trans hid⟩

theorem bumpTurnRevision (revision nowMs : Int) :
    Keeps conversation Conversed (bumpTurnRevision turnId revision nowMs) := by
  refine .bind_frame (.atomically refl (.frame_bind refl .read fun s => ?_)) fun _ => .liftExcept
  cases s.turnJoin? turnId with
  | none => exact .of_frame refl .raise
  | some found =>
    refine .frame_bind refl .require fun _ => .frame_bind refl .require fun _ => ?_
    exact .bind_frame (updateTurns fun t => ⟨⟨rfl,rfl,Int.le_add_one le_rfl⟩,id⟩) fun _ => .bind_pure .read

theorem bumpContextVersion (nowMs : Int) : Keeps conversation Conversed (bumpContextVersion turnId nowMs) := by
  refine .bind_frame (.atomically refl (updateTurns fun _ => ⟨⟨rfl,rfl,le_rfl⟩,id⟩)) fun _ => .bind .read fun s => ?_
  cases s.turn? turnId with
  | none => exact .raise
  | some turn => exact .pure

theorem exec (op : Op) (s : Store) : Conversed (conversation s) (conversation (op.exec s)) := by
  by_cases hw : Tbl.threads ∈ op.writes ∨ Tbl.turns ∈ op.writes
  · unfold Op.exec
    cases op <;> first
      | (simp [Op.writes] at hw; done)
      | (rw [Op.apply,reply_snd]; revert s; change Keeps conversation Conversed _)
    case openThread => exact openThread _ _ _ _ _ _
    case touchThread | reopenThread | reactivate =>
      exact .atomically refl (.bind_pure (updateThreads fun _ => ⟨rfl,rfl,rfl⟩))
    case markDormant =>
      exact .atomically refl (.select refl trans fun _ => .frame_bind refl .read fun _ =>
        .ite (.of_frame refl .pure) (.bind_pure (updateThreads fun _ => ⟨rfl,rfl,rfl⟩)))
    case settleIdleTurns =>
      exact .atomically refl (.frame_bind refl .read fun _ => .bind_pure (.select refl trans fun _ =>
        .frame_bind refl .read fun _ => .ite (.of_frame refl .pure) (.ite (.of_frame refl .pure)
          (.bind_pure (updateTurns fun _ => ⟨⟨rfl,rfl,le_rfl⟩,fun _ => Option.some_ne_none _⟩)))))
    case closeIdleThreads =>
      exact .atomically refl (.frame_bind refl .read fun _ => .bind_pure (.each refl trans fun _ =>
        .bind trans (updateThreads fun _ => ⟨rfl,rfl,rfl⟩) fun _ =>
          .bind_pure (updateTurns fun _ => ⟨⟨rfl,rfl,le_rfl⟩,fun _ => Option.some_ne_none _⟩)))
    case closeChatThreads => exact closeChatThreads _ _ _
    case openTurn => exact openTurn _ _ _ _ _
    case closeTurn =>
      exact .frame_bind refl .liftExcept fun _ =>
        .atomically refl (.bind_pure (updateTurns fun _ => ⟨⟨rfl,rfl,le_rfl⟩,fun _ => Option.some_ne_none _⟩))
    case bumpTurnRevision => exact bumpTurnRevision _ _ _
    case bumpContextVersion => exact bumpContextVersion _ _
    case recordGeneration =>
      exact .atomically refl (.frame_bind refl (.modify fun _ => rfl) fun _ =>
        .frame_bind refl (.each fun _ => .modify fun _ => rfl) fun _ =>
          .bind_pure (updateTurns fun _ => ⟨⟨rfl,rfl,le_rfl⟩,id⟩))
  · rw [not_or] at hw
    have ht : (op.exec s).threads = s.threads := Op.rows_eq hw.1 s
    have hu : (op.exec s).turns = s.turns := Op.rows_eq hw.2 s
    unfold conversation
    rw [ht,hu]
    exact .refl _

end Conversed

theorem Op.carries (op : Op) {s : Store} : Carries (conversation s) (conversation (op.exec s)) :=
  (Conversed.exec op s).carries

theorem Via.carries {P : Op → Prop} {s s' : Store} (h : Via P s s') :
    Carries (conversation s) (conversation s') :=
  (h.invariant (I := fun m => Conversed (conversation s) (conversation m))
    (fun m op _ hm => hm.trans _ _ _ (Conversed.exec op m)) (.refl _)).carries

end Yeoman.Processing
