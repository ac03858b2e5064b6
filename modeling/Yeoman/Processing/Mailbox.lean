import Yeoman.Processing.Frames

/-! The postbox of a thread: what each operation does to its rows, and what holds of them
in every interleaving. -/
namespace Yeoman.Processing
open Library Table Txn Runs

def PendingRow.inBox (threadId : String) (state : PendingState) (p : PendingRow) : Bool :=
  p.threadId = threadId && p.state = state

def consumedRow (nowMs : Int) (p : PendingRow) : PendingRow :=
  { p with state := .consumed, consumedMs := some nowMs }

def promotedRow (nowMs : Int) (p : PendingRow) : PendingRow :=
  { p with state := .waiting, enqueuedMs := nowMs }

namespace Store

def drained (s : Store) (threadId : String) (limit : Option Nat) : List PendingRow :=
  let waiting := orderBy PendingRow.enqueuedMs PendingRow.inputId
    (s.pending.filter fun p => p.threadId = threadId && p.state = .waiting)
  match limit with
  | some n => waiting.take (max 1 n)
  | none => waiting

def promoted (s : Store) (threadId : String) (capacity : Int) : List PendingRow :=
  (orderBy PendingRow.enqueuedMs PendingRow.inputId
    (s.pending.filter fun p => p.threadId = threadId && p.state = .deferred)).take
      (capacity - (s.pending.countP fun p => p.threadId = threadId && p.state = .waiting : Nat)).toNat
variable {s : Store} {threadId : String} {p : PendingRow} {limit : Option Nat}

theorem mem_drained
    (h : p ∈ s.drained threadId limit) : p ∈ s.pending ∧ p.threadId = threadId ∧ p.state = .waiting := by
  have hm : p ∈ orderBy PendingRow.enqueuedMs PendingRow.inputId
      (s.pending.filter fun p => p.threadId = threadId && p.state = .waiting) := by
    cases limit with
    | none => exact h
    | some n => exact List.mem_of_mem_take h
  simpa using (List.mem_insertionSort _).mp hm

theorem drained_unique {key : PendingRow → String} (h : Table.Unique key s.pending)
    : Table.Unique key (s.drained threadId limit) := by
  have hsorted : Table.Unique key (orderBy PendingRow.enqueuedMs PendingRow.inputId
      (s.pending.filter fun p => p.threadId = threadId && p.state = .waiting)) :=
    ((List.perm_insertionSort _ _).map key).nodup_iff.mpr (h.filter)
  cases limit with
  | none => exact hsorted
  | some n => exact List.Nodup.sublist ((List.take_sublist _ _).map key) hsorted

theorem mem_promoted {capacity : Int} (h : p ∈ s.promoted threadId capacity) :
    p ∈ s.pending ∧ p.threadId = threadId ∧ p.state = .deferred := by
  simpa using (List.mem_insertionSort _).mp (List.mem_of_mem_take h)

end Store

theorem each_updatePending {f : PendingRow → PendingRow} (hf : ∀ p, f (f p) = f p) (rows : List PendingRow) (s : Store) :
    each rows (fun row => updatePending (fun p => p.inputId = row.inputId) f) s =
      (.ok (), { s with
        pending := updateWhere (fun p => p.inputId ∈ rows.map PendingRow.inputId) f s.pending }) := by
  induction rows generalizing s with
  | nil =>
    have hnone : updateWhere (fun p => p.inputId ∈ ([] : List PendingRow).map PendingRow.inputId) f
        s.pending = s.pending := by simp [updateWhere]
    rw [hnone]
    rfl
  | cons row rows ih =>
    refine (ih { s with pending := updateWhere (fun p => p.inputId = row.inputId) f s.pending }).trans ?_
    rw [updateWhere_updateWhere hf]
    simp only [List.map_cons,List.mem_cons,Bool.decide_or]
variable (threadId : String) (nowMs : Int)

theorem drainPendingInputs_apply (limit : Option Nat) (s : Store) :
    drainPendingInputs threadId nowMs limit s = (.ok (s.drained threadId limit), { s with
      pending := updateWhere (fun p => p.inputId ∈ (s.drained threadId limit).map PendingRow.inputId)
        (consumedRow nowMs) s.pending }) := by
  apply atomically_of_ok
  have heach := each_updatePending (f := consumedRow nowMs) (fun _ => rfl) (s.drained threadId limit) s
  exact (read_bind_apply _ s).trans (bind_of_ok heach)

theorem promoteDeferred_apply (capacity : Int) {s : Store} :
    promoteDeferred threadId nowMs capacity s =
      (.ok ((s.promoted threadId capacity).map PendingRow.eventId), { s with
        pending := updateWhere
          (fun p => p.inputId ∈ (s.promoted threadId capacity).map PendingRow.inputId)
          (promotedRow nowMs) s.pending }) := by
  apply atomically_of_ok
  have heach := each_updatePending (f := promotedRow nowMs) (fun _ => rfl) (s.promoted threadId capacity) s
  exact (read_bind_apply _ s).trans (bind_of_ok heach)

def enqueuedRow (s : Store) (row : PendingRow) (cap : Option Int) : PendingRow :=
  let waiting : Int := s.pending.countP fun p => p.threadId = row.threadId && p.state = .waiting
  { row with
    state := match cap with
      | some cap => if cap ≤ waiting then .deferred else .waiting
      | none => .waiting
    consumedMs := none }

/-- An input is known already, or it is refused for its id, or it joins the postbox. -/
inductive Posted (row : PendingRow) (cap : Option Int) (s : Store) :
    Except Error (Option PendingState) × Store → Prop
  | known (h : (lookup PendingRow.eventId row.eventId s.pending).isSome) :
      Posted row cap s (.ok none, s)
  | refused (e : Error) (h : lookup PendingRow.inputId row.inputId s.pending ≠ none) :
      Posted row cap s (.error e, s)
  | queued (he : lookup PendingRow.eventId row.eventId s.pending = none)
      (hi : lookup PendingRow.inputId row.inputId s.pending = none) :
      Posted row cap s (.ok (some (enqueuedRow s row cap).state),
        { s with pending := s.pending ++ [enqueuedRow s row cap] })

theorem enqueuePendingInput_posted (row : PendingRow) (cap : Option Int) (s : Store) :
    Posted row cap s (enqueuePendingInput row cap s) := by
  cases he : lookup PendingRow.eventId row.eventId s.pending with
  | some known =>
    have hp : enqueuePendingInput row cap s = (.ok none, s) := by
      apply atomically_of_ok
      rw [read_bind_apply,he]
      rfl
    rw [hp]
    exact .known (by simp [he])
  | none =>
    by_cases hi : lookup PendingRow.inputId row.inputId s.pending = none
    · have hp : enqueuePendingInput row cap s = (.ok (some (enqueuedRow s row cap).state),
          { s with pending := s.pending ++ [enqueuedRow s row cap] }) := by
        apply atomically_of_ok
        rw [read_bind_apply,he,Option.isSome_none,if_neg Bool.false_ne_true,
          require_bind_of_pos hi]
        rfl
      rw [hp]
      exact .queued he hi
    · have hp : enqueuePendingInput row cap s =
          (.error ⟨.integrityError,"UNIQUE constraint failed: pending_inputs.input_id"⟩, s) := by
        apply atomically_of_error
        rw [read_bind_apply,he,Option.isSome_none,if_neg Bool.false_ne_true]
        exact require_bind_of_neg hi
      rw [hp]
      exact .refused _ hi

structure PendingRow.Falls (p p' : PendingRow) : Prop where
  inputId : p'.inputId = p.inputId
  eventId : p'.eventId = p.eventId
  threadId : p'.threadId = p.threadId
  waiting : p'.state = .waiting → p.state = .waiting
  consumed : p.state = .consumed → p'.state = .consumed

namespace PendingRow.Falls

theorem refl (p : PendingRow) : PendingRow.Falls p p := ⟨rfl,rfl,rfl,id,id⟩

theorem trans {a b c : PendingRow} (h : PendingRow.Falls a b) (h' : PendingRow.Falls b c) : PendingRow.Falls a c :=
  ⟨h'.inputId.trans h.inputId,h'.eventId.trans h.eventId,h'.threadId.trans h.threadId,
    h.waiting ∘ h'.waiting,h'.consumed ∘ h.consumed⟩

end PendingRow.Falls

/-- An input that nothing has consumed either. -/
structure PendingRow.Withdrawn (p p' : PendingRow) : Prop extends PendingRow.Falls p p' where
  spent : p'.state = .consumed → p.state = .consumed

theorem closeChatThreads_withdrawn {channel chatId : String} {nowMs : Int} :
    Keeps Store.pending (Rewrites PendingRow.Withdrawn) (closeChatThreads channel chatId nowMs) := by
  have hself : ∀ p, PendingRow.Withdrawn p p := fun p => ⟨.refl p,id⟩
  have hrefl : ∀ t, Rewrites PendingRow.Withdrawn t t := .refl hself
  have htrans : ∀ a b c, Rewrites PendingRow.Withdrawn a b → Rewrites PendingRow.Withdrawn b c →
      Rewrites PendingRow.Withdrawn a c := fun _ _ _ h h' =>
    h.trans (fun _ _ _ h h' => ⟨h.toFalls.trans h'.toFalls,h.spent ∘ h'.spent⟩) h'
  refine .atomically hrefl (.frame_bind hrefl .read fun _ => .bind_pure (.each hrefl htrans fun t => ?_))
  refine .frame_bind hrefl .read fun s => .frame_bind hrefl (.each fun e => ?_) fun _ => .bind_frame ?_ fun _ =>
    .bind (updateGenerations_frame (fun _ _ => rfl)) fun _ =>
      .bind (updateTurns_frame (fun _ _ => rfl)) fun _ =>
        .bind_pure (updateThreads_frame (fun _ _ => rfl))
  · exact .bind (updateEffects_frame (fun _ _ => rfl)) fun _ =>
      appendEvidence_frame (fun _ _ => rfl)
  · -- only inputs that wait or are deferred are cancelled
    refine .modify fun s => .updateWhere hself fun p _ hp => ⟨⟨rfl,rfl,rfl,nofun,fun hc => ?_⟩,nofun⟩
    simp [hc] at hp

/-- Ids are keys of the postbox, and no thread has more waiting inputs than the cap. -/
structure Mailbox (cap : Nat) (rows : List PendingRow) : Prop where
  inputs : Table.Unique PendingRow.inputId rows
  events : Table.Unique PendingRow.eventId rows
  bounded : ∀ threadId, rows.countP (PendingRow.inBox threadId .waiting) ≤ cap

namespace Mailbox
variable {cap : Nat} {s : Store}

theorem falls {rows rows' : List PendingRow} (h : Mailbox cap rows) (hf : Rewrites PendingRow.Falls rows rows') :
    Mailbox cap rows' := by
  refine ⟨hf.unique (fun _ _ h => h.inputId) h.inputs,hf.unique (fun _ _ h => h.eventId) h.events,
    fun threadId => (hf.countP_le fun a b hab hb => ?_).trans (h.bounded threadId)⟩
  simp only [PendingRow.inBox,Bool.and_eq_true,decide_eq_true_eq] at hb ⊢
  exact ⟨hab.threadId.symm.trans hb.1,hab.waiting hb.2⟩

variable {p : PendingRow}

theorem mem_of_inputId (h : Mailbox cap s.pending) {listed : List PendingRow}
    (hl : ∀ p ∈ listed, p ∈ s.pending) (hp : p ∈ s.pending)
    (hid : p.inputId ∈ listed.map PendingRow.inputId) : p ∈ listed := by
  obtain ⟨q,hq,he⟩ := List.mem_map.mp hid
  exact h.inputs.eq_of_mem (hl q hq) hp he ▸ hq
variable (threadId : String) (nowMs : Int) (limit : Option Nat)

theorem drained_falls (s : Store) :
    Rewrites PendingRow.Falls s.pending (drainPendingInputs threadId nowMs limit s).2.pending := by
  rw [drainPendingInputs_apply]
  exact .updateWhere PendingRow.Falls.refl fun p hp hid => ⟨rfl,rfl,rfl,nofun,fun _ => rfl⟩

theorem drained_consumed (hp : p ∈ s.drained threadId limit) :
    ∃ q ∈ (drainPendingInputs threadId nowMs limit s).2.pending, q.eventId = p.eventId ∧ q.state = .consumed := by
  rw [drainPendingInputs_apply]
  refine ⟨consumedRow nowMs p,mem_updateWhere.mpr ⟨p,(Store.mem_drained hp).1,if_pos ?_⟩,rfl,rfl⟩
  exact decide_eq_true (List.mem_map_of_mem hp)
variable {capacity : Int}

theorem promoted_only (h : Mailbox cap s.pending) {threadId : String}
    (hp : p ∈ s.pending) (hid : p.inputId ∈ (s.promoted threadId capacity).map PendingRow.inputId) :
    p.threadId = threadId ∧ p.state = .deferred :=
  (Store.mem_promoted (h.mem_of_inputId (fun _ hq => (Store.mem_promoted hq).1) hp hid)).2

theorem promote (h : Mailbox cap s.pending) {threadId : String} {nowMs : Int} :
    Mailbox cap (promoteDeferred threadId nowMs cap s).2.pending := by
  rw [promoteDeferred_apply]
  refine ⟨?_,?_,fun t => ?_⟩
  · rw [Table.Unique,keys_updateWhere (f := promotedRow nowMs) fun _ => rfl]
    exact h.inputs
  · rw [Table.Unique,keys_updateWhere (f := promotedRow nowMs) fun _ => rfl]
    exact h.events
  by_cases ht : t = threadId
  · -- the room left is what was free below the cap
    subst ht
    have hused := h.bounded t
    have hle := countP_updateWhere_le_add (PendingRow.inBox t .waiting)
      (fun p => p.inputId ∈ (s.promoted t cap).map PendingRow.inputId) (promotedRow nowMs) s.pending
    have hmoved := h.inputs.countP_mem_le ((s.promoted t cap).map PendingRow.inputId)
    have hroom : (s.promoted t cap).length ≤
        ((cap : Int) - (s.pending.countP (PendingRow.inBox t .waiting) : Nat)).toNat := List.length_take_le _ _
    rw [List.length_map] at hmoved
    refine hle.trans ?_
    omega
  · have hr : Rewrites (fun p p' : PendingRow => p'.inBox t .waiting = true → p.inBox t .waiting = true)
        s.pending (updateWhere (fun p => p.inputId ∈ (s.promoted threadId cap).map PendingRow.inputId)
          (promotedRow nowMs) s.pending) := by
      refine .updateWhere (fun _ => id) fun p hp hid hw => ?_
      have hthread := (h.promoted_only hp (of_decide_eq_true hid)).1
      simp only [PendingRow.inBox,Bool.and_eq_true,decide_eq_true_eq] at hw
      exact absurd (hw.1.symm.trans hthread) ht
    exact (hr.countP_le fun _ _ h => h).trans (h.bounded t)

theorem promoted_keeps_consumed (h : Mailbox cap s.pending) {threadId : String} {nowMs : Int}
    (hp : p ∈ s.pending) (hc : p.state = .consumed) : p ∈ (promoteDeferred threadId nowMs capacity s).2.pending := by
  rw [promoteDeferred_apply]
  refine mem_updateWhere.mpr ⟨p,hp,if_neg fun hid => ?_⟩
  rw [(h.promoted_only hp (of_decide_eq_true hid)).2] at hc
  cases hc

theorem enqueue (h : Mailbox cap s.pending) {row : PendingRow} :
    Mailbox cap (enqueuePendingInput row (some cap) s).2.pending := by
  have hp := enqueuePendingInput_posted row (some cap) s
  generalize enqueuePendingInput row (some cap) s = r at hp ⊢
  cases hp with
  | known | refused => exact h
  | queued he hi =>
    refine ⟨h.inputs.append (lookup_none.mp hi),h.events.append (lookup_none.mp he),fun t => ?_⟩
    have hbound := h.bounded t
    rw [List.countP_append,List.countP_singleton]
    split_ifs with hw
    · -- the new input waits, so its thread was below the cap
      rw [PendingRow.inBox,Bool.and_eq_true,decide_eq_true_eq,decide_eq_true_eq] at hw
      obtain ⟨hthread,hstate⟩ := hw
      rw [← hthread] at hbound ⊢
      have hlt : ¬ (cap : Int) ≤ (s.pending.countP (PendingRow.inBox row.threadId .waiting) : Nat) := by
        intro hle
        have hdeferred : (enqueuedRow s row (some cap)).state = .deferred := if_pos hle
        rw [hdeferred] at hstate
        cases hstate
      change s.pending.countP (PendingRow.inBox row.threadId .waiting) + 1 ≤ cap
      omega
    · omega

end Mailbox

/-- The writers of the postbox with one cap, and any operation that leaves it alone. -/
inductive MailboxAction where
  | enqueue (row : PendingRow)
  | drain (threadId : String) (nowMs : Int) (limit : Option Nat)
  | promote (threadId : String) (nowMs : Int)
  | close (channel chatId : String) (nowMs : Int)
  | other (op : Op) (h : Tbl.pending ∉ op.writes)

structure MailboxState where
  store : Store
  returned : List String

def MailboxState.step (cap : Nat) (w : MailboxState) : MailboxAction → MailboxState
  | .enqueue row => { w with store := (enqueuePendingInput row (some cap) w.store).2 }
  | .drain threadId nowMs limit =>
    match drainPendingInputs threadId nowMs limit w.store with
    | (.ok rows, s) => { store := s, returned := w.returned ++ rows.map PendingRow.eventId }
    | (.error _, s) => { w with store := s }
  | .promote threadId nowMs => { w with store := (promoteDeferred threadId nowMs cap w.store).2 }
  | .close channel chatId nowMs => { w with store := (closeChatThreads channel chatId nowMs w.store).2 }
  | .other op _ => { w with store := op.exec w.store }

structure MailboxState.Sound (cap : Nat) (w : MailboxState) : Prop where
  mailbox : Mailbox cap w.store.pending
  once : w.returned.Nodup
  spent : ∀ e ∈ w.returned, ∃ p ∈ w.store.pending, p.eventId = e ∧ p.state = .consumed

namespace MailboxState
variable {cap : Nat} {w : MailboxState}

theorem Sound.falls (h : w.Sound cap) {s : Store} (hf : Rewrites PendingRow.Falls w.store.pending s.pending) :
    Sound cap { w with store := s } := by
  refine ⟨h.mailbox.falls hf,h.once,fun e he => ?_⟩
  obtain ⟨p,hp,hid,hc⟩ := h.spent e he
  obtain ⟨q,hq,hpq⟩ := hf.mem_old hp
  exact ⟨q,hq,hpq.eventId.trans hid,hpq.consumed hc⟩

theorem Sound.drain (h : w.Sound cap) {threadId : String} {nowMs : Int} {limit : Option Nat} :
    Sound cap (w.step cap (.drain threadId nowMs limit)) := by
  have hf := Mailbox.drained_falls threadId nowMs limit w.store
  have hc := fun p => Mailbox.drained_consumed (s := w.store) (p := p) threadId nowMs limit
  have hstep : w.step cap (.drain threadId nowMs limit) =
      { store := (drainPendingInputs threadId nowMs limit w.store).2
        returned := w.returned ++ (w.store.drained threadId limit).map PendingRow.eventId } := by
    rw [step,drainPendingInputs_apply]
  rw [hstep]
  refine ⟨h.mailbox.falls hf,?_,fun e he => ?_⟩
  · refine List.Nodup.append h.once ?_ fun e he hd => ?_
    · exact Store.drained_unique h.mailbox.events
    · -- a returned event is consumed, a drained one still waited
      obtain ⟨p,hp,rfl,hpc⟩ := h.spent e he
      obtain ⟨q,hq,heq⟩ := List.mem_map.mp hd
      obtain ⟨hq,-,hwait⟩ := Store.mem_drained hq
      rw [h.mailbox.events.eq_of_mem hq hp heq,hpc] at hwait
      cases hwait
  · rcases List.mem_append.mp he with he | he
    · exact (h.falls hf).spent e he
    · obtain ⟨p,hp,rfl⟩ := List.mem_map.mp he
      exact hc p hp

theorem Sound.step (h : w.Sound cap) {a : MailboxAction} : Sound cap (w.step cap a) := by
  cases a with
  | enqueue row =>
    refine ⟨h.mailbox.enqueue,h.once,fun e he => ?_⟩
    obtain ⟨p,hp,hid,hc⟩ := h.spent e he
    refine ⟨p,?_,hid,hc⟩
    have hq := enqueuePendingInput_posted row (some cap) w.store
    change p ∈ (enqueuePendingInput row (some cap) w.store).2.pending
    generalize enqueuePendingInput row (some cap) w.store = r at hq ⊢
    cases hq with
    | known | refused => exact hp
    | queued => exact List.mem_append_left _ hp
  | drain threadId nowMs limit => exact h.drain
  | promote threadId nowMs =>
    refine ⟨h.mailbox.promote,h.once,fun e he => ?_⟩
    obtain ⟨p,hp,hid,hc⟩ := h.spent e he
    exact ⟨p,h.mailbox.promoted_keeps_consumed hp hc,hid,hc⟩
  | close channel chatId nowMs => 
    exact h.falls ((closeChatThreads_withdrawn w.store).mono fun _ _ h => h.toFalls)
  | other op hop =>
    have hrows : (op.exec w.store).pending = w.store.pending := Op.rows_eq hop w.store
    refine h.falls ?_
    rw [hrows]
    exact .refl PendingRow.Falls.refl _

end MailboxState

/-- In every interleaving no thread has more waiting inputs than the cap, an event occupies
at most one row, and at most one drain returns it. -/
theorem mailbox_invariant (cap : Nat) (as : List MailboxAction) :
    let w := run (MailboxState.step cap) ⟨Store.empty,[]⟩ as
    (∀ threadId, w.store.pending.countP (PendingRow.inBox threadId .waiting) ≤ cap) ∧
      Table.Unique PendingRow.eventId w.store.pending ∧ w.returned.Nodup := by
  have h : (run (MailboxState.step cap) ⟨Store.empty,[]⟩ as).Sound cap :=
    run_invariant (fun w a h => h.step)
      ⟨⟨Table.Unique.nil,Table.Unique.nil,fun _ => Nat.zero_le _⟩,List.nodup_nil,
        fun e he => absurd he List.not_mem_nil⟩ as
  exact ⟨h.mailbox.bounded,h.mailbox.events,h.once⟩

end Yeoman.Processing
