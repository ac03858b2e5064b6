import Yeoman.Processing.AmbientBrake
import Yeoman.Processing.Authority

/-! The last station before a reply, and how long it refuses a message that waits for its verdict. -/
namespace Yeoman.Processing
open Library Runs

/-- What `admit_reply` and `reconcile_reply` find out about the chat and the message. -/
structure ReplyView where
  (enabled shadowed : Bool)
  action : String
  /-- The gate has a store and a thread engine. -/
  wired : Bool
  /-- The participation lane owns the chat. -/
  stoodDown : Bool
  /-- The thread engine files the message as ambient, without a turn. -/
  ambientRule : Bool
  /-- The thread and the turn that the message is attached to. -/
  assignment : Option (String × String)

def ReplyView.managed (v : ReplyView) : Bool := v.enabled && ! v.shadowed

def ReplyView.reconcileReply (v : ReplyView) (messageId : String) : Option (String × String) :=
  if ! v.wired then none
  else if stripText messageId = "" then none
  else if v.action ≠ "answer" then none
  else if v.stoodDown && v.ambientRule then none
  else v.assignment.filter fun a => a.1 ≠ "" && a.2 ≠ ""

namespace AmbientState

def admitReply (g : AmbientState) (v : ReplyView) (messageId : String) : Bool :=
  if ! v.managed then true
  else if v.action ≠ "answer" then false
  else if g.isAmbientPending messageId then false
  else (v.reconcileReply messageId).isSome

/-- The marks that a full table gives up. -/
def oldest (pending : List (String × Int)) : List String :=
  ((pending.insertionSort fun p q => p.2 ≤ q.2).take 128).map Prod.fst

end AmbientState

/-- The judge does not clear the message, and a new mark does not push it out of a full table. -/
def AmbientAction.Spares (eventId : String) (g : AmbientState) : AmbientAction → Prop
  | .message m now => m.stoodDown = true ∨ m.counted = true →
      512 < (AmbientState.marked g.pending m.eventId now).length →
      eventId ∉ AmbientState.oldest (AmbientState.marked g.pending m.eventId now)
  | .answer _ id _ => id ≠ eventId
  | .declined _ _ _ | .reacted _ _ _ => True

namespace AmbientState
variable {settings : AmbientSettings} {g : AmbientState} {eventId id : String} {now : Int} {m : AmbientMessage}
  {pending : List (String × Int)}

theorem isAmbientPending_iff : g.isAmbientPending eventId = true ↔ eventId ∈ g.pending.map Prod.fst := by
  simp [isAmbientPending]

theorem mem_marked (h : eventId ∈ pending.map Prod.fst) : eventId ∈ (marked pending id now).map Prod.fst := by
  obtain ⟨p,hp,rfl⟩ := List.mem_map.mp h
  unfold marked
  split_ifs
  · refine List.mem_map.mpr ⟨_,List.mem_map_of_mem hp,?_⟩
    split_ifs <;> rfl
  · exact List.mem_map_of_mem (List.mem_append_left _ hp)

theorem mem_pruned : eventId ∈ (pruned pending).map Prod.fst ↔
    eventId ∈ pending.map Prod.fst ∧ eventId ∉ oldest pending := by
  unfold pruned oldest
  simp only [List.mem_map,List.mem_filter,Bool.not_eq_true',List.contains_eq_mem,decide_eq_false_iff_not]
  constructor
  · rintro ⟨p,⟨hp,hout⟩,rfl⟩
    exact ⟨⟨p,hp,rfl⟩,hout⟩
  · rintro ⟨⟨p,hp,rfl⟩,hout⟩
    exact ⟨p,⟨hp,hout⟩,rfl⟩

theorem pending_admitAmbient : (g.admitAmbient settings m now).2.pending =
    if m.stoodDown = true ∨ m.counted = true then (g.markAmbientPending m.eventId now).pending else g.pending := by
  have hbrake (g : AmbientState) : (ambientBrakeAllows settings g m.chat now).2.pending = g.pending := by
    unfold ambientBrakeAllows
    dsimp only
    split_ifs <;> rfl
  unfold admitAmbient AmbientMessage.counted
  cases m.stoodDown with
  | true => rfl
  | false =>
    cases m.released with
    | false => rfl
    | true =>
      cases m.silence with
      | true => rfl
      | false =>
        cases m.named with
        | true => rfl
        | false =>
          dsimp only [markAmbientPending]
          rw [hbrake]
          rfl

theorem pending_step {a : AmbientAction} (h : g.isAmbientPending eventId = true) (ha : a.Spares eventId g) :
    (g.step settings a).isAmbientPending eventId = true := by
  rw [isAmbientPending_iff] at h ⊢
  cases a with
  | message m now =>
    rw [step,pending_admitAmbient]
    split_ifs with hm
    · unfold markAmbientPending
      dsimp only
      split_ifs with hfull
      · exact mem_pruned.mpr ⟨mem_marked h,ha hm hfull⟩
      · exact mem_marked h
    · exact h
  | answer chat id moment =>
    obtain ⟨p,hp,rfl⟩ := List.mem_map.mp h
    exact List.mem_map_of_mem (List.mem_filter.mpr ⟨hp,by simpa using Ne.symm ha⟩)
  | declined | reacted => exact h

/-- A pending message is refused as long as every call spares its mark. -/
theorem declined_stays_declined (settings : AmbientSettings) (g : AmbientState) (as : List AmbientAction)
    (eventId : String) (v : ReplyView) (hv : v.managed = true) (hp : g.isAmbientPending eventId = true)
    (ha : Along (AmbientState.step settings) (fun g a => a.Spares eventId g) g as) :
    (run (AmbientState.step settings) g as).admitReply v eventId = false := by
  have h := ha.invariant (I := fun g => g.isAmbientPending eventId = true) (fun _ _ => pending_step) hp
  simp [admitReply,hv,h]

def answeringView : ReplyView := ⟨true,false,"answer",true,false,true,some ("t1", "u1")⟩

theorem declined_message_refused :
    (run (AmbientState.step {}) .empty (chatter ++ [.declined quietChat "b5" 7000])).admitReply
      answeringView "b5" = false := by
  rw [run_append]
  exact declined_stays_declined {} _ _ "b5" _ rfl (by decide +kernel) ⟨trivial,trivial⟩

end AmbientState

def busyMark (i : Nat) : String × Int := (String.ofList (List.replicate (i + 1) 'm'),i)

def busyChat (n : Nat) : AmbientState :=
  run (AmbientState.step {}) .empty
    ((List.range n).map fun i => .message (ambientMessage quietChat (busyMark i).1) i)

theorem marked_busy (n : Nat) : AmbientState.marked ((List.range n).map busyMark) (busyMark n).1 n =
    (List.range (n + 1)).map busyMark := by
  have hnew : ((List.range n).map busyMark).any (fun p => p.1 = (busyMark n).1) = false := by
    simp only [List.any_map,List.any_eq_false,List.mem_range,Function.comp]
    intro i hi he
    have hlen := congrArg String.length (of_decide_eq_true he)
    simp only [busyMark,String.length_ofList,List.length_replicate] at hlen
    omega
  rw [AmbientState.marked,hnew,List.range_succ,List.map_append]
  rfl

theorem pending_busy_succ {n : Nat} (h : (busyChat n).pending = (List.range n).map busyMark) :
    (busyChat (n + 1)).pending = if 512 < n + 1 then AmbientState.pruned ((List.range (n + 1)).map busyMark)
      else (List.range (n + 1)).map busyMark := by
  have hstep : busyChat (n + 1) =
      (busyChat n).step {} (.message (ambientMessage quietChat (busyMark n).1) n) := by
    rw [busyChat,List.range_succ,List.map_append,run_append]
    rfl
  have hmark := marked_busy n
  rw [← h] at hmark
  rw [hstep,AmbientState.step,AmbientState.pending_admitAmbient,if_pos (.inr rfl),AmbientState.markAmbientPending]
  change (if 512 < (AmbientState.marked _ (busyMark n).1 n).length then _ else _) = _
  dsimp only [ambientMessage]
  rw [hmark,List.length_map,List.length_range]

theorem pending_busy {n : Nat} (hn : n ≤ 512) : (busyChat n).pending = (List.range n).map busyMark := by
  induction n with
  | zero => rfl
  | succ n ih => rw [pending_busy_succ (ih (by omega)),if_neg (by omega)]

/-- The first of 513 messages is pending after each of the others but the last, and may then be answered. -/
theorem oldest_message_admitted :
    (∀ n, 0 < n → n ≤ 512 → (busyChat n).isAmbientPending "m" = true) ∧
    (busyChat 513).admitReply AmbientState.answeringView "m" = true := by
  refine ⟨fun n hpos hn => ?_,?_⟩
  · rw [AmbientState.isAmbientPending_iff,pending_busy hn]
    exact List.mem_map.mpr ⟨busyMark 0,List.mem_map_of_mem (List.mem_range.mpr hpos),rfl⟩
  · have hsorted : ((List.range 513).map busyMark).Pairwise fun p q => p.2 ≤ q.2 :=
      List.pairwise_map.mpr (List.pairwise_le_range.imp Int.ofNat_le.mpr)
    have hout : "m" ∈ AmbientState.oldest ((List.range 513).map busyMark) := by
      rw [AmbientState.oldest,hsorted.insertionSort_eq,List.range_succ_eq_map]
      exact List.mem_map.mpr ⟨busyMark 0,List.mem_cons_self,rfl⟩
    have hgone : ¬ (busyChat 513).isAmbientPending "m" = true := by
      rw [AmbientState.isAmbientPending_iff,pending_busy_succ (pending_busy le_rfl),if_pos (by omega)]
      exact fun h => (AmbientState.mem_pruned.mp h).2 hout
    have hturn : AmbientState.answeringView.reconcileReply "m" = some ("t1", "u1") := by decide +kernel
    rw [AmbientState.admitReply,if_neg hgone,hturn]
    rfl

end Yeoman.Processing
