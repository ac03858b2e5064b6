import Mathlib.Algebra.Ring.Nat
import Mathlib.Data.List.Induction
import Yeoman.Consciousness.Opportunities

/-! What every reachable scheduler satisfies: the bounds of its records, and at most one
handler per chat. -/
namespace Yeoman.Consciousness
open Library Table

structure PendingChat.Fits (b : SchedulerBounds) (r : PendingChat) : Prop where
  refs : r.sourceEventIds.length ≤ b.maxRefs
  distinct : r.sourceEventIds.Nodup
  counted : (r.sourceEventIds.map String.utf8ByteSize).sum = r.sourceBytes
  bytes : r.sourceBytes ≤ b.maxBytes

namespace PendingChat.Fits
variable {b : SchedulerBounds} {r q : PendingChat}

theorem of_eq (h : r.Fits b) (hi : q.sourceEventIds = r.sourceEventIds) (hb : q.sourceBytes = r.sourceBytes) :
    q.Fits b := by
  constructor
  · exact hi ▸ h.refs
  · exact hi ▸ h.distinct
  · rw [hi,hb,h.counted]
  · exact hb ▸ h.bytes

theorem of_empty (hi : q.sourceEventIds = []) (hb : q.sourceBytes = 0) : q.Fits b := by
  constructor <;> simp [hi,hb]

end PendingChat.Fits

namespace Merge
variable {b : SchedulerBounds} {r : PendingChat} {m : Merge} {ts : List String} {token : String}

@[simp] theorem dropOldest_sourceEventIds (m : Merge) :
    m.dropOldest.record.sourceEventIds = m.record.sourceEventIds.tail := by
  unfold dropOldest
  cases h : m.record.sourceEventIds with
  | nil => simp [h]
  | cons oldest rest => rfl

/-- Where a merge of the tokens `ts` into `r` stands: nothing but the references and their
bookkeeping has changed, and every reference is kept, named as dropped, or was reported. -/
structure Progress (b : SchedulerBounds) (r : PendingChat) (ts : List String) (m : Merge) : Prop where
  frame : ∃ ids bytes refs reported, m.record = { r with
    sourceEventIds := ids
    sourceBytes := bytes
    droppedRefs := refs
    reported := reported }
  fits : m.record.Fits b
  reported : m.record.reported ⊆ r.reported
  seen : m.record.sourceEventIds ⊆ m.seen
  origin : ∀ t ∈ m.seen, t ∈ r.sourceEventIds ∨ t ∈ ts
  accounted : ∀ t, t ∈ r.sourceEventIds ∨ t ∈ m.seen ∨ t ∈ ts ∧ t ≠ "" →
    t ∈ m.record.sourceEventIds ∨ t ∈ m.droppedSourceIds ∨ t ∈ r.reported
  fresh : m.added = 0 → m.record.sourceEventIds ⊆ r.sourceEventIds

theorem Progress.start (h : r.Fits b) : Progress b r [] { record := r, seen := r.sourceEventIds } where
  frame := ⟨_,_,_,_,rfl⟩
  fits := h
  reported := List.Subset.refl _
  seen := List.Subset.refl _
  origin _ ht := .inl ht
  accounted t ht := .inl (by simpa using ht)
  fresh _ := List.Subset.refl _

theorem Progress.dropOldest (h : Progress b r ts m) : Progress b r ts m.dropOldest := by
  obtain ⟨ids,bytes,refs,reported,hr⟩ := h.frame
  unfold Merge.dropOldest
  split
  · exact { h with frame := ⟨ids,bytes,_,reported,by rw [hr]⟩, fits := h.fits.of_eq rfl rfl }
  next oldest rest hi =>
    have hc := h.fits.counted
    rw [hi,List.map_cons,List.sum_cons] at hc
    have hn := h.fits.distinct
    rw [hi,List.nodup_cons] at hn
    have hl := h.fits.refs
    rw [hi,List.length_cons] at hl
    have hb := h.fits.bytes
    refine ⟨⟨_,_,_,_,by rw [hr]⟩,⟨by dsimp only; omega,hn.2,by dsimp only; omega,by dsimp only; omega⟩,?_,?_,
      h.origin,?_,?_⟩
    · exact fun t ht => h.reported (List.mem_of_mem_filter ht)
    · exact fun t ht => h.seen (hi ▸ List.mem_cons_of_mem _ ht)
    · -- the oldest reference is named unless a handler was given it
      intro t ht
      rcases h.accounted t ht with hk | hk | hk
      · rw [hi] at hk
        rcases List.mem_cons.mp hk with rfl | hk
        · by_cases hp : t ∈ m.record.reported
          · exact .inr (.inr (h.reported hp))
          · exact .inr (.inl (by simp [hp]))
        · exact .inl hk
      · refine .inr (.inl ?_)
        split
        · exact hk
        · exact List.mem_append_left _ hk
      · exact .inr (.inr hk)
    · exact fun ha t ht => h.fresh ha (hi ▸ List.mem_cons_of_mem _ ht)
variable (maxBytes : Nat)

theorem makeRoom_induct {P : Merge → Prop} (hd : ∀ m, P m → P m.dropOldest) {size n : Nat} (h : P m) :
    P (m.makeRoom maxBytes size n) := by
  induction n generalizing m with
  | zero => exact h
  | succ n ih =>
    rw [Merge.makeRoom]
    split
    · exact ih (hd m h)
    · exact h

theorem clear_induct {P : Merge → Prop} (hd : ∀ m, P m → P m.dropOldest) (h : P m) : P (m.clear b token) := by
  refine makeRoom_induct _ hd ?_
  split
  · exact hd m h
  · exact h

theorem dropOldest_frame : m.dropOldest.added = m.added ∧ m.dropOldest.seen = m.seen := by
  unfold dropOldest
  split <;> exact ⟨rfl,rfl⟩

theorem clear_frame : (m.clear b token).added = m.added ∧ (m.clear b token).seen = m.seen :=
  clear_induct (P := fun q => q.added = m.added ∧ q.seen = m.seen)
    (fun _ h => ⟨dropOldest_frame.1.trans h.1,dropOldest_frame.2.trans h.2⟩) ⟨rfl,rfl⟩

theorem length_clear_lt (h : Progress b r ts m) : (m.clear b token).record.sourceEventIds.length < b.maxRefs := by
  have hl := h.fits.refs
  have hp := b.refs_pos
  refine makeRoom_induct (P := (·.record.sourceEventIds.length < b.maxRefs)) _ (fun q hq => ?_) ?_
  · rw [dropOldest_sourceEventIds,List.length_tail]
    omega
  split
  · rw [dropOldest_sourceEventIds,List.length_tail]
    omega
  · omega

theorem Progress.refuse (h : Progress b r ts m) : Progress b r (ts ++ [token]) (m.refuse token) := by
  obtain ⟨ids,bytes,refs,reported,hr⟩ := h.frame
  refine ⟨⟨ids,bytes,_,reported,by rw [Merge.refuse,hr]⟩,h.fits.of_eq rfl rfl,h.reported,h.seen,?_,?_,
    h.fresh⟩
  · intro t ht
    rcases h.origin t ht with hk | hk
    · exact .inl hk
    · exact .inr (List.mem_append_left _ hk)
  · intro t ht
    simp only [Merge.refuse,List.mem_append,List.mem_singleton] at ht ⊢
    by_cases he : t = token
    · exact .inr (.inl (.inr he))
    · rcases h.accounted t (by simpa [he] using ht) with hk | hk | hk
      · exact .inl hk
      · exact .inr (.inl (.inl hk))
      · exact .inr (.inr hk)

theorem Progress.keep (h : Progress b r ts m) (hs : token ∉ m.seen) (hl : m.record.sourceEventIds.length < b.maxRefs)
    (hb : m.record.sourceBytes + token.utf8ByteSize ≤ b.maxBytes) : Progress b r (ts ++ [token]) (m.keep token) := by
  obtain ⟨ids,bytes,refs,reported,hr⟩ := h.frame
  refine ⟨⟨_,_,refs,reported,by rw [Merge.keep,hr]⟩,⟨?_,?_,?_,hb⟩,h.reported,?_,?_,?_,?_⟩
  · simpa [Merge.keep] using Nat.succ_le_of_lt hl
  · have hnew : token ∉ m.record.sourceEventIds := fun ht => hs (h.seen ht)
    exact List.nodup_append.mpr ⟨h.fits.distinct,List.nodup_singleton _,
      fun t ht q hq he => hnew (List.mem_singleton.mp hq ▸ he ▸ ht)⟩
  · simp [Merge.keep,h.fits.counted]
  · intro t ht
    rcases mem_concat.mp ht with hk | rfl
    · exact List.mem_cons_of_mem _ (h.seen hk)
    · exact List.mem_cons_self
  · intro t ht
    rcases List.mem_cons.mp ht with rfl | hk
    · exact .inr (by simp)
    · rcases h.origin t hk with hk | hk
      · exact .inl hk
      · exact .inr (List.mem_append_left _ hk)
  · intro t ht
    simp only [Merge.keep,List.mem_append,List.mem_cons,List.not_mem_nil,or_false] at ht ⊢
    by_cases he : t = token
    · exact .inl (.inr he)
    · rcases h.accounted t (by simpa [he] using ht) with hk | hk | hk
      · exact .inl (.inl hk)
      · exact .inr (.inl hk)
      · exact .inr (.inr hk)
  · intro ha
    exact absurd ha (by simp [Merge.keep])

theorem Progress.skip (h : Progress b r ts m) (hs : token = "" ∨ token ∈ m.seen) : Progress b r (ts ++ [token]) m := by
  refine { h with origin := ?_, accounted := ?_ }
  · intro t ht
    exact (h.origin t ht).imp_right (List.mem_append_left _)
  · intro t ht
    apply h.accounted t
    simp only [List.mem_append,List.mem_singleton] at ht
    rcases ht with hk | hk | ⟨hk | rfl,hne⟩
    · exact .inl hk
    · exact .inr (.inl hk)
    · exact .inr (.inr ⟨hk,hne⟩)
    · exact .inr (.inl (hs.resolve_left hne))

theorem Progress.add (h : Progress b r ts m) : Progress b r (ts ++ [token]) (m.add b token) := by
  rw [Merge.add]
  split_ifs with hs
  · exact h.skip ‹_›
  · have hc : Progress b r ts (m.clear b token) := clear_induct (fun _ h => h.dropOldest) h
    dsimp only
    split_ifs with hb
    · exact hc.refuse
    · refine hc.keep ?_ (length_clear_lt h) (Nat.le_of_not_lt hb)
      rw [clear_frame.2]
      exact fun ht => hs (.inr ht)

/-- A token of a merge changes nothing that counts, or is new to it and appended. -/
theorem add_cases (b : SchedulerBounds) (m : Merge) (t : String) :
    ((m.add b t).added = m.added ∧ (m.add b t).seen = m.seen) ∨
    (t ∉ m.seen ∧ (m.add b t).added = m.added + 1 ∧ (m.add b t).seen = t :: m.seen ∧
      t ∈ (m.add b t).record.sourceEventIds) := by
  rw [add]
  split_ifs with hs
  · exact .inl ⟨rfl,rfl⟩
  · dsimp only
    split_ifs
    · exact .inl clear_frame
    · exact .inr ⟨fun ht => hs (.inr ht),congrArg (· + 1) clear_frame.1,congrArg (t :: ·) clear_frame.2,
        List.mem_concat_self⟩

end Merge
variable {b : SchedulerBounds} {r : PendingChat}

theorem mergeSources_concat (ts : List String) (t : String) :
    mergeSources b r (ts ++ [t]) = (mergeSources b r ts).add b t := by
  rw [mergeSources,List.foldl_append]
  rfl

theorem mergeSources_progress (h : r.Fits b) (tokens : List String) :
    Merge.Progress b r tokens (mergeSources b r tokens) := by
  induction tokens using List.reverseRecOn with
  | nil => exact Merge.Progress.start h
  | append_singleton ts t ih =>
    rw [mergeSources_concat]
    exact ih.add

theorem subset_seen_mergeSources (ts : List String) : r.sourceEventIds ⊆ (mergeSources b r ts).seen := by
  induction ts using List.reverseRecOn with
  | nil => exact List.Subset.refl _
  | append_singleton ts t ih =>
    rw [mergeSources_concat]
    rcases Merge.add_cases b (mergeSources b r ts) t with h | ⟨_,_,h,_⟩
    · exact h.2 ▸ ih
    · exact h ▸ List.subset_cons_of_subset _ ih

theorem added_mergeSources_mono (ts post : List String) :
    (mergeSources b r ts).added ≤ (mergeSources b r (ts ++ post)).added := by
  induction post using List.reverseRecOn with
  | nil => rw [List.append_nil]
  | append_singleton post t ih =>
    rw [← List.append_assoc,mergeSources_concat]
    rcases Merge.add_cases b (mergeSources b r (ts ++ post)) t with h | h <;> omega

/-- Every reference of a merge is accounted for, none is kept twice, and the count is positive
exactly when some token that the record did not hold was in it right after its turn. -/
theorem merge_accounts (h : r.Fits b) (tokens : List String) :
    let m := mergeSources b r tokens
    (∀ t, t ∈ tokens ∧ t ≠ "" ∨ t ∈ r.unreported →
      t ∈ m.record.sourceEventIds ∨ t ∈ m.droppedSourceIds ∨ t ∈ r.reported) ∧
    m.record.sourceEventIds.Nodup ∧
    (0 < m.added ↔ ∃ pre t post, tokens = pre ++ t :: post ∧ t ∉ r.sourceEventIds ∧
      t ∈ (mergeSources b r (pre ++ [t])).record.sourceEventIds) := by
  have hp := mergeSources_progress h tokens
  refine ⟨fun t ht => hp.accounted t ?_,hp.fits.distinct,?_,?_⟩
  · rcases ht with ht | ht
    · exact .inr (.inr ht)
    · exact .inl (List.mem_of_mem_filter ht)
  · intro hpos
    clear hp
    induction tokens using List.reverseRecOn with
    | nil => cases hpos
    | append_singleton ts t ih =>
      by_cases hts : 0 < (mergeSources b r ts).added
      · obtain ⟨pre,u,post,he,hu⟩ := ih hts
        exact ⟨pre,u,post ++ [t],by rw [he]; simp,hu⟩
      · rw [mergeSources_concat] at hpos
        rcases Merge.add_cases b (mergeSources b r ts) t with hk | ⟨hs,_,_,ht⟩
        · omega
        · exact ⟨ts,t,[],rfl,fun hr => hs (subset_seen_mergeSources ts hr),mergeSources_concat ts t ▸ ht⟩
  · rintro ⟨pre,t,post,rfl,hr,ht⟩
    have hstep := added_mergeSources_mono (b := b) (r := r) (pre ++ [t]) post
    rw [List.append_assoc,List.singleton_append] at hstep
    refine Nat.pos_of_ne_zero fun hz => hr ?_
    exact (mergeSources_progress h (pre ++ [t])).fresh (by omega) ht

/-- Two references are offered to a record that keeps one: the reported one is evicted silently,
and the first of the new ones is named as dropped. -/
theorem merge_accounts_evicted :
    let b : SchedulerBounds := { maxRefs := 1 }
    let r : PendingChat :=
      { channel := "whatsapp", chatId := "g", activationEpoch := 1, lane := .production,
        sourceEventIds := ["m1"], sourceBytes := 2, reported := ["m1"] }
    let m := mergeSources b r ["m2", "", "m3"]
    m.droppedSourceIds = ["m2"] ∧ m.added = 2 ∧ m.record.sourceEventIds.Nodup :=
  ⟨by decide +kernel,by decide +kernel,
    (merge_accounts ⟨by decide,by decide,by decide +kernel,by decide⟩ ["m2", "", "m3"]).2.1⟩

namespace PendingChat
variable (o : ParticipationOpportunity) (r : PendingChat)

@[simp] theorem key_opened : (opened o).key = o.key := rfl

@[simp] theorem key_replaced : (r.replaced o).key = r.key := rfl

@[simp] theorem key_triggered : (r.triggered o).key = r.key := rfl

@[simp] theorem key_asOpportunity : r.asOpportunity.key = r.key := rfl

end PendingChat

theorem Merge.Progress.key {ts : List String} {m : Merge} (h : Merge.Progress b r ts m) : m.record.key = r.key := by
  obtain ⟨ids,bytes,refs,reported,hr⟩ := h.frame
  rw [hr]
  rfl

def Worker.opportunity? : Worker → Option ParticipationOpportunity
  | handling _ _ o => some o
  | _ => none

namespace Scheduler
variable {b : SchedulerBounds} {s : Scheduler} {o : ParticipationOpportunity} {rid : Nat} {key : ChatKey}

def inFlight (s : Scheduler) : List ParticipationOpportunity := s.workers.filterMap Worker.opportunity?

structure Safe (b : SchedulerBounds) (s : Scheduler) : Prop where
  workers : s.workers.length = b.maxConcurrent
  single : (s.inFlight.map ParticipationOpportunity.key).Nodup
  busy : ∀ key, key ∈ s.active ↔ key ∈ s.inFlight.map ParticipationOpportunity.key
  chats : s.pending.length ≤ b.maxPendingChats
  keys : Table.Unique Prod.fst s.pending
  records : ∀ rid, (s.heap rid).Fits b
  named : ∀ p ∈ s.pending, p.2 < s.nextRecord ∧ (s.heap p.2).key = p.1
  held : ∀ key rid o, .handling key rid o ∈ s.workers →
    rid < s.nextRecord ∧ (s.heap rid).key = key ∧ o.key = key

theorem mem_pending_of_record? (h : s.record? key = some rid) : (key, rid) ∈ s.pending := by
  obtain ⟨p,hp,rfl⟩ := Option.map_eq_some_iff.mp h
  obtain ⟨hm,rfl⟩ := lookup_some hp
  exact hm

theorem Safe.record?_key (h : s.Safe b) (hr : s.record? key = some rid) :
    rid < s.nextRecord ∧ (s.heap rid).key = key :=
  h.named _ (mem_pending_of_record? hr)

theorem Safe.dispose (h : s.Safe b) {d : Disposition} {detail : Json.Members} : (s.dispose d o detail).Safe b :=
  { h with }
variable {w : Nat}

theorem Safe.setRecord (h : s.Safe b) (hr : r.Fits b) (hk : r.key = (s.heap rid).key) :
    (s.setRecord rid r).Safe b := by
  have hkey : ∀ q, ((s.setRecord rid r).heap q).key = (s.heap q).key :=
    (Function.forall_update_iff _ (p := fun q r => PendingChat.key r = (s.heap q).key)).mpr ⟨hk,fun _ _ => rfl⟩
  refine { h with records := ?_, named := ?_, held := ?_ }
  · exact (Function.forall_update_iff _ (p := fun _ => PendingChat.Fits b)).mpr ⟨hr,fun q _ => h.records q⟩
  · intro p hp
    exact ⟨(h.named p hp).1,(hkey p.2).trans (h.named p hp).2⟩
  · intro key q o hw
    obtain ⟨hlt,hk,ho⟩ := h.held key q o hw
    exact ⟨hlt,(hkey q).trans hk,ho⟩

theorem Safe.popPending (h : s.Safe b) (key : ChatKey) : (s.popPending key).Safe b :=
  { h with
    chats := length_remove_le.trans h.chats
    keys := h.keys.remove
    named := fun p hp => h.named p (mem_remove.mp hp).1 }

theorem Safe.openRecord (h : s.Safe b) (hn : s.record? o.key = none) (hl : s.pending.length < b.maxPendingChats) :
    (s.openRecord o).Safe b := by
  have hheap : ∀ q, q < s.nextRecord → (s.openRecord o).heap q = s.heap q := fun q hq =>
    Function.update_of_ne (Nat.ne_of_lt hq) _ _
  refine ⟨h.workers,h.single,h.busy,?_,h.keys.append (lookup_none.mp (Option.map_eq_none_iff.mp hn)),?_,?_,?_⟩
  · simpa [Scheduler.openRecord] using Nat.succ_le_of_lt hl
  · exact (Function.forall_update_iff _ (p := fun _ => PendingChat.Fits b)).mpr
      ⟨.of_empty rfl rfl,fun q _ => h.records q⟩
  · intro p hp
    rcases mem_concat.mp hp with hp | rfl
    · obtain ⟨hlt,hk⟩ := h.named p hp
      exact ⟨Nat.lt_succ_of_lt hlt,by rw [hheap _ hlt,hk]⟩
    · exact ⟨Nat.lt_succ_self _,by simp [Scheduler.openRecord]⟩
  · intro key q o' hw
    obtain ⟨hlt,hk,ho⟩ := h.held key q o' hw
    exact ⟨Nat.lt_succ_of_lt hlt,by rw [hheap _ hlt,hk],ho⟩

theorem Safe.enqueue (h : s.Safe b) : (s.enqueue rid).Safe b := by
  rw [Scheduler.enqueue]
  split
  · exact h
  · have hq : (s.setRecord rid { s.heap rid with queued := true }).Safe b :=
      h.setRecord ((h.records rid).of_eq rfl rfl) rfl
    exact { hq with }

/-- How an offer finds its record: it is refused, opens one, empties one of another epoch, or
meets one of its own epoch. -/
inductive Received (b : SchedulerBounds) (o : ParticipationOpportunity) (s : Scheduler) :
    Option Nat × Scheduler → Prop
  | refused (d : Disposition) (detail : Json.Members) (hn : s.record? o.key = none) :
    Received b o s (none, s.dispose d o detail)
  | opened (hn : s.record? o.key = none) (hs : o.offered ≠ []) (hl : s.pending.length < b.maxPendingChats) :
    Received b o s (some s.nextRecord, s.openRecord o)
  | replaced (rid : Nat) (detail : Json.Members) (hr : s.record? o.key = some rid)
    (he : o.activationEpoch ≠ (s.heap rid).activationEpoch) :
    Received b o s (some rid, (s.dispose .cancelled o detail).setRecord rid ((s.heap rid).replaced o))
  | met (rid : Nat) (hr : s.record? o.key = some rid) (he : o.activationEpoch = (s.heap rid).activationEpoch) :
    Received b o s (some rid, s)

theorem recordFor_received (b : SchedulerBounds) (o : ParticipationOpportunity) (s : Scheduler) :
    Received b o s (s.recordFor b o) := by
  unfold Scheduler.recordFor
  cases hr : s.record? o.key with
  | none =>
    dsimp only
    split
    · exact .refused _ _ hr
    · split
      · exact .refused _ _ hr
      · split
        · exact .refused _ _ hr
        · exact .opened hr ‹_› (Nat.lt_of_not_le ‹_›)
  | some rid =>
    dsimp only
    split
    · exact .replaced rid _ hr ‹_›
    · exact .met rid hr (not_not.mp ‹_›)

inductive Merged (b : SchedulerBounds) (o : ParticipationOpportunity) (rid : Nat) (s : Scheduler) :
    OfferResult × Scheduler → Prop
  | empty (detail : Json.Members) (ho : o.offered = []) :
    Merged b o rid s (⟨false,[],[],0⟩, (s.popPending o.key).dispose .empty o detail)
  | duplicate (m : Merge) (detail : Json.Members) (hm : m = mergeSources b (s.heap rid) o.offered) (ha : m.added = 0)
    (hp : o.key ∈ s.active ∨ m.record.unreported ≠ []) :
    Merged b o rid s (⟨false,m.record.sourceEventIds,m.droppedSourceIds,m.droppedSourceCount⟩,
      (s.setRecord rid m.record).dispose .duplicate o detail)
  | exhausted (m : Merge) (detail : Json.Members) (hm : m = mergeSources b (s.heap rid) o.offered) (ha : m.added = 0)
    (hn : o.key ∉ s.active) (hu : m.record.unreported = []) :
    Merged b o rid s (⟨false,m.record.sourceEventIds,m.droppedSourceIds,m.droppedSourceCount⟩,
      ((s.setRecord rid m.record).dispose .duplicate o detail).popPending o.key)
  | accepted (m : Merge) (hm : m = mergeSources b (s.heap rid) o.offered) (ha : m.added ≠ 0) :
    Merged b o rid s (⟨true,m.record.sourceEventIds,m.droppedSourceIds,m.droppedSourceCount⟩,
      (s.setRecord rid (m.record.triggered o)).enqueue rid)

theorem mergeInto_merged : Merged b o rid s (s.mergeInto b o rid) := by
  unfold Scheduler.mergeInto
  split
  · exact .empty _ ‹_›
  · dsimp only
    split
    next ha =>
      split_ifs with hp
      · exact .exhausted _ _ rfl ha hp.1 hp.2
      · exact .duplicate _ _ rfl ha ((not_and_or.mp hp).imp_left not_not.mp)
    · exact .accepted _ rfl ‹_›

theorem Safe.received {t : Option Nat × Scheduler} (h : s.Safe b) (hr : Received b o s t) : t.2.Safe b := by
  cases hr with
  | refused d detail hn => exact h.dispose
  | opened hn hs hl => exact h.openRecord hn hl
  | replaced rid detail hr he => exact (h.dispose).setRecord (PendingChat.Fits.of_empty rfl rfl) rfl
  | met rid hr he => exact h

theorem Safe.merged {t : OfferResult × Scheduler} (h : s.Safe b) (hm : Merged b o rid s t) : t.2.Safe b := by
  have hp := mergeSources_progress (h.records rid) o.offered
  cases hm with
  | empty detail ho => exact (h.popPending _).dispose
  | duplicate m detail hm ha hp' =>
    subst hm
    exact (h.setRecord hp.fits hp.key).dispose
  | exhausted m detail hm ha hn hu =>
    subst hm
    exact ((h.setRecord hp.fits hp.key).dispose).popPending _
  | accepted m hm ha =>
    subst hm
    have ht : ((mergeSources b (s.heap rid) o.offered).record.triggered o).Fits b := hp.fits.of_eq rfl rfl
    exact (h.setRecord ht hp.key).enqueue

theorem offerWithResult_cases (b : SchedulerBounds) (o : ParticipationOpportunity) (s : Scheduler) :
    (o.key ∈ s.cancelled ∧ ∃ detail,
      s.offerWithResult b o = (⟨false,[],[],0⟩, s.dispose .cancelled o detail)) ∨
    (o.key ∉ s.cancelled ∧ ∃ t, Received b o s (none, t) ∧ s.offerWithResult b o = (⟨false,[],[],0⟩, t)) ∨
    (o.key ∉ s.cancelled ∧ ∃ rid t, Received b o s (some rid, t) ∧ Merged b o rid t (s.offerWithResult b o)) := by
  unfold Scheduler.offerWithResult
  split_ifs with hc
  · exact .inl ⟨hc,_,rfl⟩
  · have hr := recordFor_received b o s
    split
    next t heq =>
      exact .inr (.inl ⟨hc,t,heq ▸ hr,rfl⟩)
    next rid t heq =>
      exact .inr (.inr ⟨hc,rid,t,heq ▸ hr,mergeInto_merged⟩)

theorem Safe.offerWithResult (h : s.Safe b) : (s.offerWithResult b o).2.Safe b := by
  rcases offerWithResult_cases b o s with ⟨-,detail,he⟩ | ⟨-,t,hr,he⟩ | ⟨-,rid,t,hr,hm⟩
  · rw [he]
    exact h.dispose
  · rw [he]
    exact h.received hr
  · exact (h.received hr).merged hm

theorem Safe.cancelChat (h : s.Safe b) {reason : String} : (s.cancelChat key reason).Safe b := by
  have hp := h.popPending key
  unfold Scheduler.cancelChat
  split
  · exact { hp with }
  · exact { hp with }

theorem Safe.retire (h : s.Safe b) : (s.retire rid).Safe b := by
  unfold Scheduler.retire
  split
  · exact h
  · split
    · exact h.enqueue
    · exact h.popPending _

theorem Safe.conclude (h : Safe b { s with active := s.active.filter (· ≠ key) }) (rid : Nat) :
    (s.conclude key rid).Safe b := by
  apply Safe.retire
  exact { h with }
variable {x : Worker}

theorem inFlight_split (h : s.workers[w]? = some x) :
    ∃ us vs, s.inFlight = us ++ (x.opportunity?.toList ++ vs) ∧
      ∀ y : Worker, (s.workers.set w y).filterMap Worker.opportunity? = us ++ (y.opportunity?.toList ++ vs) := by
  obtain ⟨hlt,hx⟩ := List.getElem?_eq_some_iff.mp h
  have hset (y : Worker) : (s.workers.set w y).filterMap Worker.opportunity? =
      (s.workers.take w).filterMap Worker.opportunity? ++ (y.opportunity?.toList ++
        (s.workers.drop (w + 1)).filterMap Worker.opportunity?) := by
    rw [List.set_eq_take_append_cons_drop,if_pos hlt]
    cases hy : y.opportunity? <;> simp [hy]
  refine ⟨_,_,?_,hset⟩
  rw [inFlight,← hset,← hx,List.set_getElem_self]

def taken (key : ChatKey) (rid : Nat) (s : Scheduler) : Scheduler :=
  { s.setRecord rid { s.heap rid with
      queued := false
      reported := (s.heap rid).reported ++ (s.heap rid).sourceEventIds } with
    ready := s.ready.tail
    active := s.active ++ [key] }

inductive Took (b : SchedulerBounds) (w : Nat) (s : Scheduler) : Scheduler → Prop
  | nothing (h : s.workers[w]? ≠ some .idle ∨ s.ready = []) : Took b w s s
  | gone (key : ChatKey) (hw : s.workers[w]? = some .idle) (hq : s.ready.head? = some key)
    (hr : s.record? key = none) : Took b w s { s with ready := s.ready.tail }
  | skipped (key : ChatKey) (rid : Nat) (hw : s.workers[w]? = some .idle) (hq : s.ready.head? = some key)
    (hr : s.record? key = some rid) (ha : key ∈ s.active) :
    Took b w s { s.setRecord rid { s.heap rid with queued := false } with ready := s.ready.tail }
  | expired (key : ChatKey) (rid : Nat) (detail : Json.Members) (hw : s.workers[w]? = some .idle)
    (hq : s.ready.head? = some key) (hr : s.record? key = some rid) (ha : key ∉ s.active) :
    Took b w s (((s.taken key rid).dispose .expired (s.heap rid).asOpportunity detail).conclude key rid)
  | started (key : ChatKey) (rid : Nat) (detail : Json.Members) (hw : s.workers[w]? = some .idle)
    (hq : s.ready.head? = some key) (hr : s.record? key = some rid) (ha : key ∉ s.active) :
    Took b w s { (s.taken key rid).dispose .started (s.heap rid).asOpportunity detail with
      workers := s.workers.set w (.handling key rid (s.heap rid).asOpportunity)
      handed := s.handed ++ [(s.heap rid).asOpportunity] }

theorem take_took (b : SchedulerBounds) (w : Nat) (nowMs : Int) (s : Scheduler) : Took b w s (s.take b w nowMs) := by
  unfold Scheduler.take
  split
  next key rest hw hq =>
    have htail : s.ready.tail = rest := by rw [hq]; rfl
    have hhead : s.ready.head? = some key := by rw [hq]; rfl
    have hrec : ({ s with ready := rest } : Scheduler).record? key = s.record? key := rfl
    dsimp only
    rw [hrec]
    cases hr : s.record? key with
    | none =>
      rw [← htail]
      exact .gone key hw hhead hr
    | some rid =>
      dsimp only
      split_ifs with ha
      · rw [← htail]
        exact .skipped key rid hw hhead hr ha
      · subst htail
        unfold Scheduler.runOne
        simp only [Scheduler.setRecord,Function.update_self,Function.update_idem]
        split
        · exact .expired key rid _ hw hhead hr ha
        · exact .started key rid _ hw hhead hr ha
  next hn =>
    refine .nothing ?_
    by_contra hc
    obtain ⟨hw,hq⟩ := not_or.mp hc
    obtain ⟨key,rest,hq⟩ := List.exists_cons_of_ne_nil hq
    exact hn key rest (not_not.mp hw) hq

theorem Safe.givenUp (h : s.Safe b) (ha : key ∉ s.active) (rid : Nat) :
    Safe b { s.taken key rid with active := (s.taken key rid).active.filter (· ≠ key) } := by
  have hs : (s.setRecord rid { s.heap rid with
      queued := false
      reported := (s.heap rid).reported ++ (s.heap rid).sourceEventIds }).Safe b :=
    h.setRecord ((h.records rid).of_eq rfl rfl) rfl
  have hf : (s.active ++ [key]).filter (· ≠ key) = s.active := by
    rw [List.filter_append,List.filter_eq_self.mpr]
    · simp
    · intro k hm
      simpa using fun he : k = key => ha (he ▸ hm)
  refine { hs with busy := ?_ }
  intro k
  change k ∈ (s.active ++ [key]).filter (· ≠ key) ↔ _
  rw [hf]
  exact hs.busy k

theorem Safe.take (h : s.Safe b) {nowMs : Int} : (s.take b w nowMs).Safe b := by
  have ht := take_took b w nowMs s
  generalize s.take b w nowMs = t at ht
  have hsafe : ∀ {key rid}, s.record? key = some rid → ∀ q, (s.setRecord rid { s.heap rid with
      queued := false
      reported := q }).Safe b := fun _ q => h.setRecord ((h.records _).of_eq rfl rfl) rfl
  cases ht with
  | nothing => exact h
  | gone key hw hq hr => exact { h with }
  | skipped key rid hw hq hr ha =>
    have := hsafe hr (s.heap rid).reported
    exact { this with }
  | expired key rid detail hw hq hr ha =>
    have hs := h.givenUp ha rid
    apply Safe.conclude
    exact { hs with }
  | started key rid detail hw hq hr ha =>
    have hs := hsafe hr ((s.heap rid).reported ++ (s.heap rid).sourceEventIds)
    have hk := h.record?_key hr
    obtain ⟨us,vs,hin,hout⟩ := inFlight_split hw
    replace hin : s.inFlight = us ++ vs := hin
    replace hout : _ = us ++ (s.heap rid).asOpportunity :: vs := hout (.handling key rid (s.heap rid).asOpportunity)
    have hfree : key ∉ s.inFlight.map ParticipationOpportunity.key := fun hm => ha ((h.busy key).mpr hm)
    refine ⟨(List.length_set ..).trans h.workers,?_,?_,hs.chats,hs.keys,hs.records,hs.named,?_⟩
    · have hsingle := h.single
      rw [hin,List.map_append] at hsingle hfree
      change (((s.workers.set w (.handling key rid (s.heap rid).asOpportunity)).filterMap
        Worker.opportunity?).map ParticipationOpportunity.key).Nodup
      rw [hout,List.map_append,List.map_cons,PendingChat.key_asOpportunity,hk.2]
      exact List.nodup_middle.mpr (List.nodup_cons.mpr ⟨hfree,hsingle⟩)
    · intro k
      change k ∈ s.active ++ [key] ↔ k ∈ ((s.workers.set w (.handling key rid (s.heap rid).asOpportunity)).filterMap
        Worker.opportunity?).map ParticipationOpportunity.key
      simp only [List.mem_append,h.busy k,hout,hin,List.map_append,List.map_cons,
        PendingChat.key_asOpportunity,hk.2,List.mem_cons]
      tauto
    · intro k q p hm
      rcases List.mem_or_eq_of_mem_set hm with hm | hm
      · exact hs.held k q p hm
      · cases hm
        exact ⟨hk.1,by simpa [taken,Scheduler.setRecord,Scheduler.dispose,PendingChat.key] using hk.2,hk.2⟩

theorem Safe.release (h : s.Safe b) (hw : s.workers[w]? = some (.handling key rid o)) (hx : x.opportunity? = none) :
    Safe b { s with
      workers := s.workers.set w x
      active := s.active.filter (· ≠ key) } := by
  obtain ⟨us,vs,hin,hout⟩ := inFlight_split hw
  have hkey : o.key = key := (h.held key rid o (List.mem_of_getElem? hw)).2.2
  replace hin : s.inFlight = us ++ o :: vs := hin
  replace hout := hout x
  simp only [hx,Option.toList_none,List.nil_append] at hout
  have hs := h.single
  rw [hin,List.map_append,List.map_cons,hkey] at hs
  obtain ⟨hfree,hrest⟩ := List.nodup_cons.mp (List.nodup_middle.mp hs)
  rw [← List.map_append,← hout] at hfree hrest
  refine ⟨(List.length_set ..).trans h.workers,hrest,?_,h.chats,h.keys,h.records,h.named,?_⟩
  · intro k
    have hmem : k ∈ s.inFlight.map ParticipationOpportunity.key ↔
        k = key ∨ k ∈ ((s.workers.set w x).filterMap Worker.opportunity?).map ParticipationOpportunity.key := by
      simp only [hout,hin,List.map_append,List.map_cons,hkey,List.mem_append,List.mem_cons]
      tauto
    rw [List.mem_filter,h.busy k,hmem]
    constructor
    · rintro ⟨rfl | hm,hne⟩
      · simp at hne
      · exact hm
    · intro hm
      exact ⟨.inr hm,by simpa using fun he : k = key => hfree (he ▸ hm)⟩
  · intro k q p hm
    rcases List.mem_or_eq_of_mem_set hm with hm | rfl
    · exact h.held k q p hm
    · simp [Worker.opportunity?] at hx

/-- The end of a handler, whatever its outcome, frees the worker's chat and retires its record. -/
theorem finish_cases (w : Nat) (outcome : HandlerOutcome) (s : Scheduler) :
    (s.finish w outcome = s ∧ ∀ key rid o, s.workers[w]? ≠ some (.handling key rid o)) ∨
    ∃ key rid o x extra, s.workers[w]? = some (.handling key rid o) ∧ x.opportunity? = none ∧
      (outcome ≠ .cancelled → x = .idle) ∧
      s.finish w outcome = ({ s with
        workers := s.workers.set w x
        reports := s.reports ++ extra }).conclude key rid := by
  unfold Scheduler.finish
  split
  next key rid o hw =>
    refine .inr ⟨key,rid,o,?_⟩
    cases outcome with
    | returned => exact ⟨.idle,[],hw,rfl,fun _ => rfl,by simp⟩
    | raised e => exact ⟨.idle,_,hw,rfl,fun _ => rfl,rfl⟩
    | cancelled => exact ⟨.stopped,_,hw,rfl,fun h => absurd rfl h,rfl⟩
  next hn =>
    exact .inl ⟨rfl,hn⟩

theorem Safe.finish (h : s.Safe b) {outcome : HandlerOutcome} : (s.finish w outcome).Safe b := by
  rcases finish_cases w outcome s with ⟨he,-⟩ | ⟨key,rid,o,x,extra,hw,hx,-,he⟩
  · rw [he]
    exact h
  · rw [he]
    have hr := h.release hw hx
    apply Safe.conclude
    exact { hr with }

theorem initial_safe (b : SchedulerBounds) : (initial b).Safe b where
  workers := List.length_replicate
  single := by simp [inFlight,initial,List.filterMap_replicate,Worker.opportunity?]
  busy := by simp [inFlight,initial,List.filterMap_replicate,Worker.opportunity?]
  chats := Nat.zero_le _
  keys := List.nodup_nil
  records _ := .of_empty rfl rfl
  named p hp := absurd hp List.not_mem_nil
  held key rid o hw := nomatch List.eq_of_mem_replicate hw

end Scheduler

namespace OpportunityDesk
variable {b : SchedulerBounds}

theorem step_safe {d : OpportunityDesk} (a : SchedulerAction) (h : d.scheduler.Safe b) :
    (d.step b a).scheduler.Safe b := by
  cases a with
  | offer o => exact h.offerWithResult
  | cancel key reason => exact h.cancelChat
  | release key => exact { h with }
  | considered key revision lane =>
    exact { h with }
  | take w nowMs => exact h.take
  | finish w outcome => exact h.finish

theorem after_safe (b : SchedulerBounds) (acts : List SchedulerAction) : (after b acts).scheduler.Safe b :=
  Runs.run_invariant (I := fun d : OpportunityDesk => d.scheduler.Safe b) (fun _ a h => step_safe a h)
    (Scheduler.initial_safe b) acts

/-- In every interleaving no chat has two handler calls in flight, no more handlers run than
the pool has workers, and pending records keep to their bounds with an exact byte count. -/
theorem scheduler_bounded (b : SchedulerBounds) (acts : List SchedulerAction) :
    let s := (after b acts).scheduler
    (s.inFlight.map ParticipationOpportunity.key).Nodup ∧
    s.inFlight.length ≤ b.maxConcurrent ∧
    s.pending.length ≤ b.maxPendingChats ∧
    ∀ key rid, (key, rid) ∈ s.pending →
      (s.heap rid).sourceEventIds.length ≤ b.maxRefs ∧
      (s.heap rid).sourceEventIds.Nodup ∧
      ((s.heap rid).sourceEventIds.map String.utf8ByteSize).sum = (s.heap rid).sourceBytes ∧
      (s.heap rid).sourceBytes ≤ b.maxBytes := by
  have h := after_safe b acts
  refine ⟨h.single,?_,h.chats,?_⟩
  · exact (List.length_filterMap_le ..).trans_eq h.workers
  · intro key rid _
    exact ⟨(h.records rid).refs,(h.records rid).distinct,(h.records rid).counted,(h.records rid).bytes⟩

end OpportunityDesk
end Yeoman.Consciousness
