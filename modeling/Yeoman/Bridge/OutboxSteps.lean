import Yeoman.Bridge.OutboxLoading

/-! What one file operation of the outbox can do, and that the entries in memory and the files in
the directory agree after every step. -/
namespace Yeoman.Bridge
open Library Table

namespace Outbox
variable {o : Outbox} {w : Write} {rest : List Write} {ok : Bool}

def ended (o : Outbox) (w : Write) (rest : List Write) (outcome : Outcome) : Outbox :=
  { o with batch := rest, staging := none, settled := o.settled ++ [(w, outcome)] }

theorem settle_eq (h : o.batch = w :: rest) {outcome : Outcome} : o.settle outcome = o.ended w rest outcome := by
  rw [settle,h]
  rfl

/-- What the next file operation of a write does: it moves its temporary file on, or the write
ends. -/
inductive Ran (ok : Bool) (o : Outbox) (w : Write) (rest : List Write) : Outbox → Prop where
  | created (e : ReplayableBridgeEvent) (append : w.operation = .append e) (unstaged : o.staging = none)
    (small : e.serializedBytes ≤ maxBridgeFrameBytes) (new : o.find e.eventId = none) :
    Ran ok o w rest { o with disk := o.disk.create (temporaryName o.nextSequence e w.ticket), staging := some .created }
  | synced (e : ReplayableBridgeEvent) (append : w.operation = .append e) (staged : o.staging = some .created) :
    Ran ok o w rest
      { o with
        disk := o.disk.write (temporaryName o.nextSequence e w.ticket) e
        staging := some .synced
        written := o.written ++ [(o.nextSequence, e)] }
  | refused (failure : Failure) (unstaged : o.staging = none ∨ ∃ eventId, w.operation = .ack eventId)
    (why : ok = false ∨ ∃ e, w.operation = .append e) : Ran ok o w rest (o.ended w rest (.failed failure))
  | found (e : ReplayableBridgeEvent) (x : OutboxEntry) (append : w.operation = .append e) (unstaged : o.staging = none)
    (stored : o.find e.eventId = some x) (same : sameReplayableEvent x.event e = true) :
    Ran ok o w rest (o.ended w rest (.stored x.sequence x.event))
  | torn (e : ReplayableBridgeEvent) (append : w.operation = .append e) (staged : o.staging = some .created)
    (why : ok = false) :
    Ran ok o w rest
      ({ o with disk := o.disk.unlink [temporaryName o.nextSequence e w.ticket] }.ended w rest (.failed .io))
  | published (e : ReplayableBridgeEvent) (append : w.operation = .append e) (staged : o.staging = some .synced) :
    Ran ok o w rest
      ({ o.remember (fileNameFor o.nextSequence e) e with
        disk := o.disk.rename (temporaryName o.nextSequence e w.ticket) (fileNameFor o.nextSequence e) }.ended w rest
          (.stored o.nextSequence e))
  | remembered (e : ReplayableBridgeEvent) (append : w.operation = .append e) (staged : o.staging = some .synced)
    (why : ok = false) :
    Ran ok o w rest ((o.remember (temporaryName o.nextSequence e w.ticket) e).ended w rest (.failed .io))
  | absent (eventId : String) (ack : w.operation = .ack eventId) (absent : o.find eventId = none) :
    Ran ok o w rest (o.ended w rest (.acknowledged false))
  | removed (eventId : String) (x : OutboxEntry) (ack : w.operation = .ack eventId) (stored : o.find eventId = some x) :
    Ran ok o w rest
      ({ o with
        disk := o.disk.unlink [x.fileName]
        entries := remove OutboxEntry.eventId eventId o.entries }.ended w rest (.acknowledged true))

theorem startAppend_ran (hb : o.batch = w :: rest) {e : ReplayableBridgeEvent} (ha : w.operation = .append e)
    (hs : o.staging = none) : Ran ok o w rest (o.startAppend ok w.ticket e) := by
  unfold startAppend
  split
  · rw [settle_eq hb]
    exact .refused _ (.inl hs) (.inr ⟨e,ha⟩)
  next hsmall =>
    split
    next x hx =>
      split_ifs with hsame
      · rw [settle_eq hb]
        exact .found e x ha hs hx hsame
      · rw [settle_eq hb]
        exact .refused _ (.inl hs) (.inr ⟨e,ha⟩)
    next hnew =>
      split
      · exact .created e ha hs (Nat.le_of_not_lt hsmall) hnew
      · rw [settle_eq hb]
        exact .refused _ (.inl hs) (.inr ⟨e,ha⟩)

theorem runAck_ran (hb : o.batch = w :: rest) {eventId : String} (ha : w.operation = .ack eventId) :
    Ran ok o w rest (o.runAck ok eventId) := by
  unfold runAck
  split
  next hn =>
    rw [settle_eq hb]
    exact .absent eventId ha hn
  next x hx =>
    split_ifs with hok
    · rw [settle_eq (by exact hb)]
      exact .removed eventId x ha hx
    · rw [settle_eq hb]
      exact .refused _ (.inr ⟨eventId,ha⟩) (.inl (Bool.eq_false_iff.mpr hok))

theorem runWrite_ran (hb : o.batch = w :: rest) : Ran ok o w rest (o.runWrite ok) := by
  rw [runWrite,hb]
  dsimp only
  split
  next eventId ha =>
    exact runAck_ran hb ha
  next e ha hs =>
    exact startAppend_ran hb ha hs
  next e ha hs =>
    unfold writeTemporary
    split_ifs with hok
    · exact .synced e ha hs
    · rw [settle_eq (by exact hb)]
      exact .torn e ha hs (Bool.eq_false_iff.mpr hok)
  next e ha hs =>
    unfold publish
    split_ifs with hok
    · rw [settle_eq (by exact hb)]
      exact .published e ha hs
    · rw [settle_eq (by exact hb)]
      exact .remembered e ha hs (Bool.eq_false_iff.mpr hok)

theorem runWrite_idle (hb : o.batch = []) : o.runWrite ok = o := by
  rw [runWrite,hb]

inductive Staged (o : Outbox) : List OutboxFile → Prop where
  | nothing (unstaged : o.staging = none) : Staged o []
  | created (w : Write) (e : ReplayableBridgeEvent) (rest : List Write) (batch : o.batch = w :: rest)
    (append : w.operation = .append e) (staged : o.staging = some .created)
    (small : e.serializedBytes ≤ maxBridgeFrameBytes) (new : o.find e.eventId = none) :
    Staged o [⟨temporaryName o.nextSequence e w.ticket,none⟩]
  | synced (w : Write) (e : ReplayableBridgeEvent) (rest : List Write) (batch : o.batch = w :: rest)
    (append : w.operation = .append e) (staged : o.staging = some .synced)
    (small : e.serializedBytes ≤ maxBridgeFrameBytes) (new : o.find e.eventId = none) :
    Staged o [⟨temporaryName o.nextSequence e w.ticket,some e⟩]

/-- The directory holds the files of the entries and the temporary file, and a power loss leaves a
tidy directory whenever it strikes. -/
structure Sound (o : Outbox) : Prop where
  tidy : ∀ d ∈ o.disk.states, Tidy o.written d
  idle : o.opening ≠ .opened → o.batch = [] ∧ o.settled = [] ∧ o.staging = none ∧ o.entries = []
  agrees : o.opening = .opened → ∃ temporary, Staged o temporary ∧
    o.disk.directory = o.entries.map OutboxEntry.file ++ temporary
  named : ∀ x ∈ o.entries, x.fileName.sequence = x.sequence
  below : ∀ x ∈ o.entries, x.sequence < o.nextSequence
  positive : 1 ≤ o.nextSequence
variable {xs : List OutboxEntry} {name : FileName}

theorem map_files (h : ∀ x ∈ xs, x.fileName ≠ name) {g : OutboxFile → OutboxFile} {temporary : List OutboxFile} :
    (xs.map OutboxEntry.file ++ temporary).map (fun f => if f.name = name then g f else f) =
      xs.map OutboxEntry.file ++ temporary.map fun f => if f.name = name then g f else f := by
  rw [List.map_append]
  congr 1
  refine List.map_congr_left (g := id) ?_ |>.trans (List.map_id _)
  intro f hf
  obtain ⟨x,hx,rfl⟩ := List.mem_map.mp hf
  exact if_neg (h x hx)

theorem unlink_temporary (h : ∀ x ∈ xs, x.fileName ≠ name) {content : Option ReplayableBridgeEvent} :
    (xs.map OutboxEntry.file ++ [OutboxFile.mk name content]).filter (fun f => f.name ∉ [name]) =
      xs.map OutboxEntry.file := by
  rw [List.filter_append,List.filter_cons_of_neg (by simp),List.filter_nil,List.append_nil,List.filter_eq_self]
  intro f hf
  obtain ⟨x,hx,rfl⟩ := List.mem_map.mp hf
  have hne := h x hx
  simpa [OutboxEntry.file] using hne

end Outbox

namespace Tidy
variable {written : List (Nat × ReplayableBridgeEvent)} {d : List OutboxFile} {name : FileName}

theorem snoc_torn (h : Tidy written d) (hlt : ∀ f ∈ d, f.name.sequence < name.sequence) :
    Tidy written (d ++ [⟨name,none⟩]) := by
  have he : entriesOf (d ++ [⟨name,none⟩]) = entriesOf d := by
    rw [entriesOf_append]
    exact List.append_nil _
  refine ⟨?_,he ▸ h.distinct,?_,?_⟩
  · rw [List.pairwise_append]
    exact ⟨h.increasing,List.pairwise_singleton _ _,fun f hf g hg => List.mem_singleton.mp hg ▸ hlt f hf⟩
  · exact forall_mem_concat h.fits (fun _ he => absurd he (Option.not_mem_none _))
  · rw [recordsOf,he]
    exact h.written

theorem snoc_whole (h : Tidy written d) (hlt : ∀ f ∈ d, f.name.sequence < name.sequence) {e : ReplayableBridgeEvent}
    (hf : OutboxFile.Fits ⟨name,some e⟩) (hn : e.eventId ∉ (entriesOf d).map OutboxEntry.eventId)
    (hw : (recordsOf d ++ [(name.sequence, e)]).Sublist written) : Tidy written (d ++ [⟨name,some e⟩]) := by
  have he : entriesOf (d ++ [⟨name,some e⟩]) = entriesOf d ++ [⟨name.sequence,name,e⟩] := entriesOf_append
  refine ⟨?_,?_,?_,?_⟩
  · rw [List.pairwise_append]
    exact ⟨h.increasing,List.pairwise_singleton _ _,fun f hf g hg => List.mem_singleton.mp hg ▸ hlt f hf⟩
  · rw [he]
    exact h.distinct.append fun x hx hid => hn (List.mem_map.mpr ⟨x,hx,hid⟩)
  · exact forall_mem_concat h.fits hf
  · rw [recordsOf,he,List.map_append]
    exact hw

end Tidy

namespace Outbox
variable {o o' : Outbox} {w : Write} {rest : List Write} {ok : Bool}

namespace Sound

theorem opened (h : o.Sound) (hb : o.batch = w :: rest) : o.opening = .opened := by
  by_contra hn
  rw [(h.idle hn).1] at hb
  cases hb

theorem base (h : o.Sound) (ho : o.opening = .opened) : Tidy o.written (o.entries.map OutboxEntry.file) := by
  obtain ⟨temporary,-,hdir⟩ := h.agrees ho
  have htidy := h.tidy o.disk.directory List.mem_cons_self
  rw [hdir] at htidy
  exact htidy.sublist (List.sublist_append_left _ _)

theorem entriesOf_base (h : o.Sound) : entriesOf (o.entries.map OutboxEntry.file) = o.entries :=
  entriesOf_file h.named

theorem sequences (h : o.Sound) : o.entries.Pairwise fun x y => x.sequence < y.sequence := by
  by_cases ho : o.opening = .opened
  · have hseq := (h.base ho).sequences
    rwa [h.entriesOf_base] at hseq
  · rw [(h.idle ho).2.2.2]
    exact .nil

theorem distinct (h : o.Sound) : Table.Unique OutboxEntry.eventId o.entries := by
  by_cases ho : o.opening = .opened
  · have hids := (h.base ho).distinct
    rwa [h.entriesOf_base] at hids
  · rw [(h.idle ho).2.2.2]
    exact List.nodup_nil

theorem files_below (h : o.Sound) : ∀ f ∈ o.entries.map OutboxEntry.file, f.name.sequence < o.nextSequence := by
  intro f hf
  obtain ⟨x,hx,rfl⟩ := List.mem_map.mp hf
  change x.fileName.sequence < o.nextSequence
  rw [h.named x hx]
  exact h.below x hx

theorem name_ne (h : o.Sound) {name : FileName} (hn : name.sequence = o.nextSequence) :
    ∀ x ∈ o.entries, x.fileName ≠ name := by
  intro x hx he
  have hlt := h.below x hx
  rw [← h.named x hx,he,hn] at hlt
  exact Nat.lt_irrefl _ hlt

variable {e : ReplayableBridgeEvent} {isStaged : Option Nat} {outcome : Outcome}

theorem fits (h : o.Sound) (hb : e.serializedBytes ≤ maxBridgeFrameBytes) :
    OutboxFile.Fits ⟨{ fileNameFor o.nextSequence e with staged := isStaged },some e⟩ := by
  intro e' he
  obtain rfl := Option.some.inj he
  exact ⟨h.positive,rfl,hb⟩
variable {disk : Disk}

theorem tidy_change (h : o.Sound) {written : List (Nat × ReplayableBridgeEvent)} (hw : ∃ more, written = o.written ++ more)
    (hold : disk.older = o.disk.states) (hn : Tidy written disk.directory) : ∀ d ∈ disk.states, Tidy written d := by
  obtain ⟨more,rfl⟩ := hw
  intro d hd
  rcases List.mem_cons.mp hd with rfl | hd
  · exact hn
  · exact (h.tidy d (hold ▸ hd)).extend

theorem unstaged (h : o.Sound) (hb : o.batch = w :: rest) (hs : o.staging = none ∨ ∃ id, w.operation = .ack id) :
    o.disk.directory = o.entries.map OutboxEntry.file := by
  obtain ⟨temporary,hst,hdir⟩ := h.agrees (h.opened hb)
  cases hst with
  | nothing => rwa [List.append_nil] at hdir
  | created w' e rest' batch append staged | synced w' e rest' batch append staged =>
    rcases hs with hs | ⟨id,hs⟩
    · rw [staged] at hs
      cases hs
    · obtain ⟨rfl,-⟩ := List.cons.inj (batch.symm.trans hb)
      rw [append] at hs
      cases hs

theorem staged (h : o.Sound) (hb : o.batch = w :: rest) (ha : w.operation = .append e)
    {stage : Staging} (hs : o.staging = some stage) :
    e.serializedBytes ≤ maxBridgeFrameBytes ∧ o.find e.eventId = none ∧
      o.disk.directory = o.entries.map OutboxEntry.file ++
        [⟨temporaryName o.nextSequence e w.ticket,if stage = .synced then some e else none⟩] := by
  obtain ⟨temporary,hst,hdir⟩ := h.agrees (h.opened hb)
  cases hst with
  | nothing unstaged =>
    rw [unstaged] at hs
    cases hs
  | created w' e' rest' batch append staged small new | synced w' e' rest' batch append staged small new =>
    obtain ⟨rfl,-⟩ := List.cons.inj (batch.symm.trans hb)
    cases append.symm.trans ha
    cases staged.symm.trans hs
    exact ⟨small,new,hdir⟩

theorem ended (h : o.Sound) (hb : o.batch = w :: rest) (hs : o.staging = none ∨ ∃ id, w.operation = .ack id)
    : (o.ended w rest outcome).Sound where
  tidy := h.tidy
  idle hn := absurd (h.opened hb) hn
  agrees _ := ⟨[],.nothing rfl,(h.unstaged hb hs).trans (List.append_nil _).symm⟩
  named := h.named
  below := h.below
  positive := h.positive

theorem remember (h : o.Sound) (hb : o.batch = w :: rest) (ht : ∀ d ∈ disk.states, Tidy o.written d)
    (hd : disk.directory = o.entries.map OutboxEntry.file ++
      [⟨{ fileNameFor o.nextSequence e with staged := isStaged },some e⟩]) :
    ({ o.remember { fileNameFor o.nextSequence e with staged := isStaged } e with disk := disk }.ended w rest
      outcome).Sound where
  tidy := ht
  idle hn := absurd (h.opened hb) hn
  agrees _ := by
    refine ⟨[],.nothing rfl,hd.trans ?_⟩
    rw [List.append_nil]
    change _ = (o.entries ++ [_]).map OutboxEntry.file
    rw [List.map_append]
    rfl
  named := forall_mem_concat h.named rfl
  below := forall_mem_concat (fun x hx => Nat.lt_succ_of_lt (h.below x hx)) (Nat.lt_succ_self _)
  positive := Nat.le_succ_of_le h.positive

theorem new_id (h : o.Sound) (hn : o.find e.eventId = none) :
    e.eventId ∉ (entriesOf (o.entries.map OutboxEntry.file)).map OutboxEntry.eventId := by
  rw [h.entriesOf_base]
  intro hm
  obtain ⟨x,hx,hid⟩ := List.mem_map.mp hm
  exact lookup_none.mp hn x hx hid

theorem unlink_entry (h : o.Sound) {eventId : String} {x : OutboxEntry} (hx : o.find eventId = some x) :
    (o.entries.map OutboxEntry.file).filter (fun f => f.name ∉ [x.fileName]) =
      (remove OutboxEntry.eventId eventId o.entries).map OutboxEntry.file := by
  obtain ⟨hm,hid⟩ := lookup_some hx
  have hseq : Table.Unique OutboxEntry.sequence o.entries := List.pairwise_map.mpr (h.sequences.imp Nat.ne_of_lt)
  rw [List.filter_map,remove]
  congr 1
  refine List.filter_congr ?_
  intro y hy
  have hiff : y.fileName = x.fileName ↔ y.eventId = eventId := by
    constructor
    · intro he
      have hs := congrArg FileName.sequence he
      rw [h.named y hy,h.named x hm] at hs
      rw [hseq.eq_of_mem hy hm hs]
      exact hid
    · intro he
      rw [h.distinct.eq_of_mem hy hm (he.trans hid.symm)]
  simp [OutboxEntry.file,hiff]

theorem ran (h : o.Sound) (hb : o.batch = w :: rest) (hr : Ran ok o w rest o') : o'.Sound := by
  have ho := h.opened hb
  cases hr with
  | created e append unstaged small new =>
    have hdir := h.unstaged hb (.inl unstaged)
    refine ⟨h.tidy_change ⟨[],(List.append_nil _).symm⟩ rfl ?_,fun hn => absurd ho hn,fun _ => ?_,h.named,h.below,
      h.positive⟩
    · change Tidy _ (o.disk.directory ++ _)
      rw [hdir]
      exact (h.base ho).snoc_torn h.files_below
    · exact ⟨_,.created w e rest hb append rfl small new,congrArg (· ++ _) hdir⟩
  | synced e append staged =>
    obtain ⟨small,new,hdir⟩ := h.staged hb append staged
    have hnew : (o.disk.write (temporaryName o.nextSequence e w.ticket) e).directory =
        o.entries.map OutboxEntry.file ++ [⟨temporaryName o.nextSequence e w.ticket,some e⟩] := by
      change List.map _ o.disk.directory = _
      rw [hdir,map_files (h.name_ne rfl)]
      simp
    refine ⟨h.tidy_change ⟨[(o.nextSequence, e)],rfl⟩ rfl ?_,fun hn => absurd ho hn,fun _ => ?_,h.named,h.below,
      h.positive⟩
    · refine hnew ▸ ((h.base ho).extend).snoc_whole h.files_below (h.fits small) (h.new_id new) ?_
      exact (h.base ho).written.append (List.Sublist.refl _)
    · exact ⟨_,.synced w e rest hb append rfl small new,hnew⟩
  | refused failure unstaged => exact h.ended hb unstaged
  | found e x append unstaged => exact h.ended hb (.inl unstaged)
  | torn e append staged =>
    obtain ⟨small,new,hdir⟩ := h.staged hb append staged
    have hnew : (o.disk.unlink [temporaryName o.nextSequence e w.ticket]).directory = o.entries.map OutboxEntry.file := by
      change List.filter _ o.disk.directory = _
      rw [hdir]
      exact unlink_temporary (h.name_ne rfl)
    refine ⟨h.tidy_change ⟨[],(List.append_nil _).symm⟩ rfl ?_,fun hn => absurd ho hn,fun _ => ?_,h.named,h.below,
      h.positive⟩
    · exact hnew ▸ h.base ho
    · exact ⟨[],.nothing rfl,hnew.trans (List.append_nil _).symm⟩
  | published e append staged =>
    obtain ⟨small,new,hdir⟩ := h.staged hb append staged
    have hnew : (o.disk.rename (temporaryName o.nextSequence e w.ticket) (fileNameFor o.nextSequence e)).directory =
        o.entries.map OutboxEntry.file ++ [⟨fileNameFor o.nextSequence e,some e⟩] := by
      change List.map _ o.disk.directory = _
      rw [hdir,map_files (h.name_ne rfl)]
      simp
    refine h.remember hb (h.tidy_change ⟨[],(List.append_nil _).symm⟩ rfl ?_) hnew
    have htidy := h.tidy o.disk.directory List.mem_cons_self
    refine hnew ▸ (h.base ho).snoc_whole h.files_below (h.fits small) (h.new_id new) ?_
    have hw := htidy.written
    rw [hdir,recordsOf,entriesOf_append,List.map_append] at hw
    exact hw
  | remembered e append staged =>
    obtain ⟨small,new,hdir⟩ := h.staged hb append staged
    exact h.remember hb h.tidy hdir
  | absent eventId ack => exact h.ended hb (.inr ⟨eventId,ack⟩)
  | removed eventId x ack stored =>
    have hnew : (o.disk.unlink [x.fileName]).directory =
        (remove OutboxEntry.eventId eventId o.entries).map OutboxEntry.file := by
      change List.filter _ o.disk.directory = _
      rw [h.unstaged hb (.inr ⟨eventId,ack⟩)]
      exact h.unlink_entry stored
    refine ⟨h.tidy_change ⟨[],(List.append_nil _).symm⟩ rfl ?_,fun hn => absurd ho hn,fun _ => ?_,?_,?_,h.positive⟩
    · exact (h.tidy o.disk.directory List.mem_cons_self).sublist List.filter_sublist
    · exact ⟨[],.nothing rfl,hnew.trans (List.append_nil _).symm⟩
    · exact fun y hy => h.named y (mem_remove.mp hy).1
    · exact fun y hy => h.below y (mem_remove.mp hy).1

theorem between_groups (h : o.Sound) (hb : o.batch = []) (ho : o.opening = .opened) :
    o.staging = none ∧ o.disk.directory = o.entries.map OutboxEntry.file ++ [] := by
  obtain ⟨temporary,hst,hdir⟩ := h.agrees ho
  cases hst with
  | nothing unstaged => exact ⟨unstaged,hdir⟩
  | created w e rest batch | synced w e rest batch =>
    rw [batch] at hb
    cases hb

theorem call (h : o.Sound) {operation : Operation} : (o.call operation).Sound := by
  have hstaged : ∀ {writes calls outcomes temporary}, Staged o temporary →
      Staged { o with writes := writes, calls := calls, outcomes := outcomes } temporary := by
    intro writes calls outcomes temporary hst
    cases hst with
    | nothing unstaged => exact .nothing unstaged
    | created w e rest batch append staged small new => exact .created w e rest batch append staged small new
    | synced w e rest batch append staged small new => exact .synced w e rest batch append staged small new
  have hagrees : ∀ {writes calls outcomes}, o.opening = .opened → ∃ temporary,
      Staged { o with writes := writes, calls := calls, outcomes := outcomes } temporary ∧
        o.disk.directory = o.entries.map OutboxEntry.file ++ temporary := by
    intro writes calls outcomes ho
    obtain ⟨temporary,hst,hdir⟩ := h.agrees ho
    exact ⟨temporary,hstaged hst,hdir⟩
  unfold Outbox.call
  split
  · exact { h with agrees := hagrees }
  · exact { h with agrees := hagrees }

theorem beginBatch (h : o.Sound) : o.beginBatch.Sound := by
  unfold Outbox.beginBatch
  split_ifs with hb
  · refine { h with idle := fun hn => absurd hb.1 hn, agrees := fun ho => ?_ }
    obtain ⟨hst,hdir⟩ := h.between_groups hb.2.1 ho
    exact ⟨[],.nothing hst,hdir⟩
  · exact h

theorem barrier (h : o.Sound) : (o.barrier ok).Sound := by
  unfold Outbox.barrier
  split
  next hb =>
    have hdisk : ∀ (disk : Disk), (∀ d ∈ disk.states, d ∈ o.disk.states) → disk.directory = o.disk.directory →
        ∀ {outcomes}, Sound { o with disk := disk, settled := [], outcomes := outcomes } := by
      intro disk hsub hdir outcomes
      refine ⟨fun d hd => h.tidy d (hsub d hd),fun hn => ?_,fun ho => ?_,h.named,h.below,h.positive⟩
      · exact ⟨hb,rfl,(h.idle hn).2.2⟩
      · obtain ⟨hst,hfiles⟩ := h.between_groups hb ho
        exact ⟨[],.nothing hst,hdir.trans hfiles⟩
    split
    · refine hdisk o.disk.sync ?_ rfl
      intro d hd
      rw [List.mem_singleton.mp hd]
      exact List.mem_cons_self
    · exact hdisk o.disk (fun _ hd => hd) rfl
  · exact h

theorem foldl_next {xs : List OutboxEntry} (n : Nat) : n ≤ xs.foldl (fun n x => max n (x.sequence + 1)) n ∧
    ∀ x ∈ xs, x.sequence < xs.foldl (fun n x => max n (x.sequence + 1)) n := by
  induction xs generalizing n with
  | nil => exact ⟨Nat.le_refl n,fun _ hx => absurd hx List.not_mem_nil⟩
  | cons x xs ih =>
    obtain ⟨hle,hlt⟩ := ih (max n (x.sequence + 1))
    exact ⟨(Nat.le_max_left _ _).trans hle,List.forall_mem_cons.mpr ⟨(Nat.le_max_right _ _).trans hle,hlt⟩⟩

theorem load (h : o.Sound) (hc : o.opening = .closed) : o.load.Sound := by
  have htidy := h.tidy o.disk.directory List.mem_cons_self
  have hentries : o.load.entries = entriesOf o.disk.directory := Scan.listed_tidy htidy
  have hunlink : (o.disk.unlink (scan o.disk.directory).rejected).directory =
      (entriesOf o.disk.directory).map OutboxEntry.file := Scan.unlink_rejected htidy
  have hdir : o.load.disk.directory = (entriesOf o.disk.directory).map OutboxEntry.file := by
    unfold Outbox.load
    dsimp only
    split_ifs with hnone
    · rw [hnone] at hunlink
      exact (List.filter_eq_self.mpr fun f _ => by simp).symm.trans hunlink
    · exact hunlink
  have hstates : ∀ d ∈ o.load.disk.states, Tidy o.written d := by
    unfold Outbox.load
    dsimp only
    split
    · exact h.tidy
    · intro d hd
      rw [List.mem_singleton.mp hd]
      exact htidy.sublist List.filter_sublist
  obtain ⟨hb,-,hs,-⟩ := h.idle (by rw [hc]; exact Opening.noConfusion)
  refine ⟨hstates,fun hn => absurd rfl hn,fun _ => ?_,?_,?_,?_⟩
  · refine ⟨[],.nothing hs,?_⟩
    rw [hdir,hentries,List.append_nil]
  · intro x hx
    rw [hentries] at hx
    obtain ⟨f,-,hf⟩ := List.mem_filterMap.mp hx
    obtain ⟨e,-,rfl⟩ := Option.map_eq_some_iff.mp hf
    rfl
  · exact (foldl_next 1).2
  · exact (foldl_next 1).1

theorem failLoad (h : o.Sound) (hc : o.opening = .closed) {n : Nat} : (o.failLoad n).Sound := by
  have hidle := h.idle (by rw [hc]; exact Opening.noConfusion)
  refine ⟨h.tidy_change ⟨[],(List.append_nil _).symm⟩ rfl ?_,fun _ => hidle,fun ho => Opening.noConfusion ho,h.named,
    h.below,h.positive⟩
  exact (h.tidy o.disk.directory List.mem_cons_self).sublist List.filter_sublist

theorem endProcess (h : o.Sound) (hd : ∀ d ∈ disk.states, d ∈ o.disk.states) :
    (o.endProcess disk).Sound where
  tidy d hm := h.tidy d (hd d hm)
  idle _ := ⟨rfl,rfl,rfl,rfl⟩
  agrees ho := Opening.noConfusion ho
  named _ hx := absurd hx List.not_mem_nil
  below _ hx := absurd hx List.not_mem_nil
  positive := Nat.le_refl 1

theorem initial : Outbox.initial.Sound where
  tidy d hd := by
    rw [List.mem_singleton.mp hd]
    exact .nil
  idle _ := ⟨rfl,rfl,rfl,rfl⟩
  agrees ho := Opening.noConfusion ho
  named _ hx := absurd hx List.not_mem_nil
  below _ hx := absurd hx List.not_mem_nil
  positive := Nat.le_refl 1

end Sound

theorem powerLoss_states {k : Nat} {d : Disk} : ∀ s ∈ (d.powerLoss k).states, s ∈ d.states := by
  intro s hs
  rw [List.mem_singleton.mp hs]
  change d.states[k]?.getD d.directory ∈ d.states
  cases hk : d.states[k]? with
  | none => exact List.mem_cons_self
  | some s' => exact List.mem_of_getElem? hk

theorem Sound.step (h : o.Sound) {a : OutboxAction} (hc : a.cleans = true) : (o.step a).Sound := by
  cases a with
  | append | ack => exact h.call
  | load failsAfter =>
    clear hc
    unfold Outbox.step
    dsimp only
    split
    next hc =>
      exact h.load hc
    next hc =>
      exact h.failLoad hc
    · exact h
  | beginBatch => exact h.beginBatch
  | runWrite ok =>
    cases hb : o.batch with
    | nil =>
      have hstep : o.step (.runWrite ok) = o := runWrite_idle hb
      rw [hstep]
      exact h
    | cons w rest => exact h.ran hb (runWrite_ran hb)
  | abandonWrite => cases hc
  | barrier ok => exact h.barrier
  | restart => exact h.endProcess fun _ hd => hd
  | powerLoss k => exact h.endProcess powerLoss_states

theorem sound_after {acts : List OutboxAction} (hc : ∀ a ∈ acts, a.cleans = true) : (after acts).Sound :=
  (Runs.Along.of_forall hc).invariant (fun _ _ h hc => h.step hc) .initial

end Outbox
end Yeoman.Bridge
