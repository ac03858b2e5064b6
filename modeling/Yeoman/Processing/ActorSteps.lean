import Yeoman.Processing.Actor
import Yeoman.Processing.Mailbox
import Yeoman.Processing.RegistrySteps

/-! What a thread actor's calls do to its postbox and to the sources of its turns. -/
namespace Yeoman.Processing
open Library Table Txn

def Op.drains (threadId : String) : Op → Bool
  | .drainPendingInputs t _ _ => t = threadId
  | _ => false

def Store.Sources (s : Store) (threadId eventId : String) : Prop :=
  ∃ q ∈ s.turnSources, q.eventId = eventId ∧ ∃ t ∈ s.turns, t.turnId = q.turnId ∧ t.threadId = threadId
deriving Decidable

structure Unspent (threadId : String) (rows rows' : List PendingRow) : Prop where
  inputs : Table.Unique PendingRow.inputId rows'
  consumed : ∀ p ∈ rows', p.threadId = threadId → p.state = .consumed →
    ∃ q ∈ rows, q.threadId = threadId ∧ q.eventId = p.eventId ∧ q.state = .consumed

namespace Unspent
variable {threadId : String}

theorem refl {rows : List PendingRow} (h : Table.Unique PendingRow.inputId rows) : Unspent threadId rows rows :=
  ⟨h,fun p hp ht hc => ⟨p,hp,ht,rfl,hc⟩⟩

theorem trans {a b c : List PendingRow} (h : Unspent threadId a b) (h' : Unspent threadId b c) :
    Unspent threadId a c := by
  refine ⟨h'.inputs,fun p hp ht hc => ?_⟩
  obtain ⟨q,hq,hqt,hqe,hqc⟩ := h'.consumed p hp ht hc
  obtain ⟨r,hr,hrt,hre,hrc⟩ := h.consumed q hq hqt hqc
  exact ⟨r,hr,hrt,hre.trans hqe,hrc⟩
variable {s : Store} {nowMs : Int} {t : String}

theorem close (h : Table.Unique PendingRow.inputId s.pending) {channel chatId : String} :
    Unspent threadId s.pending (closeChatThreads channel chatId nowMs s).2.pending := by
  have hw : Rewrites PendingRow.Withdrawn s.pending (closeChatThreads channel chatId nowMs s).2.pending :=
    closeChatThreads_withdrawn s
  refine ⟨hw.unique (fun _ _ h => h.inputId) h,fun p hp ht hc => ?_⟩
  obtain ⟨q,hq,hqp⟩ := hw.mem_new hp
  exact ⟨q,hq,hqp.threadId.symm.trans ht,hqp.eventId.symm,hqp.spent hc⟩

theorem promote (h : Table.Unique PendingRow.inputId s.pending) {capacity : Int} :
    Unspent threadId s.pending (promoteDeferred t nowMs capacity s).2.pending := by
  rw [promoteDeferred_apply]
  refine ⟨?_,fun p hp ht hc => ?_⟩
  · rw [Table.Unique,keys_updateWhere (f := promotedRow nowMs) fun _ => rfl]
    exact h
  · obtain ⟨q,hq,rfl⟩ := mem_updateWhere.mp hp
    split_ifs at hc with hn
    · cases hc
    · rw [if_neg hn] at ht ⊢
      exact ⟨q,hq,ht,rfl,hc⟩

theorem enqueue (h : Table.Unique PendingRow.inputId s.pending) {row : PendingRow} {cap : Option Int} :
    Unspent threadId s.pending (enqueuePendingInput row cap s).2.pending := by
  have hp := enqueuePendingInput_posted row cap s
  generalize enqueuePendingInput row cap s = r at hp ⊢
  cases hp with
  | known | refused => exact .refl h
  | queued he hi =>
    refine ⟨h.append (lookup_none.mp hi),fun p hp ht hc => ?_⟩
    rcases mem_concat.mp hp with hp | rfl
    · exact ⟨p,hp,ht,rfl,hc⟩
    · -- a new input waits or is deferred
      unfold enqueuedRow at hc
      dsimp only at hc
      split at hc
      · split at hc <;> cases hc
      · cases hc

theorem drain (h : Table.Unique PendingRow.inputId s.pending) (ht : t ≠ threadId) {limit : Option Nat} :
    Unspent threadId s.pending (drainPendingInputs t nowMs limit s).2.pending := by
  refine ⟨(Mailbox.drained_falls t nowMs limit s).unique (fun _ _ h => h.inputId) h,fun p hp hpt hc => ?_⟩
  rw [drainPendingInputs_apply] at hp
  obtain ⟨q,hq,rfl⟩ := mem_updateWhere.mp hp
  split at hc
  · -- a drained input belongs to the other thread
    rename_i hid
    rw [if_pos hid] at hpt
    obtain ⟨r,hr,hrq⟩ := List.mem_map.mp (of_decide_eq_true hid)
    obtain ⟨hr,hrt,-⟩ := Store.mem_drained hr
    cases h.eq_of_mem hr hq hrq
    exact absurd (hrt.symm.trans hpt) ht
  next hn =>
    rw [if_neg hn] at hpt ⊢
    exact ⟨q,hq,hpt,rfl,hc⟩

end Unspent
variable {s : Store} (op : Op)

theorem Op.unspent (threadId : String) {op : Op} (hop : op.drains threadId = false)
    (h : Table.Unique PendingRow.inputId s.pending) : Unspent threadId s.pending (op.exec s).pending := by
  by_cases hw : Tbl.pending ∈ op.writes
  · unfold Op.exec
    cases op <;> first | (simp [Op.writes] at hw; done) | rw [Op.apply,reply_snd]
    case closeChatThreads => exact .close h
    case enqueuePendingInput => exact .enqueue h
    case promoteDeferred => exact .promote h
    case drainPendingInputs t n l => exact .drain h (of_decide_eq_false hop)
  · rw [show (op.exec s).pending = s.pending from Op.rows_eq hw s]
    exact .refl h

theorem Op.inputs_unique (h : Table.Unique PendingRow.inputId s.pending) :
    Table.Unique PendingRow.inputId (op.exec s).pending := by
  cases op with
  | drainPendingInputs t n l =>
    rw [Op.exec,Op.apply,reply_snd]
    exact (Mailbox.drained_falls t n l s).unique (fun _ _ h => h.inputId) h
  | _ => exact (Op.unspent "" rfl h).inputs

theorem Op.turnSources_kept {q : TurnSourceRow} (hq : q ∈ s.turnSources) :
    ∃ q' ∈ (op.exec s).turnSources, q'.turnId = q.turnId ∧ q'.eventId = q.eventId := by
  by_cases hw : Tbl.turnSources ∈ op.writes
  · unfold Op.exec
    cases op <;> first | (simp [Op.writes] at hw; done) | rw [Op.apply,reply_snd]
    case addTurnSource turnId eventId m role v n =>
      by_cases href : SourceRefused s turnId eventId
      · rw [addTurnSource_refused href]
        exact ⟨q,hq,rfl,rfl⟩
      · obtain ⟨rows,ha,hs⟩ := addTurnSource_accepted href
        rw [ha]
        exact ⟨q,hs.kept q hq,rfl,rfl⟩
    case markTurnSourceRemoved turnId eventId n =>
      refine ⟨_,mem_updateWhere.mpr ⟨q,hq,rfl⟩,?_⟩
      split <;> exact ⟨rfl,rfl⟩
  · rw [show (op.exec s).turnSources = s.turnSources from Op.rows_eq hw s]
    exact ⟨q,hq,rfl,rfl⟩

theorem Op.sources_kept {threadId eventId : String} (h : s.Sources threadId eventId) :
    (op.exec s).Sources threadId eventId := by
  obtain ⟨q,hq,he,t,ht,hid,hth⟩ := h
  obtain ⟨q',hq',hqt,hqe⟩ := op.turnSources_kept hq
  obtain ⟨t',ht',hs⟩ := (op.carries).turns t ht
  exact ⟨q',hq',hqe.trans he,t',ht',(hs.turnId.trans hid).trans hqt.symm,hs.threadId.trans hth⟩

namespace Via
variable {threadId : String} {s s' : Store} {P : Op → Prop}

theorem sources_kept (h : Via P s s') {eventId : String} (hs : s.Sources threadId eventId) :
    s'.Sources threadId eventId :=
  h.invariant (I := fun m => m.Sources threadId eventId) (fun _ op _ => op.sources_kept) hs

theorem inputs_unique (h : Via P s s') (hu : Table.Unique PendingRow.inputId s.pending) :
    Table.Unique PendingRow.inputId s'.pending :=
  h.invariant (I := fun m => Table.Unique PendingRow.inputId m.pending) (fun _ op _ => op.inputs_unique) hu

theorem unspent (h : Via (fun op => op.drains threadId = false) s s')
    (hu : Table.Unique PendingRow.inputId s.pending) : Unspent threadId s.pending s'.pending :=
  h.invariant (I := fun m => Unspent threadId s.pending m.pending)
    (fun _ _ hop hm => hm.trans (Op.unspent threadId hop hm.inputs)) (.refl hu)

end Via

namespace ThreadActor
variable {threadId : String}

/-- Sequences of operations none of which empties the postbox of the thread. -/
abbrev Calls (threadId : String) : Store → Store → Prop := Via fun op => op.drains threadId = false

theorem call {α : Type} (op : Op) (hop : op.drains threadId = false) {f : α → Reply} {x : StoreM α}
    (hx : op.apply = reply f x) : Keeps id (Calls threadId) x := Via.call op hop hx
variable {nowMs : Int} {outcome turnId : String} {detail text : Option String}
  {followup : PendingRow} {rest : List PendingRow}

theorem finishGeneration_calls {generationId : String} :
    Keeps id (Calls threadId) (finishGeneration generationId nowMs outcome detail) :=
  call (.finishGeneration generationId nowMs outcome detail) rfl rfl

theorem failGeneration_calls {snapshot : GenerationSnapshot}
    : Keeps id (Calls threadId) (failGeneration snapshot outcome detail nowMs) :=
  .bind_pure finishGeneration_calls

theorem addSources_calls {pending : List PendingRow} : Keeps id (Calls threadId) (addSources turnId nowMs pending) :=
  .each Via.refl Via.trans fun item =>
    call (.addTurnSource turnId item.eventId none "context" 1 nowMs) rfl rfl

theorem supersede_calls {snapshot : GenerationSnapshot} {turn : TurnRow} {pending : List PendingRow} :
    Keeps id (Calls threadId) (supersede snapshot turn pending nowMs) := by
  refine .bind Via.trans (.ite ?_ (.of_frame Via.refl .pure)) fun revision =>
    .bind Via.trans (.frame_bind Via.refl .read fun s => .select Via.refl Via.trans fun effectId => ?_) fun _ =>
      .bind_pure finishGeneration_calls
  · exact .bind_pure (call (.bumpTurnRevision turn.turnId turn.revision nowMs) rfl rfl)
  · exact call (.transition effectId [EffectState.queued.name] EffectState.cancelled.name nowMs
      (evidenceOf "superseded" "superseded") none) rfl rfl

theorem restart_calls {snapshot : GenerationSnapshot} {pending : List PendingRow} :
    Keeps id (Calls threadId) (restart snapshot pending nowMs) :=
  .bind Via.trans addSources_calls fun _ =>
    .bind Via.trans (call (.bumpContextVersion snapshot.turnId nowMs) rfl rfl) fun _ =>
      .bind_pure finishGeneration_calls

variable (a : ThreadActor)

theorem handOver_calls {snapshot : GenerationSnapshot} {pending : List PendingRow}
    : Keeps id (Calls threadId) (a.handOver snapshot text pending nowMs) := by
  refine .bind Via.trans ?_ fun _ => .bind_pure finishGeneration_calls
  cases pending with
  | nil => exact .of_frame Via.refl .pure
  | cons followup rest =>
    exact .bind Via.trans (call (.openTurn a.threadId followup.principal followup.eventId nowMs .open) rfl rfl)
      fun _ => .bind Via.trans addSources_calls fun _ =>
        .bind_pure (call (.promoteDeferred a.threadId nowMs a.cap) rfl rfl)

theorem settleDrained_calls (additional : Nat) (snapshot : GenerationSnapshot) (text : Option String)
    (nowMs : Int) (pending : List PendingRow) :
    Keeps id (Calls threadId) (a.settleDrained additional snapshot text nowMs pending) := by
  refine .frame_bind Via.refl .read fun s => ?_
  cases (s.turn? snapshot.turnId).filter turnLive with
  | none => exact .bind_pure finishGeneration_calls
  | some turn =>
    exact .ite (.bind_pure supersede_calls) (.ite (.bind_pure finishGeneration_calls)
        (.ite (.bind_pure restart_calls)
          (.bind_pure a.handOver_calls)))

theorem addSources_known {pending : List PendingRow} (h : s.turn? turnId ≠ none) :
    ∃ rows, addSources turnId nowMs pending s = (.ok (), { s with turnSources := rows }) ∧
      (∀ q ∈ s.turnSources, q ∈ rows) ∧
      ∀ p ∈ pending, ∃ q ∈ rows, q.turnId = turnId ∧ q.eventId = p.eventId := by
  induction pending generalizing s with
  | nil => exact ⟨s.turnSources,rfl,fun _ h => h,fun p hp => absurd hp List.not_mem_nil⟩
  | cons p pending ih =>
    have hopen : ¬ SourceRefused s turnId p.eventId := fun hr => h hr.1
    obtain ⟨rows,ha,hs⟩ := addTurnSource_accepted hopen
    obtain ⟨rows',ha',hkept,hjoined⟩ := ih (s := { s with turnSources := rows }) h
    refine ⟨rows',(bind_of_ok ha).trans ha',fun q hq => hkept q (hs.kept q hq),fun p' hp' => ?_⟩
    rcases List.mem_cons.mp hp' with rfl | hp'
    · obtain ⟨q,hq,hqt,hqe⟩ := hs.joined turnId rfl
      exact ⟨q,hkept q hq,hqt,hqe⟩
    · exact hjoined p' hp'

theorem restart_known {snapshot : GenerationSnapshot} (h : s.turn? snapshot.turnId ≠ none)
    (pending : List PendingRow) (nowMs : Int) :
    (restart snapshot pending nowMs s).2.pending = s.pending ∧
      ∀ p ∈ pending, ∃ q ∈ (restart snapshot pending nowMs s).2.turnSources,
        q.turnId = snapshot.turnId ∧ q.eventId = p.eventId := by
  obtain ⟨rows,ha,-,hjoined⟩ := addSources_known h
  have hrest : ∀ {τ : Type} {π : Store → τ}, (∀ s t, π { s with turns := t } = π s) →
      (∀ s t, π { s with generations := t } = π s) →
      π (restart snapshot pending nowMs s).2 = π { s with turnSources := rows } := by
    intro τ π ht hg
    rw [restart,bind_of_ok ha]
    exact Frame.bind (bumpContextVersion_frame ht) (fun _ =>
      .bind_pure (finishGeneration_frame hg)) _
  rw [hrest (π := Store.turnSources) (fun _ _ => rfl) fun _ _ => rfl]
  exact ⟨hrest (π := Store.pending) (fun _ _ => rfl) fun _ _ => rfl,hjoined⟩
variable {row : ThreadRow}

theorem openFollowupTurn_known (h : s.thread? a.threadId = some row) :
    ∃ ts rows, a.openFollowupTurn nowMs (followup :: rest) s =
        (.ok (some (nextTurnId s a.threadId followup.eventId)), { s with
          threads := ts
          turns := insertIgnore TurnRow.turnId (openedTurn a.threadId followup.principal
            (nextTurnId s a.threadId followup.eventId) nowMs .open) s.turns
          turnSources := rows
          pending := (promoteDeferred a.threadId nowMs a.cap s).2.pending }) ∧
      ∀ p ∈ followup :: rest, ∃ q ∈ rows,
        q.turnId = nextTurnId s a.threadId followup.eventId ∧ q.eventId = p.eventId := by
  obtain ⟨ts,hopen,-⟩ := openTurn_known h
  have hid : turnIdFor a.threadId followup.eventId (row.turnSeq + 1) =
      nextTurnId s a.threadId followup.eventId := by
    rw [nextTurnId,h]
    rfl
  rw [hid] at hopen
  have hturn : Store.turn? { s with
      threads := ts
      turns := insertIgnore TurnRow.turnId (openedTurn a.threadId followup.principal
        (nextTurnId s a.threadId followup.eventId) nowMs .open) s.turns }
      (nextTurnId s a.threadId followup.eventId) ≠ none :=
    Option.isSome_iff_ne_none.mp (lookup_isSome.mpr (exists_insertIgnore TurnRow.turnId _ _))
  obtain ⟨rows,hadd,-,hjoined⟩ := addSources_known hturn
  refine ⟨ts,rows,?_,hjoined⟩
  rw [openFollowupTurn,bind_of_ok hopen,bind_of_ok hadd,
    bind_of_ok (promoteDeferred_apply a.threadId nowMs a.cap),promoteDeferred_apply]
  rfl

theorem handOver_known (h : s.thread? a.threadId = some row)
    (snapshot : GenerationSnapshot) (text : Option String) (followup : PendingRow) (rest : List PendingRow)
    (nowMs : Int) :
    let r := (a.handOver snapshot text (followup :: rest) nowMs s).2
    r.pending = (promoteDeferred a.threadId nowMs a.cap s).2.pending ∧
      r.turns = insertIgnore TurnRow.turnId (openedTurn a.threadId followup.principal
        (nextTurnId s a.threadId followup.eventId) nowMs .open) s.turns ∧
      ∀ p ∈ followup :: rest, ∃ q ∈ r.turnSources,
        q.turnId = nextTurnId s a.threadId followup.eventId ∧ q.eventId = p.eventId := by
  obtain ⟨ts,rows,hfollow,hjoined⟩ := a.openFollowupTurn_known h
  have hrest : ∀ {τ : Type} {π : Store → τ}, (∀ s t, π { s with generations := t } = π s) →
      π (a.handOver snapshot text (followup :: rest) nowMs s).2 = π { s with
          threads := ts
          turns := insertIgnore TurnRow.turnId (openedTurn a.threadId followup.principal
            (nextTurnId s a.threadId followup.eventId) nowMs .open) s.turns
          turnSources := rows
          pending := (promoteDeferred a.threadId nowMs a.cap s).2.pending } := by
    intro τ π hg
    rw [handOver,bind_of_ok hfollow]
    exact Frame.bind (finishGeneration_frame hg) (fun _ => .pure) _
  refine ⟨hrest (π := Store.pending) fun _ _ => rfl,hrest (π := Store.turns) fun _ _ => rfl,?_⟩
  rw [hrest (π := Store.turnSources) fun _ _ => rfl]
  exact hjoined

theorem handOver_unknown (h : s.thread? a.threadId = none) {snapshot : GenerationSnapshot} :
    (a.handOver snapshot text (followup :: rest) nowMs s).2 = s := by
  have hopen := @openTurn_unknown a.threadId followup.principal followup.eventId nowMs .open s h
  have hfollow : a.openFollowupTurn nowMs (followup :: rest) s =
      (.error (processingError ("unknown thread: " ++ a.threadId)), s) := bind_of_error hopen
  rw [handOver,bind_of_error hfollow]

theorem supersede_state {snapshot : GenerationSnapshot} {turn : TurnRow} {pending : List PendingRow}
    {o : GenerationOutcome} {m : Store} (h : supersede snapshot turn pending nowMs s = (.ok o, m)) :
    o.state = .superseded := by
  obtain ⟨_,_,_,h⟩ := bind_ok h
  obtain ⟨_,_,_,h⟩ := bind_ok h
  cases h
  rfl

theorem supersede_frame {snapshot : GenerationSnapshot} {turn : TurnRow} {pending : List PendingRow} :
    Frame Store.pending (supersede snapshot turn pending nowMs) := by
  refine .bind (.ite ?_ .pure) fun revision => .bind (.bind .read fun s => .select fun effectId => ?_) fun _ =>
    .bind_pure (finishGeneration_frame (fun _ _ => rfl))
  · exact .bind_pure (bumpTurnRevision_frame (fun _ _ => rfl))
  · exact transition_frame (fun _ _ => rfl) (fun _ _ => rfl) (fun _ _ => rfl)

def Continues (snapshot : GenerationSnapshot) (pending : List PendingRow) (s : Store) : Prop :=
  (s.turn? snapshot.turnId).any (fun turn => turnLive turn && turn.revision = snapshot.revision) = true ∧
    pending ≠ [] ∧ (pending.any fun item => revisesTurn item.kind) = false
deriving Decidable

variable {snapshot : GenerationSnapshot} {pending : List PendingRow} {s : Store} {additional : Nat}

theorem Continues.turn (h : Continues snapshot pending s) : s.turn? snapshot.turnId ≠ none := by
  intro hn
  have hany := h.1
  rw [hn] at hany
  cases hany

theorem settleDrained_cases {P : Except Error (GenerationOutcome × Nat) × Store → Prop}
    (hgo : Continues snapshot pending s → P ((if additional < maxAdditionalGenerations
        then restart snapshot pending nowMs >>= fun o => pure (o, additional + 1)
        else a.handOver snapshot text pending nowMs >>= fun o => pure (o, additional)) s))
    (hquiet : ¬ Continues snapshot pending s → ∀ {α : Type} {x : StoreM α} {f : α → GenerationOutcome},
      Frame Store.pending x → (∀ {v m}, x s = (.ok v, m) → (f v).state ≠ .restart) →
      P ((x >>= fun v => pure (f v, additional)) s)) :
    P (a.settleDrained additional snapshot text nowMs pending s) := by
  rw [settleDrained,read_bind_apply]
  have hfinish : ∀ {outcome : String} {detail : Option String},
      Frame Store.pending (finishGeneration snapshot.generationId nowMs outcome detail) :=
    finishGeneration_frame fun _ _ => rfl
  by_cases hcont : Continues snapshot pending s
  · have hgo := hgo hcont
    obtain ⟨turn,ht⟩ := Option.ne_none_iff_exists'.mp hcont.turn
    obtain ⟨hlive,hne,hkinds⟩ := hcont
    rw [ht,Option.any_some,Bool.and_eq_true,decide_eq_true_eq] at hlive
    rw [ht,Option.filter_some_pos hlive.1]
    dsimp only
    rw [if_neg (by simp [hkinds,hlive.2]),if_neg (by simpa using hne)]
    exact hgo
  · have hquiet := @hquiet hcont
    cases ht : (s.turn? snapshot.turnId).filter turnLive with
    | none => exact hquiet hfinish fun _ => nofun
    | some turn =>
      obtain ⟨ht,hlive⟩ := Option.filter_eq_some_iff.mp ht
      dsimp only
      split
      · exact hquiet supersede_frame fun ho => supersede_state ho ▸ nofun
      rename_i hcurrent
      split
      · exact hquiet hfinish fun _ => nofun
      next hne =>
        rw [Bool.or_eq_true,not_or,Bool.not_eq_true,decide_eq_true_eq,ne_eq,not_not] at hcurrent
        refine absurd ⟨?_,by simpa using hne,hcurrent.1⟩ hcont
        simp [ht,hlive,hcurrent.2]

theorem settleDrained_continues (h : Continues snapshot pending s) (text : Option String) (nowMs : Int) :
    (a.settleDrained additional snapshot text nowMs pending s).2 =
      if additional < maxAdditionalGenerations then (restart snapshot pending nowMs s).2
      else (a.handOver snapshot text pending nowMs s).2 := by
  refine settleDrained_cases a (P := fun r => r.2 = _) (fun _ => ?_) fun hn => absurd h hn
  split
  · exact bind_pure_snd
  · exact bind_pure_snd

theorem settleDrained_pending (h : ¬ Continues snapshot pending s) :
    (a.settleDrained additional snapshot text nowMs pending s).2.pending = s.pending :=
  settleDrained_cases a (P := fun r => r.2.pending = s.pending) (fun hc => absurd hc h) fun _ _ _ _ hx _ =>
    Frame.bind hx (fun _ => .pure) s

end ThreadActor

end Yeoman.Processing
