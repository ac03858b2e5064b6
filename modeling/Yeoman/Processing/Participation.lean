import Yeoman.Processing.Lifecycle
import Yeoman.Processing.StoredIdentity

/-! The binding of participation effects to their admissions, as an invariant of the
store: admissions are only ever added, and each vouches for at most one effect. -/
namespace Yeoman.Processing
open Library Table Txn Runs

def AdmissionRow.Written (row : AdmissionRow) : Prop :=
  ∃ a : ParticipationAdmission, row.payloadJson = canonicalJson a.mapping.toJson

def Store.Vouched (s : Store) (r : EffectRow) : Prop :=
  ∃ id row stored target, r.admissionId = some id ∧ id ≠ "" ∧ s.admission? id = some row ∧
    Dict.loads? row.payloadJson = some stored ∧ stored.get "payload_hash" = .str r.payloadHash ∧
    r.payloadHash ≠ "" ∧ r.targetJson = canonicalJson (EffectTarget.toDict target).toJson ∧
    r.targetHash = target.targetHash ∧ stored.get "channel" = .str target.channel ∧
    stored.get "chat_id" = .str target.chatId

/-- The binding of effects to admissions. -/
structure Store.Bound (s : Store) : Prop where
  written : ∀ row ∈ s.admissions, row.Written
  vouched : ∀ r ∈ s.effects, r.origin = .participation → s.Vouched r
  single : ∀ r ∈ s.effects, ∀ q ∈ s.effects, r.admissionId.isSome → r.admissionId = q.admissionId →
    r.effectId = q.effectId
  legacy : ∀ r ∈ s.effects, r.origin = .legacy → r.admissionId = none

variable {row : AdmissionRow} {origin : Origin} {s' : Store} {v : EffectEnvelope} {a : ParticipationAdmission}
  {state : EffectState}

theorem AdmissionRow.Written.loads (h : row.Written) :
    ∃ stored payloadHash channel chatId, Dict.loads? row.payloadJson = some stored ∧
      stored.get "payload_hash" = .str payloadHash ∧ stored.get "channel" = .str channel ∧
      stored.get "chat_id" = .str chatId := by
  obtain ⟨a,ha⟩ := h
  have hl : Dict.loads? row.payloadJson = some a.mapping.sorted := by
    rw [ha]
    exact Dict.loads?_dumps a.mapping
  exact ⟨a.mapping.sorted,a.payloadHash,a.channel,a.chatId,hl,sorted_get _ _ _ rfl,sorted_get _ _ _ rfl,
    sorted_get _ _ _ rfl⟩

variable {payloadHash : String} {target : Option EffectTarget} {s : Store}

private theorem checkAdmission_ok {stored : Dict} (h : checkAdmission stored payloadHash target = .ok ()) :
    strField "payload_hash" stored = payloadHash ∧ payloadHash ≠ "" ∧ ∃ t, target = some t ∧
      ((stored.get "channel").eq (.str t.channel) && (stored.get "chat_id").eq (.str t.chatId)) = true := by
  unfold checkAdmission at h
  split_ifs at h with h₁ h₂
  cases target with
  | none => cases h
  | some t =>
    simp only at h
    split_ifs at h with h₃
    have hh := not_not.mp h₂
    exact ⟨hh,hh ▸ h₁,t,rfl,h₃⟩

theorem checkProvenance_ok (hw : ∀ row ∈ s.admissions, row.Written) {admissionId : Option String}
    (h : checkProvenance s origin admissionId payloadHash target = .ok ()) :
    (origin = .legacy ∧ admissionId = none) ∨
    (origin = .participation ∧ ∃ id row stored t, admissionId = some id ∧ id ≠ "" ∧
      s.admission? id = some row ∧ Dict.loads? row.payloadJson = some stored ∧
      stored.get "payload_hash" = .str payloadHash ∧ payloadHash ≠ "" ∧ target = some t ∧
      stored.get "channel" = .str t.channel ∧ stored.get "chat_id" = .str t.chatId) := by
  cases origin with
  | legacy =>
    cases admissionId with
    | none => exact .inl ⟨rfl,rfl⟩
    | some id => cases h
  | participation =>
    right
    cases admissionId with
    | none => cases h
    | some id =>
      simp only [checkProvenance] at h
      split_ifs at h with hid
      cases ha : s.admission? id with
      | none => rw [ha] at h; cases h
      | some row =>
        obtain ⟨stored,hash,channel,chat,hl,hp,hc,hi⟩ := (hw row (lookup_some ha).1).loads
        simp only [ha,hl] at h
        obtain ⟨hh,hne,t,rfl,ht⟩ := checkAdmission_ok h
        rw [strField,hp,orElse_str] at hh
        rw [hc,hi] at ht
        simp only [Json.eq,Bool.and_eq_true,beq_iff_eq] at ht
        exact ⟨rfl,id,row,stored,t,rfl,hid,ha,hl,hh ▸ hp,hne,rfl,ht.1 ▸ hc,ht.2 ▸ hi⟩

theorem checkProvenance_of_admission {id : String} (row : AdmissionRow) (stored : Dict)
    {target : EffectTarget} (hi : id ≠ "") (hl : s.admission? id = some row)
    (hd : Dict.loads? row.payloadJson = some stored) (hh : stored.get "payload_hash" = .str payloadHash)
    (hne : payloadHash ≠ "") (hc : stored.get "channel" = .str target.channel)
    (hx : stored.get "chat_id" = .str target.chatId) :
    checkProvenance s .participation (some id) payloadHash (some target) = .ok () := by
  have hs : strField "payload_hash" stored = payloadHash := by
    rw [strField,hh]
    exact orElse_str payloadHash
  simp only [checkProvenance,if_neg hi,hl,hd,checkAdmission,hs,if_neg hne,ne_eq,not_true_eq_false,
    if_false,hc,hx]
  simp [Json.eq]

def Store.KeepsAdmissions (s s' : Store) : Prop :=
  ∀ id row, s.admission? id = some row → s'.admission? id = some row

theorem Store.Vouched.mono (ha : s.KeepsAdmissions s') {r r' : EffectRow}
    (hr : r'.fixed = r.fixed) (h : s.Vouched r) : s'.Vouched r' := by
  obtain ⟨id,row,stored,target,hi,hne,hl,hd,hp,hpne,ht,hth,hc,hx⟩ := h
  have h₁ : r'.admissionId = r.admissionId := EffectRow.column_of_fixed (fun _ => rfl) hr
  have h₂ : r'.payloadHash = r.payloadHash := EffectRow.column_of_fixed (fun _ => rfl) hr
  have h₃ : r'.targetJson = r.targetJson := EffectRow.column_of_fixed (fun _ => rfl) hr
  have h₄ : r'.targetHash = r.targetHash := EffectRow.column_of_fixed (fun _ => rfl) hr
  exact ⟨id,row,stored,target,h₁.trans hi,hne,ha id row hl,hd,h₂ ▸ hp,h₂ ▸ hpne,h₃.trans ht,h₄.trans hth,
    hc,hx⟩

theorem Store.Bound.rewrites {m : EffectRow → EffectState → Prop} (h : s.Bound)
    (he : Rewrites (RowStep m) s.effects s'.effects) (ha : s'.admissions = s.admissions) : s'.Bound := by
  have hk : s.KeepsAdmissions s' := by
    intro id row hl
    unfold Store.admission?
    rwa [ha]
  refine ⟨?_,?_,?_,?_⟩
  · rw [ha]
    exact h.written
  · intro r' hr' ho
    obtain ⟨r,hr,hs⟩ := he.mem_new hr'
    have ho' : r.origin = .participation := hs.origin.symm.trans ho
    exact (h.vouched r hr ho').mono hk hs.fixed
  · intro r' hr' q' hq' hsome heq
    obtain ⟨r,hr,hs⟩ := he.mem_new hr'
    obtain ⟨q,hq,ht⟩ := he.mem_new hq'
    rw [hs.admissionId] at hsome heq
    rw [ht.admissionId] at heq
    rw [hs.effectId,ht.effectId]
    exact h.single r hr q hq hsome heq
  · intro r' hr' ho
    obtain ⟨r,hr,hs⟩ := he.mem_new hr'
    rw [hs.admissionId]
    exact h.legacy r hr (hs.origin.symm.trans ho)
variable {m : Store} (op : Op)

theorem Admitted.keeps (h : Admitted row s m) : s.KeepsAdmissions m := by
  cases h with
  | present old hl hc => exact fun _ _ h => h
  | added hl => exact fun id old h => lookup_append_of_some h

theorem Admitted.bound (h : Admitted (v.admissionRow a) s m) (hs : s.Bound) : m.Bound := by
  have hk := h.keeps
  cases h with
  | present old hl hc => exact hs
  | added hl =>
    refine ⟨?_,fun r hr ho => (hs.vouched r hr ho).mono hk rfl,hs.single,hs.legacy⟩
    exact forall_mem_concat hs.written ⟨a,rfl⟩

theorem Store.Bound.accept (h : s.Bound) {a : EnqueueArgs} {body : Dict}
    (hp : checkProvenance s origin a.admissionId (canonicalHash body.toJson) target = .ok ())
    (hf : checkFresh s origin a.admissionId a.effectId = .ok ()) :
    (s.accept (newEffect a body target state origin) a.nowMs).Bound := by
  have hc := checkProvenance_ok h.written hp
  have hfree : ∀ r ∈ s.effects, a.admissionId.isSome → r.admissionId ≠ a.admissionId := by
    intro r hr hsome heq
    rcases hc with ⟨-,hn⟩ | ⟨ho,-⟩
    · rw [hn] at hsome
      cases hsome
    · cases hro : r.origin with
      | participation => exact (checkFresh_ok hf).2 ho hsome r hr hro heq
      | legacy =>
        rw [← heq,h.legacy r hr hro] at hsome
        cases hsome
  refine ⟨h.written,?_,?_,?_⟩
  · intro r hr ho
    rcases mem_concat.mp hr with hr | rfl
    · exact h.vouched r hr ho
    · rcases hc with ⟨ho',-⟩ | ⟨-,id,row,stored,t,hi,hne,hl,hd,hh,hhne,rfl,hch,hci⟩
      · cases ho.symm.trans ho'
      · exact ⟨id,row,stored,t,hi,hne,hl,hd,hh,hhne,rfl,rfl,hch,hci⟩
  · intro r hr q hq hsome heq
    rcases mem_concat.mp hr with hr | rfl
    · rcases mem_concat.mp hq with hq | rfl
      · exact h.single r hr q hq hsome heq
      · exact absurd heq (hfree r hr (by rwa [heq] at hsome))
    · rcases mem_concat.mp hq with hq | rfl
      · exact absurd heq.symm (hfree q hq hsome)
      · rfl
  · intro r hr ho
    rcases mem_concat.mp hr with hr | rfl
    · exact h.legacy r hr ho
    · rcases hc with ⟨-,hn⟩ | ⟨ho',-⟩
      · exact hn
      · cases ho.symm.trans ho'

theorem Enqueued.bound {a : EnqueueArgs}
    {r : Except Error String} (h : Enqueued a state origin s (r, s')) (hs : s.Bound) : s'.Bound := by
  cases h with
  | refused | known => exact hs
  | inserted body target hb ht hp hk hf => exact hs.accept hp hf

theorem Op.bound (h : s.Bound) : (op.exec s).Bound := by
  cases he : op.enqueues with
  | false =>
    have ha : (op.exec s).admissions = s.admissions :=
      Op.rows_eq (t := .admissions) (by cases op <;> first | (cases he; done) | simp [Op.writes]) s
    exact h.rewrites (Op.effects_rewrites he s) ha
  | true =>
    unfold Op.exec
    cases op <;> first | (cases he; done) | rw [Op.apply,reply_snd]
    case enqueueEffect a =>
      rcases enqueueEffect_cases a with ⟨e,hr⟩ | ⟨state,origin,-,-,-,-,-,hq⟩
      · rw [hr]
        exact h
      · exact hq.bound h
    case enqueueParticipationEffect v a =>
      rcases enqueueParticipationEffect_cases with ⟨e,hr⟩ | ⟨m,id,s',hr,-,-,-,-,-,-,hm,hq⟩
      · rw [hr]
        exact h
      · rw [hr]
        exact hq.bound (hm.bound h)

theorem Store.Bound.empty : Store.empty.Bound where
  written _ h := absurd h List.not_mem_nil
  vouched _ h := absurd h List.not_mem_nil
  single _ h := absurd h List.not_mem_nil
  legacy _ h := absurd h List.not_mem_nil

theorem World.Reachable.bound {w : World} (h : w.Reachable) : w.store.Bound :=
  h.store_invariant (I := Store.Bound) Store.Bound.empty fun _ op hs => op.bound hs

/-- Only an accepted participation effect writes the admissions, and it only adds. -/
theorem Op.keepsAdmissions : s.KeepsAdmissions (op.exec s) := by
  by_cases hw : Tbl.admissions ∈ op.writes
  · unfold Op.exec
    cases op <;> first | (simp [Op.writes] at hw; done) | rw [Op.apply,reply_snd]
    case enqueueParticipationEffect v a =>
      rcases enqueueParticipationEffect_cases with ⟨e,hr⟩ | ⟨m,id,s',hr,-,-,-,-,-,-,hm,hq⟩
      · rw [hr]
        exact fun _ _ h => h
      · rw [hr]
        cases hq with
        | known | inserted => exact hm.keeps
  · have ha : (op.exec s).admissions = s.admissions := Op.rows_eq hw s
    intro id row h
    unfold Store.admission?
    rwa [ha]

theorem World.keepsAdmissions_run (w : World) {as : List Action} :
    w.store.KeepsAdmissions (run World.step w as).store := by
  refine run_relates (R := fun v u : World => v.store.KeepsAdmissions u.store) ?_ ?_ ?_ w as
  · exact fun _ _ _ h => h
  · exact fun _ _ _ hab hbc id row h => hbc id row (hab id row h)
  · intro v a
    rcases World.step_store v with h | ⟨op,-,h⟩
    · rw [h]
      exact fun _ _ h => h
    · rw [h]
      exact op.keepsAdmissions

/-- In every reachable store a participation effect names a persisted admission for its
payload hash and target, no admission is named twice, legacy effects name none, stored
admissions never change, and a rejected participation effect leaves nothing behind. -/
theorem participation_binding {w : World} (hw : w.Reachable) :
    (∀ r ∈ w.store.effects, r.origin = .participation → ∃ id row stored target,
      r.admissionId = some id ∧ w.store.admission? id = some row ∧
      Dict.loads? row.payloadJson = some stored ∧ stored.get "payload_hash" = .str r.payloadHash ∧
      decodeTarget r.targetJson = .ok (some target) ∧ stored.get "channel" = .str target.channel ∧
      stored.get "chat_id" = .str target.chatId) ∧
    (∀ r ∈ w.store.effects, ∀ q ∈ w.store.effects, r.admissionId.isSome → r.admissionId = q.admissionId →
      r = q) ∧
    (∀ r ∈ w.store.effects, r.origin = .legacy → r.admissionId = none) ∧
    (∀ id row, w.store.admission? id = some row →
      ∀ as, (run World.step w as).store.admission? id = some row) ∧
    ∀ v a e s', enqueueParticipationEffect v a w.store = (.error e, s') → s' = w.store := by
  refine ⟨?_,?_,hw.bound.legacy,?_,?_⟩
  · intro r hr ho
    obtain ⟨id,row,stored,target,hi,-,hl,hd,hp,-,ht,-,hc,hx⟩ := hw.bound.vouched r hr ho
    refine ⟨id,row,stored,target.stored,hi,hl,hd,hp,?_,hc,hx⟩
    rw [ht]
    exact decodeTarget_canonical target
  · intro r hr q hq hsome heq
    exact hw.effectsUnique.eq_of_mem hr hq (hw.bound.single r hr q hq hsome heq)
  · intro id row h as
    exact w.keepsAdmissions_run id row h
  · intro v a e s' h
    rcases enqueueParticipationEffect_cases with ⟨e',hr⟩ | ⟨m,id,s'',hr,-⟩
    · cases hr.symm.trans h
      rfl
    · cases hr.symm.trans h

def groupReply : EffectEnvelope :=
  { effectId := "ef1", operationKey := "op1", payload := .text "hello" none,
    target := ⟨"whatsapp","group",none,none,by decide,by decide⟩, createdMs := 10,
    origin := .participation, admissionId := some "ad1", effectId_ne := by decide,
    operationKey_ne := by decide, turnRevision_pos := by decide }

def groupAdmission : ParticipationAdmission :=
  { opportunityId := "opp", channel := "whatsapp", chatId := "group", activationEpoch := 1,
    lane := "ambient", observedRevision := 1, action := "send", intent := "reply",
    admissionId := "ad1", payloadHash := groupReply.payload.payloadHash }

theorem enqueueParticipationEffect_accepts
    (ho : v.origin = .participation) (hi : a.admissionId ≠ "") (hv : v.admissionId = some a.admissionId)
    (hh : a.payloadHash = v.payload.payloadHash) (hne : a.payloadHash ≠ "")
    (ht : a.channel = v.target.channel ∧ a.chatId = v.target.chatId)
    (hl : s.admission? a.admissionId = none) (hk : s.effectByOperationKey? v.operationKey = none)
    (hf : checkFresh s .participation v.admissionId v.effectId = .ok ()) :
    enqueueParticipationEffect v a s = (.ok v.effectId,
      Store.accept { s with admissions := s.admissions ++ [v.admissionRow a] }
        (newEffect (v.toArgs v.createdMs) v.payload.toDict (some v.target) .queued .participation)
        v.createdMs) := by
  have hm : insertAdmission (v.admissionRow a) s =
      (.ok (), { s with admissions := s.admissions ++ [v.admissionRow a] }) := by
    rw [insertAdmission,read_bind_apply,show s.admission? (v.admissionRow a).admissionId = none from hl]
    rfl
  have hp : checkProvenance { s with admissions := s.admissions ++ [v.admissionRow a] } .participation
      (v.toArgs v.createdMs).admissionId v.payload.payloadHash (some v.target) = .ok () := by
    rw [show (v.toArgs v.createdMs).admissionId = some a.admissionId from hv,← hh]
    refine checkProvenance_of_admission (v.admissionRow a) a.mapping.sorted hi ?_
      (Dict.loads?_dumps a.mapping) (sorted_get _ _ _ rfl) hne ?_ ?_
    · rw [Store.admission?,lookup_append_of_none hl]
      simp [lookup,EffectEnvelope.admissionRow]
    · rw [← ht.1]
      exact sorted_get _ _ _ rfl
    · rw [← ht.2]
      exact sorted_get _ _ _ rfl
  rw [enqueueParticipationEffect,require_bind_of_pos ho,require_bind_of_pos ⟨hi,hv⟩,require_bind_of_pos hne,
    require_bind_of_pos hh,require_bind_of_pos ht]
  refine atomically_of_ok ?_
  refine (bind_of_ok hm).trans ?_
  exact enqueueEffectInConnection_inserts rfl rfl hp hk hf

def groupStore : Store :=
  Store.accept { Store.empty with admissions := [] ++ [groupReply.admissionRow groupAdmission] }
    (newEffect (groupReply.toArgs groupReply.createdMs) groupReply.payload.toDict (some groupReply.target)
      .queued .participation) groupReply.createdMs

theorem groupReply_accepted :
    (World.initial.step (.call (.enqueueParticipationEffect groupReply groupAdmission))).store =
      groupStore := by
  have ha := enqueueParticipationEffect_accepts (s := Store.empty) (v := groupReply) (a := groupAdmission)
    rfl (by decide) rfl rfl (by decide +kernel) ⟨rfl,rfl⟩ rfl rfl rfl
  rw [World.step_call,Op.exec,Op.apply,reply_snd,show World.initial.store = Store.empty from rfl,ha]
  rfl

theorem groupReply_binding :
    ∃ w : World, w.Reachable ∧ w.store = groupStore ∧
      ∀ r ∈ w.store.effects, r.origin = .participation → ∃ id row, r.admissionId = some id ∧
        w.store.admission? id = some row := by
  have hw : (World.initial.step (.call (.enqueueParticipationEffect groupReply groupAdmission))).Reachable :=
    (Runs.Reachable.init World.initial).next _
  refine ⟨_,hw,groupReply_accepted,?_⟩
  intro r hr ho
  obtain ⟨id,row,-,-,hi,hl,-⟩ := (participation_binding hw).1 r hr ho
  exact ⟨id,row,hi,hl⟩

end Yeoman.Processing
