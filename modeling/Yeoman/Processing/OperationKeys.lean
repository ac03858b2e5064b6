import Yeoman.Processing.Participation

/-! Operation keys name effects: a key belongs to one effect for good, and enqueueing it
again either returns that effect or raises, without writing anything. -/
namespace Yeoman.Processing
open Library Table Txn Runs

structure EnqueueArgs.Resolves (a : EnqueueArgs) (body : Dict) (target : Option EffectTarget)
    (state : EffectState) (origin : Origin) : Prop where
  effectId : a.effectId ≠ ""
  operationKey : a.operationKey ≠ ""
  turnRevision : 1 ≤ a.turnRevision
  state : EffectState.ofName? a.state = some state
  origin : Origin.ofName? a.origin = some origin
  payload : payloadToMapping a.payload = .ok body
  target : a.target.resolve = .ok target

def EffectRow.SameProvenance (row : EffectRow) (a : EnqueueArgs) (origin : Origin) : Prop :=
  row.origin = origin ∧ row.admissionId = a.admissionId

variable {a : EnqueueArgs} {target : Option EffectTarget} {state : EffectState} {origin : Origin} {row : EffectRow}
  {body : Dict} {s : Store} {key : String} {admissionId : Option String} {identity : Identity}

theorem enqueueEffect_of_resolves (h : a.Resolves body target state origin) :
    enqueueEffect a s = atomically (enqueueEffectInConnection a state origin) s := by
  rw [enqueueEffect,require_bind_of_pos h.effectId,require_bind_of_pos h.operationKey,h.state,
    Option.elim_some,bind_of_ok liftExcept_apply,require_bind_of_pos h.turnRevision,
    h.origin,Option.elim_some,bind_of_ok liftExcept_apply]

theorem enqueueEffect_known (h : a.Resolves body target state origin)
    (hp : checkProvenance s origin a.admissionId (canonicalHash body.toJson) target = .ok ())
    (hk : s.effectByOperationKey? a.operationKey = some row) :
    enqueueEffect a s = (matchExisting row a.operationKey origin a.admissionId
      (newEffect a body target state origin).identity, s) := by
  have hc : enqueueEffectInConnection a state origin s = (matchExisting row a.operationKey origin
      a.admissionId (newEffect a body target state origin).identity, s) :=
    enqueueEffectInConnection_known h.payload h.target hp hk
  rw [enqueueEffect_of_resolves h]
  rw [atomically,hc]
  cases matchExisting row a.operationKey origin a.admissionId
    (newEffect a body target state origin).identity <;> rfl

theorem matchExisting_ok_iff :
    matchExisting row key origin admissionId identity = .ok row.effectId ↔
      (row.origin = origin ∧ row.admissionId = admissionId) ∧
      (row.payloadJson = none ∨ row.identity = identity) := by
  unfold matchExisting
  split_ifs with h₁ h₂ h₃
  · refine iff_of_false nofun ?_
    rintro ⟨⟨ho,ha⟩,-⟩
    exact h₁.elim (fun h => h ho) fun h => h ha
  · exact iff_of_true rfl ⟨not_or.mp h₁ |>.imp not_not.mp not_not.mp,.inl h₂⟩
  · exact iff_of_true rfl ⟨not_or.mp h₁ |>.imp not_not.mp not_not.mp,.inr h₃⟩
  · refine iff_of_false nofun ?_
    rintro ⟨-,h | h⟩
    · exact h₂ h
    · exact h₃ h

theorem matchExisting_conflict (h : matchExisting row key origin admissionId identity ≠ .ok row.effectId) :
    ∃ message, matchExisting row key origin admissionId identity = .error (effectConflict message) := by
  unfold matchExisting at h ⊢
  split_ifs with h₁ h₂ h₃
  · exact ⟨_,rfl⟩
  · simp [h₁,h₂] at h
  · simp [h₁,h₂,h₃] at h
  · exact ⟨_,rfl⟩

private theorem target_of_text {t : EffectTarget}
    (h : canonicalJson (targetMapping target).toJson = canonicalJson t.toDict.toJson) :
    ∃ u, target = some u ∧ u.channel = t.channel ∧ u.chatId = t.chatId := by
  have hs := (Dict.dumps_eq_iff _).mp h
  have hg (key : String) : (targetMapping target).sorted.get key = t.toDict.sorted.get key := by
    rw [hs]
  have hc : t.toDict.sorted.get "channel" = .str t.channel := sorted_get _ _ _ rfl
  have hi : t.toDict.sorted.get "chat_id" = .str t.chatId := sorted_get _ _ _ rfl
  cases target with
  | none =>
    have hn : (targetMapping none).sorted.get "channel" = .null := sorted_get _ _ _ rfl
    have he := hg "channel"
    rw [hc,hn] at he
    cases he
  | some u =>
    have hc' : u.toDict.sorted.get "channel" = .str u.channel := sorted_get _ _ _ rfl
    have hi' : u.toDict.sorted.get "chat_id" = .str u.chatId := sorted_get _ _ _ rfl
    have h₁ := hc'.symm.trans ((hg "channel").trans hc)
    have h₂ := hi'.symm.trans ((hg "chat_id").trans hi)
    exact ⟨u,rfl,Json.str.inj h₁,Json.str.inj h₂⟩

/-- A call that repeats every identifying column passes the provenance checks again,
unless its target only shares the digest of the stored one. -/
theorem Store.Bound.provenance_again (hs : s.Bound) (hr : row ∈ s.effects)
    (hp : row.SameProvenance a origin) (hi : row.identity = (newEffect a body target state origin).identity) :
    checkProvenance s origin a.admissionId (canonicalHash body.toJson) target = .ok () ∨
    Sha256.Collision (canonicalJson (targetMapping target).toJson) row.targetJson := by
  obtain ⟨rfl,ha⟩ := hp
  have hph : row.payloadHash = canonicalHash body.toJson := congrArg Identity.payloadHash hi
  have hth : row.targetHash = canonicalHash (targetMapping target).toJson := congrArg Identity.targetHash hi
  rw [← ha,← hph]
  cases ho : row.origin with
  | legacy =>
    rw [hs.legacy row hr ho]
    exact .inl rfl
  | participation =>
    obtain ⟨id,adm,stored,t,hid,hne,hl,hd,hh,hhne,htj,htt,hc,hx⟩ := hs.vouched row hr ho
    rw [hid,htj]
    have he : Sha256.hexdigest (canonicalJson (targetMapping target).toJson) =
        Sha256.hexdigest (canonicalJson t.toDict.toJson) := hth.symm.trans htt
    rcases Sha256.hexdigest_eq_iff.mp he with he | he
    · obtain ⟨u,rfl,huc,hux⟩ := target_of_text he
      exact .inl (checkProvenance_of_admission _ _ hne hl hd hh hhne (huc ▸ hc) (hux ▸ hx))
    · exact .inr he

/-- Every effect of one store is still there in the other, under the same keys and with
the same provenance. -/
def Store.KeepsEffects (s s' : Store) : Prop := ∀ r ∈ s.effects, ∃ r' ∈ s'.effects, r'.fixed = r.fixed

theorem Op.keepsEffects (op : Op) : s.KeepsEffects (op.exec s) := by
  intro r hr
  have hs := op.effects_step s
  revert hs
  generalize (op.exec s).effects = t
  intro hs
  cases hs with
  | rewrites _ h =>
    obtain ⟨r',hr',hs⟩ := h.mem_old hr
    exact ⟨r',hr',hs.fixed⟩
  | insert row hi hk => exact ⟨r,List.mem_append_left _ hr,rfl⟩

theorem World.keepsEffects_run (w : World) (as : List Action) :
    w.store.KeepsEffects (run World.step w as).store := by
  refine run_relates (R := fun v u : World => v.store.KeepsEffects u.store) ?_ ?_ ?_ w as
  · exact fun _ r hr => ⟨r,hr,rfl⟩
  · intro x y z hxy hyz r hr
    obtain ⟨r₁,hr₁,h₁⟩ := hxy r hr
    obtain ⟨r₂,hr₂,h₂⟩ := hyz r₁ hr₁
    exact ⟨r₂,hr₂,h₂.trans h₁⟩
  · intro v a
    rcases World.step_store v with h | ⟨op,-,h⟩
    · rw [h]
      exact fun r hr => ⟨r,hr,rfl⟩
    · rw [h]
      exact op.keepsEffects

theorem World.Reachable.operationKeysUnique {w : World} (h : w.Reachable) :
    Table.Unique EffectRow.operationKey w.store.effects :=
  h.store_invariant (I := fun s => Table.Unique EffectRow.operationKey s.effects) (Table.Unique.nil)
    fun s op hu => (op.effects_step s).unique.2 hu

theorem Enqueued.held {s' : Store} {result : Except Error String} (h : Enqueued a state origin s (result, s'))
    (hk : s.effectByOperationKey? a.operationKey = some row) :
    s' = s ∧ ∀ id, result = .ok id → id = row.effectId ∧
      row.origin = origin ∧ row.admissionId = a.admissionId := by
  cases h with
  | refused e => exact ⟨rfl,nofun⟩
  | known body target row' hb ht hp hk' hm =>
    cases hk.symm.trans hk'
    refine ⟨rfl,?_⟩
    rintro id ⟨⟩
    exact ⟨rfl,(matchExisting_ok_iff.mp hm).1⟩
  | inserted body target hb ht hp hk' hf => cases hk.symm.trans hk'

theorem enqueueEffect_held (hk : s.effectByOperationKey? a.operationKey = some row) :
    (enqueueEffect a s).2 = s ∧ ∀ id, (enqueueEffect a s).1 = .ok id → id = row.effectId := by
  rcases enqueueEffect_cases a with ⟨e,he⟩ | ⟨state,origin,-,-,-,-,-,hq⟩
  · rw [he]
    exact ⟨rfl,nofun⟩
  · obtain ⟨hs,hid⟩ := Enqueued.held hq hk
    exact ⟨hs,fun id h => (hid id h).1⟩

theorem enqueueParticipationEffect_held {v : EffectEnvelope} {a : ParticipationAdmission}
    (hs : s.Bound) (hk : s.effectByOperationKey? v.operationKey = some row) :
    (enqueueParticipationEffect v a s).2 = s ∧
    ∀ id, (enqueueParticipationEffect v a s).1 = .ok id → id = row.effectId := by
  rcases enqueueParticipationEffect_cases with ⟨e,he⟩ | ⟨m,id,s',he,-,-,hv,-,-,-,hm,hq⟩
  · rw [he]
    exact ⟨rfl,nofun⟩
  · have hk' : m.effectByOperationKey? (v.toArgs v.createdMs).operationKey = some row := by
      rw [Store.effectByOperationKey?,hm.effects]
      exact hk
    obtain ⟨rfl,hid⟩ := hq.held hk'
    obtain ⟨rfl,ho,ha⟩ := hid id rfl
    rw [he]
    refine ⟨?_,?_⟩
    · cases hm with
      | present old hl hc => rfl
      | added hl =>
        obtain ⟨i,adm,-,-,hi,-,hl',-⟩ := hs.vouched row (lookup_some hk).1 ho
        have hia : some i = some a.admissionId := hi.symm.trans (ha.trans hv)
        cases hia
        cases hl.symm.trans hl'
    · rintro id ⟨⟩
      rfl

/-- Operation keys and effect ids are unique in every reachable store and no effect is
ever lost. Enqueueing a key that is taken writes nothing and returns the effect that
holds it or raises. A well-formed call with admissible provenance gets that effect when
origin and admission agree and the payload was purged or every identifying column
agrees, and a conflict otherwise; a call that repeats origin, admission and all those
columns has admissible provenance, up to a collision of the digest on its target. -/
theorem operation_key_identity {w : World} (hw : w.Reachable) :
    Table.Unique EffectRow.operationKey w.store.effects ∧
    Table.Unique EffectRow.effectId w.store.effects ∧
    (∀ as, w.store.KeepsEffects (run World.step w as).store) ∧
    (∀ a row, w.store.effectByOperationKey? a.operationKey = some row →
      (enqueueEffect a w.store).2 = w.store ∧
      (∀ id, (enqueueEffect a w.store).1 = .ok id → id = row.effectId) ∧
      ∀ body target state origin, a.Resolves body target state origin →
        (row.SameProvenance a origin → row.identity = (newEffect a body target state origin).identity →
          checkProvenance w.store origin a.admissionId (canonicalHash body.toJson) target = .ok () ∨
          Sha256.Collision (canonicalJson (targetMapping target).toJson) row.targetJson) ∧
        (checkProvenance w.store origin a.admissionId (canonicalHash body.toJson) target = .ok () →
          ((enqueueEffect a w.store).1 = .ok row.effectId ↔ row.SameProvenance a origin ∧
            (row.payloadJson = none ∨ row.identity = (newEffect a body target state origin).identity)) ∧
          ((enqueueEffect a w.store).1 ≠ .ok row.effectId →
            ∃ message, (enqueueEffect a w.store).1 = .error (effectConflict message)))) ∧
    ∀ v admission row, w.store.effectByOperationKey? v.operationKey = some row →
      (enqueueParticipationEffect v admission w.store).2 = w.store ∧
      ∀ id, (enqueueParticipationEffect v admission w.store).1 = .ok id → id = row.effectId := by
  refine ⟨hw.operationKeysUnique,hw.effectsUnique,w.keepsEffects_run,?_,?_⟩
  · intro a row hk
    obtain ⟨hs,hid⟩ := enqueueEffect_held hk
    refine ⟨hs,hid,?_⟩
    intro body target state origin hr
    refine ⟨fun hp hi => hw.bound.provenance_again (lookup_some hk).1 hp hi,?_⟩
    intro hp
    rw [enqueueEffect_known hr hp hk]
    exact ⟨matchExisting_ok_iff,matchExisting_conflict⟩
  · intro v admission row hk
    exact enqueueParticipationEffect_held hw.bound hk

def legacyRetry : EnqueueArgs :=
  { effectId := "ef2", operationKey := "op1", payload := .typed (.text "hello" none), nowMs := 40,
    target := .typed groupReply.target }

def unadmittedRetry : EnqueueArgs := { legacyRetry with origin := "participation" }

/-- A purged payload does not excuse a different provenance, and provenance that is not
admissible is refused before the key is looked up, with another exception. -/
theorem purged_key_conflicts :
    (∃ w : World, w.Reachable ∧ ∃ row, w.store.effectByOperationKey? "op1" = some row ∧
      row.payloadJson = none ∧
      ∃ message, (enqueueEffect legacyRetry w.store).1 = .error (effectConflict message)) ∧
    ∃ w : World, w.Reachable ∧ ∃ row, w.store.effectByOperationKey? "op1" = some row ∧
      row.payloadJson ≠ none ∧ row.origin ≠ .legacy ∧
      ∃ message, (enqueueEffect unadmittedRetry w.store).1 = .error (processingError message) := by
  have hw : (World.initial.step (.call (.enqueueParticipationEffect groupReply groupAdmission))).Reachable :=
    (Runs.Reachable.init World.initial).next _
  refine ⟨⟨_,hw.next (.call (.purge defaultRetention 1000000000)),?_⟩,_,hw,?_⟩
  · have hs : (World.step (World.initial.step (.call (.enqueueParticipationEffect groupReply groupAdmission)))
        (.call (.purge defaultRetention 1000000000))).store =
        purgeStore defaultRetention 1000000000 groupStore := by
      rw [← groupReply_accepted]
      exact reply_snd _ _ _
    rw [hs]
    exact ⟨_,rfl,rfl,raised_eq_some (by decide +kernel)⟩
  · rw [groupReply_accepted]
    exact ⟨_,rfl,nofun,nofun,raised_eq_some (by decide +kernel)⟩

/-- A retry of the stored reply in every identifying column finds the effect again. -/
theorem groupReply_retry :
    ∃ w : World, w.Reachable ∧ w.store = groupStore ∧
      (enqueueEffect (groupReply.toArgs 50) w.store).2 = w.store ∧
      (enqueueEffect (groupReply.toArgs 50) w.store).1 = .ok "ef1" := by
  have hw : (World.initial.step (.call (.enqueueParticipationEffect groupReply groupAdmission))).Reachable :=
    (Runs.Reachable.init World.initial).next _
  have hs := groupReply_accepted
  have hk : (World.initial.step
      (.call (.enqueueParticipationEffect groupReply groupAdmission))).store.effectByOperationKey? "op1" =
        some (newEffect (groupReply.toArgs groupReply.createdMs) groupReply.payload.toDict
          (some groupReply.target) .queued .participation) := by
    rw [hs]
    rfl
  have hr : (groupReply.toArgs 50).Resolves groupReply.payload.toDict (some groupReply.target) .queued
      .participation := ⟨by decide,by decide,by decide,rfl,rfl,rfl,rfl⟩
  obtain ⟨-,-,-,ha,-⟩ := operation_key_identity hw
  obtain ⟨hsame,-,hq⟩ := ha (groupReply.toArgs 50) _ hk
  obtain ⟨hagain,hanswer⟩ := hq _ _ _ _ hr
  have hp := (hagain ⟨rfl,rfl⟩ rfl).resolve_right fun hc => hc.1 rfl
  exact ⟨_,hw,hs,hsame,(hanswer hp).1.mpr ⟨⟨rfl,rfl⟩,.inr rfl⟩⟩

end Yeoman.Processing
