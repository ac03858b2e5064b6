import Yeoman.Processing.Frames

/-! What the operations of the store can do to the source authority projection: a row is
never lost, its identity never changes, and a revocation is final. -/
namespace Yeoman.Processing
open Library Table Txn Runs

structure AuthorityStep (r r' : AuthorityRow) : Prop where
  key : r'.key = r.key
  author : r'.authorPrincipal = r.authorPrincipal
  channel : r'.sourceChannel = r.sourceChannel
  chat : r'.sourceChatId = r.sourceChatId
  revoked : ∀ t, r.revokedAtMs = some t → r'.revokedAtMs = some t
  revoking : r.revokedAtMs ≠ none → ∀ v, r.revokingEventId = some v → r'.revokingEventId = some v

theorem AuthorityStep.refl (r : AuthorityRow) : AuthorityStep r r :=
  ⟨rfl,rfl,rfl,rfl,fun _ h => h,fun _ _ h => h⟩

theorem AuthorityStep.trans (a b c : AuthorityRow) (h : AuthorityStep a b) (h' : AuthorityStep b c) :
    AuthorityStep a c := by
  refine ⟨h'.key.trans h.key,h'.author.trans h.author,h'.channel.trans h.channel,h'.chat.trans h.chat,
    fun t ht => h'.revoked t (h.revoked t ht),fun hr v hv => h'.revoking ?_ v (h.revoking hr v hv)⟩
  obtain ⟨t,ht⟩ := Option.ne_none_iff_exists'.mp hr
  rw [h.revoked t ht]
  nofun

def AuthorityKept : List AuthorityRow → List AuthorityRow → Prop :=
  Kept AuthorityRow.key AuthorityStep

theorem AuthorityKept.refl (t : List AuthorityRow) : AuthorityKept t t :=
  Kept.refl AuthorityStep.refl t

theorem AuthorityKept.trans (a b c : List AuthorityRow) (h : AuthorityKept a b) (h' : AuthorityKept b c) :
    AuthorityKept a c := Kept.trans AuthorityStep.trans h h'

theorem updateAuthority_kept {p : AuthorityRow → Bool} {f : AuthorityRow → AuthorityRow}
    (hf : ∀ r, p r = true → AuthorityStep r (f r)) :
    Keeps Store.authority AuthorityKept (updateAuthority p f) :=
  fun _ => Kept.of_rewrites (fun _ _ h => h.key)
    (Rewrites.updateWhere AuthorityStep.refl fun r _ hp => hf r hp)

theorem ensureEventSourceAuthority_kept {e : EventRow} :
    Keeps Store.authority AuthorityKept (ensureEventSourceAuthority e) :=
  fun _ => Kept.insertIgnore AuthorityStep.refl

private theorem audience_step {r r' : AuthorityRow} (hk : r'.key = r.key)
    (ha : r'.authorPrincipal = r.authorPrincipal) (hc : r'.sourceChannel = r.sourceChannel)
    (hi : r'.sourceChatId = r.sourceChatId) (hr : r'.revokedAtMs = r.revokedAtMs)
    (hv : r'.revokingEventId = r.revokingEventId) : AuthorityStep r r' :=
  ⟨hk,ha,hc,hi,fun _ h => hr.trans h,fun _ _ h => hv.trans h⟩

variable {v : Option String} {n : Int}

/-- `COALESCE` keeps the first revocation. -/
theorem revokeRow_step {t : Int} {r : AuthorityRow} : AuthorityStep r (revokeRow t v n r) := by
  refine ⟨rfl,rfl,rfl,rfl,fun t' h => ?_,fun _ v' h => ?_⟩
  · change r.revokedAtMs.or _ = _
    rw [h]
    rfl
  · change r.revokingEventId.or _ = _
    rw [h]
    rfl
variable (e : CanonicalEvent) (a : AuthorityArgs)

theorem appendEventConnection_kept : Keeps Store.authority AuthorityKept (appendEventConnection e) := by
  refine .frame_bind .refl .read fun s => ?_
  cases s.eventByKey? e.eventKey with
  | some row =>
    exact .frame_bind .refl .liftExcept fun _ => .frame_bind .refl .require fun _ =>
      .bind_pure ensureEventSourceAuthority_kept
  | none =>
    cases s.event? e.eventId with
    | some clash => exact .of_frame .refl .raise
    | none =>
      exact .frame_bind .refl (.modify fun _ => rfl) fun _ =>
        .frame_bind .refl (recordRelations_frame (fun _ _ => rfl)) fun _ =>
          .bind_pure ensureEventSourceAuthority_kept

theorem appendEvent_kept {a : AppendArgs} : Keeps Store.authority AuthorityKept (appendEvent a) :=
  .frame_bind .refl .require fun _ => .frame_bind .refl .liftExcept fun _ =>
    .atomically .refl (appendEventConnection_kept _)

theorem writeAuthority_kept {row : AuthorityRow} : Keeps Store.authority AuthorityKept (writeAuthority a row) := by
  refine .frame_bind .refl .read fun s => ?_
  cases lookup AuthorityRow.key row.key s.authority with
  | none => exact .modify fun s => Kept.append AuthorityStep.refl _
  | some stored =>
    dsimp only
    cases authorityClash stored a with
    | some column => exact .of_frame .refl .raise
    | none =>
      refine .bind AuthorityKept.trans (updateAuthority_kept fun _ _ => ?_) fun _ => ?_
      · exact audience_step rfl rfl rfl rfl rfl rfl
      · exact .bind_pure (updateAuthority_kept fun r _ => revokeRow_step)

theorem upsertEventSourceAuthority_kept : Keeps Store.authority AuthorityKept (upsertEventSourceAuthority a) :=
  .frame_bind .refl .require fun _ => .frame_bind .refl .require fun _ =>
    .frame_bind .refl .liftExcept fun _ => .atomically .refl
      (.bind_frame (writeAuthority_kept _) fun _ => .bind_pure .read)

theorem revokeEventSourceAuthority_kept {e : String} {r : Int} :
    Keeps Store.authority AuthorityKept (revokeEventSourceAuthority e r v n) :=
  .atomically .refl (.bind_pure (updateAuthority_kept fun _ _ => revokeRow_step))

theorem inheritAudience_kept {p : EventRow} : Keeps Store.authority AuthorityKept (inheritAudience e p n) := by
  refine .ite (.of_frame .refl .pure) (.bind AuthorityKept.trans ensureEventSourceAuthority_kept
    fun _ => .frame_bind .refl .read fun s => ?_)
  cases authorityOf s p with
  | none => exact .of_frame .refl .pure
  | some proof =>
    refine .bind_pure (updateAuthority_kept fun _ _ => ?_)
    exact audience_step rfl rfl rfl rfl rfl rfl

/-- The projection writes over the revoking event only where nothing is revoked yet. -/
theorem revokePrior_kept {v : String} (p : EventRow) : Keeps Store.authority AuthorityKept (revokePrior v n p) := by
  refine .bind AuthorityKept.trans ensureEventSourceAuthority_kept fun _ =>
    .bind_pure (updateAuthority_kept fun r hp => ?_)
  have hn : r.revokedAtMs = none := of_decide_eq_true (Bool.and_eq_true_iff.mp hp).2
  exact ⟨rfl,rfl,rfl,rfl,fun t ht => absurd (hn.symm.trans ht) nofun,fun h => absurd hn h⟩

theorem projectSourceRevocation_kept (n : Int) :
    Keeps Store.authority AuthorityKept (projectSourceRevocation e n) := by
  refine .ite (.of_frame .refl .pure) (.atomically .refl (.frame_bind .refl .read fun s => ?_))
  dsimp only
  split
  · exact .of_frame .refl .pure
  · exact .bind AuthorityKept.trans (inheritAudience_kept _) fun _ =>
      .bind_pure (.select .refl AuthorityKept.trans revokePrior_kept)

theorem recordTransportReceipt_keeps {τ : Type} {π : Store → τ} {Q : τ → τ → Prop} (hq : ∀ p, Q p p)
    (hr : Tbl.receipts.Ignored π) (he : ∀ e, Keeps π Q (appendEventConnection e)) {a : ReceiptArgs} :
    Keeps π Q (recordTransportReceipt a) := by
  refine .atomically hq (.frame_bind hq .read fun s => ?_)
  cases s.effect? a.effectId with
  | none => exact .of_frame hq .raise
  | some effect =>
    refine .frame_bind hq (.modify fun s => hr s _) fun _ => ?_
    exact .ite (.frame_bind hq .liftExcept fun e => .bind_pure (he e)) (.of_frame hq .pure)

theorem Op.authority_kept (op : Op) (s : Store) : AuthorityKept s.authority (op.exec s).authority := by
  by_cases hw : Tbl.authority ∈ op.writes
  · unfold Op.exec
    cases op <;> first | (simp [Op.writes] at hw; done) | (rw [Op.apply,reply_snd]; revert s)
    case appendEvent a => exact appendEvent_kept
    case upsertEventSourceAuthority a => exact upsertEventSourceAuthority_kept a
    case revokeEventSourceAuthority => exact revokeEventSourceAuthority_kept
    case projectSourceRevocation => exact projectSourceRevocation_kept _ _
    case recordTransportReceipt a => exact recordTransportReceipt_keeps .refl (fun _ _ => rfl) appendEventConnection_kept
  · have ha : (op.exec s).authority = s.authority := Op.rows_eq hw s
    rw [ha]
    exact .refl _

/-- No interleaving of workers loses an authority row or undoes what is final in it. -/
theorem World.authority_kept (w : World) {as : List Action} :
    AuthorityKept w.store.authority (run World.step w as).store.authority := by
  refine run_relates (R := fun a b : World => AuthorityKept a.store.authority b.store.authority)
    (fun _ => .refl _) (fun _ _ _ => .trans _ _ _) (fun v a => ?_) w as
  rcases World.step_store v with h | ⟨op,-,h⟩
  · rw [h]
    exact .refl _
  · rw [h]
    exact op.authority_kept v.store

/-- Whatever the workers do after a source has been registered: its author, channel and
chat stay as they were registered, and once it is revoked, the time of the revocation
and the event that revoked it stay. -/
theorem revocation_permanent (w : World) (as : List Action) (eventId : String) (revision : Int) (row : AuthorityRow)
    (h : lookup AuthorityRow.key (eventId, revision) w.store.authority = some row) :
    ∃ row', lookup AuthorityRow.key (eventId, revision)
        (run World.step w as).store.authority = some row' ∧
      row'.authorPrincipal = row.authorPrincipal ∧ row'.sourceChannel = row.sourceChannel ∧
      row'.sourceChatId = row.sourceChatId ∧
      ∀ t, row.revokedAtMs = some t → row'.revokedAtMs = some t ∧
        ∀ v, row.revokingEventId = some v → row'.revokingEventId = some v := by
  obtain ⟨row',hr,hs⟩ := w.authority_kept _ _ h
  refine ⟨row',hr,hs.author,hs.channel,hs.chat,fun t ht => ⟨hs.revoked t ht,hs.revoking ?_⟩⟩
  rw [ht]
  nofun

def retractedSource : AuthorityArgs :=
  { eventId := "M1", authorPrincipal := "author", sourceChannel := "whatsapp", sourceChatId := "chat",
    revoked := true, revokingEventId := some "D1", nowMs := 5 }

def retractedRow : AuthorityRow :=
  { eventId := "M1", revision := 1, authorPrincipal := "author", sourceChannel := "whatsapp",
    sourceChatId := "chat", occurredAtMs := 0, audienceStatus := "unknown", audienceMembersJson := "[]",
    audienceSnapshotId := none, policyRevision := none, revokedAtMs := some 5,
    revokingEventId := some "D1", createdMs := 5, updatedMs := 5 }

/-- Registering the source again with an audience, and revoking it again. -/
theorem revocation_permanent_reregistered :
    let w := World.initial.step (.call (.upsertEventSourceAuthority retractedSource))
    let as : List Action := [
      .call (.upsertEventSourceAuthority { retractedSource with
        revoked := false, audienceMembers := some ["author"], explicitAudience := true, nowMs := 6 }),
      .call (.revokeEventSourceAuthority "M1" 1 (some "D2") 7)]
    lookup AuthorityRow.key ("M1", 1) w.store.authority = some retractedRow ∧
    ∃ row', lookup AuthorityRow.key ("M1", 1) (run World.step w as).store.authority = some row' ∧
      row'.authorPrincipal = "author" ∧ row'.sourceChannel = "whatsapp" ∧ row'.sourceChatId = "chat" ∧
      ∀ t, retractedRow.revokedAtMs = some t → row'.revokedAtMs = some t ∧
        ∀ v, retractedRow.revokingEventId = some v → row'.revokingEventId = some v :=
  have h : lookup AuthorityRow.key ("M1", 1)
      (World.initial.step (.call (.upsertEventSourceAuthority retractedSource))).store.authority =
        some retractedRow := by decide +kernel
  ⟨h,revocation_permanent _ _ "M1" 1 retractedRow h⟩

end Yeoman.Processing
