import Yeoman.Processing.JournalSteps
import Yeoman.Processing.Signals

/-! What capturing one provider signal does to the journal and to the source authority
projection: an edit or a delete revokes every other version of its message. -/
namespace Yeoman.Processing
open Library Table Txn

structure ProviderMessage where
  (channel chatId providerId account : String)
  channel_ne : channel ≠ ""

def EventRow.revises (p : ProviderMessage) (e : EventRow) : Bool :=
  e.channel = p.channel && e.chatId = p.chatId && e.sourceMessageId = some p.providerId &&
    (e.kind = .message || e.kind = .edit) &&
    (p.account = "" || e.account = p.account || e.account = "")

def Store.versions (s : Store) (p : ProviderMessage) : List EventRow := s.events.filter (·.revises p)

def EventRow.source (e : EventRow) : String × Int := (e.eventId, e.revision)

def Store.revoked (s : Store) (k : String × Int) : Bool :=
  (lookup AuthorityRow.key k s.authority).any fun a => a.revokedAtMs.isSome

def Store.InForce (s : Store) (e : EventRow) : Prop :=
  ∃ a, authorityOf s e = some a ∧ a.revokedAtMs = none
variable {k : String × Int} {f : AuthorityRow → AuthorityRow} {s : Store}

theorem insertIgnore_revoked {e : EventRow} {t : List AuthorityRow} :
    (lookup AuthorityRow.key k (insertIgnore AuthorityRow.key (unprovenAuthority e) t)).any
        (fun a => a.revokedAtMs.isSome) =
      (lookup AuthorityRow.key k t).any fun a => a.revokedAtMs.isSome := by
  cases hk : lookup AuthorityRow.key k t with
  | some a => rw [lookup_insertIgnore_of_some hk]
  | none =>
    unfold insertIgnore
    split
    · rw [hk]
    · rw [lookup_append_of_none hk,lookup]
      cases hf : List.find? _ [unprovenAuthority e] with
      | none => rfl
      | some a =>
        cases List.mem_singleton.mp (List.mem_of_find?_eq_some hf)
        rfl

theorem ensureEventSourceAuthority_revoked {e : EventRow} : Frame Store.revoked (ensureEventSourceAuthority e) := by
  intro s
  funext k
  exact insertIgnore_revoked

theorem updateAuthority_revoked {p : AuthorityRow → Bool}
    (hk : ∀ r, (f r).key = r.key) (hr : ∀ r, (f r).revokedAtMs = r.revokedAtMs) :
    Frame Store.revoked (updateAuthority p f) := by
  intro s
  funext k
  have hs : (updateAuthority p f s).2.authority = updateWhere p f s.authority := rfl
  rw [Store.revoked,hs,lookup_updateWhere hk,Option.any_map]
  congr 1
  funext r
  split
  · rw [hr]
  · rfl
variable {p : ProviderMessage} (e : CanonicalEvent) (v : String) (n : Int) (prior : EventRow)

theorem inheritAudience_revoked {n : Int} : Frame Store.revoked (inheritAudience e prior n) := by
  refine .ite .pure (.bind ensureEventSourceAuthority_revoked fun _ => .bind .read fun s => ?_)
  cases authorityOf s prior with
  | none => exact .pure
  | some proof => exact .bind_pure (updateAuthority_revoked (fun _ => rfl) fun _ => rfl)

theorem lookup_insertIgnore_key (e : EventRow) (t : List AuthorityRow) :
    (lookup AuthorityRow.key e.source
      (insertIgnore AuthorityRow.key (unprovenAuthority e) t)).isSome = true :=
  lookup_isSome.mpr (exists_insertIgnore AuthorityRow.key (unprovenAuthority e) t)

theorem revokePrior_revoked : (revokePrior v n prior s).2.revoked k = (s.revoked k || k = prior.source) := by
  have hs : (revokePrior v n prior s).2.authority = updateWhere
      (fun r => r.eventId = prior.eventId && r.revision = prior.revision && r.revokedAtMs = none)
      (fun r => { r with revokedAtMs := some n, revokingEventId := some v, updatedMs := n })
      (insertIgnore AuthorityRow.key (unprovenAuthority prior) s.authority) := rfl
  unfold Store.revoked
  rw [hs,lookup_updateWhere fun _ : AuthorityRow => by rfl,Option.any_map,
    ← insertIgnore_revoked]
  cases hl : lookup AuthorityRow.key k
      (insertIgnore AuthorityRow.key (unprovenAuthority prior) s.authority) with
  | none =>
    have hk : k ≠ prior.source := by
      rintro rfl
      have := lookup_insertIgnore_key prior s.authority
      rw [hl] at this
      cases this
    simp [hk]
  | some a =>
    obtain ⟨-,rfl⟩ := lookup_some hl
    by_cases hk : a.key = prior.source
    · have hp : a.eventId = prior.eventId ∧ a.revision = prior.revision := by
        rwa [AuthorityRow.key,EventRow.source,Prod.mk.injEq] at hk
      cases ha : a.revokedAtMs with
      | none => simp [hk,hp,ha]
      | some t => simp [hk,ha]
    · have hp : ¬ (a.eventId = prior.eventId ∧ a.revision = prior.revision) := by
        rwa [AuthorityRow.key,EventRow.source,Prod.mk.injEq] at hk
      simp [hk,hp]

theorem select_revokePrior_revoked {priors : List EventRow} :
    (select priors (revokePrior v n) s).2.revoked k =
      (s.revoked k || priors.any fun e => k = e.source) := by
  induction priors generalizing s with
  | nil => simp [select]
  | cons prior priors ih =>
    have hb : (select (prior :: priors) (revokePrior v n) s).2 =
        (select priors (revokePrior v n) (revokePrior v n prior s).2).2 := by
      rw [select,bind_of_ok (show revokePrior v n prior s = (.ok _, _) from rfl),
        bind_pure_snd]
      rfl
    rw [hb,ih,revokePrior_revoked,List.any_cons,Bool.or_assoc]

private theorem updateAuthority_returns {p : AuthorityRow → Bool} : Returns (updateAuthority p f) :=
  .bind .read fun _ => .bind_pure (.modify)

private theorem inheritAudience_returns {n : Int} : Returns (inheritAudience e prior n) := by
  refine .ite .pure (.bind (.modify) fun _ => .bind .read fun s => ?_)
  cases authorityOf s prior with
  | none => exact .pure
  | some proof => exact .bind_pure updateAuthority_returns

private theorem revokePrior_returns : Returns (revokePrior v n prior) :=
  .bind (.modify) fun _ => .bind_pure updateAuthority_returns

theorem mem_revocationCandidates {eventId : String} {e : EventRow} :
    e ∈ revocationCandidates s p.channel p.chatId p.providerId p.account eventId ↔
      e ∈ s.versions p ∧ e.eventId ≠ eventId := by
  unfold revocationCandidates Store.versions EventRow.revises
  rw [List.mem_filter,List.mem_insertionSort,decide_eq_true_eq]

/-- The write transaction of a projection revokes its candidates and nothing else. -/
private theorem project_revoked (candidates : List EventRow) (s : Store) (k : String × Int) :
    ((match candidates.getLast? with
      | none => return []
      | some prior => do
        inheritAudience e prior n
        let revoked ← select candidates (revokePrior e.eventId n)
        return revoked.map EventRow.eventId : StoreM (List String)) s).2.revoked k =
      (s.revoked k || candidates.any fun x => k = x.source) := by
  cases hl : candidates.getLast? with
  | none =>
    rw [List.getLast?_eq_none_iff.mp hl]
    exact (Bool.or_false _).symm
  | some prior =>
    dsimp only
    rw [(inheritAudience_returns e prior).bind_snd fun _ => rfl,bind_pure_snd,
      select_revokePrior_revoked,inheritAudience_revoked e prior s]

/-- An edit or delete of a message revokes every other version of it, and nothing else. -/
theorem projectSourceRevocation_revoked {e : CanonicalEvent}
    (hk : e.kind = .edit ∨ e.kind = .delete) (hc : e.channel = p.channel) (hi : e.chatId = p.chatId)
    (hs : e.sourceMessageId = some p.providerId) (ha : e.account = p.account) (hchat : p.chatId ≠ "")
    (hp : p.providerId ≠ "") (he : e.eventId ≠ "") :
    (projectSourceRevocation e n s).2.revoked k = true ↔
      s.revoked k = true ∨ ∃ x ∈ s.versions p, x.eventId ≠ e.eventId ∧ x.source = k := by
  have hid : ((nonempty e.sourceMessageId).or (nonempty e.targetMessageId)).getD "" = p.providerId := by
    have hn : nonempty (some p.providerId) = some p.providerId := Option.filter_eq_some_iff.mpr ⟨rfl,by simp [hp]⟩
    rw [hs,hn]
    rfl
  have hg : ¬ ((e.kind ≠ .edit ∧ e.kind ≠ .delete) ∨ e.channel = "" ∨ e.chatId = "" ∨ p.providerId = "" ∨
      e.eventId = "") := by
    rw [hc,hi]
    rintro (⟨h₁,h₂⟩ | h | h | h | h)
    · exact hk.elim h₁ h₂
    · exact p.channel_ne h
    · exact hchat h
    · exact hp h
    · exact he h
  unfold projectSourceRevocation
  simp only [hid]
  rw [if_neg hg,Returns.atomically_apply,read_bind_apply]
  · have hr := project_revoked e n
      (revocationCandidates s e.channel e.chatId p.providerId e.account e.eventId) s k
    refine (iff_of_eq (congrArg (· = true) hr)).trans ?_
    rw [hc,hi,ha,Bool.or_eq_true,List.any_eq_true]
    refine or_congr_right (exists_congr fun x => ?_)
    rw [mem_revocationCandidates,decide_eq_true_eq,and_assoc,@eq_comm _ k]
  · refine .bind .read fun s => ?_
    split
    · exact .pure
    · exact .bind (inheritAudience_returns _ _) fun _ =>
        .bind_pure (.select (revokePrior_returns _ _))

def captureStep (m : SignalMapper) (s : Store) (c : CaptureArgs) : Store := (capture m c s).2

/-- The outcomes of a capture: nothing is written, the signal is appended, or it is
appended and projected. -/
inductive Captured (m : SignalMapper) (c : CaptureArgs) (s : Store) : Store → Prop
  | nothing : Captured m c s s
  | appended (σ : JournalSignal) (e : CanonicalEvent) (t : Store) (id : String)
      (hm : m.signal? c = some σ) (hj : σ.Journals e) (ha : Appended e s (.ok id, t))
      (hk : (c.kind = .edit ∨ c.kind = .delete) → id ≠ σ.eventId) : Captured m c s t
  | projected (σ : JournalSignal) (e : CanonicalEvent) (t : Store) (id : String)
      (hm : m.signal? c = some σ) (hj : σ.Journals e) (ha : Appended e s (.ok id, t))
      (hk : c.kind = .edit ∨ c.kind = .delete) :
      Captured m c s (projectSourceRevocation (σ.asEvent c.nowMs) c.nowMs t).2

theorem capture_captured {m : SignalMapper} {c : CaptureArgs} : Captured m c s (captureStep m s c) := by
  unfold captureStep
  cases h : capture m c s with
  | mk r u =>
    rcases require_bind_cases h with ⟨-,h⟩ | ⟨-,h⟩
    · cases h
      exact .nothing
    cases hm : m.map c with
    | error err =>
      rw [hm,bind_of_error liftExcept_apply] at h
      cases h
      exact .nothing
    | ok signal =>
      rw [hm,bind_of_ok liftExcept_apply] at h
      cases signal with
      | none =>
        rcases require_bind_cases h with ⟨-,h⟩ | ⟨-,h⟩
        · cases h
          exact .nothing
        · cases h
          exact .nothing
      | some σ =>
        dsimp only at h
        rcases appendEvent_cases (σ.appendArgs c.nowMs) with ⟨err,ha⟩ | ⟨e,-,he,ha⟩
        · rw [bind_of_error ha] at h
          cases h
          exact .nothing
        have hm := SignalMapper.signal?_eq_some.mpr hm
        have hj := JournalSignal.coerceEvent_journals (SignalMapper.signal?_mapped hm).source he
        cases hr : appendEvent (σ.appendArgs c.nowMs) s with
        | mk res t =>
          rw [hr] at ha
          cases res with
          | error err =>
            rw [bind_of_error hr] at h
            cases ha
            cases h
            exact .nothing
          | ok id =>
            rw [bind_of_ok hr] at h
            rcases require_bind_cases h with ⟨hn,h⟩ | ⟨-,h⟩
            · cases h
              exact .appended σ e _ id hm hj ha fun _ => (Decidable.not_not.mp hn).2
            · split_ifs at h with hk
              · have hu := congrArg Prod.snd h
                rw [bind_pure_snd] at hu
                cases hu
                exact .projected σ e t id hm hj ha hk
              · cases h
                exact .appended σ e _ id hm hj ha fun hk' => absurd hk' hk

end Yeoman.Processing
