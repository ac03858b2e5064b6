import Yeoman.Processing.CaptureSteps

/-! Edits and deletes of one provider message: which of its journaled versions are in force
after a sequence of captures. -/
namespace Yeoman.Processing
open Library Table Runs

def JournalSignal.Concerns (p : ProviderMessage) (σ : JournalSignal) : Prop :=
  σ.channel = p.channel ∧ σ.chatId = p.chatId ∧ σ.sourceMessageId = some p.providerId ∧
    (p.account = "" ∨ σ.account = p.account ∨ σ.account = "")
deriving Decidable

variable {p : ProviderMessage} {s : Store} {k : String × Int} {e : CanonicalEvent} {m : SignalMapper}
  {σ : JournalSignal} {id : String}

theorem EventRow.revises_iff {e : EventRow} :
    e.revises p = true ↔ e.channel = p.channel ∧ e.chatId = p.chatId ∧
      e.sourceMessageId = some p.providerId ∧ (e.kind = .message ∨ e.kind = .edit) ∧
      (p.account = "" ∨ e.account = p.account ∨ e.account = "") := by
  unfold EventRow.revises
  simp only [Bool.and_eq_true,Bool.or_eq_true,decide_eq_true_eq,and_assoc,or_assoc]

structure Store.Versioned (p : ProviderMessage) (s : Store) : Prop where
  ids : Table.Unique EventRow.eventId s.events
  journaled : ∀ k, s.revoked k = true → ∃ e ∈ s.events, e.source = k
  projected : ∀ e ∈ s.versions p, (authorityOf s e).isSome = true
  account : ∀ e ∈ s.versions p, e.account = p.account
  sorted : (s.versions p).Pairwise fun a b => a.revision ≤ b.revision

theorem mem_versions {e : EventRow} :
    e ∈ s.versions p ↔ e ∈ s.events ∧ e.revises p = true := List.mem_filter

theorem Store.revoked_iff : s.revoked k = true ↔
    ∃ a, lookup AuthorityRow.key k s.authority = some a ∧ a.revokedAtMs.isSome = true := by
  unfold Store.revoked
  cases lookup AuthorityRow.key k s.authority <;> simp
variable {u t : Store}

theorem AuthorityKept.revoked (h : AuthorityKept s.authority u.authority)
    (hr : s.revoked k = true) : u.revoked k = true := by
  obtain ⟨a,ha,hs⟩ := Store.revoked_iff.mp hr
  obtain ⟨t,ht⟩ := Option.isSome_iff_exists.mp hs
  obtain ⟨a',ha',hk⟩ := h k a ha
  exact Store.revoked_iff.mpr ⟨a',ha',by rw [hk.revoked t ht]; rfl⟩

namespace Store.Versioned
variable {p : ProviderMessage} {s u : Store}

theorem eq_of_source (h : s.Versioned p) {x y : EventRow} (hx : x ∈ s.events) (hy : y ∈ s.events)
    (he : x.source = y.source) : x = y :=
  h.ids.eq_of_mem hx hy (congrArg Prod.fst he)

theorem of_events (h : s.Versioned p) (he : u.events = s.events) (hk : AuthorityKept s.authority u.authority)
    (hn : ∀ k, u.revoked k = true → s.revoked k = true ∨ ∃ e ∈ s.events, e.source = k) : u.Versioned p := by
  have hv : u.versions p = s.versions p := by rw [Store.versions,he]; rfl
  refine ⟨he ▸ h.ids,?_,?_,hv ▸ h.account,hv ▸ h.sorted⟩
  · intro k hr
    rw [he]
    exact (hn k hr).elim (h.journaled k) id
  · intro e hm
    rw [hv] at hm
    obtain ⟨a,ha⟩ := Option.isSome_iff_exists.mp (h.projected e hm)
    obtain ⟨a',ha',-⟩ := hk _ a ha
    exact Option.isSome_iff_exists.mpr ⟨a',ha'⟩

end Store.Versioned

theorem Store.journaled_revoked : (s.journaled e).revoked = s.revoked :=
  funext fun _ => insertIgnore_revoked

theorem Store.journaled_versions :
    (s.journaled e).versions p =
      if e.toRow.revises p then s.versions p ++ [e.toRow] else s.versions p := by
  unfold Store.versions Store.journaled
  rw [List.filter_append,List.filter_singleton]
  split <;> simp_all

theorem Store.Versioned.append (h : s.Versioned p) (hi : s.event? e.eventId = none)
    (hv : e.toRow.revises p = true → e.account = p.account ∧ ∀ x ∈ s.versions p, x.revision ≤ e.revision) :
    (s.journaled e).Versioned p := by
  have hf := lookup_none.mp hi
  have hev : (s.journaled e).events = s.events ++ [e.toRow] := rfl
  have hnew : ∀ x ∈ (s.journaled e).versions p,
      x ∈ s.versions p ∨ (x = e.toRow ∧ e.toRow.revises p = true) := by
    intro x hx
    rw [mem_versions,hev,List.mem_append,List.mem_singleton] at hx
    rcases hx.1 with hm | rfl
    · exact .inl (mem_versions.mpr ⟨hm,hx.2⟩)
    · exact .inr ⟨rfl,hx.2⟩
  refine ⟨?_,?_,?_,?_,?_⟩
  · rw [hev]
    exact h.ids.append hf
  · intro k hr
    rw [Store.journaled_revoked] at hr
    obtain ⟨x,hx,hk⟩ := h.journaled k hr
    exact ⟨x,List.mem_append_left _ hx,hk⟩
  · intro x hx
    rcases hnew x hx with hx | ⟨rfl,-⟩
    · obtain ⟨a,ha⟩ := Option.isSome_iff_exists.mp (h.projected x hx)
      exact Option.isSome_iff_exists.mpr ⟨a,lookup_insertIgnore_of_some ha⟩
    · exact lookup_insertIgnore_key e.toRow s.authority
  · intro x hx
    rcases hnew x hx with hx | ⟨rfl,hr⟩
    · exact h.account x hx
    · exact (hv hr).1
  · rw [Store.journaled_versions]
    split_ifs with hr
    · refine List.pairwise_append.mpr ⟨h.sorted,List.pairwise_singleton _ _,?_⟩
      intro x hx y hy
      cases List.mem_singleton.mp hy
      exact (hv hr).2 x hx
    · exact h.sorted

/-- The condition on one signal about the message. A message is journaled first, not after
its edits. A new edit is not older than what is journaled. A redelivered edit has the event
id it was journaled with, and no other version has been journaled since. -/
def JournalSignal.InOrder (p : ProviderMessage) (s : Store) (σ : JournalSignal) : Prop :=
  (σ.kind = .message → σ.account = p.account ∧ (s.eventByKey? σ.eventKey = none → s.versions p = [])) ∧
  (σ.kind = .edit → σ.account = p.account ∧
    (s.eventByKey? σ.eventKey = none → ∀ e ∈ s.versions p, e.revision ≤ σ.revision) ∧
    ∀ row, s.eventByKey? σ.eventKey = some row →
      row.eventId = σ.eventId ∧ (s.versions p).getLast? = some row)
deriving Decidable

def InOrder (m : SignalMapper) (p : ProviderMessage) (s : Store) (c : CaptureArgs) : Prop :=
  ∀ σ, m.signal? c = some σ → σ.Concerns p → σ.InOrder p s
deriving Decidable

def Deletes (m : SignalMapper) (p : ProviderMessage) (c : CaptureArgs) : Prop :=
  ∃ σ, m.signal? c = some σ ∧ σ.kind = .delete ∧ σ.Concerns p

/-- All versions but the last are revoked. -/
def Store.Superseded (p : ProviderMessage) (s : Store) : Prop :=
  ∀ e ∈ (s.versions p).dropLast, s.revoked e.source = true

/-- The last version is not revoked. -/
def Store.Live (p : ProviderMessage) (s : Store) : Prop :=
  ∀ e, (s.versions p).getLast? = some e → s.revoked e.source = false

structure Quiet (p : ProviderMessage) (s u : Store) : Prop where
  versions : u.versions p = s.versions p
  revoked : ∀ e ∈ s.versions p, u.revoked e.source = true → s.revoked e.source = true

def SparesNewer (p : ProviderMessage) (revision : Int) (s u : Store) : Prop :=
  ∀ e ∈ u.versions p, revision < e.revision → u.revoked e.source = true → s.revoked e.source = true

structure Ordered (m : SignalMapper) (p : ProviderMessage) (c : CaptureArgs) (s u : Store) : Prop where
  versioned : u.Versioned p
  superseded : u.Superseded p
  live : ¬ Deletes m p c → s.Live p → u.Live p
  spares : ∀ σ, m.signal? c = some σ → σ.kind = .edit → SparesNewer p σ.revision s u

theorem Quiet.ordered {c : CaptureArgs} (h : Quiet p s u) (hv : u.Versioned p) (hs : s.Superseded p)
    (hk : AuthorityKept s.authority u.authority) : Ordered m p c s u := by
  refine ⟨hv,?_,?_,?_⟩
  · intro e he
    rw [h.versions] at he
    exact hk.revoked (hs e he)
  · intro _ hl e he
    rw [h.versions] at he
    have hf := hl e he
    by_contra hr
    rw [h.revoked e (List.mem_of_getLast? he) (Bool.eq_true_of_not_eq_false hr)] at hf
    cases hf
  · intro σ _ _ e he _ hr
    exact h.revoked e (h.versions ▸ he) hr

theorem projectSourceRevocation_new {k₀ : SignalKind} (hm : σ.Mapped k₀) (hk : k₀ = .edit ∨ k₀ = .delete) {n : Int}
    (h : (projectSourceRevocation (σ.asEvent n) n s).2.revoked k = true) :
    s.revoked k = true ∨ ∃ x ∈ s.events, x.source = k ∧ x.channel = σ.channel ∧ x.chatId = σ.chatId ∧
      x.sourceMessageId = σ.sourceMessageId ∧ (σ.account = "" ∨ x.account = σ.account ∨ x.account = "") := by
  by_cases hc : σ.channel = ""
  · have hg : projectSourceRevocation (σ.asEvent n) n s = (.ok [], s) := by
      exact congrFun (if_pos (.inr (.inl hc))) s
    rw [hg] at h
    exact .inl h
  · obtain ⟨id,hid⟩ := hm.named (by rcases hk with rfl | rfl <;> decide)
    have hk' : (σ.asEvent n).kind = .edit ∨ (σ.asEvent n).kind = .delete := by
      change σ.kind.event = _ ∨ σ.kind.event = _
      rw [hm.kind]
      rcases hk with rfl | rfl
      · exact .inl rfl
      · exact .inr rfl
    have hp := (projectSourceRevocation_revoked (p := ⟨σ.channel,σ.chatId,id,σ.account,hc⟩) n hk' rfl rfl
      hid rfl hm.chatId (hm.source id hid) hm.eventId).mp h
    refine hp.imp_right ?_
    rintro ⟨x,hx,-,rfl⟩
    obtain ⟨he,hr⟩ := mem_versions.mp hx
    obtain ⟨h₁,h₂,h₃,-,h₄⟩ := EventRow.revises_iff.mp hr
    exact ⟨x,he,rfl,h₁,h₂,h₃.trans hid.symm,h₄⟩

/-- The row of a signal is a version of the message exactly when the signal is a message or
an edit about it. -/
theorem JournalSignal.Journals.revises_iff (h : σ.Journals e) :
    e.toRow.revises p = true ↔ σ.Concerns p ∧ (σ.kind = .message ∨ σ.kind = .edit) := by
  have hk : (e.toRow.kind = .message ∨ e.toRow.kind = .edit) ↔ (σ.kind = .message ∨ σ.kind = .edit) := by
    rw [show e.toRow.kind = σ.kind.event from h.kind]
    cases σ.kind <;> decide
  rw [EventRow.revises_iff,hk,show e.toRow.channel = σ.channel from h.channel,
    show e.toRow.chatId = σ.chatId from h.chatId,
    show e.toRow.sourceMessageId = σ.sourceMessageId from h.source,
    show e.toRow.account = σ.account from h.account]
  exact ⟨fun ⟨h₁,h₂,h₃,hm,ha⟩ => ⟨⟨h₁,h₂,h₃,ha⟩,hm⟩,fun ⟨⟨h₁,h₂,h₃,ha⟩,hm⟩ => ⟨h₁,h₂,h₃,hm,ha⟩⟩

theorem Store.Versioned.fresh (h : s.Versioned p)
    (hi : s.event? id = none) {r : Int} : s.revoked (id, r) = false := by
  by_contra hr
  obtain ⟨x,hx,hs⟩ := h.journaled _ (Bool.eq_true_of_not_eq_false hr)
  exact lookup_none.mp hi x hx (congrArg Prod.fst hs)

theorem Store.projected_revoked {e : EventRow} : (s.projected e).revoked = s.revoked :=
  funext fun _ => insertIgnore_revoked

private theorem Appended.quiet (ha : Appended e s (.ok id, t)) (hv : s.Versioned p)
    (hr : s.eventByKey? e.eventKey = none → e.toRow.revises p = false) : t.Versioned p ∧ Quiet p s t := by
  cases ha with
  | replayed row hk hacc =>
    refine ⟨hv.of_events rfl (.insertIgnore AuthorityStep.refl) fun k h => .inl ?_,rfl,fun x _ h => ?_⟩
    · rwa [Store.projected_revoked] at h
    · rwa [Store.projected_revoked] at h
  | journaled hk hi =>
    have hn := hr hk
    refine ⟨hv.append hi fun h => absurd h (Bool.eq_false_iff.mp hn),?_,fun x _ h => ?_⟩
    · rw [Store.journaled_versions,hn]
      rfl
    · rwa [Store.journaled_revoked] at h

private theorem Appended.kept {r : Except Error String}
    (ha : Appended e s (r, t)) : AuthorityKept s.authority t.authority := by
  cases ha with
  | refused err => exact .refl _
  | replayed | journaled => exact .insertIgnore AuthorityStep.refl

theorem Quiet.trans {p : ProviderMessage} {s t u : Store} (h : Quiet p s t) (h' : Quiet p t u) :
    Quiet p s u :=
  ⟨h'.versions.trans h.versions,fun e he hr => h.revoked e he (h'.revoked e (h.versions ▸ he) hr)⟩

section Steps
variable {m : SignalMapper} {p : ProviderMessage} {c : CaptureArgs} {s t : Store} {σ : JournalSignal}
  {e : CanonicalEvent} {id : String}

private theorem ordered_message (hv : s.Versioned p) (hm : m.signal? c = some σ) (hj : σ.Journals e)
    (hi : s.event? e.eventId = none) (hr : e.toRow.revises p = true) (hk : σ.kind = .message)
    (ha : σ.account = p.account) (hn : s.versions p = []) : Ordered m p c s (s.journaled e) := by
  have hs : (s.journaled e).versions p = [e.toRow] := by
    rw [Store.journaled_versions,if_pos hr,hn]
    rfl
  refine ⟨hv.append hi fun _ => ⟨hj.account.trans ha,fun x hx => absurd (hn ▸ hx) List.not_mem_nil⟩,?_,?_,?_⟩
  · intro x hx
    rw [hs] at hx
    cases hx
  · intro _ _ x hx
    rw [hs] at hx
    cases hx
    rw [Store.journaled_revoked]
    exact hv.fresh hi
  · intro σ' hm' hk'
    rw [hm] at hm'
    cases hm'
    rw [hk] at hk'
    cases hk'
variable {n : Int}

private theorem project_events : (projectSourceRevocation e n t).2.events = t.events :=
  projectSourceRevocation_frame (π := Store.events) (fun _ _ => rfl) t

private theorem project_versions : (projectSourceRevocation e n t).2.versions p = t.versions p := by
  unfold Store.versions
  rw [project_events]

private theorem versioned_project (hv : t.Versioned p) (hm : m.signal? c = some σ)
    (hk : c.kind = .edit ∨ c.kind = .delete) :
    (projectSourceRevocation (σ.asEvent c.nowMs) c.nowMs t).2.Versioned p := by
  refine hv.of_events project_events (projectSourceRevocation_kept _ _ t) fun k h => ?_
  refine (projectSourceRevocation_new (SignalMapper.signal?_mapped hm) hk h).imp_right ?_
  rintro ⟨x,hx,hs,-⟩
  exact ⟨x,hx,hs⟩

private theorem edit_revoked (hm : m.signal? c = some σ) (hk : c.kind = .edit) (hc : σ.Concerns p)
    (ha : σ.account = p.account) :
    (projectSourceRevocation (σ.asEvent c.nowMs) c.nowMs t).2.revoked k = true ↔
      t.revoked k = true ∨ ∃ x ∈ t.versions p, x.eventId ≠ σ.eventId ∧ x.source = k := by
  have hd := SignalMapper.signal?_mapped hm
  have hke : (σ.asEvent c.nowMs).kind = .edit := by
    change σ.kind.event = _
    rw [hd.kind,hk]
    rfl
  exact projectSourceRevocation_revoked c.nowMs (.inl hke) hc.1 hc.2.1 hc.2.2.1 ha (hc.2.1 ▸ hd.chatId)
    (hd.source _ hc.2.2.1) hd.eventId

private theorem quiet_project (hv : t.Versioned p) (hm : m.signal? c = some σ)
    (hk : c.kind = .edit ∨ c.kind = .delete) (hc : ¬ σ.Concerns p) :
    Quiet p t (projectSourceRevocation (σ.asEvent c.nowMs) c.nowMs t).2 := by
  refine ⟨project_versions,fun y hy h => ?_⟩
  rcases projectSourceRevocation_new (SignalMapper.signal?_mapped hm) hk h with h | ⟨x,hx,hs,h₁,h₂,h₃,h₄⟩
  · exact h
  · obtain ⟨hye,hyr⟩ := mem_versions.mp hy
    cases hv.eq_of_source hx hye hs
    obtain ⟨g₁,g₂,g₃,-,-⟩ := EventRow.revises_iff.mp hyr
    have hacc := hv.account y hy
    refine absurd ⟨h₁.symm.trans g₁,h₂.symm.trans g₂,h₃.symm.trans g₃,?_⟩ hc
    rcases h₄ with h | h | h
    · exact .inr (.inr h)
    · exact .inr (.inl (h.symm.trans hacc))
    · exact .inl (hacc.symm.trans h)

private theorem ordered_edit (hv : s.Versioned p) (hm : m.signal? c = some σ) (hj : σ.Journals e)
    (hi : s.event? e.eventId = none) (hk : c.kind = .edit) (hc : σ.Concerns p)
    (ha : σ.account = p.account) (hn : ∀ x ∈ s.versions p, x.revision ≤ σ.revision) :
    Ordered m p c s (projectSourceRevocation (σ.asEvent c.nowMs) c.nowMs (s.journaled e)).2 := by
  have hke : σ.kind = .edit := (SignalMapper.signal?_mapped hm).kind.trans hk
  have hr : e.toRow.revises p = true := hj.revises_iff.mpr ⟨hc,.inr hke⟩
  have hrev : e.toRow.revision = σ.revision := hj.revision
  have hvs : (projectSourceRevocation (σ.asEvent c.nowMs) c.nowMs (s.journaled e)).2.versions p =
      s.versions p ++ [e.toRow] := by
    rw [project_versions,Store.journaled_versions,if_pos hr]
  have ht : (s.journaled e).Versioned p :=
    hv.append hi fun _ => ⟨hj.account.trans ha,fun x hx => (hn x hx).trans_eq hj.revision.symm⟩
  have hne (x : EventRow) (hx : x ∈ s.versions p) : x.eventId ≠ σ.eventId := by
    rw [← hj.eventId]
    exact lookup_none.mp hi x (mem_versions.mp hx).1
  refine ⟨versioned_project ht hm (.inl hk),?_,?_,?_⟩
  · intro x hx
    rw [hvs,List.dropLast_concat] at hx
    refine (edit_revoked hm hk hc ha).mpr (.inr ⟨x,?_,hne x hx,rfl⟩)
    rw [Store.journaled_versions,if_pos hr]
    exact List.mem_append_left _ hx
  · intro _ _ x hx
    rw [hvs,List.getLast?_concat] at hx
    cases hx
    by_contra hrv
    rcases (edit_revoked hm hk hc ha).mp (Bool.eq_true_of_not_eq_false hrv) with h | ⟨y,-,hy,hs⟩
    · rw [Store.journaled_revoked,show e.toRow.source = (e.eventId, e.revision) from rfl,
        hv.fresh hi] at h
      cases h
    · exact hy ((congrArg Prod.fst hs).trans hj.eventId)
  · intro σ' hm' _ x hx hlt
    rw [hm] at hm'
    cases hm'
    rw [hvs] at hx
    rcases mem_concat.mp hx with hx | rfl
    · exact absurd (hn x hx) (not_le.mpr hlt)
    · exact absurd hlt (hrev ▸ lt_irrefl _)

private theorem quiet_edit (hs : s.Superseded p) (ht : Quiet p s t) (hm : m.signal? c = some σ)
    (hk : c.kind = .edit) (hc : σ.Concerns p) (ha : σ.account = p.account) {row : EventRow}
    (hid : row.eventId = σ.eventId) (hl : (s.versions p).getLast? = some row) :
    Quiet p s (projectSourceRevocation (σ.asEvent c.nowMs) c.nowMs t).2 := by
  refine ⟨(project_versions).trans ht.versions,fun y hy h => ?_⟩
  rcases (edit_revoked hm hk hc ha).mp h with h | ⟨x,hx,hne,hsrc⟩
  · exact ht.revoked y hy h
  · rw [ht.versions,← List.dropLast_append_getLast? row hl] at hx
    rcases mem_concat.mp hx with hx | rfl
    · rw [← hsrc]
      exact hs x hx
    · exact absurd hid hne

theorem Captured.ordered (h : Captured m c s u) (hv : s.Versioned p) (hs : s.Superseded p)
    (ho : InOrder m p s c) : Ordered m p c s u := by
  cases h with
  | nothing => exact Quiet.ordered ⟨rfl,fun _ _ h => h⟩ hv hs (.refl _)
  | appended σ e t id hm hj ha hk =>
    by_cases hr : s.eventByKey? e.eventKey = none → e.toRow.revises p = false
    · obtain ⟨ht,hq⟩ := ha.quiet hv hr
      exact hq.ordered ht hs ha.kept
    · obtain ⟨hn,hr⟩ := Classical.not_imp.mp hr
      obtain ⟨hc,hkind⟩ := hj.revises_iff.mp (Bool.eq_true_of_not_eq_false hr)
      cases ha with
      | replayed row hkey hacc =>
        rw [hn] at hkey
        cases hkey
      | journaled hkey hi =>
        rcases hkind with hkind | hkind
        · have ho := (ho σ hm hc).1 hkind
          exact ordered_message hv hm hj hi (Bool.eq_true_of_not_eq_false hr) hkind ho.1
            (ho.2 (hj.eventKey ▸ hn))
        · exact absurd hj.eventId (hk (.inl ((SignalMapper.signal?_mapped hm).kind.symm.trans hkind)))
  | projected σ e t id hm hj ha hk =>
    have hd := SignalMapper.signal?_mapped hm
    have hkept := AuthorityKept.trans _ _ _ ha.kept (projectSourceRevocation_kept (σ.asEvent c.nowMs) c.nowMs t)
    by_cases hc : σ.Concerns p
    · rcases hk with hk | hk
      · obtain ⟨hacc,hnew,hold⟩ := (ho σ hm hc).2 (hd.kind.trans hk)
        cases ha with
        | replayed row hkey hrep =>
          obtain ⟨hid,hlast⟩ := hold row (hj.eventKey ▸ hkey)
          obtain ⟨ht,hq⟩ := (Appended.replayed row hkey hrep).quiet (p := p) hv
            fun hn => absurd (hkey.symm.trans hn) nofun
          exact (quiet_edit hs hq hm hk hc hacc hid hlast).ordered (versioned_project ht hm (.inl hk)) hs hkept
        | journaled hkey hi =>
          exact ordered_edit hv hm hj hi hk hc hacc (hnew (hj.eventKey ▸ hkey))
      · have hr : e.toRow.revises p = false := by
          by_contra hr
          have hkind := (hj.revises_iff.mp (Bool.eq_true_of_not_eq_false hr)).2
          rw [hd.kind,hk] at hkind
          revert hkind
          decide
        obtain ⟨ht,hq⟩ := ha.quiet hv fun _ => hr
        refine ⟨versioned_project ht hm (.inr hk),fun x hx => ?_,fun hnd => absurd ?_ hnd,?_⟩
        · rw [project_versions,hq.versions] at hx
          exact hkept.revoked (hs x hx)
        · exact ⟨σ,hm,hd.kind.trans hk,hc⟩
        · intro σ' hm' hk'
          rw [hm] at hm'
          cases hm'
          rw [hd.kind,hk] at hk'
          cases hk'
    · have hr : e.toRow.revises p = false := by
        by_contra hr
        exact hc (hj.revises_iff.mp (Bool.eq_true_of_not_eq_false hr)).1
      obtain ⟨ht,hq⟩ := ha.quiet hv fun _ => hr
      exact (hq.trans (quiet_project ht hm hk hc)).ordered (versioned_project ht hm hk) hs hkept

end Steps

/-- A store in which a message has not been seen: event ids are unique, no source is
revoked before it is journaled, and no version of the message is journaled. -/
structure Store.Unseen (p : ProviderMessage) (s : Store) : Prop where
  ids : Table.Unique EventRow.eventId s.events
  journaled : ∀ k, s.revoked k = true → ∃ e ∈ s.events, e.source = k
  versions : s.versions p = []

theorem Store.Unseen.versioned (h : s.Unseen p) : s.Versioned p := by
  refine ⟨h.ids,h.journaled,?_,?_,?_⟩
  all_goals rw [h.versions]
  · exact fun _ h => absurd h List.not_mem_nil
  · exact fun _ h => absurd h List.not_mem_nil
  · exact List.Pairwise.nil

theorem Store.Unseen.empty : Store.empty.Unseen p where
  ids := List.nodup_nil
  journaled _ h := nomatch h
  versions := rfl

/-- The invariant of a run in order: the versions stay ordered, all but the last are
revoked, and the last is not unless the message was deleted. -/
theorem run_ordered (hv : s.Versioned p)
    (hs : s.Superseded p) {cs : List CaptureArgs} (ho : Along (captureStep m) (InOrder m p) s cs) :
    (run (captureStep m) s cs).Versioned p ∧ (run (captureStep m) s cs).Superseded p ∧
    ((∀ c ∈ cs, ¬ Deletes m p c) → s.Live p → (run (captureStep m) s cs).Live p) := by
  induction cs generalizing s with
  | nil => exact ⟨hv,hs,fun _ h => h⟩
  | cons c cs ih =>
    have hc := capture_captured.ordered hv hs ho.1
    obtain ⟨h₁,h₂,h₃⟩ := ih hc.versioned hc.superseded ho.2
    refine ⟨h₁,h₂,fun hd hl => h₃ (fun c hc => hd c (List.mem_cons_of_mem _ hc)) ?_⟩
    exact hc.live (hd c List.mem_cons_self) hl

theorem Store.inForce_iff {e : EventRow} :
    s.InForce e ↔ (authorityOf s e).isSome = true ∧ s.revoked e.source = false := by
  unfold Store.InForce Store.revoked authorityOf EventRow.source
  cases lookup AuthorityRow.key (e.eventId, e.revision) s.authority <;> simp

theorem Store.Versioned.current (hv : s.Versioned p) (hs : s.Superseded p) (hl : s.Live p) (hne : s.versions p ≠ []) :
    ∃ e ∈ s.versions p, s.InForce e ∧ (∀ x ∈ s.versions p, x.revision ≤ e.revision) ∧
      ∀ x ∈ s.versions p, s.InForce x → x = e := by
  obtain ⟨e,he⟩ := Option.isSome_iff_exists.mp (List.getLast?_isSome.mpr hne)
  have hm := List.mem_of_getLast? he
  have hd := List.dropLast_append_getLast? e he
  have hcase (x : EventRow) (hx : x ∈ s.versions p) : x ∈ (s.versions p).dropLast ∨ x = e := by
    rw [← hd] at hx
    simpa using hx
  refine ⟨e,hm,Store.inForce_iff.mpr ⟨hv.projected e hm,hl e he⟩,fun x hx => ?_,fun x hx hf => ?_⟩
  · rcases hcase x hx with hx | rfl
    · have hp := hv.sorted
      rw [← hd] at hp
      exact (List.pairwise_append.mp hp).2.2 x hx e (List.mem_singleton.mpr rfl)
    · exact le_refl _
  · refine (hcase x hx).resolve_left fun hx => ?_
    exact absurd ((hs x hx).symm.trans (Store.inForce_iff.mp hf).2) (by decide)

/-- While the signals of a message arrive in order (redelivered or not, and interleaved with
those of other messages), no edit revokes a newer version, and as long as the message is not
deleted exactly one of its versions is in force, one of the highest revision. -/
theorem edits_in_order (m : SignalMapper) (p : ProviderMessage) (s : Store) (hs : s.Unseen p)
    (cs : List CaptureArgs) (ho : Along (captureStep m) (InOrder m p) s cs) :
    Along (captureStep m) (fun t c => ∀ σ, m.signal? c = some σ → σ.kind = .edit →
      SparesNewer p σ.revision t (captureStep m t c)) s cs ∧
    ((∀ c ∈ cs, ¬ Deletes m p c) →
      let u := run (captureStep m) s cs
      u.versions p ≠ [] → ∃ e ∈ u.versions p, u.InForce e ∧ (∀ x ∈ u.versions p, x.revision ≤ e.revision) ∧
        ∀ x ∈ u.versions p, u.InForce x → x = e) := by
  have hsup : s.Superseded p := fun e he => by
    rw [hs.versions] at he
    cases he
  have hlive : s.Live p := fun e he => by
    rw [hs.versions] at he
    cases he
  refine ⟨?_,?_⟩
  · refine Along.imp (I := fun t => t.Versioned p ∧ t.Superseded p) ?_ ?_ ⟨hs.versioned,hsup⟩ ho
    · intro t c ht hc
      have h := capture_captured.ordered ht.1 ht.2 hc
      exact ⟨h.versioned,h.superseded⟩
    · intro t c ht hc
      exact (capture_captured.ordered ht.1 ht.2 hc).spares
  · intro hd u hne
    obtain ⟨hv,hsu,hl⟩ := run_ordered hs.versioned hsup ho
    exact hv.current hsu (hl hd hlive) hne

def groupText (revision : Option Int) : Dict :=
  let d := Dict.empty.setStr "chatJid" "group@g.us"
  let d := d.setStr "messageId" "A"
  let d := d.setStr "text" "lunch at noon"
  revision.elim d fun r => d.setInt "revision" r

def untimed : SignalMapper := { toMs := fun _ => none }

def captureMessage (nowMs : Int) : CaptureArgs :=
  { kind := .message, payload := groupText none, eventId := some "M", nowMs := nowMs }

def captureEdit (eventId : String) (revision nowMs : Int) : CaptureArgs :=
  { kind := .edit, payload := groupText (some revision), eventId := some eventId, nowMs := nowMs }

theorem whatsapp_channel_ne : "whatsapp" ≠ "" := by decide

def groupMessage : ProviderMessage := ⟨"whatsapp","group@g.us","A","",whatsapp_channel_ne⟩

def thirdRevision : Store :=
  run (captureStep untimed) Store.empty [captureMessage 1, captureEdit "E3" 3 2]

def lateRevision : Store := captureStep untimed thirdRevision (captureEdit "E2" 2 3)

/-- The late edit revokes the newer one and stays in force itself. -/
theorem late_edit_revokes_newer :
    (untimed.signal? (captureEdit "E2" 2 3)).map (fun σ => (σ.kind, σ.revision)) = some (.edit, 2) ∧
    (lateRevision.versions groupMessage).map EventRow.source = [("M", 1), ("E3", 3), ("E2", 2)] ∧
    thirdRevision.revoked ("E3", 3) = false ∧ lateRevision.revoked ("E3", 3) = true ∧
    lateRevision.revoked ("E2", 2) = false := by
  decide +kernel

def orderedSignals : List CaptureArgs := [captureMessage 1, captureEdit "E2" 2 2, captureEdit "E3" 3 3]

theorem groupMessage_in_order :
    Along (captureStep untimed) (fun t c => ∀ σ, untimed.signal? c = some σ → σ.kind = .edit →
      SparesNewer groupMessage σ.revision t (captureStep untimed t c)) Store.empty orderedSignals ∧
    ((∀ c ∈ orderedSignals, ¬ Deletes untimed groupMessage c) →
      let u := run (captureStep untimed) Store.empty orderedSignals
      u.versions groupMessage ≠ [] → ∃ e ∈ u.versions groupMessage, u.InForce e ∧
        (∀ x ∈ u.versions groupMessage, x.revision ≤ e.revision) ∧
        ∀ x ∈ u.versions groupMessage, u.InForce x → x = e) :=
  edits_in_order untimed groupMessage Store.empty (.empty) orderedSignals (by decide +kernel)

end Yeoman.Processing
