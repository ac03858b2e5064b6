import Yeoman.Library.Numbering
import Yeoman.Processing.RequeueSoundness

/-! The probe plans of the reconciler. A plan is opened when its effect has none, claimed
before its probe runs and closed by its leaseholder. Each function of the reconciler is
described here by what it does to the plans and to the states of the effects. -/
namespace Yeoman.Processing
open Library Table Txn
open Library.Numbering

def probeNumbers (effectId : String) (t : List ProbeRow) : List Int :=
  numbers ProbeRow.effectId ProbeRow.attemptNumber effectId t

def probeCount (effectId : String) (t : List ProbeRow) : Nat := count ProbeRow.effectId effectId t

def NoOpenProbe (effectId : String) (t : List ProbeRow) : Prop :=
  ∀ p ∈ t, p.effectId = effectId → p.outcome ≠ none

structure ProbeStep (p p' : ProbeRow) : Prop where
  id : p'.probeId = p.probeId
  effect : p'.effectId = p.effectId
  number : p'.attemptNumber = p.attemptNumber
  closed : p'.outcome = none → p.outcome = none

theorem ProbeStep.refl (p : ProbeRow) : ProbeStep p p := ⟨rfl,rfl,rfl,fun h => h⟩

structure ProbeStepOf (effectId : String) (p p' : ProbeRow) : Prop extends ProbeStep p p' where
  other : p.effectId ≠ effectId → p' = p

theorem ProbeStepOf.refl (effectId : String) (p : ProbeRow) : ProbeStepOf effectId p p :=
  ⟨.refl p,fun _ => rfl⟩

variable {effectId : String} {t : List ProbeRow}

theorem ProbeStepOf.rewrites {t' : List ProbeRow}
    (h : Rewrites (ProbeStepOf effectId) t t') : Rewrites ProbeStep t t' := h.mono fun _ _ hs => hs.toProbeStep

/-- Row ids are unique, each effect's rows are numbered from one up to the limit at most,
and only the last row of an effect may be open. -/
structure Planned (limit : Nat) (t : List ProbeRow) : Prop where
  ids : Table.Unique ProbeRow.probeId t
  numbered : Numbered ProbeRow.effectId ProbeRow.attemptNumber t
  bounded : ∀ effectId, probeCount effectId t ≤ limit
  last : ∀ p ∈ t, p.outcome = none → p.attemptNumber = probeCount p.effectId t

structure NewPlan (limit : Nat) (t : List ProbeRow) (row : ProbeRow) : Prop where
  fresh : ∀ p ∈ t, p.probeId ≠ row.probeId
  number : row.attemptNumber = probeCount row.effectId t + 1
  bounded : probeCount row.effectId t + 1 ≤ limit
  closed : NoOpenProbe row.effectId t

namespace Planned
variable {limit : Nat} {t t' : List ProbeRow}

theorem nil : Planned limit [] :=
  ⟨Table.Unique.nil,.nil,fun _ => Nat.zero_le _,fun _ h => absurd h List.not_mem_nil⟩

theorem rewrites (h : Planned limit t) (hr : Rewrites ProbeStep t t') : Planned limit t' := by
  have hc (e : String) : probeCount e t' = probeCount e t := count_rewrites (fun _ _ hs => hs.effect) hr
  refine ⟨hr.unique (fun _ _ hs => hs.id) h.ids,?_,?_,?_⟩
  · exact h.numbered.rewrites (fun _ _ hs => hs.effect) (fun _ _ hs => hs.number) hr
  · intro e
    rw [hc]
    exact h.bounded e
  · intro p' hp' ho
    obtain ⟨p,hp,hs⟩ := hr.mem_new hp'
    rw [hc,hs.number,hs.effect]
    exact h.last p hp (hs.closed ho)

theorem append (h : Planned limit t) {row : ProbeRow} (hn : NewPlan limit t row) : Planned limit (t ++ [row]) := by
  have hc (e : String) : probeCount e (t ++ [row]) = probeCount e t + if row.effectId = e then 1 else 0 :=
    count_append
  refine ⟨h.ids.append hn.fresh,h.numbered.append hn.number,?_,?_⟩
  · intro e
    rw [hc]
    split_ifs with he
    · exact he ▸ hn.bounded
    · exact h.bounded e
  · intro p hp ho
    rw [hc]
    rcases mem_concat.mp hp with hp | rfl
    · rw [if_neg fun he => hn.closed p hp he.symm ho]
      exact h.last p hp ho
    · rw [if_pos rfl]
      exact hn.number

theorem open_unique (h : Planned limit t) {p q : ProbeRow} (hp : p ∈ t) (hq : q ∈ t)
    (he : p.effectId = q.effectId) (hpo : p.outcome = none) (hqo : q.outcome = none) : p = q := by
  refine h.numbered.eq_of_mem hp hq he ?_
  rw [h.last p hp hpo,h.last q hq hqo,he]

end Planned

theorem NoOpenProbe.rewrites {t' : List ProbeRow} (h : NoOpenProbe effectId t)
    (hr : Rewrites ProbeStep t t') : NoOpenProbe effectId t' := by
  intro p' hp' he ho
  obtain ⟨p,hp,hs⟩ := hr.mem_new hp'
  exact h p hp (hs.effect.symm.trans he) (hs.closed ho)

theorem NoOpenProbe.append (h : NoOpenProbe effectId t) {row : ProbeRow}
    (hr : row.effectId ≠ effectId) : NoOpenProbe effectId (t ++ [row]) := by
  intro p hp he
  rcases mem_concat.mp hp with hp | rfl
  · exact h p hp he
  · exact absurd he hr
variable {s : Store}

theorem openProbe?_none : s.openProbe? effectId = none ↔ NoOpenProbe effectId s.probes := by
  unfold Store.openProbe? NoOpenProbe
  rw [List.head?_eq_none_iff,← List.length_eq_zero_iff,List.length_insertionSort,List.length_eq_zero_iff,
    List.filter_eq_nil_iff]
  simp

theorem openProbe?_some {p : ProbeRow} (h : s.openProbe? effectId = some p) :
    p ∈ s.probes ∧ p.effectId = effectId ∧ p.outcome = none := by
  have hm := List.mem_of_mem_head? h
  simpa using hm

theorem nextProbeNumber_eq (h : Numbered ProbeRow.effectId ProbeRow.attemptNumber s.probes)
    (effectId : String) : s.nextProbeNumber effectId = probeCount effectId s.probes + 1 := h.next

section Updates
variable {limit : Nat} {s : Store} {probe : ProbeRow} {workerId : String} {t : List ProbeRow} {pending : PendingProbe}

/-- An update that selects by the id of a row touches the rows of that row's effect only. -/
private theorem updateProbe_of (hu : Table.Unique ProbeRow.probeId t)
    (hm : probe ∈ t) {p : ProbeRow → Bool} {f : ProbeRow → ProbeRow}
    (hp : ∀ r, p r = true → r.probeId = probe.probeId) (hf : ∀ r, p r = true → ProbeStep r (f r)) :
    Rewrites (ProbeStepOf probe.effectId) t (updateWhere p f t) := by
  refine .updateWhere (.refl _) fun r hr hs => ⟨hf r hs,fun hne => ?_⟩
  cases hu.eq_of_mem hr hm (hp r hs)
  exact absurd rfl hne

/-- What scheduling does: nothing, or one row with a number that its effect does not have. -/
inductive Scheduled (effectId : String) (attemptNumber : Int) (s : Store) : Except Error String × Store → Prop
  | kept (r : Except Error String) : Scheduled effectId attemptNumber s (r, s)
  | planned (r : Except Error String) (row : ProbeRow) (he : row.effectId = effectId) (hn : row.attemptNumber = attemptNumber)
      (hid : ∀ p ∈ s.probes, p.probeId ≠ row.probeId)
      (hf : ∀ p ∈ s.probes, p.effectId = effectId → p.attemptNumber ≠ attemptNumber) :
      Scheduled effectId attemptNumber s (r, { s with probes := s.probes ++ [row] })

theorem scheduleProbe_scheduled (effectId : String) (attemptNumber dueMs nowMs : Int) (s : Store) :
    Scheduled effectId attemptNumber s (scheduleProbe effectId attemptNumber dueMs nowMs s) := by
  rw [scheduleProbe,require_bind_apply]
  split
  · rw [atomically,read_bind_apply,require_bind_apply]
    by_cases he : (s.effect? effectId).isSome = true
    · rw [if_pos he,modify_bind_apply]
      generalize hc : s.probes.any _ = clash
      cases clash with
      | true => exact .kept _
      | false =>
        rw [List.any_eq_false] at hc
        simp only [Bool.or_eq_true,Bool.and_eq_true,decide_eq_true_eq,not_and,not_or] at hc
        refine .planned _ _ ?_ ?_ ?_ ?_
        · rfl
        · rfl
        · exact fun p hp => (hc p hp).1
        · exact fun p hp he => (hc p hp).2 he
    · rw [if_neg he]
      exact .kept _
  · exact .kept _

theorem finishProbe_rewrites (probeId outcome workerId : String) (nowMs : Int) (detail : Option String) :
    Keeps Store.probes (Rewrites ProbeStep) (finishProbe probeId outcome workerId nowMs detail) := by
  have hr : ∀ t, Rewrites ProbeStep t t := Rewrites.refl .refl
  refine .atomically hr (.bind_pure (.frame_bind hr .read fun s =>
    .bind_pure (.modify fun s => ?_)))
  exact .updateWhere .refl fun r _ _ => ⟨rfl,rfl,rfl,nofun⟩

def Leased (workerId : String) (t : List ProbeRow) (pending : PendingProbe) : Prop :=
  ∃ row ∈ t, row.probeId = pending.probeId ∧ row.effectId = pending.effectId ∧ row.outcome = none ∧
    row.leaseOwner = some workerId

theorem Leased.rewrites {t' : List ProbeRow}
    (h : Leased workerId t pending) (hr : Rewrites (ProbeStepOf effectId) t t') (he : pending.effectId ≠ effectId) :
    Leased workerId t' pending := by
  obtain ⟨row,hm,hid,heff,ho,hl⟩ := h
  obtain ⟨row',hm',hs⟩ := hr.mem_old hm
  cases hs.other (heff ▸ he)
  exact ⟨row,hm',hid,heff,ho,hl⟩

theorem Leased.append (h : Leased workerId t pending) {row : ProbeRow} : Leased workerId (t ++ [row]) pending := by
  obtain ⟨found,hm,hf⟩ := h
  exact ⟨found,List.mem_append_left _ hm,hf⟩

theorem finishProbe_of (hu : Table.Unique ProbeRow.probeId s.probes) (hm : probe ∈ s.probes)
    (outcome workerId : String) (nowMs : Int) (detail : Option String) :
    Rewrites (ProbeStepOf probe.effectId) s.probes
      (finishProbe probe.probeId outcome workerId nowMs detail s).2.probes := by
  refine updateProbe_of hu hm (fun r hr => ?_) fun r _ => ⟨rfl,rfl,rfl,nofun⟩
  simp only [Bool.and_eq_true,decide_eq_true_eq] at hr
  exact hr.1.1

theorem finishProbe_closes (h : Planned limit s.probes) (hm : probe ∈ s.probes)
    (ho : probe.outcome = none) (hl : probe.leaseOwner = some workerId) (outcome : String)
    (nowMs : Int) (detail : Option String) :
    NoOpenProbe probe.effectId (finishProbe probe.probeId outcome workerId nowMs detail s).2.probes := by
  intro p' hp' he hn
  obtain ⟨p,hp,rfl⟩ := mem_updateWhere.mp hp'
  split at hn
  · cases hn
  next hc =>
    rw [if_neg hc] at he
    cases h.open_unique hp hm he hn ho
    simp [ho,hl] at hc

theorem claimProbe_won (hu : Table.Unique ProbeRow.probeId s.probes) (hm : probe ∈ s.probes)
    {nowMs leaseMs : Int} {r : Except Error Bool} {m : Store}
    (h : claimProbe probe.probeId workerId nowMs leaseMs s = (r, m)) :
    m.effects = s.effects ∧ Rewrites (ProbeStepOf probe.effectId) s.probes m.probes ∧
      (r = .ok true → ∃ row ∈ m.probes, row.probeId = probe.probeId ∧ row.effectId = probe.effectId ∧
        row.outcome = none ∧ row.leaseOwner = some workerId) := by
  have hsame := Rewrites.refl (ProbeStepOf.refl probe.effectId) s.probes
  rcases require_bind_cases h with ⟨-,h⟩ | ⟨-,h⟩
  · cases h
    exact ⟨rfl,hsame,nofun⟩
  rcases require_bind_cases h with ⟨-,h⟩ | ⟨-,h⟩
  · cases h
    exact ⟨rfl,hsame,nofun⟩
  cases h
  refine ⟨rfl,?_,fun hw => ?_⟩
  · refine updateProbe_of hu hm (fun r hr => ?_) fun r _ => ⟨rfl,rfl,rfl,fun h => h⟩
    simp only [Bool.and_eq_true,decide_eq_true_eq] at hr
    exact hr.1.1
  · obtain ⟨r,hr,hs⟩ := List.countP_pos_iff.mp (Nat.lt_of_lt_of_eq Nat.zero_lt_one (of_decide_eq_true (Except.ok.inj hw)).symm)
    have hr' := hs
    simp only [Bool.and_eq_true,decide_eq_true_eq] at hr'
    cases hu.eq_of_mem hr hm hr'.1.1
    refine ⟨_,mem_updateWhere.mpr ⟨_,hr,rfl⟩,?_⟩
    rw [if_pos hs]
    exact ⟨rfl,rfl,hr'.1.2,rfl⟩

end Updates

section Code
variable (config : ReconciliationConfig)
  {effectId : String} {nowMs : Int} {other : String} {limit : Nat} {s m : Store} {probe : ProbeRow} (n : Int)
variable {attempts : List AttemptRow} {force : Bool} {late : List (String × String)}
  {wanted : EffectState → Bool}

section Frames
variable {β : Type} {π : Store → β} (hv : Tbl.evidence.Ignored π)
  (ht : ∀ {x t n v w}, Frame π (transition effectId x t n v w)) (nowMs : Int)
include hv ht

theorem escalate_frame (reason : String) : Frame π (escalate effectId nowMs reason) := by
  refine .bind .read fun s => ?_
  split
  · exact .bind ht fun _ => recordEvidence_frame hv
  · exact recordEvidence_frame hv
  · exact .pure

theorem reconcileEffect_frame (probe : ProbeRequest → ProbeResult) (deadlineMs : Option Int) :
    Frame π (reconcileEffect effectId probe nowMs deadlineMs) := by
  refine .bind .read fun s => ?_
  split
  · exact .raise
  · refine .ite .pure ?_
    unfold applyProbeResult
    split
    · exact .bind_pure ht
    · exact .bind_pure ht
    · exact .ite (.bind ht fun _ => .bind_pure (recordEvidence_frame hv)) .pure

end Frames

theorem transition_probes {expected : List String} {target : String} {nowMs : Int} {evidence : EvidenceArg}
    {workerId : Option String} : Frame Store.probes (transition effectId expected target nowMs evidence workerId) :=
  transition_frame (fun _ _ => rfl) (fun _ _ => rfl) (fun _ _ => rfl)

inductive Planning (limit : Nat) (effectId : String) (t : List ProbeRow) : List ProbeRow → Prop
  | found : Planning limit effectId t t
  | opened (row : ProbeRow) (he : row.effectId = effectId) (hn : NewPlan limit t row) :
      Planning limit effectId t (t ++ [row])
variable {t : List ProbeRow} {dueMs attemptNumber : Int}

theorem Planning.ids {t' : List ProbeRow} (h : Planning limit effectId t t')
    (hu : Table.Unique ProbeRow.probeId t) : Table.Unique ProbeRow.probeId t' := by
  cases h with
  | found => exact hu
  | opened row he hn => exact hu.append hn.fresh

def deadlineOf (effect : EffectRow) (nowMs : Int) : Int :=
  (if effect.updatedMs = 0 then nowMs else effect.updatedMs) + config.deadlineSeconds * 1000

def OnTime (effectId : String) (nowMs : Int) (s : Store) : Prop :=
  ∀ effect ∈ s.effect? effectId, effect.state = .unknown → deadlineOf config effect nowMs ≤ nowMs →
    ∀ probe ∈ s.openProbe? effectId, probe.leaseOwner = some config.workerId
deriving Decidable

/-- The outcomes of a look: nothing but a plan, a probe under way whose row is leased, or an
escalation. Only the rows and the state of the effect itself change. -/
inductive Looked (effectId : String) (nowMs : Int) (s : Store) : Except Error (Option PendingProbe) × Store → Prop
  | idle {r : Except Error (Option PendingProbe)} {m : Store} {t : List ProbeRow} (hr : ∀ p, r ≠ .ok (some p))
      (hp : Planning (max 1 config.maxProbes) effectId s.probes t)
      (hs : Rewrites (ProbeStepOf effectId) t m.probes) (he : m.effects = s.effects) :
      Looked effectId nowMs s (r, m)
  | probing {p : PendingProbe} {m : Store} {t : List ProbeRow}
      (hp : Planning (max 1 config.maxProbes) effectId s.probes t)
      (hs : Rewrites (ProbeStepOf effectId) t m.probes) (he : m.effects = s.effects)
      (hid : p.effectId = effectId) (hl : Leased config.workerId m.probes p) :
      Looked effectId nowMs s (.ok (some p), m)
  | escalated {r : Except Error (Option PendingProbe)} {m : Store} (hr : ∀ p, r ≠ .ok (some p))
      (hs : Rewrites (ProbeStepOf effectId) s.probes m.probes)
      (ho : ∀ other, other ≠ effectId → m.effectState? other = s.effectState? other)
      (hc : OnTime config effectId nowMs s → s.effectState? effectId = some .unknown →
        NoOpenProbe effectId m.probes) :
      Looked effectId nowMs s (r, m)

variable {config}

theorem Planning.planned {t' : List ProbeRow} (h : Planning limit effectId t t')
    (hp : Planned limit t) : Planned limit t' := by
  cases h with
  | found => exact hp
  | opened row he hn => exact hp.append hn

theorem Planning.noOpen {t' : List ProbeRow}
    (h : Planning limit effectId t t') (ho : effectId ≠ other) (hn : NoOpenProbe other t) : NoOpenProbe other t' := by
  cases h with
  | found => exact hn
  | opened row he => exact hn.append (he ▸ ho)

theorem Looked.planned {r : Except Error (Option PendingProbe)}
    (h : Looked config effectId nowMs s (r, m)) (hp : Planned (max 1 config.maxProbes) s.probes) :
    Planned (max 1 config.maxProbes) m.probes := by
  cases h with
  | idle hr hpl hs he => exact (hpl.planned hp).rewrites (ProbeStepOf.rewrites hs)
  | probing hpl hs he hid hl => exact (hpl.planned hp).rewrites (ProbeStepOf.rewrites hs)
  | escalated hr hs ho hc => exact hp.rewrites (ProbeStepOf.rewrites hs)

private theorem escalate_looked (hs : Rewrites (ProbeStepOf effectId) s.probes t)
    (hc : OnTime config effectId nowMs s → s.effectState? effectId = some .unknown → NoOpenProbe effectId t)
    {reason : String} :
    Looked config effectId nowMs s
      ((do escalate effectId nowMs reason; return none : StoreM (Option PendingProbe)) { s with probes := t }) := by
  have hp := escalate_frame (fun _ _ => rfl) (@transition_probes effectId) nowMs reason { s with probes := t }
  have ho (other : String) (h : other ≠ effectId) :=
    escalate_frame (fun _ _ => rfl) (transition_state_other h) nowMs reason { s with probes := t }
  refine bind_cases (fun hx => ?_) fun hx => ?_
  all_goals
    rw [hx] at hp ho
    exact .escalated nofun (hp ▸ hs) ho (hp ▸ hc)

theorem attachReceiptEvidence_frame {β : Type} {π : Store → β} (hv : Tbl.evidence.Ignored π) (effectId : String)
    (evidence : List (String × String)) (nowMs : Int) : Frame π (attachReceiptEvidence effectId evidence nowMs) :=
  .each fun _ => .bind .read fun _ => .ite .pure (recordEvidence_frame hv)

theorem beginProbe_looked (hu : Table.Unique ProbeRow.probeId m.probes)
    (hp : Planning (max 1 config.maxProbes) effectId s.probes m.probes) (he : m.effects = s.effects)
    (hm : probe ∈ m.probes) (hid : probe.effectId = effectId) {deadlineMs : Int} (hd : ¬ deadlineMs ≤ nowMs) :
    Looked config effectId nowMs s (beginProbe config attempts probe effectId deadlineMs nowMs force late m) := by
  have hsame := Rewrites.refl (ProbeStepOf.refl effectId) m.probes
  rw [beginProbe,if_neg hd]
  split
  · exact .idle nofun hp hsame he
  refine bind_cases (fun hc => ?_) fun {won m₁} hc => ?_ <;> obtain ⟨he₁,hs,hw⟩ := claimProbe_won hu hm hc <;>
    rw [hid] at hs
  · exact .idle nofun hp hs (he₁.trans he)
  cases won with
  | false => exact .idle nofun hp hs (he₁.trans he)
  | true =>
    rw [if_neg Bool.noConfusion,read_bind_apply]
    generalize (if (providerId (m₁.transportReceipt? effectId)).isSome then late else []) = evidence
    have hpr := attachReceiptEvidence_frame (π := Store.probes) (fun _ _ => rfl) effectId evidence nowMs m₁
    have hef := attachReceiptEvidence_frame (π := Store.effects) (fun _ _ => rfl) effectId evidence nowMs m₁
    refine bind_cases (fun ha => ?_) fun ha => ?_ <;> rw [ha] at hpr hef
    · exact .idle nofun hp (hpr ▸ hs) (hef.trans (he₁.trans he))
    · obtain ⟨row,hrow,hrid,hreff,hro,hrl⟩ := hw rfl
      refine .probing hp (hpr ▸ hs) (hef.trans (he₁.trans he)) rfl ?_
      exact ⟨row,hpr ▸ hrow,hrid,hreff.trans hid,hro,hrl⟩

/-- A plan that is still open at the deadline is closed by its leaseholder, and the effect is
escalated whether it was closed or not. -/
theorem beginProbe_late (h : Planned limit s.probes) (ho : s.openProbe? effectId = some probe) {effect : EffectRow}
    (hs : s.effect? effectId = some effect) (hd : deadlineOf config effect nowMs ≤ nowMs) :
    Looked config effectId nowMs s
      (beginProbe config attempts probe effectId (deadlineOf config effect nowMs) nowMs force late s) := by
  obtain ⟨hm,rfl,hn⟩ := openProbe?_some ho
  obtain ⟨b,t,hf⟩ : ∃ b t, finishProbe probe.probeId ProbeOutcome.inconclusive.name config.workerId nowMs
      (some "deadline_passed") s = (.ok b, { s with probes := t }) := ⟨_,_,rfl⟩
  have hr := finishProbe_of h.ids hm ProbeOutcome.inconclusive.name config.workerId nowMs
    (some "deadline_passed")
  rw [hf] at hr
  rw [beginProbe,if_pos hd,bind_of_ok hf]
  refine escalate_looked hr (fun ht hu => ?_)
  have hx : effect.state = .unknown := by
    rw [Store.effectState?,hs] at hu
    exact Option.some.inj hu
  have hl := ht effect hs hx hd probe ho
  have hc := finishProbe_closes h hm hn hl ProbeOutcome.inconclusive.name nowMs (some "deadline_passed")
  rw [hf] at hc
  exact hc

theorem lookAtCandidate_looked (h : Planned (max 1 config.maxProbes) s.probes) (effectId : String)
    (nowMs : Int) (force : Bool) (late : List (String × String)) :
    Looked config effectId nowMs s (lookAtCandidate config effectId nowMs force late s) := by
  have hsame := Rewrites.refl (ProbeStepOf.refl effectId) s.probes
  unfold lookAtCandidate
  rw [read_bind_apply]
  cases hs : s.effect? effectId with
  | none => exact .idle nofun .found hsame rfl
  | some effect =>
    dsimp only
    cases ho : s.openProbe? effectId with
    | some probe =>
      obtain ⟨hm,hid,-⟩ := openProbe?_some ho
      by_cases hd : deadlineOf config effect nowMs ≤ nowMs
      · exact beginProbe_late h ho hs hd
      · exact beginProbe_looked h.ids .found rfl hm hid hd
    | none =>
      have hn := openProbe?_none.mp ho
      have hnext := nextProbeNumber_eq h.numbered effectId
      dsimp only
      generalize (if effect.updatedMs = 0 then nowMs else effect.updatedMs) = unknownMs
      split
      · exact escalate_looked hsame (fun _ _ => hn)
      rename_i hb
      push Not at hb
      obtain ⟨hmax,hd,-⟩ := hb
      have hsch := scheduleProbe_scheduled effectId (s.nextProbeNumber effectId)
        (probeDueMs unknownMs (s.nextProbeNumber effectId) config.backoffSeconds) nowMs s
      have hopened {r m} (hsch : Scheduled effectId (s.nextProbeNumber effectId) s (r, m)) :
          Planning (max 1 config.maxProbes) effectId s.probes m.probes ∧ m.effects = s.effects := by
        cases hsch with
        | kept => exact ⟨.found,rfl⟩
        | planned r row he hnum hid hf =>
          refine ⟨.opened row he ⟨hid,?_,?_,he ▸ hn⟩,rfl⟩
          · rw [hnum,hnext,he]
          · rw [he]
            omega
      refine bind_cases (fun hr => ?_) fun {id m} hr => ?_ <;> rw [hr] at hsch <;> obtain ⟨hp,he⟩ := hopened hsch
      · exact .idle nofun hp (Rewrites.refl (ProbeStepOf.refl effectId) _) he
      · rw [read_bind_apply]
        cases hop : m.openProbe? effectId with
        | none => exact .idle nofun hp (Rewrites.refl (ProbeStepOf.refl effectId) _) he
        | some probe =>
          obtain ⟨hm,hid,-⟩ := openProbe?_some hop
          exact beginProbe_looked (hp.ids h.ids) hp he hm hid (not_le.mpr hd)

/-- The rest of `_reconcile_candidate`. With its lease it leaves no open plan behind. -/
theorem settleCandidate_settled (h : Planned limit s.probes) (p : PendingProbe)
    (result : ProbeResult) (finishedMs nowMs : Int) :
    Rewrites ProbeStep s.probes (settleCandidate config p result finishedMs nowMs s).2.probes ∧
    (∀ other, other ≠ p.effectId →
      (settleCandidate config p result finishedMs nowMs s).2.effectState? other = s.effectState? other) ∧
    (Leased config.workerId s.probes p →
      Rewrites (ProbeStepOf p.effectId) s.probes (settleCandidate config p result finishedMs nowMs s).2.probes ∧
      NoOpenProbe p.effectId (settleCandidate config p result finishedMs nowMs s).2.probes) := by
  obtain ⟨b,t,hf⟩ : ∃ b t, finishProbe p.probeId result.outcome.name config.workerId finishedMs result.detail s =
      (.ok b, { s with probes := t }) := ⟨_,_,rfl⟩
  have hr := finishProbe_rewrites p.probeId result.outcome.name config.workerId finishedMs result.detail s
  rw [hf] at hr
  rw [settleCandidate,bind_of_ok hf,reconcileEffect_frame (fun _ _ => rfl) transition_probes]
  refine ⟨hr,fun other ho => ?_,?_⟩
  · exact reconcileEffect_frame (fun _ _ => rfl) (transition_state_other ho) nowMs (fun _ => result) (some p.deadlineMs)
      { s with probes := t }
  · rintro ⟨row,hm,hid,he,ho,hl⟩
    have hone := finishProbe_of h.ids hm result.outcome.name config.workerId finishedMs result.detail
    have hclosed := finishProbe_closes h hm ho hl result.outcome.name finishedMs result.detail
    rw [hid,he,hf] at hone hclosed
    exact ⟨hone,hclosed⟩

theorem Planned.first (hl : 1 ≤ limit) (h : Planned limit s.probes)
    : Planned limit (scheduleProbe effectId 1 dueMs nowMs s).2.probes := by
  have hs := scheduleProbe_scheduled effectId 1 dueMs nowMs s
  revert hs
  generalize scheduleProbe effectId 1 dueMs nowMs s = out
  rintro (_ | ⟨r,row,rfl,hn,hid,hf⟩)
  · exact h
  · have hc : probeCount row.effectId s.probes = 0 := h.numbered.count_eq_zero hf
    refine h.append ⟨hid,?_,?_,?_⟩
    · rw [hc]
      exact hn
    · rw [hc]
      exact hl
    · intro p hp he
      have hpos := h.numbered.number_mem hp
      rw [he,show count ProbeRow.effectId row.effectId s.probes = 0 from hc] at hpos
      omega

theorem scheduleProbe_noOpen (h : other ≠ effectId) :
    Keeps Store.probes (fun t t' => NoOpenProbe other t → NoOpenProbe other t')
      (scheduleProbe effectId attemptNumber dueMs nowMs) := by
  intro s hn
  have hs := scheduleProbe_scheduled effectId attemptNumber dueMs nowMs s
  revert hs
  generalize scheduleProbe effectId attemptNumber dueMs nowMs s = out
  rintro (_ | ⟨r,row,rfl,-,-,-⟩)
  · exact hn
  · exact hn.append (Ne.symm h)

theorem scheduleProbe_effects : Frame Store.effects (scheduleProbe effectId attemptNumber dueMs nowMs) :=
  scheduleProbe_frame (fun _ _ => rfl)

variable {ids : List String}

private theorem recoverOne_state (id : String) (s : Store) (effectId : String) :
    (recoverOne n id s).2.effectState? effectId =
      (s.effectState? effectId).map fun state =>
        if id = effectId ∧ state = .executing then .unknown else state := by
  change (lookup EffectRow.effectId effectId (updateWhere _ (recoverRow n) s.effects)).map _ = _
  rw [lookup_updateWhere (f := recoverRow n) fun _ => rfl,Option.map_map]
  unfold Store.effectState? Store.effect?
  rw [Option.map_map]
  refine Option.map_congr fun row hr => ?_
  obtain ⟨-,rfl⟩ := lookup_some hr
  simp only [Function.comp_apply,Bool.and_eq_true,decide_eq_true_eq]
  by_cases h : row.effectId = id ∧ row.state = .executing
  · rw [if_pos h,if_pos ⟨h.1.symm,h.2⟩]
    rfl
  · rw [if_neg h,if_neg fun hc => h ⟨hc.1.symm,hc.2⟩]

private theorem recoverAll_state {state : EffectState} (hs : s.effectState? effectId = some state)
    (h : state = .unknown ∨ effectId ∈ ids ∧ state = .executing) :
    (each ids (recoverOne n) s).2.effectState? effectId = some .unknown := by
  induction ids generalizing s state with
  | nil =>
    rcases h with rfl | ⟨h,-⟩
    · exact hs
    · cases h
  | cons id ids ih =>
    have hone := recoverOne_state n id s effectId
    rw [hs,Option.map_some] at hone
    obtain ⟨m,hm⟩ : ∃ m, recoverOne n id s = (.ok (), m) := ⟨_,rfl⟩
    rw [hm] at hone
    change ((recoverOne n id >>= fun _ => each ids (recoverOne n)) s).2.effectState? effectId = _
    rw [bind_of_ok hm]
    refine ih hone ?_
    rcases h with rfl | ⟨hi,rfl⟩
    · exact .inl (if_neg fun hc => nomatch hc.2)
    · by_cases he : id = effectId
      · exact .inl (if_pos ⟨he,rfl⟩)
      · refine .inr ⟨(List.mem_cons.mp hi).resolve_left (Ne.symm he),if_neg fun hc => he hc.1⟩

theorem recoverExecuting_returns : Returns (recoverExecuting n) :=
  .atomically (.bind .read fun _ => .bind_pure (.each fun _ _ => ⟨_,_,rfl⟩))

theorem recoverExecuting_state (hu : s.EffectsUnique) (h : recoverExecuting n s = (.ok ids, m))
    (he : s.effectState? effectId = some .unknown ∨ effectId ∈ ids) : m.effectState? effectId = some .unknown := by
  have hb := atomically_ok h
  rw [read_bind_apply] at hb
  obtain ⟨u,m',hx,hb⟩ := bind_ok hb
  cases hb
  have hm : m = (each ((s.effects.filter (leaseExpired n)).map EffectRow.effectId) (recoverOne n) s).2 := by
    rw [hx]
  rw [hm]
  rcases he with he | he
  · exact recoverAll_state n he (.inl rfl)
  · obtain ⟨row,hrow,rfl⟩ := List.mem_map.mp he
    obtain ⟨hrow,hl⟩ := List.mem_filter.mp hrow
    have hx : row.state = .executing := by
      rw [leaseExpired,Bool.and_eq_true] at hl
      exact of_decide_eq_true hl.1
    exact recoverAll_state n (effectState?_some.mpr ⟨row,hu.lookup_of_mem hrow,hx⟩) (.inr ⟨he,rfl⟩)

private theorem planFirst_effects (nowMs : Int) (ids : List String) :
    Frame Store.effects (each ids fun effectId => do
      let _ ← scheduleProbe effectId 1 nowMs nowMs
      return () : StoreM Unit) :=
  .each fun _ => .bind_pure scheduleProbe_effects

private theorem planFirst_noOpen (nowMs : Int) (h : other ∉ ids) :
    Keeps Store.probes (fun t t' => NoOpenProbe other t → NoOpenProbe other t')
      (each ids fun effectId => do
        let _ ← scheduleProbe effectId 1 nowMs nowMs
        return () : StoreM Unit) := by
  induction ids with
  | nil => exact fun _ h => h
  | cons id ids ih =>
    obtain ⟨hne,hn⟩ := List.ne_and_not_mem_of_not_mem_cons h
    exact .bind (fun _ _ _ hab hbc ha => hbc (hab ha))
      (.bind_pure (scheduleProbe_noOpen hne)) fun _ => ih hn

theorem mem_listEffects {r : EffectRow}
    (h : r ∈ s.listEffects wanted limit) : r ∈ s.effects ∧ wanted r.state = true := by
  have hm := List.mem_of_mem_take h
  rw [orderBy,List.mem_insertionSort] at hm
  exact List.mem_filter.mp hm

theorem listEffects_nodup (hu : s.EffectsUnique) : ((s.listEffects wanted limit).map EffectRow.effectId).Nodup := by
  have hf : ((s.effects.filter fun r => wanted r.state).map EffectRow.effectId).Nodup :=
    Table.Unique.filter hu
  have hs := (List.perm_insertionSort (timeLe EffectRow.createdMs EffectRow.effectId)
    (s.effects.filter fun r => wanted r.state)).map EffectRow.effectId
  exact (hs.nodup_iff.mpr hf).sublist ((List.take_sublist _ _).map _)

/-- The start of a tick. An effect that is not unknown then has no new plan, and the
candidates are the unknown effects. -/
theorem beginTick_begun (hu : s.EffectsUnique) {r : Except Error (List String)}
    (h : beginTick nowMs s = (r, m)) (effectId : String) :
    (s.effectState? effectId = some .unknown → m.effectState? effectId = some .unknown) ∧
    (m.effectState? effectId ≠ some .unknown → NoOpenProbe effectId s.probes → NoOpenProbe effectId m.probes) ∧
    ∀ ids, r = .ok ids → ids.Nodup ∧ ∀ id ∈ ids, m.effectState? id = some .unknown := by
  obtain ⟨recovered,m₁,h₁⟩ := recoverExecuting_returns nowMs s
  have hp₁ : m₁.probes = s.probes :=
    (recoverExecuting_frame (fun _ _ => rfl) (fun _ _ => rfl) (fun _ _ => rfl)).ends h₁
  have hu₁ : m₁.EffectsUnique :=
    (show Via (fun _ => True) s m₁ from (Via.call (.recoverExecuting nowMs) trivial rfl).ends h₁).effectsUnique hu
  have hstate (h : s.effectState? effectId = some .unknown ∨ effectId ∈ recovered) :=
    recoverExecuting_state nowMs hu h₁ h
  rw [beginTick,bind_of_ok h₁] at h
  have hfe := planFirst_effects nowMs recovered m₁
  have hno (hn : effectId ∉ recovered) := planFirst_noOpen nowMs hn m₁
  cases h₂ : (each recovered fun effectId => do
      let _ ← scheduleProbe effectId 1 nowMs nowMs
      return () : StoreM Unit) m₁ with
  | mk r₂ m₂ =>
    rw [h₂] at hfe hno
    have hm : m = m₂ := by
      cases r₂ with
      | error e =>
        rw [bind_of_error h₂] at h
        cases h
        rfl
      | ok u =>
        rw [bind_of_ok h₂,read_bind_apply] at h
        cases h
        rfl
    subst hm
    have hes (id : String) : m.effectState? id = m₁.effectState? id := by
      unfold Store.effectState? Store.effect?
      rw [hfe]
    refine ⟨fun hx => ?_,fun hx hn => ?_,?_⟩
    · rw [hes]
      exact hstate (.inl hx)
    · refine hno (fun hr => hx ?_) (hp₁ ▸ hn)
      rw [hes]
      exact hstate (.inr hr)
    · rintro ids rfl
      cases r₂ with
      | error e =>
        rw [bind_of_error h₂] at h
        cases h
      | ok u =>
        rw [bind_of_ok h₂,read_bind_apply] at h
        cases h
        have hum : m.EffectsUnique := by
          rw [Store.EffectsUnique,hfe]
          exact hu₁
        refine ⟨listEffects_nodup hum,fun id hid => ?_⟩
        obtain ⟨row,hr,rfl⟩ := List.mem_map.mp hid
        obtain ⟨hr,hw⟩ := mem_listEffects hr
        exact effectState?_some.mpr ⟨row,hum.lookup_of_mem hr,of_decide_eq_true hw⟩

theorem beginTick_planned (hl : 1 ≤ limit) (nowMs : Int) :
    Keeps Store.probes (fun t t' => Planned limit t → Planned limit t') (beginTick nowMs) := by
  have hr : ∀ t : List ProbeRow, Planned limit t → Planned limit t := fun _ h => h
  have ht : ∀ a b c : List ProbeRow, (Planned limit a → Planned limit b) → (Planned limit b → Planned limit c) →
      Planned limit a → Planned limit c := fun _ _ _ hab hbc ha => hbc (hab ha)
  refine .frame_bind hr (recoverExecuting_frame (fun _ _ => rfl) (fun _ _ => rfl) (fun _ _ => rfl)) fun ids => ?_
  refine .bind_frame (.each hr ht fun id => .bind_pure ?_) fun _ => .bind_pure .read
  exact fun s h => h.first hl

end Code

end Yeoman.Processing
