import Mathlib.Data.List.Chain
import Yeoman.Processing.AttemptLedger

/-! The audit trail of the effects: every change of a state leaves a row of evidence with the new
state, so that the evidence of an effect is the path it took and ends where the effect is. -/
namespace Yeoman.Processing
open Library Table Txn Runs

def trail (effectId : String) (u : List EvidenceRow) : List EffectState :=
  (u.filter fun v => v.effectId = effectId).map EvidenceRow.state

theorem trail_concat (effectId : String) (u : List EvidenceRow) (v : EvidenceRow) :
    trail effectId (u ++ [v]) = trail effectId u ++ if v.effectId = effectId then [v.state] else [] := by
  by_cases h : v.effectId = effectId <;> simp [trail,h]

def Follows (a b : EffectState) : Prop := b = a ∨ Edge a b

def Store.audit (s : Store) : List EffectRow × List EvidenceRow := (s.effects, s.evidence)

/-- Evidence belongs to stored effects, and the trail of an effect is a path of the state machine
that ends in the effect's state. -/
structure Audited (a : List EffectRow × List EvidenceRow) : Prop where
  unique : Table.Unique EffectRow.effectId a.1
  owned : ∀ v ∈ a.2, ∃ r ∈ a.1, r.effectId = v.effectId
  traced : ∀ r ∈ a.1, (trail r.effectId a.2).IsChain Follows ∧ (trail r.effectId a.2).getLast? = some r.state

namespace Audited
variable {t : List EffectRow} {u : List EvidenceRow} {row : EffectRow} {v : EvidenceRow}

theorem update (h : Audited (t, u)) (hr : row ∈ t) {p : EffectRow → Bool} {f : EffectRow → EffectRow}
    {m : EffectRow → EffectState → Prop} (hp : p row = true) (hf : ∀ r, p r = true → RowStep m r (f r))
    (hv : v.effectId = row.effectId) (hs : v.state = (f row).state) :
    Audited (updateWhere (fun r => r.effectId = row.effectId && p r) f t, u ++ [v]) := by
  have hrows : Rewrites (fun r r' => r'.effectId = r.effectId ∧ Follows r.state r'.state ∧
      r'.state = if r.effectId = v.effectId then v.state else r.state) t
      (updateWhere (fun r => r.effectId = row.effectId && p r) f t) := by
    refine .map fun r hm => ?_
    by_cases he : r.effectId = row.effectId
    · obtain rfl := h.unique.eq_of_mem hm hr he
      simpa [hp,hv,hs] using ⟨(hf r hp).effectId,(hf r hp).edge⟩
    · simp [he,hv,Follows]
  refine ⟨hrows.unique (fun _ _ h => h.1) h.unique,forall_mem_concat (fun w hw => ?_) ?_,fun r' hr' => ?_⟩
  · obtain ⟨r,hm,he⟩ := h.owned w hw
    obtain ⟨r',hm',hid,-⟩ := hrows.mem_old hm
    exact ⟨r',hm',hid.trans he⟩
  · obtain ⟨r',hm',hid,-⟩ := hrows.mem_old hr
    exact ⟨r',hm',hid.trans hv.symm⟩
  · obtain ⟨r,hm,hid,hfollows,hstate⟩ := hrows.mem_new hr'
    obtain ⟨hc,hl⟩ := h.traced r hm
    dsimp only
    rw [hid,trail_concat,hstate]
    by_cases he : v.effectId = r.effectId
    · rw [if_pos he,if_pos he.symm]
      rw [if_pos he.symm] at hstate
      refine ⟨hc.append (.singleton _) ?_,by simp⟩
      simpa [hl] using hstate ▸ hfollows
    · rw [if_neg he,if_neg (Ne.symm he),List.append_nil]
      exact ⟨hc,hl⟩

theorem enter (h : Audited (t, u)) (hr : ∀ r ∈ t, r.effectId ≠ row.effectId) (hv : v.effectId = row.effectId)
    (hs : v.state = row.state) : Audited (t ++ [row], u ++ [v]) := by
  refine ⟨h.unique.append hr,forall_mem_concat (fun w hw => ?_) ?_,forall_mem_concat (fun r hm => ?_) ?_⟩
  · obtain ⟨r,hm,he⟩ := h.owned w hw
    exact ⟨r,List.mem_append_left _ hm,he⟩
  · exact ⟨row,by simp,hv.symm⟩
  · rw [trail_concat,if_neg (fun he => hr r hm (he.symm.trans hv)),List.append_nil]
    exact h.traced r hm
  · have hnone : trail row.effectId u = [] := by
      refine List.map_eq_nil_iff.mpr (List.filter_eq_nil_iff.mpr fun w hw he => ?_)
      obtain ⟨r,hm,hid⟩ := h.owned w hw
      exact hr r hm (hid.trans (of_decide_eq_true he))
    rw [trail_concat,if_pos hv,hnone,hs]
    exact ⟨.singleton _,rfl⟩

theorem rewrites {t' : List EffectRow} (h : Audited (t, u))
    (hr : Rewrites (RowStep fun _ _ => False) t t') : Audited (t', u) := by
  refine ⟨hr.unique (fun _ _ h => h.effectId) h.unique,fun v hv => ?_,fun r' hr' => ?_⟩
  · obtain ⟨r,hm,he⟩ := h.owned v hv
    obtain ⟨r',hm',hs⟩ := hr.mem_old hm
    exact ⟨r',hm',hs.effectId.trans he⟩
  · obtain ⟨r,hm,hs⟩ := hr.mem_new hr'
    rw [hs.effectId,hs.moves.resolve_right id]
    exact h.traced r hm

def Next (a b : List EffectRow × List EvidenceRow) : Prop := Audited a → Audited b ∧ a.2 <+: b.2

theorem Next.refl (a : List EffectRow × List EvidenceRow) : Next a a := fun h => ⟨h,List.prefix_rfl⟩

theorem Next.trans (a b c : List EffectRow × List EvidenceRow) (h : Next a b) (h' : Next b c) : Next a c := by
  intro ha
  obtain ⟨hb,hp⟩ := h ha
  exact (h' hb).imp_right hp.trans

theorem each {x : String → StoreM Unit} {p : EffectRow → Bool} {f : EffectRow → EffectRow} {v : String → EvidenceRow}
    {m : EffectRow → EffectState → Prop} (hx : ∀ e s, ∃ s', x e s = (.ok (), s') ∧
      s'.audit = (updateWhere (fun r => r.effectId = e && p r) f s.effects, s.evidence ++ [v e]))
    (hf : ∀ r, p r = true → RowStep m r (f r)) (hv : ∀ e, (v e).effectId = e) (hs : ∀ e r, (v e).state = (f r).state)
    {s : Store} (h : Audited s.audit) {ids : List String} (hn : ids.Nodup)
    (hp : ∀ e ∈ ids, ∃ r ∈ s.effects, r.effectId = e ∧ p r = true) :
    ∃ s', Txn.each ids x s = (.ok (), s') ∧ Audited s'.audit ∧ s.audit.2 <+: s'.audit.2 := by
  induction ids generalizing s with
  | nil => exact ⟨s,rfl,h,List.prefix_rfl⟩
  | cons e ids ih =>
    obtain ⟨s',ho,ha⟩ := hx e s
    obtain ⟨he,hids⟩ := List.nodup_cons.mp hn
    obtain ⟨⟨row,hr,rfl,hrow⟩,hrest⟩ := List.forall_mem_cons.mp hp
    have hs' : Audited s'.audit := ha ▸ h.update hr hrow hf (hv _) (hs _ _)
    -- the update leaves the effects that are still to come alone
    have hleft : ∀ e ∈ ids, ∃ r ∈ s'.effects, r.effectId = e ∧ p r = true := by
      intro e' he'
      obtain ⟨r,hm,rfl,hpr⟩ := hrest e' he'
      have hne : r.effectId ≠ row.effectId := fun hid => he (hid ▸ he')
      rw [show s'.effects = _ from congrArg Prod.fst ha]
      exact ⟨r,mem_updateWhere.mpr ⟨r,hm,by simp [hne]⟩,rfl,hpr⟩
    obtain ⟨s'',hrun,h'',hp''⟩ := ih hs' hids hleft
    have hnoted : s.audit.2 <+: s'.audit.2 := ha ▸ List.prefix_append _ _
    exact ⟨s'',(bind_of_ok ho).trans hrun,h'',hnoted.trans hp''⟩

end Audited

def Audits {α : Type} (x : StoreM α) : Prop := Keeps Store.audit Audited.Next x
variable {op : Op}

private theorem mem_ids (t : List EffectRow) {p q : EffectRow → Bool} (hq : ∀ r, q r = true → p r = true) :
    ∀ e ∈ (t.filter q).map EffectRow.effectId, ∃ r ∈ t, r.effectId = e ∧ p r = true := by
  intro e he
  obtain ⟨r,hr,rfl⟩ := List.mem_map.mp he
  obtain ⟨hm,hx⟩ := List.mem_filter.mp hr
  exact ⟨r,hm,rfl,hq r hx⟩

theorem recoverExecuting_audits (nowMs : Int) : Audits (recoverExecuting nowMs) := by
  refine .atomically Audited.Next.refl fun s h => ?_
  have hn : ((s.effects.filter (leaseExpired nowMs)).map EffectRow.effectId).Nodup := Table.Unique.filter h.unique
  have hids := mem_ids s.effects fun r (h : leaseExpired nowMs r = true) => (Bool.and_eq_true_iff.mp h).1
  obtain ⟨s',hr,h'⟩ := h.each (x := recoverOne nowMs) (v := fun _ => _) (m := fun _ _ => True)
    (fun e s => ⟨_,rfl,rfl⟩) (fun r hr => .recover r nowMs trivial (of_decide_eq_true hr))
    (fun _ => rfl) (fun _ _ => rfl) hn hids
  rw [read_bind_apply,bind_of_ok hr]
  exact h'

theorem closeThreadWork_audits (nowMs : Int) (threadId : String) : Audits (closeThreadWork nowMs threadId) := by
  intro s h
  have hn : ((s.effects.filter fun r => onThread s threadId r && unstarted r).map EffectRow.effectId).Nodup :=
    Table.Unique.filter h.unique
  have hids := mem_ids s.effects fun r (h : (onThread s threadId r && unstarted r) = true) =>
    (Bool.and_eq_true_iff.mp h).2
  obtain ⟨s',hr,h'⟩ := h.each (x := cancelOne nowMs) (v := fun _ => _) (m := fun _ _ => True)
    (fun e s => ⟨_,rfl,rfl⟩) (fun r hr => .cancel r nowMs trivial hr)
    (fun _ => rfl) (fun _ _ => rfl) hn hids
  rw [closeThreadWork,read_bind_apply,bind_of_ok hr]
  exact h'

theorem closeChatThreads_audits (channel chatId : String) (nowMs : Int) :
    Audits (closeChatThreads channel chatId nowMs) :=
  .atomically Audited.Next.refl (.frame_bind Audited.Next.refl .read fun _ => .bind_pure
    (.each Audited.Next.refl Audited.Next.trans (closeThreadWork_audits nowMs)))

theorem recordEvidence_audits (effectId kind : String) (nowMs : Int) (detail workerId : Option String) :
    Audits (recordEvidence effectId kind nowMs detail workerId) := by
  refine .atomically Audited.Next.refl fun s h => ?_
  rw [read_bind_apply]
  cases hr : s.effect? effectId with
  | none => exact ⟨h,List.prefix_rfl⟩
  | some row =>
    obtain ⟨hm,rfl⟩ := lookup_some hr
    have hn := h.update hm (p := fun _ => true) (f := id) (m := fun _ _ => True) rfl
      (fun r _ => .keep r) (v := ⟨row.effectId,kind,row.state,detail,nowMs,workerId⟩) rfl rfl
    simp only [updateWhere,id,ite_self,List.map_id'] at hn
    exact ⟨hn,List.prefix_append _ _⟩

/-- What accepting an effect adds: nothing, or a fresh effect without a lease and its first evidence. -/
inductive Accepted (a : List EffectRow × List EvidenceRow) : List EffectRow × List EvidenceRow → Prop
  | same : Accepted a a
  | fresh (row : EffectRow) (v : EvidenceRow) (hl : row.leaseOwner = none ∧ row.leaseUntilMs = none)
      (hf : ∀ r ∈ a.1, r.effectId ≠ row.effectId) (hv : v.effectId = row.effectId) (hs : v.state = row.state) :
      Accepted a (a.1 ++ [row], a.2 ++ [v])

theorem Enqueued.accepted {a : EnqueueArgs} {state : EffectState} {origin : Origin} {s s' : Store} {r : Except Error String}
    (h : Enqueued a state origin s (r, s')) : Accepted s.audit s'.audit := by
  cases h with
  | refused | known => exact .same
  | inserted body target hb ht hp hk hf =>
    exact .fresh (newEffect a body target state origin) _ ⟨rfl,rfl⟩ (checkFresh_ok hf).1 rfl rfl

theorem Op.accepted (he : op.enqueues = true) (s : Store) : Accepted s.audit (op.exec s).audit := by
  unfold Op.exec
  cases op <;> first | (cases he; done) | rw [Op.apply,reply_snd]
  case enqueueEffect a =>
    rcases enqueueEffect_cases a with ⟨e,hr⟩ | ⟨state,origin,-,-,-,-,-,hq⟩
    · rw [hr]
      exact .same
    · exact hq.accepted
  case enqueueParticipationEffect v a =>
    rcases enqueueParticipationEffect_cases with ⟨e,hr⟩ | ⟨m,id,s',hr,-,-,-,-,-,-,hm,hq⟩
    · rw [hr]
      exact .same
    · rw [hr]
      cases hm with
      | present | added => exact hq.accepted

theorem Op.audited (ho : op.Retains) (s : Store) : Audited.Next s.audit (op.exec s).audit := by
  intro h
  by_cases he : op.enqueues = true
  · have ha := op.accepted he s
    revert ha
    generalize (op.exec s).audit = b
    rintro (_ | ⟨row,v,-,hf,hv,hs⟩)
    · exact ⟨h,List.prefix_rfl⟩
    · exact ⟨h.enter hf hv hs,List.prefix_append _ _⟩
  by_cases hw : Tbl.effects ∈ op.writes ∨ Tbl.evidence ∈ op.writes
  · unfold Op.exec
    cases op <;> first | (simp [Op.writes] at hw; done) | exact absurd rfl he | rw [Op.apply,reply_snd]
    case claimEffect e w a n l v =>
      have hc := claimEffect_claimed h.unique e w a n l v
      revert hc
      generalize Processing.claimEffect e w a n l v s = result
      rintro (_ | _ | ⟨row,hr,hq⟩)
      · exact ⟨h,List.prefix_rfl⟩
      · exact ⟨h,List.prefix_rfl⟩
      · refine ⟨h.update (m := fun _ _ => True) (lookup_some hr).1 (by simp [hq]) (fun r hr => ?_) rfl rfl,
          List.prefix_append _ _⟩
        exact .claim r w n l trivial (of_decide_eq_true hr)
    case releaseClaim e w n =>
      have hv : ((Op.releaseClaim e w n).exec s).evidence = s.evidence := Op.rows_eq (t := .evidence) (by simp [Op.writes]) s
      exact ⟨h.rewrites (releaseClaim_effects e w n s),[],(List.append_nil _).trans hv.symm⟩
    case transition e x t n v w =>
      have ht := transition_transitioned h.unique e x t n v w
      revert ht
      generalize Processing.transition e x t n v w s = result
      rintro (_ | _ | _ | ⟨row,hr,-,next,hv⟩)
      · exact ⟨h,List.prefix_rfl⟩
      · exact ⟨h,List.prefix_rfl⟩
      · exact ⟨h,List.prefix_rfl⟩
      · obtain ⟨-,he,-⟩ := validateTransition_ok.mp hv
        refine ⟨h.update (m := fun _ _ => True) (lookup_some hr).1 (by simp) (fun r hr => ?_) rfl rfl,
          List.prefix_append _ _⟩
        rw [← of_decide_eq_true hr] at he ⊢
        exact .transition r next n trivial he
    case recordEvidence => exact recordEvidence_audits _ _ _ _ _ s h
    case recoverExecuting n => exact recoverExecuting_audits n s h
    case closeChatThreads => exact closeChatThreads_audits _ _ _ s h
    case purge => exact absurd ho id
  · obtain ⟨he,hv⟩ := not_or.mp hw
    rw [Store.audit,show (op.exec s).effects = _ from Op.rows_eq he s,show (op.exec s).evidence = _ from Op.rows_eq hv s]
    exact ⟨h,List.prefix_rfl⟩

/-- What every operation that satisfies `P` does to the database, a run of such operations does. -/
theorem World.run_store {R : Store → Store → Prop} {P : Op → Prop} (hr : ∀ s, R s s)
    (ht : ∀ a b c, R a b → R b c → R a c) (hs : ∀ op s, P op → R s (op.exec s)) (w : World) {as : List Action}
    (h : ∀ a ∈ as, ∀ op, a.Performs op → P op) : R w.store (run World.step w as).store := by
  refine List.foldlRecOn (motive := fun v : World => R w.store v.store) as World.step (hr _) fun v hv a ha => ?_
  rcases World.step_store v with he | ⟨op,hop,he⟩
  · exact he ▸ hv
  · exact he ▸ ht _ _ _ hv (hs op v.store (h a ha op hop))

@[simp] theorem Action.retains_call : (Action.call op).Retains ↔ op.Retains :=
  ⟨fun h => h op (.call op),fun h _ hp => by cases hp; exact h⟩

theorem World.audited (w : World) {as : List Action} (h : ∀ a ∈ as, a.Retains) :
    Audited.Next w.store.audit (run World.step w as).store.audit :=
  World.run_store (R := fun s s' => Audited.Next s.audit s'.audit) (fun _ => .refl _) (fun _ _ _ => .trans _ _ _)
    (fun _ s ho => Op.audited ho s) w h

/-- In every run without retention the evidence of each effect reports a path of the state machine
that ends in the effect's state, there is no evidence of anything else, and none is ever rewritten. -/
theorem audit_trail (as bs : List Action) (h : ∀ a ∈ as ++ bs, a.Retains) :
    let s := (run World.step World.initial as).store
    let s' := (run World.step World.initial (as ++ bs)).store
    Audited s.audit ∧ s.evidence <+: s'.evidence := by
  obtain ⟨ha,hb⟩ := List.forall_mem_append.mp h
  have hempty : Audited World.initial.store.audit :=
    ⟨Table.Unique.nil,fun _ h => absurd h List.not_mem_nil,fun _ h => absurd h List.not_mem_nil⟩
  have hs := (World.initial.audited ha hempty).1
  refine ⟨hs,?_⟩
  rw [run_append]
  exact (World.audited _ hb hs).2

theorem greeting_trail :
    let s := (run World.step World.initial [.call (.enqueueEffect queuedGreeting),
      .call (.claimEffect "fx" "worker" "attempt" 2 100 none)]).store
    trail "fx" s.evidence = [.queued, .executing] ∧ Audited s.audit := by
  refine ⟨by decide +kernel,(audit_trail _ [] ?_).1⟩
  simp [Op.Retains]

structure EffectRow.LeaseSound (r : EffectRow) : Prop where
  whole : r.leaseOwner.isSome = r.leaseUntilMs.isSome
  executing : r.leaseOwner.isSome = true → r.state = .executing

def Store.LeasesSound (s : Store) : Prop := ∀ r ∈ s.effects, r.LeaseSound

/-- An effect that does not execute has no lease. -/
theorem EffectRow.LeaseSound.none {r : EffectRow} (h : r.LeaseSound) (hx : r.state ≠ .executing) :
    r.leaseOwner = none ∧ r.leaseUntilMs = none := by
  have ho : r.leaseOwner.isSome = false := Bool.eq_false_iff.mpr fun ho => hx (h.executing ho)
  exact ⟨by simpa using ho,by simpa [h.whole] using ho⟩

theorem RowStep.leaseSound {m : EffectRow → EffectState → Prop} {r r' : EffectRow} (h : RowStep m r r')
    (hr : r.LeaseSound) : r'.LeaseSound := by
  cases h with
  | keep | purge => exact ⟨hr.whole,hr.executing⟩
  | claim => exact ⟨rfl,fun _ => rfl⟩
  | release | recover => exact ⟨rfl,nofun⟩
  | transition next n hm he =>
    by_cases hx : r.state = .executing
    · exact ⟨by simp [transitionRow,hx],by simp [transitionRow,hx]⟩
    · exact ⟨by simp [transitionRow,hx,hr.whole],by simp [transitionRow,hx,hr.none hx]⟩
  | cancel n hm hu =>
    have hx : r.state ≠ .executing := by
      intro hx
      simp [unstarted,hx] at hu
    exact ⟨hr.whole,by simp [cancelRow,hr.none hx]⟩

/-- In every run, retention and crashes included, only executing effects are leased. -/
theorem leases_sound (as : List Action) : (run World.step World.initial as).store.LeasesSound := by
  have hw : (run World.step World.initial as).Reachable := ⟨as,rfl⟩
  refine hw.store_invariant (I := Store.LeasesSound) (fun _ h => absurd h List.not_mem_nil) fun s op h r' hr' => ?_
  cases he : op.enqueues with
  | false =>
    obtain ⟨r,hm,hstep⟩ := (Op.effects_rewrites he s).mem_new hr'
    exact hstep.leaseSound (h r hm)
  | true =>
    have ha := op.accepted he s
    replace hr' : r' ∈ (op.exec s).audit.1 := hr'
    revert ha hr'
    generalize (op.exec s).audit = b
    rintro (_ | ⟨row,v,⟨ho,hu⟩,-⟩) hr'
    · exact h r' hr'
    · rcases mem_concat.mp hr' with hm | rfl
      · exact h r' hm
      · exact ⟨by rw [ho,hu]; rfl,by simp [ho]⟩

end Yeoman.Processing
