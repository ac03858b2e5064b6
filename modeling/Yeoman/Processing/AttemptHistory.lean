import Yeoman.Processing.Lifecycle

/-! The attempt history of an effect: while it executes its newest attempt is open, and
when its outcome is unknown that is what its newest attempt says. -/
namespace Yeoman.Processing
open Library Table Txn

def lastAttempt? (t : List AttemptRow) (effectId : String) : Option AttemptRow :=
  (t.filter fun a => a.effectId = effectId).getLast?

/-- Operations as workers and the reconciler use them: effects start in the queue, only
a claim starts an execution, and retention is not part of the run. -/
def Op.Orderly : Op → Prop
  | .enqueueEffect a => a.state = EffectState.queued.name
  | .transition _ _ target .. => target ≠ EffectState.executing.name
  | .purge .. => False
  | _ => True

structure EffectRow.Tracked (t : List AttemptRow) (r : EffectRow) : Prop where
  executing : r.state = .executing → ∃ a, lastAttempt? t r.effectId = some a ∧ a.finishedMs = none
  unknown : r.state = .unknown → ∃ a, lastAttempt? t r.effectId = some a ∧ a.outcome = some .unknown

def Store.Tracked (s : Store) : Prop := ∀ r ∈ s.effects, r.Tracked s.attempts

theorem lastAttempt?_append_self {t : List AttemptRow} {a : AttemptRow} :
    lastAttempt? (t ++ [a]) a.effectId = some a := by
  simp [lastAttempt?]

variable {t : List AttemptRow} {a : AttemptRow} {effectId : String}

theorem lastAttempt?_append_ne
    (h : a.effectId ≠ effectId) : lastAttempt? (t ++ [a]) effectId = lastAttempt? t effectId := by
  simp [lastAttempt?,h]
variable {e : String} {nowMs : Int} {outcome : EffectState} {s' : Store} {op : Op}

theorem lastAttempt?_updateWhere {p : AttemptRow → Bool} {f : AttemptRow → AttemptRow}
    (hf : ∀ a, (f a).effectId = a.effectId) :
    lastAttempt? (updateWhere p f t) effectId =
      (lastAttempt? t effectId).map fun a => if p a then f a else a := by
  unfold lastAttempt? updateWhere
  rw [List.filter_map,List.getLast?_map]
  congr 2
  refine List.filter_congr fun a _ => ?_
  simp only [Function.comp_apply]
  split
  · rw [hf]
  · rfl

def closeAttempts (effectId : String) (nowMs : Int) (outcome : EffectState) (t : List AttemptRow) :
    List AttemptRow :=
  updateWhere (fun a => a.effectId = effectId && a.finishedMs = none)
    (fun a => { a with finishedMs := some nowMs, outcome := some outcome }) t

theorem lastAttempt?_effectId (h : lastAttempt? t effectId = some a) : a.effectId = effectId :=
  of_decide_eq_true (List.mem_filter.mp (List.mem_of_getLast? h)).2

private theorem lastAttempt?_closed :
    lastAttempt? (closeAttempts e nowMs outcome t) effectId = (lastAttempt? t effectId).map fun a =>
      if a.effectId = e && a.finishedMs = none then
        { a with finishedMs := some nowMs, outcome := some outcome } else a := by
  refine lastAttempt?_updateWhere ?_
  exact fun _ => rfl

theorem lastAttempt?_closeAttempts_ne (h : e ≠ effectId) :
    lastAttempt? (closeAttempts e nowMs outcome t) effectId = lastAttempt? t effectId := by
  rw [lastAttempt?_closed]
  cases hl : lastAttempt? t effectId with
  | none => rfl
  | some a =>
    have hne : a.effectId ≠ e := fun he => h (he.symm.trans (lastAttempt?_effectId hl))
    simp [hne]

theorem lastAttempt?_closeAttempts (hl : lastAttempt? t effectId = some a) (ho : a.finishedMs = none) : ∃ b,
    lastAttempt? (closeAttempts effectId nowMs outcome t) effectId = some b ∧ b.outcome = some outcome := by
  refine ⟨{ a with finishedMs := some nowMs, outcome := some outcome },?_,rfl⟩
  rw [lastAttempt?_closed,hl]
  simp [lastAttempt?_effectId hl,ho]

theorem lastAttempt?_closeAttempts_same (hl : lastAttempt? t effectId = some a) (ho : a.outcome = some outcome) : ∃ b,
    lastAttempt? (closeAttempts effectId nowMs outcome t) effectId = some b ∧ b.outcome = some outcome := by
  rw [lastAttempt?_closed,hl,Option.map_some]
  refine ⟨_,rfl,?_⟩
  split
  · rfl
  · exact ho

variable {s : Store} {r row : EffectRow}

/-- Rows move under an unchanged history as long as they do not start to execute or
become unknown. -/
theorem Store.Tracked.rewrites {m : EffectRow → EffectState → Prop} (h : s.Tracked)
    (he : Rewrites (RowStep m) s.effects s'.effects) (ha : s'.attempts = s.attempts)
    (hx : ∀ r, ¬ m r .executing) (hu : ∀ r, ¬ m r .unknown) : s'.Tracked := by
  intro r' hr'
  obtain ⟨r,hr,hs⟩ := he.mem_new hr'
  have ht := h r hr
  rw [ha]
  constructor
  · intro hst
    rw [hs.effectId]
    rcases hs.moves with hm | hm
    · exact ht.executing (hm.symm.trans hst)
    · exact absurd (hst ▸ hm) (hx r)
  · intro hst
    rw [hs.effectId]
    rcases hs.moves with hm | hm
    · exact ht.unknown (hm.symm.trans hst)
    · exact absurd (hst ▸ hm) (hu r)
variable {n : Int}

theorem Store.Tracked.append (h : s.Tracked) (he : s'.effects = s.effects ++ [row]) (ha : s'.attempts = s.attempts)
    (hx : row.state ≠ .executing) (hu : row.state ≠ .unknown) : s'.Tracked := by
  intro r hr
  rw [he] at hr
  rw [ha]
  rcases mem_concat.mp hr with hr | rfl
  · exact h r hr
  · exact ⟨fun hs => absurd hs hx,fun hs => absurd hs hu⟩

theorem Enqueued.tracked {a : EnqueueArgs} {origin : Origin} {r : Except Error String}
    (h : Enqueued a .queued origin s (r, s')) (hs : s.Tracked) : s'.Tracked := by
  cases h with
  | refused | known => exact hs
  | inserted body target hb ht hp hk hf =>
    refine hs.append rfl rfl ?_ ?_
    · rcases effectiveState_cases with h | h
      · exact fun hx => nomatch h.symm.trans hx
      · exact fun hx => nomatch h.symm.trans hx
    · rcases effectiveState_cases with h | h
      · exact fun hx => nomatch h.symm.trans hx
      · exact fun hx => nomatch h.symm.trans hx

theorem EffectRow.Tracked.of_last {t' : List AttemptRow} (h : r.Tracked t)
    (hl : lastAttempt? t' r.effectId = lastAttempt? t r.effectId) : r.Tracked t' :=
  ⟨fun hs => hl ▸ h.executing hs,fun hs => hl ▸ h.unknown hs⟩

theorem Store.Tracked.claimed (h : s.Tracked) (hu : s.EffectsUnique)
    (hr : s.effect? row.effectId = some row) (hq : row.state = .queued) {w a : String} {l : Int}
    {v : Option String} : (s.claimed row w a n l v).Tracked := by
  intro r' hr'
  obtain ⟨r,hm,rfl⟩ := mem_updateWhere.mp hr'
  by_cases he : r.effectId = row.effectId
  · have hrow : r = row := hu.eq_of_mem hm (lookup_some hr).1 he
    subst hrow
    rw [if_pos (by simp [hq])]
    exact ⟨fun _ => ⟨_,lastAttempt?_append_self,rfl⟩,nofun⟩
  · rw [if_neg (by simp [he])]
    exact (h r hm).of_last (lastAttempt?_append_ne (Ne.symm he))

theorem edge_unknown {a : EffectState} (h : Edge a .unknown) : a = .executing := by
  cases a <;> revert h <;> decide

theorem Store.Tracked.moved (h : s.Tracked) (hu : s.EffectsUnique)
    (hr : s.effect? row.effectId = some row) {next : EffectState} (he : Edge row.state next)
    (hx : next ≠ .executing) {v : EvidenceArg} {w : Option String} : (s.moved row next n v w).Tracked := by
  have hrow := h row (lookup_some hr).1
  intro r' hr'
  obtain ⟨r,hm,rfl⟩ := mem_updateWhere.mp hr'
  by_cases hid : r.effectId = row.effectId
  · have hrr : r = row := hu.eq_of_mem hm (lookup_some hr).1 hid
    subst hrr
    rw [if_pos (by simp)]
    refine ⟨fun hs => absurd hs hx,fun hs => ?_⟩
    have hn : next = .unknown := hs
    subst hn
    have hex := edge_unknown he
    obtain ⟨b,hb,ho⟩ := hrow.executing hex
    change ∃ c, lastAttempt? (if r.state = .executing then closeAttempts r.effectId n .unknown s.attempts
      else s.attempts) r.effectId = some c ∧ _
    rw [if_pos hex]
    exact lastAttempt?_closeAttempts hb ho
  · rw [if_neg (by simp [hid])]
    refine (h r hm).of_last ?_
    change lastAttempt? (if row.state = .executing then closeAttempts row.effectId n next s.attempts
      else s.attempts) r.effectId = _
    split
    · exact lastAttempt?_closeAttempts_ne (Ne.symm hid)
    · rfl

theorem recoverOne_tracked (n : Int) (e : String) :
    Keeps id (fun s s' => s.Tracked → s'.Tracked) (recoverOne n e) := by
  intro s h r' hr'
  obtain ⟨r,hm,rfl⟩ := mem_updateWhere.mp hr'
  have ht := h r hm
  by_cases hid : r.effectId = e
  · subst hid
    by_cases hx : r.state = .executing
    · rw [if_pos (by simp [hx])]
      obtain ⟨b,hb,ho⟩ := ht.executing hx
      exact ⟨nofun,fun _ => lastAttempt?_closeAttempts hb ho⟩
    · rw [if_neg (by simp [hx])]
      refine ⟨fun hs => absurd hs hx,fun hs => ?_⟩
      obtain ⟨b,hb,ho⟩ := ht.unknown hs
      exact lastAttempt?_closeAttempts_same hb ho
  · rw [if_neg (by simp [hid])]
    exact ht.of_last (lastAttempt?_closeAttempts_ne (Ne.symm hid))

theorem recoverExecuting_tracked : Keeps id (fun s s' => s.Tracked → s'.Tracked) (recoverExecuting n) := by
  have hr : ∀ s : Store, s.Tracked → s.Tracked := fun _ h => h
  refine .atomically hr (.frame_bind hr .read fun s => .bind_pure ?_)
  exact .each hr (fun _ _ _ hab hbc h => hbc (hab h)) (recoverOne_tracked n)

/-- Only a cancellation moves an effect without a word in its history. -/
theorem Op.attempts_mem_writes {x : EffectState} (hm : op.moves r x)
    (hx : x ≠ .cancelled) : Tbl.attempts ∈ op.writes := by
  cases op
  case claimEffect => simp [Op.writes]
  case transition => simp [Op.writes]
  case recoverExecuting => simp [Op.writes]
  case closeChatThreads => exact absurd hm hx
  all_goals exact hm.elim

/-- Operations of a run without retention keep the history in step with the states. -/
theorem Op.tracked (ho : op.Orderly) (hu : s.EffectsUnique) (h : s.Tracked) : (op.exec s).Tracked := by
  by_cases hw : Tbl.attempts ∈ op.writes ∨ op.enqueues = true
  · unfold Op.exec
    cases op <;> first | (simp [Op.writes,Op.enqueues] at hw; done) | rw [Op.apply,reply_snd]
    case enqueueEffect a =>
      rcases enqueueEffect_cases a with ⟨e,hr⟩ | ⟨state,origin,-,-,-,hst,-,hq⟩
      · rw [hr]
        exact h
      · rw [ho,EffectState.ofName?_name] at hst
        cases hst
        exact hq.tracked h
    case enqueueParticipationEffect v a =>
      rcases enqueueParticipationEffect_cases with ⟨e,hr⟩ | ⟨m,id,s',hr,-,-,-,-,-,-,hm,hq⟩
      · rw [hr]
        exact h
      · rw [hr]
        refine hq.tracked ?_
        cases hm with
        | present | added => exact h
    case claimEffect e w a n l v =>
      have hc := claimEffect_claimed hu e w a n l v
      revert hc
      generalize Processing.claimEffect e w a n l v s = result
      rintro (_ | _ | ⟨row,hr,hq⟩)
      · exact h
      · exact h
      · obtain ⟨-,rfl⟩ := lookup_some hr
        exact h.claimed hu hr hq
    case transition e x t n v w =>
      have ht := transition_transitioned hu e x t n v w
      revert ht
      generalize Processing.transition e x t n v w s = result
      rintro (_ | _ | _ | ⟨row,hr,-,next,hv⟩)
      · exact h
      · exact h
      · exact h
      · obtain ⟨hn,he,-⟩ := validateTransition_ok.mp hv
        obtain ⟨-,rfl⟩ := lookup_some hr
        refine h.moved hu hr he (fun hx => ho ?_)
        rw [EffectState.ofName?_eq_some hn,hx]
    case recoverExecuting n => exact recoverExecuting_tracked s h
    case purge => exact absurd ho id
  · have hw := not_or.mp hw
    have ha : (op.exec s).attempts = s.attempts := Op.rows_eq hw.1 s
    have he : op.enqueues = false := Bool.not_eq_true _ ▸ hw.2
    exact h.rewrites (Op.effects_rewrites he s) ha (fun r hm => hw.1 (Op.attempts_mem_writes hm (by decide)))
      fun r hm => hw.1 (Op.attempts_mem_writes hm (by decide))

end Yeoman.Processing
