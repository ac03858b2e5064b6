import Yeoman.Processing.ProbePlans

/-! The ticks of one reconciliation service. They run one after another, and the candidates
of a tick run side by side with each other and with all other workers. -/
namespace Yeoman.Processing
open Library Table Runs

/-- One step of a service that only ticks: an operation of any other worker, which leaves the
probes alone, the start of a tick, the look of a candidate up to its await, the result of its
probe, a cancellation of the await, or a crash. -/
inductive TickAction where
  | call (op : Op) (apart : Tbl.probes ∉ op.writes)
  | tick (nowMs : Int)
  | look (job : Nat) (late : List (String × String))
  | settle (job : Nat) (finishedMs nowMs : Int) (result : ProbeResult)
  | cancel (job : Nat) (nowMs : Int)
  | crash

def ReconcileJob.effectId? : ReconcileJob → Option String
  | .candidate effectId .. => some effectId
  | .probing pending => some pending.effectId
  | .done => none

namespace ReconcileWorld
variable (config : ReconciliationConfig)

def applyResult (w : ReconcileWorld) (job : Nat) (finishedMs nowMs : Int) (result : ProbeResult) : ReconcileWorld :=
  match w.jobs[job]? with
  | some (.probing pending) =>
    { store := (settleCandidate config pending result finishedMs nowMs w.store).2
      jobs := w.jobs.set job .done }
  | _ => w

def tickStep (w : ReconcileWorld) : TickAction → ReconcileWorld
  | .call op _ => { w with store := op.exec w.store }
  | .tick nowMs => w.tick nowMs
  | .look job late => w.look config job late
  | .settle job finishedMs nowMs result => w.applyResult config job finishedMs nowMs result
  | .cancel job nowMs => w.cancel config job nowMs
  | .crash => { w with jobs := [] }

def lookedAt (w : ReconcileWorld) (job : Nat) : Option (String × Int) :=
  match w.jobs[job]? with
  | some (.candidate effectId nowMs _) => some (effectId, nowMs)
  | _ => none

/-- A tick starts when the candidates of the earlier ones have returned, and a look past the
deadline of an unknown effect finds no open plan, or one that this worker has leased. -/
def Timely (w : ReconcileWorld) : TickAction → Prop
  | .tick _ => ∀ job ∈ w.jobs, job.effectId? = none
  | .look job _ => ∀ c ∈ w.lookedAt job, OnTime config c.1 c.2 w.store
  | _ => True

instance decidableTimely (w : ReconcileWorld) : (a : TickAction) → Decidable (w.Timely config a)
  | .tick _ => inferInstanceAs (Decidable (∀ job ∈ w.jobs, _ = none))
  | .look job _ => inferInstanceAs (Decidable (∀ c ∈ w.lookedAt job, OnTime config c.1 c.2 w.store))
  | .call .. | .settle .. | .cancel .. | .crash => isTrue trivial

def Leaves (w : ReconcileWorld) (a : TickAction) (effectId : String) : Prop :=
  (∀ op apart, a ≠ .call op apart) ∧ w.store.effectState? effectId = some .unknown ∧
    (w.tickStep config a).store.effectState? effectId ≠ some .unknown

def jobEffect (jobs : List ReconcileJob) (i : Nat) : Option String := jobs[i]?.bind ReconcileJob.effectId?

/-- What a candidate does with the store before its next await, or to its end: it writes the plans
of its own effect only, and a timely step that takes the effect out of `unknown` ends the job and
leaves no plan open. -/
structure Worked (w : ReconcileWorld) (a : TickAction) (effectId : String) (m : Store) (next : ReconcileJob) : Prop where
  plans : ∃ t, Planning (max 1 config.maxProbes) effectId w.store.probes t ∧ Rewrites (ProbeStepOf effectId) t m.probes
  leased : ∀ p, next = .probing p → Leased config.workerId m.probes p
  others : ∀ other, other ≠ effectId → m.effectState? other = w.store.effectState? other
  settles : w.Timely config a → w.store.effectState? effectId = some .unknown →
    m.effectState? effectId ≠ some .unknown → next = .done ∧ NoOpenProbe effectId m.probes

/-- What a step of the service makes of its world. A probe under way is taken to hold its lease. -/
inductive Ticked (w : ReconcileWorld) : TickAction → ReconcileWorld → Prop
  | idle {a : TickAction} : Ticked w a w
  | called {op : Op} {apart : Tbl.probes ∉ op.writes} {m : Store} (hp : m.probes = w.store.probes) :
      Ticked w (.call op apart) { w with store := m }
  | began {nowMs : Int} {r : Except Error (List String)} {m : Store} (hb : beginTick nowMs w.store = (r, m)) :
      Ticked w (.tick nowMs)
        { store := m, jobs := w.jobs ++ (r.toOption.getD []).map fun e => .candidate e nowMs false }
  | worked {a : TickAction} {job : Nat} {current next : ReconcileJob} {effectId : String} {m : Store}
      (hj : w.jobs[job]? = some current) (hc : current.effectId? = some effectId)
      (hn : ∀ e, next.effectId? = some e → e = effectId) (hp : Planned (max 1 config.maxProbes) m.probes)
      (hw : (∀ p, current = .probing p → Leased config.workerId w.store.probes p) →
        Worked config w a effectId m next) : Ticked w a { store := m, jobs := w.jobs.set job next }
  | crashed : Ticked w .crash { w with jobs := [] }
variable {w : ReconcileWorld} {job : Nat} {effectId e : String} {nowMs : Int}
  {jobs : List ReconcileJob} {current : ReconcileJob} {a : TickAction}

theorem effectState?_congr {s m : Store} (h : m.effects = s.effects) (effectId : String) :
    m.effectState? effectId = s.effectState? effectId := by
  unfold Store.effectState? Store.effect?
  rw [h]

private theorem done_effectId : ∀ e, ReconcileJob.done.effectId? = some e → e = effectId := nofun

private theorem done_leased {t : List ProbeRow} :
    ∀ p, ReconcileJob.done = .probing p → Leased config.workerId t p := nofun

theorem look_ticked (h : Planned (max 1 config.maxProbes) w.store.probes) (late : List (String × String)) :
    Ticked config w (.look job late) (w.look config job late) := by
  unfold ReconcileWorld.look
  split
  next e n f hj =>
    have hlook := lookAtCandidate_looked h e n f late
    generalize lookAtCandidate config e n f late w.store = out at hlook ⊢
    obtain ⟨r,m⟩ := out
    have hpl := hlook.planned h
    rcases hlook with ⟨hr,hp,hs,he⟩ | ⟨hp,hs,he,hid,hle⟩ | ⟨hr,hs,ho,hc⟩
    · split
      next hm => exact absurd (congrArg Prod.fst hm) (hr _)
      next hm =>
        cases hm
        refine .worked hj rfl done_effectId hpl fun _ =>
          ⟨⟨_,hp,hs⟩,done_leased config,fun o _ => effectState?_congr he o,fun _ hu hn => ?_⟩
        exact absurd ((effectState?_congr he e).trans hu) hn
    · refine .worked hj rfl (fun _ he => (Option.some.inj he).symm.trans hid) hpl fun _ =>
        ⟨⟨_,hp,hs⟩,fun _ hq => ?_,fun o _ => effectState?_congr he o,fun _ hu hn => ?_⟩
      · cases hq
        exact hle
      · exact absurd ((effectState?_congr he e).trans hu) hn
    · split
      next hm => exact absurd (congrArg Prod.fst hm) (hr _)
      next hm =>
        cases hm
        refine .worked hj rfl done_effectId hpl fun _ =>
          ⟨⟨_,.found,hs⟩,done_leased config,ho,fun ht hu _ => ⟨rfl,hc (ht (e,n) ?_) hu⟩⟩
        rw [lookedAt,hj]
        rfl
  · exact .idle

theorem tickStep_ticked (h : Planned (max 1 config.maxProbes) w.store.probes) (a : TickAction) :
    Ticked config w a (w.tickStep config a) := by
  cases a with
  | call op apart => exact .called (Op.rows_eq apart w.store)
  | tick nowMs =>
    rw [tickStep,ReconcileWorld.tick]
    split
    next hb => exact .began hb
    next hb =>
      rw [← List.append_nil w.jobs]
      exact .began hb
  | look job late => exact look_ticked config h late
  | settle job finishedMs nowMs result =>
    rw [tickStep,applyResult]
    split
    next p hj =>
      have hset := @settleCandidate_settled config _ _ h p result finishedMs nowMs
      refine .worked hj rfl done_effectId (h.rewrites hset.1) fun hl => ?_
      obtain ⟨hs,hclosed⟩ := hset.2.2 (hl p rfl)
      exact ⟨⟨_,.found,hs⟩,done_leased config,hset.2.1,fun _ _ _ => ⟨rfl,hclosed⟩⟩
    · exact .idle
  | cancel job nowMs =>
    rw [tickStep,ReconcileWorld.cancel]
    split
    next p hj =>
      refine .worked hj rfl done_effectId (h.rewrites (finishProbe_rewrites _ _ _ _ _ w.store)) fun hl => ?_
      obtain ⟨row,hm,hid,he,-,-⟩ := hl p rfl
      have hs := finishProbe_of h.ids hm ProbeOutcome.inconclusive.name config.workerId nowMs (some "cancelled")
      rw [hid,he] at hs
      exact ⟨⟨_,.found,hs⟩,done_leased config,fun _ _ => rfl,fun _ hu hn => absurd hu hn⟩
    · exact .idle
  | crash => exact .crashed

/-- The plans are in order, whatever the service and the other workers do. -/
theorem planned_step (h : Planned (max 1 config.maxProbes) w.store.probes) (a : TickAction) :
    Planned (max 1 config.maxProbes) (w.tickStep config a).store.probes := by
  have hcase := tickStep_ticked config h a
  generalize w.tickStep config a = w' at hcase ⊢
  cases hcase with
  | idle | crashed => exact h
  | called hp => exact hp ▸ h
  | @began nowMs r m hb =>
    have ht := beginTick_planned (le_max_left 1 config.maxProbes) nowMs w.store h
    rwa [hb] at ht
  | worked hj hc hn hp hw => exact hp

/-- The plans are in order, ids name one effect, no two jobs work on one effect, and the row of
every probe under way is leased. -/
structure Serial (w : ReconcileWorld) : Prop where
  planned : Planned (max 1 config.maxProbes) w.store.probes
  unique : w.store.EffectsUnique
  apart : ∀ i j e, jobEffect w.jobs i = some e → jobEffect w.jobs j = some e → i = j
  leased : ∀ (i : Nat) (p : PendingProbe), w.jobs[i]? = some (.probing p) → Leased config.workerId w.store.probes p

structure Quiet (w : ReconcileWorld) (effectId : String) : Prop where
  closed : NoOpenProbe effectId w.store.probes
  idle : ∀ i, jobEffect w.jobs i ≠ some effectId
variable {i : Nat} {next : ReconcileJob}

theorem jobEffect_set (h : jobEffect (jobs.set job next) i = some e) :
    (i = job ∧ next.effectId? = some e) ∨ (i ≠ job ∧ jobEffect jobs i = some e) := by
  unfold jobEffect at h ⊢
  rw [List.getElem?_set] at h
  split at h
  next hi =>
    split at h
    · exact .inl ⟨hi.symm,h⟩
    · cases h
  next hi =>
    exact .inr ⟨Ne.symm hi,h⟩

theorem tickStep_via (w : ReconcileWorld) (a : TickAction) : Via (fun _ => True) w.store (w.tickStep config a).store := by
  cases a with
  | call op apart => exact Relation.ReflTransGen.single ⟨op,trivial,rfl⟩
  | tick nowMs => exact Via.mono (fun _ _ => trivial) _ _ (w.tick_calm nowMs)
  | look job late => exact Via.mono (fun _ _ => trivial) _ _ (w.look_calm config job)
  | settle job finishedMs nowMs result =>
    change Via _ w.store (w.applyResult config job finishedMs nowMs result).store
    unfold applyResult
    split
    · exact Via.mono (fun _ _ => trivial) _ _ (settleCandidate_orderly config w.store)
    · exact Via.refl _
  | cancel job nowMs => exact Via.mono (fun _ _ => trivial) _ _ (w.cancel_calm config job nowMs)
  | crash => exact Via.refl _

theorem jobEffect_append (hd : ∀ job ∈ jobs, job.effectId? = none) {ids : List String}
    (h : jobEffect (jobs ++ ids.map fun id => .candidate id nowMs false) i = some e) :
    jobs.length ≤ i ∧ ids[i - jobs.length]? = some e := by
  unfold jobEffect at h
  by_cases hi : i < jobs.length
  · rw [List.getElem?_append_left hi] at h
    obtain ⟨job,hj,he⟩ := Option.bind_eq_some_iff.mp h
    rw [hd job (List.mem_of_getElem? hj)] at he
    cases he
  · rw [List.getElem?_append_right (not_lt.mp hi),List.getElem?_map] at h
    obtain ⟨job,hj,he⟩ := Option.bind_eq_some_iff.mp h
    obtain ⟨id,hid,rfl⟩ := Option.map_eq_some_iff.mp hj
    cases he
    exact ⟨not_lt.mp hi,hid⟩

theorem jobEffect_of (hj : jobs[job]? = some current) (hc : current.effectId? = some e) : jobEffect jobs job = some e := by
  rw [jobEffect,hj]
  exact hc

/-- Timely steps keep the jobs apart and the probes under way leased. -/
theorem Serial.step (h : w.Serial config) (ht : w.Timely config a) : (w.tickStep config a).Serial config := by
  have hu := (w.tickStep_via config a).effectsUnique h.unique
  have hpl := planned_step config h.planned a
  have hcase := tickStep_ticked config h.planned a
  generalize w.tickStep config a = w' at hu hpl hcase ⊢
  cases hcase with
  | idle => exact h
  | called hp => exact ⟨hpl,hu,h.apart,fun i p hi => hp ▸ h.leased i p hi⟩
  | @began nowMs r m hb =>
    refine ⟨hpl,hu,fun i j e hi hj => ?_,fun i p hi => ?_⟩
    · obtain ⟨hli,hi⟩ := jobEffect_append ht hi
      obtain ⟨hlj,hj⟩ := jobEffect_append ht hj
      have hn : (r.toOption.getD []).Nodup := by
        cases r with
        | error err => exact List.nodup_nil
        | ok ids => exact ((beginTick_begun h.unique hb e).2.2 ids rfl).1
      have hij := (List.getElem?_inj (List.getElem?_eq_some_iff.mp hi).1 hn).mp (hi.trans hj.symm)
      omega
    · rcases List.mem_append.mp (List.mem_of_getElem? hi) with hm | hm
      · cases ht _ hm
      · obtain ⟨id,-,he⟩ := List.mem_map.mp hm
        cases he
  | @worked _ job current next effectId m hj hc hn hp hw =>
    have hown := jobEffect_of hj hc
    obtain ⟨⟨t,hplan,hs⟩,hl,-,-⟩ := hw fun p hp => h.leased job p (hp ▸ hj)
    have hback (i : Nat) (e : String) (hi : jobEffect (w.jobs.set job next) i = some e) :
        jobEffect w.jobs i = some e := by
      rcases jobEffect_set hi with ⟨rfl,he⟩ | ⟨-,he⟩
      · rw [hn e he]
        exact hown
      · exact he
    refine ⟨hpl,hu,fun i j e hi hj => h.apart i j e (hback i e hi) (hback j e hj),fun i p hi => ?_⟩
    rw [List.getElem?_set] at hi
    split at hi
    · split at hi
      · exact hl p (Option.some.inj hi)
      · cases hi
    next hne =>
      have hold := h.leased i p hi
      refine Leased.rewrites ?_ hs fun he => hne (h.apart job i effectId hown (jobEffect_of hi (congrArg some he)))
      cases hplan with
      | found => exact hold
      | opened row => exact hold.append
  | crashed => exact ⟨hpl,hu,fun i j e hi => (nomatch hi),fun i p hi => (nomatch hi)⟩

theorem serial_initial : Serial config {} :=
  ⟨.nil,Table.Unique.nil,fun _ _ _ hi => (nomatch hi),fun _ _ hi => (nomatch hi)⟩

/-- A timely step of the service that takes an effect out of `unknown` settles it. -/
theorem Serial.leaves (h : w.Serial config) (ht : w.Timely config a)
    (hl : w.Leaves config a effectId) : (w.tickStep config a).Quiet effectId := by
  obtain ⟨hcall,hs,hn⟩ := hl
  have hcase := tickStep_ticked config h.planned a
  generalize w.tickStep config a = w' at hn hcase ⊢
  cases hcase with
  | idle | crashed => exact absurd hs hn
  | called hp => exact absurd rfl (hcall _ _)
  | began hb => exact absurd ((beginTick_begun h.unique hb effectId).1 hs) hn
  | @worked _ job current next e m hj hc hnext hp hw =>
    obtain ⟨-,-,ho,hset⟩ := hw fun p hp => h.leased job p (hp ▸ hj)
    by_cases he : effectId = e
    · subst he
      obtain ⟨rfl,hclosed⟩ := hset ht hs hn
      refine ⟨hclosed,fun i hi => ?_⟩
      -- the job was the only one on the effect
      rcases jobEffect_set hi with ⟨-,he⟩ | ⟨hne,he⟩
      · cases he
      · exact hne (h.apart i job effectId he (jobEffect_of hj hc))
    · exact absurd ((ho effectId he).trans hs) hn

theorem Quiet.step (h : w.Serial config) (hq : w.Quiet effectId)
    (hn : (w.tickStep config a).store.effectState? effectId ≠ some .unknown) :
    (w.tickStep config a).Quiet effectId := by
  have hcase := tickStep_ticked config h.planned a
  generalize w.tickStep config a = w' at hn hcase ⊢
  cases hcase with
  | idle => exact hq
  | called hp => exact ⟨hp ▸ hq.closed,hq.idle⟩
  | crashed => exact ⟨hq.closed,fun i hi => nomatch hi⟩
  | @began nowMs r m hb =>
    obtain ⟨-,hclosed,hids⟩ := beginTick_begun h.unique hb effectId
    refine ⟨hclosed hn hq.closed,fun i hi => ?_⟩
    obtain ⟨job,hj,he⟩ := Option.bind_eq_some_iff.mp hi
    rcases List.mem_append.mp (List.mem_of_getElem? hj) with hm | hm
    · obtain ⟨k,hk⟩ := List.mem_iff_getElem?.mp hm
      exact hq.idle k (jobEffect_of hk he)
    · obtain ⟨id,hid,rfl⟩ := List.mem_map.mp hm
      cases he
      cases r with
      | error err => cases hid
      | ok ids => exact hn ((hids ids rfl).2 _ hid)
  | @worked _ job current next e m hj hc hnext hp hw =>
    obtain ⟨⟨t,hplan,hs⟩,-,-,-⟩ := hw fun p hp => h.leased job p (hp ▸ hj)
    have hne : e ≠ effectId := fun he => hq.idle job (jobEffect_of hj (he ▸ hc))
    refine ⟨(hplan.noOpen hne hq.closed).rewrites (ProbeStepOf.rewrites hs),fun i hi => ?_⟩
    rcases jobEffect_set hi with ⟨-,he⟩ | ⟨-,he⟩
    · exact hne (hnext _ he).symm
    · exact hq.idle i he

theorem Quiet.run (h : w.Serial config) (hq : w.Quiet effectId)
    {as : List TickAction} (ht : Along (tickStep config) (Timely config) w as)
    (hn : ∀ bs, bs <+: as → (run (tickStep config) w bs).store.effectState? effectId ≠ some .unknown) :
    (run (tickStep config) w as).Quiet effectId := by
  induction as generalizing w with
  | nil => exact hq
  | cons a as ih =>
    refine ih (h.step config ht.1) (hq.step config h ?_) ht.2 fun bs hb => ?_
    · exact hn [a] ⟨as,rfl⟩
    · exact hn (a :: bs) (List.cons_prefix_cons.mpr ⟨rfl,hb⟩)

end ReconcileWorld

open ReconcileWorld

/-- In every run of ticks, with any clocks, probe results and work of others, the probe rows
of an effect are numbered from one without a gap and are at most `max(1, max_probes)`. When
every tick starts behind the earlier ones, and no look past a deadline finds an open plan
without this worker's lease, an effect that the service took out of `unknown` has no open
probe row until it is unknown again. -/
theorem probes_closed_when (config : ReconciliationConfig) :
    (∀ as effectId, ∃ n ≤ max 1 config.maxProbes,
      probeNumbers effectId (run (tickStep config) {} as).store.probes =
        (List.range n).map fun i : Nat => (i : Int) + 1) ∧
    ∀ as a bs effectId, Along (tickStep config) (Timely config) {} (as ++ a :: bs) →
      Leaves config (run (tickStep config) {} as) a effectId →
      (∀ cs, cs <+: bs →
        (run (tickStep config) {} (as ++ a :: cs)).store.effectState? effectId ≠ some .unknown) →
      NoOpenProbe effectId (run (tickStep config) {} (as ++ a :: bs)).store.probes := by
  constructor
  · intro as effectId
    have hp : Planned (max 1 config.maxProbes) (run (tickStep config) {} as).store.probes :=
      run_invariant (I := fun w : ReconcileWorld => Planned (max 1 config.maxProbes) w.store.probes)
        (fun _ a h => planned_step config h a) .nil as
    exact ⟨_,hp.bounded effectId,hp.numbered effectId⟩
  · intro as a bs effectId ht hl hn
    obtain ⟨hta,htb⟩ := along_append.mp ht
    have hs : Serial config (run (tickStep config) {} as) :=
      hta.invariant (fun _ _ h ha => h.step config ha) (serial_initial config)
    have hq := hs.leaves config htb.1 hl
    rw [run_append,run_cons]
    refine (hq.run config (hs.step config htb.1) htb.2 fun cs hcs => ?_).closed
    have h := hn cs hcs
    rwa [run_append,run_cons] at h

def unproven : List TickAction :=
  [.call (.enqueueEffect
      { effectId := "e1", operationKey := "op:e1", payload := .typed (.text "hello" none), nowMs := 1000 })
      (by simp [Op.writes]),
   .call (.claimEffect "e1" "w1" "a1" 1000 30000 none) (by simp [Op.writes]),
   .call (.transition "e1" ["executing"] "unknown" 1100 .none (some "w1")) (by simp [Op.writes])]

def probedRun : List TickAction := unproven ++ [.tick 6400, .look 0 []]

def confirming : TickAction := .settle 0 6500 6500 { outcome := .confirmed }

private theorem leaves_of_eval {as : List TickAction} {a : TickAction} (ha : ∀ op apart, a ≠ .call op apart)
    {state : EffectState} (hu : (run (tickStep {}) {} as).store.effectState? "e1" = some .unknown)
    (hs : (run (tickStep {}) {} (as ++ [a])).store.effectState? "e1" = some state) (hn : state ≠ .unknown) :
    Leaves {} (run (tickStep {}) {} as) a "e1" := by
  rw [run_append,run_cons,run_nil] at hs
  refine ⟨ha,hu,?_⟩
  rw [hs]
  exact fun h => hn (Option.some.inj h)

theorem confirmed_probe_closed :
    Leaves {} (run (tickStep {}) {} probedRun) confirming "e1" ∧
    NoOpenProbe "e1" (run (tickStep {}) {} (probedRun ++ [confirming])).store.probes := by
  have hs : (run (tickStep {}) {} (probedRun ++ [confirming])).store.effectState? "e1" = some .sent := by
    decide +kernel
  have hl : Leaves {} (run (tickStep {}) {} probedRun) confirming "e1" :=
    leaves_of_eval (fun _ _ h => nomatch h) (by decide +kernel) hs (by decide)
  refine ⟨hl,(probes_closed_when {}).2 probedRun confirming [] "e1" (by decide +kernel) hl fun cs hcs => ?_⟩
  rw [List.prefix_nil.mp hcs,hs]
  exact fun h => nomatch h

def plannedThenLate : List TickAction := unproven ++ [.tick 2000, .look 0 [], .tick 700000]

/-- The service escalates the effect and leaves its plan open. -/
theorem escalated_with_open_plan :
    Leaves {} (run (tickStep {}) {} plannedThenLate) (.look 1 []) "e1" ∧
    (run (tickStep {}) {} (plannedThenLate ++ [.look 1 []])).store.effectState? "e1" =
      some .unknownNonrepeatable ∧
    ¬ NoOpenProbe "e1" (run (tickStep {}) {} (plannedThenLate ++ [.look 1 []])).store.probes := by
  have hs : (run (tickStep {}) {} (plannedThenLate ++ [.look 1 []])).store.effectState? "e1" =
      some .unknownNonrepeatable := by decide +kernel
  have ho : (run (tickStep {}) {} (plannedThenLate ++ [.look 1 []])).store.openProbe? "e1" ≠ none := by
    decide +kernel
  exact ⟨leaves_of_eval (fun _ _ h => nomatch h) (by decide +kernel) hs (by decide),hs,
    fun hn => ho (openProbe?_none.mpr hn)⟩

end Yeoman.Processing
