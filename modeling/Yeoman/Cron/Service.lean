import Yeoman.Library.Runs
import Yeoman.Library.Table

/-! The cron service: one timer task that sleeps until the next due time and then executes the due jobs
one after the other. An action is what happens between two awaits. -/
namespace Yeoman.Cron
open Library Table Runs

inductive CronSchedule where
  | atTime (atMs : Option Int)
  | every (everyMs : Option Int)
  | cron (expr : Option String)

/-- `calls` counts how often the job was handed to `on_job` for its present due time. -/
structure CronJob where
  id : String
  enabled : Bool
  schedule : CronSchedule
  (nextRunAtMs lastRunAtMs : Option Int)
  deleteAfterRun : Bool
  calls : Nat := 0

/-- How a call of `on_job` ends: it returns, or raises one of three kinds of exception. -/
inductive Outcome where
  | ok
  | deferred (retryAtMs : Int)
  | skipped
  | error
deriving DecidableEq

/-- What a pass of the timer waits for. -/
inductive Stage where
  | onJob
  | alerting
  | approvals
deriving DecidableEq

structure Pass where
  (nowMs startMs : Int)
  jobId : String
  stage : Stage
  rest : List String

inductive TimerTask where
  | asleep (wakeMs : Int)
  | awake (pass : Pass)

/-- The service and its file. `doomed` are passes whose task was cancelled and has not come to its next
await; `cancelledCalls` counts the calls of `on_job` that ended there. -/
structure CronService where
  jobs : List CronJob := []
  saved : List CronJob := []
  running : Bool := false
  timer : Option TimerTask := none
  doomed : List Pass := []
  cancelledCalls : Nat := 0

/-- How an await of a pass ends: the outcome of the call, whether an alert or the approvals are awaited next. -/
structure Resumption where
  nowMs : Int
  outcome : Outcome := .ok
  alert : Bool := false
  approvals : Bool := false

inductive CronAction where
  | wake (r : Resumption)
  | resume (doomed : Bool) (r : Resumption)
  | raiseCancelled
  | addJob (jobId : String) (schedule : CronSchedule) (deleteAfterRun : Bool) (nowMs : Int)
  | removeJob (jobId : String)
  | enableJob (jobId : String) (enabled : Bool) (nowMs : Int)
  | start (newProcess : Bool) (nowMs : Int)
  | stop

variable (croniter : String → Int → Option Int)

def computeNextRun (schedule : CronSchedule) (nowMs : Int) : Option Int :=
  match schedule with
  | .atTime atMs => atMs.filter fun t => t ≠ 0 && nowMs < t
  | .every everyMs => (everyMs.filter (0 < ·)).map (nowMs + ·)
  | .cron expr => (expr.filter (· ≠ "")).bind (croniter · nowMs)

def CronJob.due? (j : CronJob) : Option Int := if j.enabled then j.nextRunAtMs.filter (· ≠ 0) else none

def CronJob.settled (p : Pass) (outcome : Outcome) (nowMs : Int) (j : CronJob) : Option CronJob :=
  match outcome, j.schedule with
  | .deferred retryAtMs, _ => some { j with lastRunAtMs := some p.startMs, nextRunAtMs := some retryAtMs, calls := 0 }
  | _, .atTime _ =>
    if j.deleteAfterRun then none
    else some { j with lastRunAtMs := some p.startMs, enabled := false, nextRunAtMs := none, calls := 0 }
  | _, schedule =>
    some { j with lastRunAtMs := some p.startMs, nextRunAtMs := computeNextRun croniter schedule nowMs, calls := 0 }

def CronJob.stale (nowMs : Int) (j : CronJob) : Bool :=
  match j.schedule with
  | .atTime atMs =>
    let ran := (j.lastRunAtMs.filter (· ≠ 0)).isSome
    (!j.enabled && ran) || (j.enabled && (atMs.filter fun t => t ≠ 0 && t < nowMs - 7 * 24 * 3600 * 1000).isSome && !ran)
  | _ => false

def newJob (jobId : String) (schedule : CronSchedule) (deleteAfterRun : Bool) (nowMs : Int) : CronJob :=
  ⟨jobId,true,schedule,computeNextRun croniter schedule nowMs,none,deleteAfterRun,0⟩

def startJobs (nowMs : Int) (jobs : List CronJob) : List CronJob :=
  (jobs.filter fun j => !j.stale nowMs).map fun j =>
    if j.enabled then { j with nextRunAtMs := computeNextRun croniter j.schedule nowMs, calls := 0 } else j

namespace CronService

def nextWake (s : CronService) : Option Int := (s.jobs.filterMap CronJob.due?).min?

def save (s : CronService) : CronService := { s with saved := s.jobs }

def arm (s : CronService) : CronService :=
  { s with
    timer := if s.running then s.nextWake.map .asleep else none
    doomed := s.doomed ++ match s.timer with
      | some (.awake p) => [p]
      | _ => [] }

def next (s : CronService) (p : Pass) (r : Resumption) : CronService × Option Pass :=
  match p.rest with
  | id :: rest =>
    ({ s with jobs := updateWhere (fun j => j.id = id) (fun j => { j with calls := j.calls + 1 }) s.jobs },
      some { p with startMs := r.nowMs, jobId := id, stage := .onJob, rest := rest })
  | [] => (s, if r.approvals then some { p with stage := .approvals } else none)

def settle (s : CronService) (p : Pass) (outcome : Outcome) (nowMs : Int) : CronService :=
  { s with jobs := s.jobs.filterMap fun j => if j.id = p.jobId then j.settled croniter p outcome nowMs else some j }

def resumed (s : CronService) (p : Pass) (r : Resumption) : CronService × Option Pass :=
  match p.stage with
  | .onJob =>
    if r.alert ∧ (r.outcome = .ok ∨ r.outcome = .error) then (s, some { p with stage := .alerting })
    else (s.settle croniter p r.outcome r.nowMs).next p r
  -- what follows an alert is the same for both outcomes that have one
  | .alerting => (s.settle croniter p .ok r.nowMs).next p r
  | .approvals => (s, none)

def settlePass (sp : CronService × Option Pass) (back : Pass → CronService → CronService) : CronService :=
  match sp.2 with
  | some p => back p sp.1
  | none => sp.1.save.arm

def backAwake (p : Pass) (s : CronService) : CronService := { s with timer := some (.awake p) }

def dueJobs (s : CronService) (nowMs : Int) : List String :=
  (s.jobs.filter fun j => j.due?.any (· ≤ nowMs)).map CronJob.id

def step (s : CronService) : CronAction → CronService
  | .wake r =>
    match s.timer with
    | some (.asleep _) =>
      settlePass ({ s with timer := none }.next ⟨r.nowMs,r.nowMs,"",.approvals,s.dueJobs r.nowMs⟩ r) backAwake
    | _ => s
  | .resume false r =>
    match s.timer with
    | some (.awake p) => settlePass ({ s with timer := none }.resumed croniter p r) backAwake
    | _ => s
  | .resume true r =>
    match s.doomed with
    | p :: ps => settlePass ({ s with doomed := ps }.resumed croniter p r) fun p s => { s with doomed := p :: s.doomed }
    | [] => s
  | .raiseCancelled =>
    match s.doomed with
    | p :: ps => { s with doomed := ps, cancelledCalls := s.cancelledCalls + if p.stage = .onJob then 1 else 0 }
    | [] => s
  | .addJob jobId schedule deleteAfterRun nowMs =>
    { s with jobs := s.jobs ++ [newJob croniter jobId schedule deleteAfterRun nowMs] }.save.arm
  | .removeJob jobId =>
    if s.jobs.any fun j => j.id = jobId then { s with jobs := s.jobs.filter fun j => j.id ≠ jobId }.save.arm else s
  | .enableJob jobId enabled nowMs =>
    if s.jobs.any fun j => j.id = jobId then
      { s with jobs := updateWhere (fun j => j.id = jobId) (fun j =>
          { j with enabled := enabled, calls := 0,
                   nextRunAtMs := if enabled then computeNextRun croniter j.schedule nowMs else none }) s.jobs }.save.arm
    else s
  | .start newProcess nowMs =>
    let s := if newProcess then { s with jobs := s.saved, timer := none, doomed := [] } else s
    { s with running := true, jobs := startJobs croniter nowMs s.jobs }.save.arm
  | .stop => { s with running := false }.arm

def inHand (s : CronService) : Option String :=
  match s.timer with
  | some (.awake p) => if p.stage = .approvals then none else some p.jobId
  | _ => none

/-- The due times are provided for: the timer sleeps no longer than until then, or a pass is under way. -/
def Armed (s : CronService) : Prop :=
  ∀ j ∈ s.jobs, ∀ d, j.due? = some d → (∃ w, s.timer = some (.asleep w) ∧ w ≤ d) ∨ ∃ p, s.timer = some (.awake p)

variable {croniter} {s : CronService} {p : Pass} {r : Resumption}

theorem arm_armed (h : s.running = true) : s.arm.Armed := by
  intro j hj d hd
  obtain ⟨w,hw⟩ : ∃ w, s.nextWake = some w := by
    cases hn : s.nextWake with
    | some w => exact ⟨w,rfl⟩
    | none =>
      have hd : d ∈ s.jobs.filterMap CronJob.due? := List.mem_filterMap.mpr ⟨j,hj,hd⟩
      rw [List.min?_eq_none_iff.mp hn] at hd
      cases hd
  refine .inl ⟨w,by simp [arm,h,hw],?_⟩
  exact (List.min?_eq_some_iff.mp hw).2 d (List.mem_filterMap.mpr ⟨j,hj,hd⟩)

def resumptions (ρ : Nat → Resumption) (n : Nat) : List CronAction := (List.range n).map fun i => .resume false (ρ i)

theorem resumptions_succ (ρ : Nat → Resumption) (n : Nat) :
    resumptions ρ (n + 1) = .resume false (ρ 0) :: resumptions (fun i => ρ (i + 1)) n := by
  simp [resumptions,List.range_succ_eq_map,Function.comp_def]

def line (p : Pass) : List String := if p.stage = .approvals then [] else p.rest

def left (p : Pass) : Nat :=
  2 * (line p).length + match p.stage with
    | .approvals => 0
    | .alerting => 1
    | .onJob => 2

/-- A pass with some jobs in line goes on: it waits for less than before and has the next job in hand, or it is over
and the service is armed again. Jobs that were not in hand are left alone. -/
structure Advances (s : CronService) (ids : List String) (bound : Nat) (s' : CronService) : Prop where
  running : s'.running = s.running
  kept : ∀ j ∈ s.jobs, s.inHand = some j.id ∨ s'.inHand = some j.id ∨ j ∈ s'.jobs
  pass : (∃ q, s'.timer = some (.awake q) ∧ left q < bound ∧ ∀ id ∈ ids, s'.inHand = some id ∨ id ∈ line q) ∨
    ids = [] ∧ (∀ q, s'.timer ≠ some (.awake q)) ∧ (s'.running = true → s'.Armed)

theorem arm_asleep (s : CronService) : ∀ p, s.arm.timer ≠ some (.awake p) := by
  intro p
  simp only [arm]
  split
  · cases s.nextWake <;> simp
  · simp

theorem next_advances (p : Pass) (r : Resumption) :
    Advances s p.rest (2 * p.rest.length + 1) (settlePass (s.next p r) backAwake) := by
  unfold CronService.next
  cases hrest : p.rest with
  | nil =>
    cases r.approvals with
    | false => exact ⟨rfl,fun j hj => .inr (.inr hj),.inr ⟨rfl,arm_asleep _,arm_armed⟩⟩
    | true => exact ⟨rfl,fun j hj => .inr (.inr hj),.inl ⟨_,rfl,by simp [left,line],nofun⟩⟩
  | cons id rest =>
    refine ⟨rfl,fun j hj => .inr ?_,.inl ⟨_,rfl,by simp [left,line,Nat.mul_add],fun other ho => ?_⟩⟩
    · by_cases hid : j.id = id
      · exact .inl (by simp [settlePass,backAwake,inHand,hid])
      · exact .inr (mem_updateWhere.mpr ⟨j,hj,by simp [hid]⟩)
    · simpa [settlePass,backAwake,inHand,line,eq_comm] using ho

theorem resume_advances (hp : s.timer = some (.awake p)) (r : Resumption) :
    Advances s (line p) (left p) (step croniter s (.resume false r)) := by
  -- the end of a call touches the job in hand only
  have hsettle (hs : p.stage ≠ .approvals) (outcome : Outcome) : Advances s (line p) (2 * (line p).length + 1)
      (settlePass (({ s with timer := none }.settle croniter p outcome r.nowMs).next p r) backAwake) := by
    have hline : line p = p.rest := if_neg hs
    have h := next_advances (s := { s with timer := none }.settle croniter p outcome r.nowMs) p r
    refine ⟨h.running,fun j hj => ?_,hline ▸ h.pass⟩
    by_cases hid : j.id = p.jobId
    · exact .inl (by simp [inHand,hp,hs,hid])
    · exact .inr ((h.kept j (List.mem_filterMap.mpr ⟨j,hj,if_neg hid⟩)).resolve_left (by simp [inHand,settle]))
  simp only [step,hp,resumed]
  cases hs : p.stage with
  | approvals =>
    exact ⟨rfl,fun j hj => .inr (.inr hj),.inr ⟨if_pos hs,arm_asleep _,arm_armed⟩⟩
  | alerting =>
    simpa [left,hs] using hsettle (by simp [hs]) .ok
  | onJob =>
    dsimp only
    split
    · exact ⟨rfl,fun j hj => .inr (.inr hj),
        .inl ⟨_,rfl,by simp [left,line,hs],fun id hid => .inr (by simpa [line,hs] using hid)⟩⟩
    · have h := hsettle (by simp [hs]) r.outcome
      exact ⟨h.running,h.kept,h.pass.imp_left fun ⟨q,hq,hlt,hids⟩ => ⟨q,hq,by simp only [left,hs] at hlt ⊢; omega,hids⟩⟩

/-- However its calls come back, a pass ends. By then every job of its line was in hand, and every other job of the
store was in hand too or is still there as it was. -/
theorem pass_ends (croniter : String → Int → Option Int) (hp : s.timer = some (.awake p)) (ρ : Nat → Resumption) :
    ∃ n, (∀ q, (run (step croniter) s (resumptions ρ n)).timer ≠ some (.awake q)) ∧
      (s.running = true → (run (step croniter) s (resumptions ρ n)).Armed) ∧
      (∀ id ∈ line p, ∃ m ≤ n, (run (step croniter) s (resumptions ρ m)).inHand = some id) ∧
      ∀ j ∈ s.jobs, (∃ m ≤ n, (run (step croniter) s (resumptions ρ m)).inHand = some j.id) ∨
        j ∈ (run (step croniter) s (resumptions ρ n)).jobs := by
  induction hm : left p using Nat.strong_induction_on generalizing s p ρ with
  | _ m ih =>
    have hadv : Advances s (line p) (left p) (step croniter s (.resume false (ρ 0))) := resume_advances hp (ρ 0)
    have hnow {id : String} (h : s.inHand = some id) : (run (step croniter) s (resumptions ρ 0)).inHand = some id := h
    have hone {id : String} (h : (step croniter s (.resume false (ρ 0))).inHand = some id) :
        (run (step croniter) s (resumptions ρ 1)).inHand = some id := h
    rcases hadv.pass with ⟨q,hq,hlt,hids⟩ | ⟨hnil,hover,harmed⟩
    · obtain ⟨n,hover,harmed,hline,hkept⟩ := ih (left q) (hm ▸ hlt) hq (fun i => ρ (i + 1)) rfl
      have hlater {id : String} (h : ∃ k ≤ n, (run (step croniter) (step croniter s (.resume false (ρ 0)))
          (resumptions (fun i => ρ (i + 1)) k)).inHand = some id) :
          ∃ k ≤ n + 1, (run (step croniter) s (resumptions ρ k)).inHand = some id := by
        obtain ⟨k,hk,hid⟩ := h
        exact ⟨k + 1,by omega,by rw [resumptions_succ,run_cons,hid]⟩
      refine ⟨n + 1,?_⟩
      rw [resumptions_succ,run_cons]
      refine ⟨hover,fun hr => harmed (hadv.running.trans hr),fun id hid => ?_,fun j hj => ?_⟩
      · rcases hids id hid with h | h
        · exact ⟨1,by omega,hone h⟩
        · exact hlater (hline id h)
      · rcases hadv.kept j hj with h | h | h
        · exact .inl ⟨0,by omega,hnow h⟩
        · exact .inl ⟨1,by omega,hone h⟩
        · exact (hkept j h).imp_left hlater
    · refine ⟨1,hover,fun hr => harmed (hadv.running.trans hr),by simp [hnil],fun j hj => ?_⟩
      rcases hadv.kept j hj with h | h | h
      · exact .inl ⟨0,by omega,hnow h⟩
      · exact .inl ⟨1,le_rfl,hone h⟩
      · exact .inr h

variable (croniter) in
/-- However the calls come back, the pass under way ends, and each job that is due at some time was in hand by then
or is still due when the timer sleeps no longer than until that time. -/
def Finishes (s : CronService) : Prop :=
  ∀ ρ, ∃ n, (∀ p, (run (step croniter) s (resumptions ρ n)).timer ≠ some (.awake p)) ∧
    ∀ j ∈ s.jobs, ∀ d, j.due? = some d → (∃ m ≤ n, (run (step croniter) s (resumptions ρ m)).inHand = some j.id) ∨
      j ∈ (run (step croniter) s (resumptions ρ n)).jobs ∧
        ∃ w, (run (step croniter) s (resumptions ρ n)).timer = some (.asleep w) ∧ w ≤ d

theorem Armed.asleep (h : s.Armed) (ht : ∀ p, s.timer ≠ some (.awake p)) {j : CronJob} (hj : j ∈ s.jobs) {d : Int}
    (hd : j.due? = some d) : ∃ w, s.timer = some (.asleep w) ∧ w ≤ d :=
  (h j hj d hd).resolve_right fun ⟨p,hp⟩ => ht p hp

theorem Armed.finishes (h : s.Armed) (hr : s.running = true) : s.Finishes croniter := by
  intro ρ
  by_cases ht : ∃ p, s.timer = some (.awake p)
  · obtain ⟨p,hp⟩ := ht
    obtain ⟨n,hover,harmed,-,hkept⟩ := pass_ends croniter hp ρ
    exact ⟨n,hover,fun j hj d hd => (hkept j hj).imp_right fun hj => ⟨hj,(harmed hr).asleep hover hj hd⟩⟩
  · push Not at ht
    exact ⟨0,ht,fun j hj d hd => .inr ⟨hj,h.asleep ht hj hd⟩⟩

def Quiet (s : CronService) : CronAction → Prop
  | .addJob jobId .. => (∀ p, s.timer ≠ some (.awake p)) ∧ ∀ j ∈ s.jobs, j.id ≠ jobId
  | .removeJob _ => ∀ p, s.timer ≠ some (.awake p)
  | .enableJob .. => ∀ p, s.timer ≠ some (.awake p)
  | .start .. => False
  | .stop => False
  | _ => True

structure Intact (s : CronService) : Prop where
  running : s.running = true
  doomed : s.doomed = []
  uncancelled : s.cancelledCalls = 0
  unique : s.jobs.Pairwise fun a b => a.id ≠ b.id

/-- A job was handed out once for its present due time if it is in hand, and otherwise not yet; the due times are
provided for, and what is in line is due. -/
structure Exact (s : CronService) : Prop extends s.Intact where
  calls : ∀ j ∈ s.jobs, j.calls = if s.inHand = some j.id then 1 else 0
  armed : s.Armed
  line : ∀ p, s.timer = some (.awake p) → p.rest.Nodup ∧ (∀ id, s.inHand = some id → id ∉ p.rest) ∧
    ∀ id ∈ p.rest, ∃ j ∈ s.jobs, j.id = id ∧ j.due?.any (· ≤ p.nowMs)

/-- Between two jobs nothing is in hand. -/
structure Between (s : CronService) : Prop extends s.Intact where
  calls : ∀ j ∈ s.jobs, j.calls = 0
  timer : ∀ p, s.timer ≠ some (.awake p)

theorem inHand_eq_none (ht : ∀ p, s.timer ≠ some (.awake p)) : s.inHand = none := by
  unfold inHand
  split
  · exact absurd ‹_› (ht _)
  · rfl

theorem Exact.between (h : s.Exact) (ht : ∀ p, s.timer ≠ some (.awake p)) : s.Between :=
  ⟨h.toIntact,fun j hj => by simpa [inHand_eq_none ht] using h.calls j hj,ht⟩

theorem Between.arm (h : s.Between) : s.save.arm.Exact := by
  have hasleep := s.save.arm_asleep
  have hdoomed : s.save.arm.doomed = [] := by
    change s.doomed ++ _ = []
    rw [h.doomed,List.nil_append]
    split
    · exact absurd ‹_› (h.timer _)
    · rfl
  exact ⟨{ h with doomed := hdoomed },fun j hj => by simpa [inHand_eq_none hasleep] using h.calls j hj,
    arm_armed h.running,fun p hp => absurd hp (hasleep p)⟩
variable {jobs : List CronJob} {j : CronJob} {outcome : Outcome} {nowMs : Int}

theorem unique_updateWhere {q : CronJob → Bool} {f : CronJob → CronJob} (hf : ∀ j, (f j).id = j.id)
    (h : jobs.Pairwise fun a b => a.id ≠ b.id) : (updateWhere q f jobs).Pairwise fun a b => a.id ≠ b.id := by
  have hid : ∀ j : CronJob, (if q j then f j else j).id = j.id := fun j => by split <;> simp [hf]
  exact h.map _ fun a b hab => by rwa [hid,hid]
variable {a : CronAction}

theorem Between.next (h : s.Between) (hnodup : p.rest.Nodup)
    (hline : ∀ id ∈ p.rest, ∃ j ∈ s.jobs, j.id = id ∧ j.due?.any (· ≤ p.nowMs)) :
    (settlePass (s.next p r) backAwake).Exact := by
  cases hrest : p.rest with
  | nil =>
    cases ha : r.approvals with
    | false => simpa [CronService.next,hrest,ha,settlePass] using h.arm
    | true =>
      simp only [CronService.next,hrest,ha,if_true,settlePass,backAwake]
      exact ⟨{ h with },h.calls,fun _ _ _ _ => .inr ⟨_,rfl⟩,
        fun q hq => by cases hq; simp⟩
  | cons id rest =>
    rw [hrest,List.nodup_cons] at hnodup
    simp only [CronService.next,hrest,settlePass,backAwake]
    refine ⟨{ h with unique := unique_updateWhere (fun _ => rfl) h.unique },fun j hj => ?_,
      fun _ _ _ _ => .inr ⟨_,rfl⟩,fun q hq => ?_⟩
    · obtain ⟨old,hold,rfl⟩ := mem_updateWhere.mp hj
      have hc := h.calls old hold
      by_cases hid : old.id = id
      · simp [inHand,hid,hc]
      · simp [inHand,hid,hc,Ne.symm hid]
    · cases hq
      refine ⟨hnodup.2,fun other ho => ?_,fun other ho => ?_⟩
      · cases ho
        exact hnodup.1
      · obtain ⟨j,hj,hjid,hd⟩ := hline other (hrest ▸ List.mem_cons_of_mem id ho)
        refine ⟨_,mem_updateWhere.mpr ⟨j,hj,rfl⟩,?_⟩
        split <;> exact ⟨hjid,hd⟩
variable {j' : CronJob}

theorem settled_spec (h : j.settled croniter p outcome nowMs = some j') : j'.id = j.id ∧ j'.calls = 0 := by
  unfold CronJob.settled at h
  repeat' split at h
  all_goals simp_all
  all_goals exact h ▸ ⟨rfl,rfl⟩

theorem mem_settle (h : j' ∈ (s.settle croniter p outcome nowMs).jobs) :
    ∃ j ∈ s.jobs, (j.id = p.jobId ∧ j.settled croniter p outcome nowMs = some j') ∨ j.id ≠ p.jobId ∧ j' = j := by
  obtain ⟨j,hj,hj'⟩ := List.mem_filterMap.mp h
  refine ⟨j,hj,?_⟩
  split at hj'
  · exact .inl ⟨‹_›,hj'⟩
  · exact .inr ⟨‹_›,(Option.some.inj hj').symm⟩

theorem Exact.settle (h : s.Exact) (hp : s.timer = some (.awake p)) (hs : p.stage ≠ .approvals)
    : ({ s with timer := none }.settle croniter p outcome nowMs).Between := by
  have hin : s.inHand = some p.jobId := by simp [inHand,hp,hs]
  have hid : ∀ j j' : CronJob, (if j.id = p.jobId then j.settled croniter p outcome nowMs else some j) = some j' →
      j'.id = j.id := by
    intro j j' hj
    split at hj
    · exact (settled_spec hj).1
    · exact congrArg CronJob.id (Option.some.inj hj).symm
  refine ⟨{ h with unique := ?_ },fun j' hj' => ?_,nofun⟩
  · exact h.unique.filterMap _ fun a b hab a' ha b' hb => by rwa [hid a a' ha,hid b b' hb]
  · obtain ⟨j,hj,⟨-,hset⟩ | ⟨hne,rfl⟩⟩ := mem_settle hj'
    · exact (settled_spec hset).2
    · have hc := h.calls j' hj
      rwa [hin,if_neg fun he => hne (Option.some.inj he).symm] at hc

theorem Exact.resume (h : s.Exact) (hp : s.timer = some (.awake p)) :
    (settlePass ({ s with timer := none }.resumed croniter p r) backAwake).Exact := by
  obtain ⟨hnodup,hout,hline⟩ := h.line p hp
  -- the jobs in line are not the one in hand, so its end leaves them alone
  have hkept : p.stage ≠ .approvals → ∀ outcome nowMs, ∀ id ∈ p.rest,
      ∃ j ∈ ({ s with timer := none }.settle croniter p outcome nowMs).jobs, j.id = id ∧ j.due?.any (· ≤ p.nowMs) := by
    intro hs outcome nowMs id hid
    obtain ⟨j,hj,rfl,hd⟩ := hline id hid
    have hne : j.id ≠ p.jobId := fun he => hout p.jobId (by simp [inHand,hp,hs]) (he ▸ hid)
    exact ⟨j,List.mem_filterMap.mpr ⟨j,hj,if_neg hne⟩,rfl,hd⟩
  unfold resumed
  cases hs : p.stage with
  | approvals =>
    refine Between.arm ⟨{ h with },fun j hj => ?_,nofun⟩
    simpa [inHand,hp,hs] using h.calls j hj
  | alerting =>
    exact (h.settle hp (by simp [hs])).next hnodup (hkept (by simp [hs]) _ _)
  | onJob =>
    dsimp only
    split
    · have hin : s.inHand = some p.jobId := by simp [inHand,hp,hs]
      refine ⟨{ h with },fun j hj => ?_,fun _ _ _ _ => .inr ⟨_,rfl⟩,fun q hq => ?_⟩
      · simpa [inHand,settlePass,backAwake,hp,hs] using h.calls j hj
      · cases hq
        exact ⟨hnodup,fun id hid => hout id (hin.trans hid),hline⟩
    · exact (h.settle hp (by simp [hs])).next hnodup (hkept (by simp [hs]) _ _)

theorem Exact.step (h : s.Exact) (ha : s.Quiet a) : (step croniter s a).Exact := by
  cases a with
  | wake r =>
    simp only [CronService.step]
    split
    next w hw =>
      have hcalls := (h.between fun p hp => by simp [hw] at hp).calls
      refine Between.next (s := { s with timer := none })
        ⟨{ h with },hcalls,by simp⟩ ?_ ?_
      · exact List.pairwise_map.mpr (h.unique.filter _)
      · intro id hid
        obtain ⟨j,hj,rfl⟩ := List.mem_map.mp hid
        exact ⟨j,(List.mem_filter.mp hj).1,rfl,(List.mem_filter.mp hj).2⟩
    · exact h
  | resume doomed r =>
    cases doomed with
    | true => simpa [CronService.step,h.doomed] using h
    | false =>
      simp only [CronService.step]
      split
      · exact h.resume ‹_›
      · exact h
  | raiseCancelled => simpa [CronService.step,h.doomed] using h
  | addJob jobId schedule deleteAfterRun nowMs =>
    obtain ⟨ht,hid⟩ := ha
    have hb := h.between ht
    refine Between.arm ⟨{ hb with unique := List.pairwise_append.mpr ⟨hb.unique,by simp,by simpa [newJob] using hid⟩ },?_,ht⟩
    intro j hj
    rcases mem_concat.mp hj with hj | rfl
    · exact hb.calls j hj
    · rfl
  | removeJob jobId =>
    have hb := h.between ha
    simp only [CronService.step]
    split
    · exact Between.arm ⟨{ hb with unique := hb.unique.filter _ },
        fun j hj => hb.calls j (List.mem_filter.mp hj).1,ha⟩
    · exact h
  | enableJob jobId enabled nowMs =>
    have hb := h.between ha
    simp only [CronService.step]
    split
    · refine Between.arm ⟨{ hb with unique := unique_updateWhere (fun _ => rfl) hb.unique },fun j hj => ?_,ha⟩
      obtain ⟨old,hold,rfl⟩ := mem_updateWhere.mp hj
      split
      · rfl
      · exact hb.calls old hold
    · exact h
  | start | stop => exact ha.elim

theorem wake_handed {d w : Int} (ht : s.timer = some (.asleep w)) (hj : j ∈ s.jobs) (hd : j.due? = some d)
    (hr : d ≤ r.nowMs) {ρ : Nat → Resumption} :
    ∃ n, (run (step croniter) (step croniter s (.wake r)) (resumptions ρ n)).inHand = some j.id := by
  have hmem : j.id ∈ s.dueJobs r.nowMs :=
    List.mem_map_of_mem (List.mem_filter.mpr ⟨hj,by simpa [hd] using hr⟩)
  have h := next_advances (s := { s with timer := none }) ⟨r.nowMs,r.nowMs,"",.approvals,s.dueJobs r.nowMs⟩ r
  simp only [step,ht]
  rcases h.pass with ⟨q,hq,-,hids⟩ | ⟨hnil,-⟩
  · rcases hids j.id hmem with h | h
    · exact ⟨0,h⟩
    · obtain ⟨n,-,-,hline,-⟩ := pass_ends croniter hq ρ
      obtain ⟨m,-,hid⟩ := hline j.id h
      exact ⟨m,hid⟩
  · rw [show s.dueJobs r.nowMs = [] from hnil] at hmem
    cases hmem

theorem started_exact (hid : jobs.Pairwise fun a b => a.id ≠ b.id) (hcalls : ∀ j ∈ jobs, j.calls = 0)
    : (step croniter { saved := jobs } (.start true nowMs)).Exact := by
  refine Between.arm ⟨⟨rfl,rfl,rfl,(hid.filter _).map _ fun a b hab => ?_⟩,fun j hj => ?_,by simp⟩
  · split <;> split <;> exact hab
  · obtain ⟨old,hold,rfl⟩ := List.mem_map.mp hj
    split
    · rfl
    · exact hcalls old (List.mem_filter.mp hold).1

def Ahead (schedule : CronSchedule) (nowMs : Int) : Prop :=
  ∀ t, schedule = .atTime t → ∃ a, t = some a ∧ a ≠ 0 ∧ nowMs < a

/-- Every start finds the enabled one-shot jobs it keeps in the future, every one-shot job is accepted or enabled
for a future time, and no job calls the service or is deferred to the time zero. -/
def Prompt (s : CronService) : CronAction → Prop
  | .start newProcess nowMs => ∀ j ∈ if newProcess then s.saved else s.jobs, j.enabled = true → j.stale nowMs = false →
      Ahead j.schedule nowMs
  | .addJob _ schedule _ nowMs => Ahead schedule nowMs
  | .enableJob jobId enabled nowMs => ∀ j ∈ s.jobs, j.id = jobId → enabled = true → Ahead j.schedule nowMs
  | .resume doomed r => doomed = false ∧ r.outcome ≠ .deferred 0
  | _ => True

def Pending (s : CronService) : Prop :=
  ∀ j ∈ s.jobs, j.enabled = true → (∃ t, j.schedule = .atTime t) → j.due? ≠ none

structure Provided (s : CronService) : Prop where
  pending : s.Pending
  armed : s.running = true → s.Armed

theorem due?_computed {croniter : String → Int → Option Int} (he : j.enabled = true) (ht : ∃ t, j.schedule = .atTime t)
    (hn : j.nextRunAtMs = computeNextRun croniter j.schedule nowMs) (ha : Ahead j.schedule nowMs) : j.due? ≠ none := by
  obtain ⟨t,ht⟩ := ht
  obtain ⟨a,rfl,hne,hlt⟩ := ha t ht
  simp [CronJob.due?,he,hn,ht,computeNextRun,hne,hlt]

theorem Pending.arm (h : s.Pending) : s.save.arm.Provided := ⟨h,arm_armed⟩

theorem settled_due (h : j.settled croniter p outcome nowMs = some j')
    (ho : outcome ≠ .deferred 0) (he : j'.enabled = true) (ht : ∃ t, j'.schedule = .atTime t) : j'.due? ≠ none := by
  unfold CronJob.settled at h
  split at h
  · cases h
    simp_all [CronJob.due?]
  · split at h <;> simp_all
    cases h
    cases he
  · cases h
    simp_all

theorem Pending.next (h : s.Pending) (p : Pass) (r : Resumption) : (settlePass (s.next p r) backAwake).Provided := by
  unfold CronService.next
  split
  · refine ⟨fun j hj => ?_,fun _ _ _ _ _ => .inr ⟨_,rfl⟩⟩
    obtain ⟨old,hold,rfl⟩ := mem_updateWhere.mp hj
    split
    · exact h old hold
    · exact h old hold
  · cases r.approvals
    · exact Pending.arm h
    · exact ⟨h,fun _ _ _ _ _ => .inr ⟨_,rfl⟩⟩

theorem Pending.settle (h : s.Pending) (outcome : Outcome) (ho : outcome ≠ .deferred 0) (p : Pass) (nowMs : Int) :
    (s.settle croniter p outcome nowMs).Pending := by
  intro j' hj' he ht
  obtain ⟨j,hj,⟨-,hset⟩ | ⟨-,rfl⟩⟩ := mem_settle hj'
  · exact settled_due hset ho he ht
  · exact h j' hj he ht

theorem Provided.step (h : s.Provided) (ha : s.Prompt a) : (step croniter s a).Provided := by
  cases a with
  | wake r =>
    simp only [CronService.step]
    split
    · exact Pending.next (s := { s with timer := none }) h.pending _ r
    · exact h
  | resume doomed r =>
    obtain ⟨rfl,ho⟩ := ha
    simp only [CronService.step]
    split
    next p hp =>
      have hs : ({ s with timer := none } : CronService).Pending := h.pending
      unfold resumed
      split
      · split
        · exact ⟨h.pending,fun _ _ _ _ _ => .inr ⟨_,rfl⟩⟩
        · exact (hs.settle _ ho p r.nowMs).next p r
      · exact (hs.settle .ok nofun p r.nowMs).next p r
      · exact hs.arm
    · exact h
  | raiseCancelled =>
    simp only [CronService.step]
    split
    · exact { h with }
    · exact h
  | addJob jobId schedule deleteAfterRun nowMs =>
    refine Pending.arm fun j hj he ht => ?_
    rcases mem_concat.mp hj with hj | rfl
    · exact h.pending j hj he ht
    · exact due?_computed he ht rfl ha
  | removeJob jobId =>
    simp only [CronService.step]
    split
    · exact Pending.arm fun j hj => h.pending j (List.mem_filter.mp hj).1
    · exact h
  | enableJob jobId enabled nowMs =>
    simp only [CronService.step]
    split
    · refine Pending.arm fun j hj he ht => ?_
      obtain ⟨old,hold,rfl⟩ := mem_updateWhere.mp hj
      by_cases hid : old.id = jobId
      · simp only [hid,decide_true,if_true] at he ht ⊢
        exact due?_computed he ht (if_pos he) (ha old hold hid he)
      · simp only [hid,decide_false,Bool.false_eq_true,if_false] at he ht ⊢
        exact h.pending old hold he ht
    · exact h
  | start newProcess nowMs =>
    refine Pending.arm fun j hj he ht => ?_
    obtain ⟨old,hold,rfl⟩ := List.mem_map.mp hj
    obtain ⟨hold,hstale⟩ := List.mem_filter.mp hold
    have hmem : old ∈ if newProcess then s.saved else s.jobs := by cases newProcess <;> exact hold
    by_cases hen : old.enabled = true
    · rw [if_pos hen] at ht ⊢
      exact due?_computed hen ht rfl (ha old hmem hen (by simpa using hstale))
    · rw [if_neg hen] at he
      exact absurd he hen
  | stop => exact ⟨h.pending,nofun⟩

end CronService

end Yeoman.Cron
