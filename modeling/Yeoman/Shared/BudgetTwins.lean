import Yeoman.Bridge.ConnectBudget
import Yeoman.Library.Runs
import Yeoman.Library.SlidingWindow
import Yeoman.Library.Table
import Mathlib.Tactic.Linarith

/-! Runs of the reconnect budget: a process asks, attempts what it was allowed, and starts again
from the file. The Python and the bridge implementation are run side by side. -/
namespace Yeoman.Shared
open Library Runs Table
open Library.SlidingWindow (Limited)

/-- One implementation, as a process uses it. -/
structure BudgetKind (σ δ : Type) where
  decide : Rat → σ → δ × σ
  record : Bool → Rat → σ → σ
  reopen : σ → σ
  connects : δ → Option Bool

def BudgetDecision.connects : BudgetDecision → Option Bool
  | .connect probe => some probe
  | _ => none

def python (o : BudgetOptions) : BudgetKind ConnectBudget BudgetDecision where
  decide := ConnectBudget.decide o
  record := ConnectBudget.recordAttempt o
  reopen b := .load b.file
  connects := BudgetDecision.connects

def bridgeConnects : Bridge.BudgetDecision → Option Bool
  | .connect probe => some probe
  | _ => none

def bridge (o : Bridge.ConnectBudgetOptions) : BudgetKind Bridge.ConnectBudget Bridge.BudgetDecision where
  decide := Bridge.ConnectBudget.decide o
  record := Bridge.ConnectBudget.recordAttempt o
  reopen b := .load b.file
  connects := bridgeConnects

structure Attempt where
  time : Rat
  probe : Bool

inductive BudgetAction where
  | decide (now : Rat)
  | record (now : Rat)
  | restart

/-- The budget, the connect decision that was not used yet, and what happened so far. -/
structure Session (σ δ : Type) where
  budget : σ
  granted : Option Bool := none
  decisions : List δ := []
  attempts : List Attempt := []

namespace Session
variable {σ δ : Type}

def step (k : BudgetKind σ δ) (s : Session σ δ) : BudgetAction → Session σ δ
  | .decide now =>
    let answer := k.decide now s.budget
    { s with budget := answer.2, granted := k.connects answer.1, decisions := s.decisions ++ [answer.1] }
  | .record now =>
    match s.granted with
    | some probe =>
      { s with budget := k.record probe now s.budget, granted := none, attempts := s.attempts ++ [⟨now,probe⟩] }
    | none => s
  | .restart => { s with budget := k.reopen s.budget, granted := none }

def after (k : BudgetKind σ δ) (b : σ) (acts : List BudgetAction) : Session σ δ := run (step k) { budget := b } acts

end Session

def BudgetAction.clock : BudgetAction → Option Rat
  | .decide now => some now
  | .record now => some now
  | .restart => none

def Nondecreasing (acts : List BudgetAction) : Prop := (acts.filterMap BudgetAction.clock).Pairwise (· ≤ ·)

/-! The limits. -/
section Limits
variable {o : BudgetOptions} {c now : Rat} {s : Session ConnectBudget BudgetDecision} {log : List Attempt} {ts : List Rat}

def Known (c : Rat) (log : List Attempt) (ts : List Rat) : Prop :=
  ((log.map Attempt.time).filter (c - dayS < ·)).Sublist ts

def since (log : List Attempt) (t : Rat) : Nat := log.countP fun a => t < a.time

theorem Known.later (h : Known c log ts) (hc : c ≤ now) : Known now log ts := by
  refine List.Sublist.trans ?_ h
  refine List.monotone_filter_right _ fun t ht => ?_
  rw [decide_eq_true_iff] at ht ⊢
  linarith

theorem Known.prune (h : Known c log ts) (hc : c ≤ now) : Known now log (ts.filter (now - dayS < ·)) := by
  have hsub := (h.later hc).filter (now - dayS < ·)
  rwa [List.filter_filter,funext fun _ => Bool.and_self _] at hsub

theorem Known.concat (h : Known c log ts) (hc : c ≤ now) {probe : Bool} :
    Known now (log ++ [⟨now,probe⟩]) (ts ++ [now]) := by
  rw [Known,List.map_append,List.filter_append]
  exact (h.later hc).append List.filter_sublist
variable {t : Rat} {probe : Bool}

theorem since_le_length (h : ((log.map Attempt.time).filter (t < ·)).Sublist ts) : since log t ≤ ts.length := by
  have hle := h.length_le
  rwa [← List.countP_eq_length_filter,List.countP_map] at hle

theorem since_mono {t' : Rat} (h : t ≤ t') : since log t' ≤ since log t := by
  refine List.countP_mono_left fun a _ ha => ?_
  rw [decide_eq_true_iff] at ha ⊢
  exact h.trans_lt ha

def nonProbe (log : List Attempt) : List Attempt := log.filter (!·.probe)

structure Kept (o : BudgetOptions) (c : Rat) (s : Session ConnectBudget BudgetDecision) : Prop where
  past : ∀ a ∈ s.attempts, a.time ≤ c
  known : Known c s.attempts s.budget.attempts
  stored : Known c s.attempts (ConnectBudget.load s.budget.file).attempts
  saved : (ConnectBudget.load s.budget.file).nextProbeAt = s.budget.nextProbeAt
  granted : s.granted = some false → s.budget.nextProbeAt = none ∧ since s.attempts (c - hourS) < o.perHour ∧
    since s.attempts (c - dayS) < o.perDay
  probing : s.granted = some true → ∃ n, s.budget.nextProbeAt = some n ∧ n ≤ c
  spaced : ∀ n ∈ s.budget.nextProbeAt, ∀ a ∈ s.attempts, a.time + o.probeIntervalS ≤ n
  hourly : Limited Attempt.time hourS o.perHour (nonProbe s.attempts)
  daily : Limited Attempt.time dayS o.perDay (nonProbe s.attempts)

theorem Kept.later (h : Kept o c s) (hc : c ≤ now) : Kept o now s where
  past a ha := (h.past a ha).trans hc
  known := h.known.later hc
  stored := h.stored.later hc
  saved := h.saved
  granted hg := by
    obtain ⟨hn,hh,hd⟩ := h.granted hg
    exact ⟨hn,(since_mono (by linarith)).trans_lt hh,(since_mono (by linarith)).trans_lt hd⟩
  probing hg := by
    obtain ⟨n,hn,hle⟩ := h.probing hg
    exact ⟨n,hn,hle.trans hc⟩
  spaced := h.spaced
  hourly := h.hourly
  daily := h.daily

theorem kept_start {file : Option BudgetFile} :
    Kept o c { budget := ConnectBudget.load file } where
  past _ ha := absurd ha List.not_mem_nil
  known := List.nil_sublist _
  stored := List.nil_sublist _
  saved := by cases file <;> rfl
  granted hg := by cases hg
  probing hg := by cases hg
  spaced _ _ _ ha := absurd ha List.not_mem_nil
  hourly := .nil
  daily := .nil

inductive Decided (o : BudgetOptions) (now : Rat) (b : ConnectBudget) : BudgetDecision → ConnectBudget → Prop
  | probe {n : Rat} (hn : b.nextProbeAt = some n) (hle : n ≤ now) : Decided o now b (.connect true) b
  | spent {n : Rat} (hn : b.nextProbeAt = some n) (hlt : now < n) : Decided o now b (.wait (n - now) .budgetExhausted) b
  | exhaust (hn : b.nextProbeAt = none) : Decided o now b (.wait o.probeIntervalS .budgetExhausted)
      (ConnectBudget.save ⟨b.attempts.filter (now - dayS < ·),some (now + o.probeIntervalS),b.file⟩)
  | full (hn : b.nextProbeAt = none) (inHour : List Rat) (hd : 0 < o.perDay) (hh : o.perHour ≤ inHour.length) :
      Decided o now b (ConnectBudget.hourlyWait now inHour) ⟨b.attempts.filter (now - dayS < ·),none,b.file⟩
  | connect (hn : b.nextProbeAt = none) (hd : (b.attempts.filter (now - dayS < ·)).length < o.perDay)
      (hh : ((b.attempts.filter (now - dayS < ·)).filter (now - hourS < ·)).length < o.perHour) :
      Decided o now b (.connect false) ⟨b.attempts.filter (now - dayS < ·),none,b.file⟩

theorem decided (o : BudgetOptions) (now : Rat) (b : ConnectBudget) :
    Decided o now b (b.decide o now).1 (b.decide o now).2 := by
  unfold ConnectBudget.decide
  cases hn : b.nextProbeAt with
  | some n =>
    by_cases hle : n ≤ now
    · simp only [if_pos hle]
      exact .probe hn hle
    · simp only [if_neg hle]
      exact .spent hn (not_le.mp hle)
  | none =>
    by_cases hd : o.perDay ≤ (b.attempts.filter (now - dayS < ·)).length
    · simp only [if_pos hd]
      exact .exhaust hn
    · simp only [if_neg hd]
      rw [not_le] at hd
      by_cases hh : o.perHour ≤ (((b.attempts.filter (now - dayS < ·)).filter (now - hourS < ·)).insertionSort (· ≤ ·)).length
      · simp only [if_pos hh]
        exact .full hn _ (Nat.zero_lt_of_lt hd) hh
      · simp only [if_neg hh]
        rw [List.length_insertionSort,not_le] at hh
        exact .connect hn hd hh

theorem hourlyWait_connects (now : Rat) (inHour : List Rat) : (ConnectBudget.hourlyWait now inHour).connects = none := by
  cases inHour <;> rfl

theorem filter_hour : (decide (now - hourS < t) && decide (now - dayS < t)) = decide (now - hourS < t) := by
  have hday : hourS ≤ dayS := by decide +kernel
  rw [← Bool.decide_and,decide_eq_decide]
  exact ⟨And.left,fun ht => ⟨ht,by linarith⟩⟩

/-- Nothing was attempted, and what may be attempted next was checked at `now`. -/
theorem Kept.decide (h : Kept o c s) (hc : c ≤ now) : Kept o now (s.step (python o) (.decide now)) := by
  have hl := h.later hc
  have hd := decided o now s.budget
  simp only [Session.step,python]
  generalize (s.budget.decide o now).1 = d at hd ⊢
  generalize (s.budget.decide o now).2 = b at hd ⊢
  cases hd with
  | probe hn hle =>
    exact { hl with granted := fun hg => (by cases hg), probing := fun _ => ⟨_,hn,hle⟩ }
  | spent hn hlt =>
    exact { hl with granted := fun hg => (by cases hg), probing := fun hg => (by cases hg) }
  | exhaust hn =>
    have hknown := h.known.prune hc
    refine ⟨hl.past,hknown,hknown,rfl,fun hg => (by cases hg),fun hg => (by cases hg),?_,hl.hourly,hl.daily⟩
    intro n hnow a ha
    cases hnow
    exact add_le_add_left (hl.past a ha) _
  | full hn inHour hd hh =>
    have hnone := hourlyWait_connects now inHour
    refine ⟨hl.past,h.known.prune hc,hl.stored,hl.saved.trans hn,?_,?_,?_,hl.hourly,hl.daily⟩
    · intro hg
      cases hnone.symm.trans hg
    · intro hg
      cases hnone.symm.trans hg
    · intro n hnow
      cases hnow
  | connect hn hd hh =>
    have hknown := h.known.prune hc
    refine ⟨hl.past,hknown,hl.stored,hl.saved.trans hn,fun _ => ⟨rfl,?_,?_⟩,fun hg => (by cases hg),?_,
      hl.hourly,hl.daily⟩
    · have hhour := hknown.filter (now - hourS < ·)
      rw [List.filter_filter,funext fun t => filter_hour] at hhour
      exact (since_le_length hhour).trans_lt hh
    · exact (since_le_length hknown).trans_lt hd
    · intro n hnow
      cases hnow

theorem nonProbe_concat : nonProbe (log ++ [⟨t,probe⟩]) = nonProbe log ++ if probe then [] else [⟨t,false⟩] := by
  rw [nonProbe,List.filter_append]
  cases probe <;> rfl

theorem since_nonProbe : (nonProbe log).countP (fun a => t < a.time) ≤ since log t :=
  List.filter_sublist.countP_le

theorem limited_concat {window : Rat} {n : Nat} (hw : Limited Attempt.time window n (nonProbe log))
    (h : probe = false → since log (now - window) < n) :
    Limited Attempt.time window n (nonProbe (log ++ [⟨now,probe⟩])) := by
  rw [nonProbe_concat]
  cases probe with
  | true => rwa [if_pos rfl,List.append_nil]
  | false =>
    rw [if_neg Bool.false_ne_true]
    exact hw.concat (le_refl now) (since_nonProbe.trans_lt (h rfl))

theorem Kept.record (h : Kept o c s) (hc : c ≤ now) : Kept o now (s.step (python o) (.record now)) := by
  have hl := h.later hc
  simp only [Session.step,python]
  cases hg : s.granted with
  | none => exact hl
  | some probe =>
    have hfalse (hp : probe = false) := hl.granted (hg.trans (congrArg some hp))
    have hpast := forall_mem_concat hl.past (le_refl (Attempt.mk now probe).time)
    refine ⟨hpast,hl.known.concat le_rfl,hl.known.concat le_rfl,rfl,fun hg => (by cases hg),
      fun hg => (by cases hg),?_,limited_concat hl.hourly fun hp => (hfalse hp).2.1,
      limited_concat hl.daily fun hp => (hfalse hp).2.2⟩
    intro n hn a ha
    cases probe with
    | false =>
      -- an ordinary attempt is made only while the budget is not spent
      change n ∈ s.budget.nextProbeAt at hn
      rw [(hfalse rfl).1] at hn
      cases hn
    | true =>
      obtain ⟨_,_,rfl⟩ := Option.mem_map.mp hn
      exact add_le_add_left (hpast a ha) _

theorem Kept.restart (h : Kept o c s) : Kept o c (s.step (python o) .restart) := by
  have hfile : (ConnectBudget.load s.budget.file).file = s.budget.file := by cases hf : s.budget.file <;> rfl
  refine ⟨h.past,h.stored,?_,?_,fun hg => (by cases hg),fun hg => (by cases hg),?_,h.hourly,h.daily⟩
  · change Known c s.attempts (ConnectBudget.load (ConnectBudget.load s.budget.file).file).attempts
    rw [hfile]
    exact h.stored
  · change (ConnectBudget.load (ConnectBudget.load s.budget.file).file).nextProbeAt = _
    rw [hfile]
    rfl
  · intro n hn
    exact h.spaced n (h.saved ▸ hn)

theorem Kept.step (h : Kept o c s) {a : BudgetAction} (ha : ∀ t ∈ a.clock, c ≤ t) :
    Kept o (a.clock.getD c) (s.step (python o) a) := by
  cases a with
  | decide now => exact h.decide (ha now rfl)
  | record now => exact h.record (ha now rfl)
  | restart => exact h.restart

def clocks (acts : List BudgetAction) : List Rat := acts.filterMap BudgetAction.clock

theorem Kept.run (h : Kept o c s) (acts rest : List BudgetAction) (hp : (c :: clocks (acts ++ rest)).Pairwise (· ≤ ·)) :
    ∃ c', Kept o c' (run (Session.step (python o)) s acts) ∧ (c' :: clocks rest).Pairwise (· ≤ ·) := by
  induction acts generalizing c s with
  | nil => exact ⟨c,h,hp⟩
  | cons a acts ih =>
    cases ha : a.clock with
    | none =>
      have hs := h.step fun t ht => absurd (ha.symm.trans ht) (Option.some_ne_none t).symm
      rw [ha] at hs
      rw [clocks,List.cons_append,List.filterMap_cons_none ha] at hp
      exact ih hs hp
    | some now =>
      rw [clocks,List.cons_append,List.filterMap_cons_some ha,List.pairwise_cons] at hp
      have hs := h.step fun t ht => hp.1 t (Option.some.inj (ha.symm.trans ht) ▸ List.mem_cons_self)
      rw [ha] at hs
      exact ih hs hp.2

/-- From `s₀` on only probes were allowed and made, each an interval after every attempt before it. -/
structure OnlyProbes (o : BudgetOptions) (s₀ s : Session ConnectBudget BudgetDecision) : Prop where
  exhausted : s.budget.exhausted = true
  decisions : ∃ ds, s.decisions = s₀.decisions ++ ds ∧ .connect false ∉ ds
  attempts : ∃ later, s.attempts = s₀.attempts ++ later ∧ (∀ b ∈ later, b.probe = true) ∧
    (∀ a ∈ s₀.attempts, ∀ b ∈ later, a.time + o.probeIntervalS ≤ b.time) ∧
    later.Pairwise fun a b => a.time + o.probeIntervalS ≤ b.time

theorem OnlyProbes.refl (h : s.budget.exhausted = true) : OnlyProbes o s s where
  exhausted := h
  decisions := ⟨[],(List.append_nil _).symm,List.not_mem_nil⟩
  attempts := ⟨[],(List.append_nil _).symm,fun _ hb => absurd hb List.not_mem_nil,
    fun _ _ _ hb => absurd hb List.not_mem_nil,.nil⟩

variable {s₀ : Session ConnectBudget BudgetDecision}

theorem OnlyProbes.decide (h : OnlyProbes o s₀ s) (now : Rat) : OnlyProbes o s₀ (s.step (python o) (.decide now)) := by
  obtain ⟨n,hn⟩ := Option.isSome_iff_exists.mp h.exhausted
  obtain ⟨ds,hds,hno⟩ := h.decisions
  have hd := decided o now s.budget
  simp only [Session.step,python,hds,List.append_assoc]
  generalize (s.budget.decide o now).1 = d at hd ⊢
  generalize (s.budget.decide o now).2 = b at hd ⊢
  cases hd with
  | probe | spent => exact ⟨h.exhausted,⟨_,rfl,by simpa using hno⟩,h.attempts⟩
  | exhaust hm | full hm | connect hm => cases hn.symm.trans hm

theorem OnlyProbes.record (h : OnlyProbes o s₀ s) (hk : Kept o c s) (hc : c ≤ now) :
    OnlyProbes o s₀ (s.step (python o) (.record now)) := by
  obtain ⟨n,hn⟩ := Option.isSome_iff_exists.mp h.exhausted
  obtain ⟨later,hlater,hprobes,hbefore,hpairs⟩ := h.attempts
  simp only [Session.step,python]
  cases hg : s.granted with
  | none => exact h
  | some probe =>
    cases probe with
    | false => cases hn.symm.trans (hk.granted hg).1
    | true =>
      obtain ⟨m,hm,hle⟩ := hk.probing hg
      have hspaced (a : Attempt) (ha : a ∈ s.attempts) : a.time + o.probeIntervalS ≤ now :=
        (hk.spaced m hm a ha).trans (hle.trans hc)
      refine ⟨?_,h.decisions,later ++ [⟨now,true⟩],?_,?_,?_,?_⟩
      · change (s.budget.nextProbeAt.map fun _ => now + o.probeIntervalS).isSome = true
        rw [hn]
        rfl
      · change s.attempts ++ [⟨now,true⟩] = _
        rw [hlater,List.append_assoc]
      · exact forall_mem_concat hprobes rfl
      · exact fun a ha => forall_mem_concat (hbefore a ha) (hspaced a (hlater ▸ List.mem_append_left _ ha))
      · refine List.pairwise_append.mpr ⟨hpairs,List.pairwise_singleton _ _,fun a ha b hb => ?_⟩
        rw [List.mem_singleton.mp hb]
        exact hspaced a (hlater ▸ List.mem_append_right _ ha)

theorem OnlyProbes.step (h : OnlyProbes o s₀ s) (hk : Kept o c s) (a : BudgetAction) (ha : ∀ t ∈ a.clock, c ≤ t) :
    OnlyProbes o s₀ (s.step (python o) a) := by
  cases a with
  | decide now => exact h.decide now
  | record now => exact h.record hk (ha now rfl)
  | restart =>
    have hsaved : (ConnectBudget.load s.budget.file).exhausted = true := by
      rw [ConnectBudget.exhausted,hk.saved]
      exact h.exhausted
    exact ⟨hsaved,h.decisions,h.attempts⟩

theorem OnlyProbes.run (h : OnlyProbes o s₀ s) (hk : Kept o c s) {acts : List BudgetAction}
    (hp : (c :: clocks acts).Pairwise (· ≤ ·)) : OnlyProbes o s₀ (run (Session.step (python o)) s acts) := by
  induction acts generalizing c s with
  | nil => exact h
  | cons a acts ih =>
    obtain ⟨c',hk',hp'⟩ := hk.run [a] acts hp
    refine ih (h.step hk a fun t ht => ?_) hk' hp'
    rw [clocks,List.filterMap_cons_some ht,List.pairwise_cons] at hp
    exact hp.1 t List.mem_cons_self

end Limits

/-! Side by side. -/

def inMs (t : Rat) : Rat := 1000 * t

def BudgetOptions.inMs (o : BudgetOptions) : Bridge.ConnectBudgetOptions := ⟨o.perHour,o.perDay,Shared.inMs o.probeIntervalS⟩

def BudgetAction.inMs : BudgetAction → BudgetAction
  | .decide now => .decide (Shared.inMs now)
  | .record now => .record (Shared.inMs now)
  | .restart => .restart

def Attempt.inMs (a : Attempt) : Attempt := ⟨Shared.inMs a.time,a.probe⟩

inductive SameDecision : BudgetDecision → Bridge.BudgetDecision → Prop
  | connect (probe : Bool) : SameDecision (.connect probe) (.connect probe)
  | wait (waitS : Rat) (why : WaitReason) : SameDecision (.wait waitS why) (.wait (some (inMs waitS)) why)

inductive Answers : BudgetDecision → Bridge.BudgetDecision → Prop
  | same {d : BudgetDecision} {e : Bridge.BudgetDecision} (h : SameDecision d e) : Answers d e
  | raised : Answers .raised (.wait none .hourlyLimit)

def TwinHold : Option Rat → Option Bridge.BudgetHold → Prop :=
  Option.Rel fun n hold => hold.kind = .budgetExhausted ∧ hold.nextProbeAt = some (inMs n)

structure TwinFile (f : BudgetFile) (g : Bridge.BudgetFile) : Prop where
  attempts : g.attempts = f.attempts.map inMs
  hold : TwinHold f.nextProbeAt g.hold

structure TwinBudget (b : ConnectBudget) (t : Bridge.ConnectBudget) : Prop where
  state : TwinFile ⟨b.attempts,b.nextProbeAt⟩ t.state
  file : Option.Rel TwinFile b.file t.file

structure Twin (s : Session ConnectBudget BudgetDecision) (t : Session Bridge.ConnectBudget Bridge.BudgetDecision) : Prop where
  budget : TwinBudget s.budget t.budget
  granted : t.granted = s.granted
  decisions : List.Forall₂ Answers s.decisions t.decisions
  attempts : t.attempts = s.attempts.map Attempt.inMs

section Twins
variable {o : BudgetOptions} {b : ConnectBudget} {t : Bridge.ConnectBudget} {f : Option BudgetFile}
  {g : Option Bridge.BudgetFile} {x now : Rat} {ts : List Rat}
variable {y : Rat} {acts : List BudgetAction}

theorem inMs_le : inMs x ≤ inMs y ↔ x ≤ y := by
  unfold inMs
  constructor <;> intro h <;> linarith

theorem inMs_lt : inMs x < inMs y ↔ x < y := by
  rw [← not_le,← not_le,inMs_le]

theorem inMs_sub : inMs (x - y) = inMs x - inMs y := mul_sub 1000 x y

theorem inMs_add : inMs (x + y) = inMs x + inMs y := mul_add 1000 x y

theorem inMs_max : inMs (max x y) = max (inMs x) (inMs y) := by
  refine Monotone.map_max fun _ _ h => inMs_le.mpr h

theorem inMs_hour : inMs hourS = Bridge.hourMs := by decide +kernel

theorem inMs_day : inMs dayS = Bridge.dayMs := by decide +kernel

theorem filter_inMs : (ts.map inMs).filter (inMs x < ·) = (ts.filter (x < ·)).map inMs := by
  rw [List.filter_map]
  congr 1
  exact List.filter_congr fun y _ => decide_eq_decide.mpr inMs_lt

theorem twin_load (h : Option.Rel TwinFile f g) : TwinBudget (.load f) (.load g) := by
  cases h with
  | some h => exact ⟨h,.some h⟩
  | none => exact ⟨⟨rfl,.none⟩,.none⟩

theorem TwinFile.save {f : BudgetFile} {g : Bridge.BudgetFile} (h : TwinFile f g) {file : Option BudgetFile}
    {file' : Option Bridge.BudgetFile} :
    TwinBudget (ConnectBudget.save ⟨f.attempts,f.nextProbeAt,file⟩) (Bridge.ConnectBudget.save ⟨g,file'⟩) :=
  ⟨h,.some h⟩

theorem TwinBudget.record (h : TwinBudget b t) {probe : Bool} :
    TwinBudget (b.recordAttempt o probe now) (t.recordAttempt o.inMs probe (inMs now)) := by
  refine TwinFile.save (f := ⟨_,_⟩) (g := ⟨_,_⟩) ⟨?_,?_⟩
  · rw [h.state.attempts,List.map_append]
    rfl
  · cases probe with
    | false => exact h.state.hold
    | true =>
      have hhold := h.state.hold
      generalize b.nextProbeAt = n at hhold ⊢
      generalize t.state.hold = hold at hhold ⊢
      cases hhold with
      | none => exact .none
      | some hn =>
        refine .some ?_
        rw [Bridge.ConnectBudget.probed,if_pos hn.1,inMs_add]
        exact ⟨hn.1,rfl⟩

theorem sorted_inMs : (ts.map inMs).insertionSort (· ≤ ·) = (ts.insertionSort (· ≤ ·)).map inMs :=
  (List.map_insertionSort _ _ inMs ts fun _ _ _ _ => inMs_le.symm).symm

theorem answers_hourlyWait {inHour : List Rat} :
    Answers (ConnectBudget.hourlyWait now inHour)
      (.wait (Bridge.ConnectBudget.hourlyWait (inMs now) (inHour.map inMs)) .hourlyLimit) := by
  cases inHour with
  | nil => exact .raised
  | cons oldest rest =>
    have hwait : inMs (max 1 (oldest + hourS - now)) = max 1000 (inMs oldest + Bridge.hourMs - inMs now) := by
      rw [inMs_max,inMs_sub,inMs_add,inMs_hour,inMs,mul_one]
    change Answers _ (.wait (some (max 1000 (inMs oldest + Bridge.hourMs - inMs now))) .hourlyLimit)
    rw [← hwait]
    exact .same (.wait _ _)

theorem TwinBudget.decideOpen (h : TwinBudget b t) (hn : b.nextProbeAt = none) (hhold : t.state.hold = none) :
    Answers (b.decide o now).1 (t.decideOpen o.inMs (inMs now)).1 ∧
      TwinBudget (b.decide o now).2 (t.decideOpen o.inMs (inMs now)).2 := by
  have hday : t.state.attempts.filter (inMs now - Bridge.dayMs < ·) = (b.attempts.filter (now - dayS < ·)).map inMs := by
    rw [← inMs_day,← inMs_sub,h.state.attempts,filter_inMs]
  have hopen : TwinBudget ⟨b.attempts.filter (now - dayS < ·),none,b.file⟩
      ⟨⟨(b.attempts.filter (now - dayS < ·)).map inMs,none⟩,t.file⟩ := ⟨⟨rfl,.none⟩,h.file⟩
  simp only [ConnectBudget.decide,hn,Bridge.ConnectBudget.decideOpen,hday,hhold,List.length_map]
  by_cases hd : o.perDay ≤ (b.attempts.filter (now - dayS < ·)).length
  · have hd' : o.inMs.perDay ≤ (b.attempts.filter (now - dayS < ·)).length := hd
    rw [if_pos hd,if_pos hd']
    refine ⟨.same (.wait _ _),TwinFile.save (f := ⟨_,_⟩) (g := ⟨_,_⟩) ⟨rfl,.some ⟨rfl,?_⟩⟩⟩
    rw [inMs_add]
    rfl
  · have hd' : ¬ o.inMs.perDay ≤ (b.attempts.filter (now - dayS < ·)).length := hd
    rw [if_neg hd,if_neg hd',← inMs_hour,← inMs_sub,filter_inMs,sorted_inMs,List.length_map]
    by_cases hh : o.perHour ≤
        (((b.attempts.filter (now - dayS < ·)).filter (now - hourS < ·)).insertionSort (· ≤ ·)).length
    · rw [if_pos hh,if_pos (show o.inMs.perHour ≤ _ from hh)]
      exact ⟨answers_hourlyWait,hopen⟩
    · rw [if_neg hh,if_neg (show ¬ o.inMs.perHour ≤ _ from hh)]
      exact ⟨.same (.connect false),hopen⟩

theorem TwinBudget.decide (h : TwinBudget b t) :
    Answers (b.decide o now).1 (t.decide o.inMs (inMs now)).1 ∧
      TwinBudget (b.decide o now).2 (t.decide o.inMs (inMs now)).2 := by
  have hhold : TwinHold b.nextProbeAt t.state.hold := h.state.hold
  generalize hn : b.nextProbeAt = next, hs : t.state.hold = hold at hhold
  cases hhold with
  | none =>
    rw [Bridge.ConnectBudget.decide,hs]
    exact h.decideOpen hn hs
  | some hx =>
    simp only [ConnectBudget.decide,hn,Bridge.ConnectBudget.decide,hs,hx,Option.getD_some,inMs_le]
    split_ifs
    · exact ⟨.same (.connect true),h⟩
    · rw [← inMs_sub]
      exact ⟨.same (.wait _ _),h⟩

theorem Answers.connects {d : BudgetDecision} {e : Bridge.BudgetDecision} (h : Answers d e) :
    bridgeConnects e = d.connects := by
  cases h with
  | same h => cases h <;> rfl
  | raised => rfl

variable {s : Session ConnectBudget BudgetDecision} {t : Session Bridge.ConnectBudget Bridge.BudgetDecision}

theorem Twin.step (h : Twin s t) {a : BudgetAction} : Twin (s.step (python o) a) (t.step (bridge o.inMs) a.inMs) := by
  cases a with
  | decide now =>
    obtain ⟨hans,hbudget⟩ := h.budget.decide (o := o)
    refine ⟨hbudget,hans.connects,?_,h.attempts⟩
    exact List.rel_append h.decisions (List.Forall₂.cons hans .nil)
  | record now =>
    simp only [Session.step,BudgetAction.inMs,h.granted]
    cases hg : s.granted with
    | none => exact h
    | some probe =>
      refine ⟨h.budget.record,rfl,h.decisions,?_⟩
      rw [h.attempts,List.map_append]
      rfl
  | restart => exact ⟨twin_load h.budget.file,rfl,h.decisions,h.attempts⟩

theorem Twin.run (h : Twin s t) :
    Twin (run (Session.step (python o)) s acts) (run (Session.step (bridge o.inMs)) t (acts.map BudgetAction.inMs)) := by
  induction acts generalizing s t with
  | nil => exact h
  | cons a acts ih => exact ih (h.step)

theorem twin_start (h : Option.Rel TwinFile f g) :
    Twin { budget := ConnectBudget.load f } { budget := Bridge.ConnectBudget.load g } :=
  ⟨twin_load h,rfl,.nil,rfl⟩

/-- An exception needs an hourly limit of none under a daily limit of some. -/
theorem decide_ne_raised (h : 0 < o.perHour ∨ o.perDay = 0) : (b.decide o now).1 ≠ .raised := by
  have hd := decided o now b
  generalize (b.decide o now).1 = d at hd ⊢
  generalize (b.decide o now).2 = b' at hd
  cases hd with
  | probe | spent | exhaust | connect => exact BudgetDecision.noConfusion
  | full hn inHour hd hh =>
    cases inHour with
    | cons => exact BudgetDecision.noConfusion
    | nil =>
      have hzero : o.perHour = 0 := Nat.le_zero.mp hh
      omega

theorem raised_not_mem (h : 0 < o.perHour ∨ o.perDay = 0) :
    .raised ∉ (Session.after (python o) b acts).decisions := by
  refine run_invariant (I := fun s : Session ConnectBudget BudgetDecision => .raised ∉ s.decisions)
    (s := { budget := b }) ?_ List.not_mem_nil acts
  intro s a hs
  cases a with
  | decide now => exact fun hm => (mem_concat.mp hm).elim hs (decide_ne_raised h).symm
  | record now =>
    simp only [Session.step]
    cases s.granted <;> exact hs
  | restart => exact hs

theorem same_of_answers {ds : List BudgetDecision} {es : List Bridge.BudgetDecision} (h : List.Forall₂ Answers ds es)
    (hr : .raised ∉ ds) : List.Forall₂ SameDecision ds es := by
  induction h with
  | nil => exact .nil
  | cons hans _ ih =>
    rw [List.mem_cons,not_or] at hr
    cases hans with
    | same h => exact .cons h (ih hr.2)
    | raised => exact absurd rfl hr.1

end Twins

/-- In every run from any stored file: the hourly and the daily limit on attempts that are not
probes; once the daily budget was found spent, only probes, an interval apart. The bridge makes the
same attempts, and the same decisions in every run exactly if the hourly limit is not zero under a
daily one that is not. -/
theorem reconnect_budget_kept (o : BudgetOptions) :
    (∀ file acts, Nondecreasing acts →
      let log := (Session.after (python o) (.load file) acts).attempts
      Limited Attempt.time hourS o.perHour (nonProbe log) ∧ Limited Attempt.time dayS o.perDay (nonProbe log)) ∧
    (∀ file acts later, Nondecreasing (acts ++ later) →
      (Session.after (python o) (.load file) acts).budget.exhausted = true →
        OnlyProbes o (Session.after (python o) (.load file) acts) (Session.after (python o) (.load file) (acts ++ later))) ∧
    (∀ file file' acts, Option.Rel TwinFile file file' →
      (Session.after (bridge o.inMs) (.load file') (acts.map BudgetAction.inMs)).attempts =
        (Session.after (python o) (.load file) acts).attempts.map Attempt.inMs) ∧
    ((∀ file file' acts, Option.Rel TwinFile file file' → Nondecreasing acts →
      List.Forall₂ SameDecision (Session.after (python o) (.load file) acts).decisions
        (Session.after (bridge o.inMs) (.load file') (acts.map BudgetAction.inMs)).decisions) ↔
      0 < o.perHour ∨ o.perDay = 0) := by
  have hfrom (acts : List BudgetAction) (h : Nondecreasing acts) : ∃ c, (c :: clocks acts).Pairwise (· ≤ ·) := by
    change (clocks acts).Pairwise (· ≤ ·) at h
    cases ht : clocks acts with
    | nil => exact ⟨0,List.pairwise_singleton _ _⟩
    | cons c cs =>
      rw [ht] at h
      exact ⟨c,List.pairwise_cons.mpr ⟨List.forall_mem_cons.mpr ⟨le_rfl,(List.pairwise_cons.mp h).1⟩,h⟩⟩
  refine ⟨fun file acts h => ?_,fun file acts later h he => ?_,fun file file' acts h => ?_,fun h => ?_,
    fun h file file' acts hf _ => ?_⟩
  · obtain ⟨c,hp⟩ := hfrom acts h
    obtain ⟨_,hk,_⟩ := kept_start.run acts [] (by rwa [List.append_nil])
    exact ⟨hk.hourly,hk.daily⟩
  · obtain ⟨c,hp⟩ := hfrom _ h
    obtain ⟨c',hk,hp'⟩ := kept_start.run acts later hp
    have hrun := (OnlyProbes.refl he).run hk hp'
    rwa [Session.after,Session.after,run_append] at *
  · exact ((twin_start h).run).attempts
  · by_contra hn
    have hhour : o.perHour = 0 := by omega
    have hday : ¬ o.perDay ≤ 0 := by omega
    have hsame := h none none [.decide 0] .none (List.pairwise_singleton _ _)
    have hraised : ((ConnectBudget.load none).decide o 0).1 = .raised := by
      simp [ConnectBudget.load,ConnectBudget.decide,hday,hhour,ConnectBudget.hourlyWait]
    change List.Forall₂ SameDecision [((ConnectBudget.load none).decide o 0).1] _ at hsame
    rw [hraised] at hsame
    cases hsame with
    | cons hd _ => cases hd
  · exact same_of_answers ((twin_start hf).run).decisions (raised_not_mem h)

/-- No attempt an hour, one a day: the first question ends in an exception here and in a wait of no
number there. -/
theorem zero_hourly_limit_raises :
    let o : BudgetOptions := { perHour := 0, perDay := 1 }
    (Session.after (python o) (.load none) [.decide 0]).decisions = [.raised] ∧
    (Session.after (bridge o.inMs) (.load none) [.decide 0]).decisions = [.wait none .hourlyLimit] := by
  decide +kernel

end Yeoman.Shared
