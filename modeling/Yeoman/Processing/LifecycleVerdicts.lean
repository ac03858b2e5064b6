import Mathlib.Data.Prod.Lex
import Mathlib.Data.String.Basic
import Yeoman.Library.Ranking
import Yeoman.Library.Table

/-! The verdicts on the threads of a chat: idle and quiet threads are dormant, and of the others
the most recently active ones stay active, as far as the cap allows. -/
namespace Yeoman.Processing
open Library Table

structure LifecycleThread where
  threadId : String
  lastActivityMs : Int
deriving DecidableEq

inductive LifecycleVerdict where
  | active
  | idleAndQuiet
  | overCap
deriving DecidableEq

/-- What the verdicts depend on besides the threads, with the thresholds of the thread policy. -/
structure LifecycleView where
  otherMessages : String → Int
  nowMs : Int
  isGroup : Bool
  dormantAfterSeconds : Int := 3600
  dormantAfterMessages : Int := 5
  dormantAfterMessagesDm : Int := 0
  maxActivePerChat : Int := 4

def LifecycleThread.recency (t : LifecycleThread) : Int ×ₗ String := toLex (t.lastActivityMs, t.threadId)

namespace LifecycleView
variable (v : LifecycleView) (threads : List LifecycleThread)

def dormant (t : LifecycleThread) : Bool :=
  v.dormantAfterSeconds * 1000 ≤ v.nowMs - t.lastActivityMs &&
    (if v.isGroup then v.dormantAfterMessages else v.dormantAfterMessagesDm) ≤ v.otherMessages t.threadId

def eligible : List LifecycleThread := (ranked LifecycleThread.recency threads).filter (! v.dormant ·)

def excess : List LifecycleThread :=
  (v.eligible threads).take ((v.eligible threads).length - v.maxActivePerChat).toNat

def lifecycleVerdicts (threadId : String) : Option LifecycleVerdict :=
  if threadId ∈ (v.excess threads).map LifecycleThread.threadId then some .overCap
  else (lookup LifecycleThread.threadId threadId (ranked LifecycleThread.recency threads).reverse).map fun t =>
    if v.dormant t then .idleAndQuiet else .active

variable {v threads} {t : LifecycleThread} (hn : Unique LifecycleThread.threadId threads)

theorem mem_eligible : t ∈ v.eligible threads ↔ t ∈ threads ∧ v.dormant t = false := by
  simp [eligible,mem_ranked]

include hn
theorem unique_ranked : Unique LifecycleThread.threadId (ranked LifecycleThread.recency threads) :=
  ((ranked_perm _ threads).map _).nodup_iff.mpr hn

theorem eligible_increasing : (v.eligible threads).Pairwise fun a b => a.recency < b.recency := by
  have hstrict : (ranked LifecycleThread.recency threads).Pairwise fun a b => a.recency < b.recency := by
    refine (List.pairwise_map.mp (unique_ranked hn)).imp₂ (fun a b hne hle => lt_of_le_of_ne hle fun he => hne ?_)
      (ranked_sorted _ threads)
    exact congrArg (fun x => (ofLex x).2) he
  exact hstrict.filter _

theorem verdict_of_mem (ht : t ∈ threads) : v.lifecycleVerdicts threads t.threadId =
    some (if t ∈ v.excess threads then .overCap else if v.dormant t then .idleAndQuiet else .active) := by
  have hex : t.threadId ∈ (v.excess threads).map LifecycleThread.threadId ↔ t ∈ v.excess threads := by
    refine ⟨fun h => ?_,List.mem_map_of_mem⟩
    obtain ⟨u,hu,he⟩ := List.mem_map.mp h
    exact hn.eq_of_mem (mem_eligible.mp (List.mem_of_mem_take hu)).1 ht he ▸ hu
  have hu : Unique LifecycleThread.threadId (ranked LifecycleThread.recency threads).reverse := by
    rw [Table.Unique,List.map_reverse,List.nodup_reverse]
    exact unique_ranked hn
  rw [lifecycleVerdicts,hu.lookup_of_mem (List.mem_reverse.mpr (mem_ranked.mpr ht))]
  simp only [hex]
  split <;> rfl

/-- A thread that is not dormant by itself is within the cap exactly when fewer of its kind than
the cap are more recent. -/
theorem not_mem_excess_iff (ht : t ∈ v.eligible threads) : t ∉ v.excess threads ↔
    ((v.eligible threads).countP fun u => t.recency < u.recency : Int) < v.maxActivePerChat := by
  have hs := eligible_increasing (v := v) hn
  rw [excess]
  obtain ⟨pre,post,he⟩ := List.append_of_mem ht
  rw [he] at hs ⊢
  obtain ⟨-,hpost,hpre⟩ := List.pairwise_append.mp hs
  have hcount : (pre ++ t :: post).countP (fun u => decide (t.recency < u.recency)) = post.length := by
    have hp : pre.countP (fun u => decide (t.recency < u.recency)) = 0 :=
      List.countP_eq_zero.mpr fun u hu => by simpa using (hpre u hu t (by simp)).le
    have hq : post.countP (fun u => decide (t.recency < u.recency)) = post.length :=
      List.countP_eq_length.mpr fun u hu => by simpa using List.rel_of_pairwise_cons hpost hu
    simp [hp,hq]
  have hout : t ∉ pre := fun h => lt_irrefl _ (hpre t h t (by simp))
  have hfirst (n : Nat) : t ∈ (t :: post).take n ↔ n ≠ 0 := by cases n <;> simp
  rw [hcount,List.take_append,List.mem_append,hfirst,List.length_append,List.length_cons]
  have hpre' := fun n => mt (List.mem_of_mem_take (i := n)) hout
  simp only [hpre',false_or,not_not]
  omega

omit hn
/-- Every thread has one verdict and nothing else has, no more threads are active than the cap
allows, and the active ones are those of the threads not dormant by themselves that fewer than
the cap of them are more recent than. -/
theorem lifecycle_cap (v : LifecycleView) (threads : List LifecycleThread)
    (hn : Unique LifecycleThread.threadId threads) :
    (∀ id, (v.lifecycleVerdicts threads id).isSome = true ↔ id ∈ threads.map LifecycleThread.threadId) ∧
    ((threads.filter fun t => v.lifecycleVerdicts threads t.threadId = some .active).length : Int) ≤
      max 0 v.maxActivePerChat ∧
    ∀ t ∈ threads, v.lifecycleVerdicts threads t.threadId = some .active ↔ v.dormant t = false ∧
      ((v.eligible threads).countP fun u => t.recency < u.recency : Int) < v.maxActivePerChat := by
  have hactive : ∀ t ∈ threads, v.lifecycleVerdicts threads t.threadId = some .active ↔
      t ∈ v.eligible threads ∧ t ∉ v.excess threads := by
    intro t ht
    rw [verdict_of_mem hn ht,mem_eligible]
    cases hd : v.dormant t <;> by_cases he : t ∈ v.excess threads <;> simp [he,ht]
  refine ⟨fun id => ⟨fun h => ?_,fun h => ?_⟩,?_,fun t ht => ?_⟩
  · rw [lifecycleVerdicts] at h
    split_ifs at h with he
    · obtain ⟨t,ht,rfl⟩ := List.mem_map.mp he
      exact List.mem_map_of_mem (mem_eligible.mp (List.mem_of_mem_take ht)).1
    · rw [Option.isSome_map,lookup_isSome] at h
      obtain ⟨t,ht,rfl⟩ := h
      exact List.mem_map_of_mem (mem_ranked.mp (List.mem_reverse.mp ht))
  · obtain ⟨t,ht,rfl⟩ := List.mem_map.mp h
    rw [verdict_of_mem hn ht]
    rfl
  · -- the active threads are among those that the cap leaves over
    have hsub : (threads.filter fun t => v.lifecycleVerdicts threads t.threadId = some .active) ⊆
        (v.eligible threads).drop ((v.eligible threads).length - v.maxActivePerChat).toNat := by
      intro t ht
      rw [List.mem_filter,decide_eq_true_eq] at ht
      obtain ⟨hm,hout⟩ := (hactive t ht.1).mp ht.2
      rw [← List.take_append_drop ((v.eligible threads).length - v.maxActivePerChat).toNat (v.eligible threads)] at hm
      exact (List.mem_append.mp hm).resolve_left hout
    have hle := (List.subperm_of_subset ((List.Nodup.of_map _ hn).filter _) hsub).length_le
    rw [List.length_drop] at hle
    omega
  · rw [hactive t ht,← and_iff_right ht (b := v.dormant t = false),← mem_eligible]
    exact and_congr_right (not_mem_excess_iff hn)

/-- Two threads are equally recent and the cap is one: the greater id stays active. -/
theorem lifecycle_cap_tie :
    let v : LifecycleView := { otherMessages := fun _ => 0, nowMs := 100, isGroup := true, maxActivePerChat := 1 }
    let threads : List LifecycleThread := [⟨"b",5⟩,⟨"a",5⟩,⟨"c",4⟩]
    ["a", "b", "c", "d"].map (v.lifecycleVerdicts threads) = [some .overCap, some .active, some .overCap, none] ∧
    ((threads.filter fun t => v.lifecycleVerdicts threads t.threadId = some .active).length : Int) ≤ max 0 1 := by
  intro v threads
  exact ⟨by decide +kernel,(lifecycle_cap v threads (by simp [Table.Unique,threads])).2.1⟩

end LifecycleView
end Yeoman.Processing
