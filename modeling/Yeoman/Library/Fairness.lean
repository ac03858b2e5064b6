import Mathlib.Data.Nat.Find
import Mathlib.Order.Basic
import Yeoman.Library.Runs

/-! Endless runs, and what happens in them sooner or later: a step that keeps a property, the
first step of a kind, and a queue that is served from its front. -/
namespace Yeoman.Library.Fairness
variable {σ α κ : Type}

def states (step : σ → α → σ) (s : σ) (acts : Nat → α) : Nat → σ
  | 0 => s
  | n + 1 => step (states step s acts n) (acts n)

theorem states_invariant {step : σ → α → σ} {I : σ → Prop} {P : σ → α → Prop}
    (hs : ∀ s a, I s → P s a → I (step s a)) {s : σ} {acts : Nat → α} (h : I s)
    (hp : ∀ n, P (states step s acts n) (acts n)) {n : Nat} : I (states step s acts n) := by
  induction n with
  | zero => exact h
  | succ n ih => exact hs _ _ ih (hp n)

variable {n : Nat} {m : Nat}

theorem persists {R : Nat → Prop} (hnm : n ≤ m) (hn : R n) (hs : ∀ j, n ≤ j → j < m → R j → R (j + 1)) : R m := by
  induction m, hnm using Nat.le_induction with
  | base => exact hn
  | succ m hm ih => exact hs m hm (Nat.lt_succ_self m) (ih fun j hj hlt => hs j hj (Nat.lt_succ_of_lt hlt))

theorem exists_first {P : Nat → Prop} (h : ∃ m, n ≤ m ∧ P m) : ∃ m, n ≤ m ∧ P m ∧ ∀ j, n ≤ j → j < m → ¬P j := by
  classical
  refine ⟨Nat.find h,(Nat.find_spec h).1,(Nat.find_spec h).2,?_⟩
  intro j hj hlt hp
  exact Nat.find_min h hlt ⟨hj,hp⟩

def Fifo (queue batch : Nat → List κ) : Prop :=
  ∀ n, ∃ rest added, queue n = batch n ++ rest ∧ queue (n + 1) = rest ++ added

theorem Fifo.waits {queue batch : Nat → List κ} (h : Fifo queue batch) (hnm : n ≤ m)
    (hb : ∀ j, n ≤ j → j < m → batch j = []) {ahead : List κ} (hn : ahead <+: queue n) : ahead <+: queue m := by
  refine persists (R := fun j => ahead <+: queue j) hnm hn fun j hj hlt hp => ?_
  obtain ⟨rest,added,hq,hq'⟩ := h j
  rw [hb j hj hlt,List.nil_append] at hq
  rw [hq']
  exact (hq ▸ hp).trans (List.prefix_append rest added)

/-- In a queue that is served again and again while it is not empty, everything is served. -/
theorem Fifo.served {queue batch : Nat → List κ} (h : Fifo queue batch)
    (hf : ∀ n, queue n ≠ [] → ∃ m, n ≤ m ∧ batch m ≠ []) {k : κ} (hk : k ∈ queue n) : ∃ m, n ≤ m ∧ k ∈ batch m := by
  obtain ⟨ahead,behind,hsplit⟩ := List.append_of_mem hk
  have hprefix : ahead ++ [k] <+: queue n := ⟨behind,by rw [hsplit]; simp⟩
  clear hk hsplit
  -- by induction on how many wait ahead, at the next time at which the queue is served
  induction hl : ahead.length using Nat.strong_induction_on generalizing ahead n with
  | _ l ih =>
    have hne : queue n ≠ [] := by
      intro he
      rw [he,List.prefix_nil] at hprefix
      simp at hprefix
    obtain ⟨m,hm,hb,hfirst⟩ := exists_first (hf n hne)
    have hwait := h.waits hm (fun j hj hlt => not_not.mp (hfirst j hj hlt)) hprefix
    obtain ⟨rest,added,hq,hq'⟩ := h m
    rw [hq] at hwait
    rcases List.prefix_or_prefix_of_prefix hwait (List.prefix_append (batch m) rest) with hp | hp
    · exact ⟨m,hm,hp.subset (by simp)⟩
    · obtain ⟨left,hleft⟩ := hp
      rcases List.eq_nil_or_concat left with rfl | ⟨left,x,rfl⟩
      · exact ⟨m,hm,by rw [List.append_nil] at hleft; simp [hleft]⟩
      · have hx : batch m ++ left = ahead ∧ x = k := by
          rw [List.concat_eq_append,← List.append_assoc] at hleft
          simpa using List.append_inj' hleft rfl
        obtain ⟨rfl,rfl⟩ := hx
        have hrest : left ++ [x] <+: queue (m + 1) := by
          rw [List.append_assoc,List.prefix_append_right_inj] at hwait
          rw [hq']
          exact hwait.trans (List.prefix_append rest added)
        have hlt : left.length < l := by
          have := List.length_pos_iff.mpr hb
          rw [List.length_append] at hl
          omega
        obtain ⟨m',hm',hk⟩ := ih left.length hlt left hrest rfl
        exact ⟨m',by omega,hk⟩

end Yeoman.Library.Fairness
