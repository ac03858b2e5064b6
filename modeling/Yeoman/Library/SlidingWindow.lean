import Mathlib.Algebra.Order.BigOperators.Group.List
import Mathlib.Algebra.Order.Ring.Int
import Mathlib.Data.List.Induction

/-! Budgets over a sliding window. Entries are charged in time order, each against the window
that ends at its own time; then no window of the same length holds more than the budget. -/
namespace Yeoman.Library.SlidingWindow
variable {α : Type} (time amount : α → Int)

def spent (since upTo : Int) (log : List α) : Int :=
  ((log.filter fun r => since < time r && time r ≤ upTo).map amount).sum

def Charged (limit window : Int) (log : List α) : Prop :=
  ∀ before r after, log = before ++ r :: after →
    spent time amount (time r - window) (time r) before + amount r ≤ limit

variable {r : α} {upTo limit window : Int}

theorem spent_concat {since : Int} {log : List α} :
    spent time amount since upTo (log ++ [r]) =
      spent time amount since upTo log + if since < time r ∧ time r ≤ upTo then amount r else 0 := by
  unfold spent
  rw [List.filter_append,List.map_append,List.sum_append,List.filter_singleton]
  by_cases h : since < time r ∧ time r ≤ upTo
  · simp [h]
  · rw [if_neg h,← Bool.decide_and,decide_eq_false h]
    rfl

theorem spent_indicator (p : α → Bool) (since upTo : Int) (log : List α) :
    spent time (fun r => if p r then 1 else 0) since upTo log =
      (log.countP fun r => p r && (since < time r && time r ≤ upTo) : Nat) := by
  induction log using List.reverseRecOn with
  | nil => rfl
  | append_singleton log r ih =>
    rw [spent_concat,ih,List.countP_append,List.countP_singleton]
    cases hp : p r with
    | true => by_cases hw : since < time r ∧ time r ≤ upTo <;> simp [hw]
    | false => simp

variable {time amount} {log : List α}

theorem spent_le_spent {since since' upTo' : Int} (h₀ : ∀ r ∈ log, 0 ≤ amount r)
    (h : ∀ r ∈ log, since < time r → time r ≤ upTo → since' < time r ∧ time r ≤ upTo') :
    spent time amount since upTo log ≤ spent time amount since' upTo' log := by
  induction log using List.reverseRecOn with
  | nil => exact le_refl _
  | append_singleton log r ih =>
    have hr := @List.mem_concat_self _ log r
    have hlog := ih (fun q hq => h₀ q (List.mem_append_left _ hq))
      fun q hq => h q (List.mem_append_left _ hq)
    rw [spent_concat,spent_concat]
    refine add_le_add hlog ?_
    by_cases hw : since < time r ∧ time r ≤ upTo
    · rw [if_pos hw,if_pos (h r hr hw.1 hw.2)]
    · rw [if_neg hw]
      split
      · exact h₀ r hr
      · exact le_refl _

theorem Charged.nil : Charged time amount limit window [] := by
  intro before r after h
  exact absurd h (by simp)

theorem Charged.concat (h : Charged time amount limit window log)
    (hr : spent time amount (time r - window) (time r) log + amount r ≤ limit) :
    Charged time amount limit window (log ++ [r]) := by
  intro before q after he
  rcases List.eq_nil_or_concat after with rfl | ⟨after,x,rfl⟩
  · obtain ⟨rfl,hq⟩ := List.append_inj' he rfl
    cases hq
    exact hr
  · rw [List.concat_eq_append,← List.cons_append,← List.append_assoc] at he
    obtain ⟨he,-⟩ := List.append_inj' he rfl
    exact h before q after he

theorem Charged.of_concat
    (h : Charged time amount limit window (log ++ [r])) : Charged time amount limit window log := by
  rintro before q after rfl
  exact h before q (after ++ [r]) (by simp)

/-- No window of a log in time order holds more than the budget. -/
theorem Charged.spent_le (h₀ : 0 ≤ limit) (h : Charged time amount limit window log) (ha : ∀ r ∈ log, 0 ≤ amount r)
    (ht : log.Pairwise fun a b => time a ≤ time b) : spent time amount (upTo - window) upTo log ≤ limit := by
  induction log using List.reverseRecOn with
  | nil => exact h₀
  | append_singleton log r ih =>
    obtain ⟨ht',-,hlast⟩ := List.pairwise_append.mp ht
    have ha' : ∀ q ∈ log, 0 ≤ amount q := fun q hq => ha q (List.mem_append_left _ hq)
    rw [spent_concat]
    by_cases hw : upTo - window < time r ∧ time r ≤ upTo
    · -- Everything in this window is also in the one that ends with the last entry.
      rw [if_pos hw]
      refine le_trans (add_le_add_left (spent_le_spent ha' fun q hq h₁ _ => ?_) _) (h log r [] rfl)
      have hq := hlast q hq r (List.mem_singleton_self r)
      exact ⟨by omega,hq⟩
    · rw [if_neg hw,add_zero]
      exact ih h.of_concat ha' ht'

section Counting
variable {T : Type} [AddCommGroup T] [LinearOrder T] {stamp : α → T} {window : T} {n : Nat} {log : List α}

def Limited (stamp : α → T) (window : T) (n : Nat) (log : List α) : Prop :=
  ∀ since, log.countP (fun r => since < stamp r && stamp r ≤ since + window) ≤ n

theorem Limited.nil : Limited stamp window n [] := fun _ => n.zero_le

/-- One more entry keeps the limit if, not later than it, fewer than `n` were found in the window. -/
theorem Limited.concat [IsOrderedAddMonoid T] (h : Limited stamp window n log) {now : T} (hnow : now ≤ stamp r)
    (hn : log.countP (fun a => now - window < stamp a) < n) : Limited stamp window n (log ++ [r]) := by
  intro since
  rw [List.countP_append,List.countP_singleton]
  by_cases hw : since < stamp r ∧ stamp r ≤ since + window
  · -- the window reaches no further back than the one that was looked at
    have hback : now - window ≤ since := sub_le_iff_le_add.mpr (hnow.trans hw.2)
    have hle : log.countP (fun a => since < stamp a && stamp a ≤ since + window) ≤
        log.countP (fun a => now - window < stamp a) := by
      refine List.countP_mono_left fun a _ ha => ?_
      rw [Bool.and_eq_true,decide_eq_true_iff] at ha
      exact decide_eq_true (hback.trans_lt ha.1)
    have hone : (if (since < stamp r && stamp r ≤ since + window) = true then 1 else 0) ≤ 1 := by split <;> decide
    omega
  · rw [if_neg (by rwa [Bool.and_eq_true,decide_eq_true_iff,decide_eq_true_iff])]
    exact h since

end Counting

end Yeoman.Library.SlidingWindow
