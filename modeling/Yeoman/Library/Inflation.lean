import Mathlib.Order.Basic

/-! Folds whose steps only add: such a fold leaves its start as it was exactly if every step
would. -/
namespace Yeoman.Library.Inflation
variable {σ α : Type} {le : σ → σ → Prop} {step : σ → α → σ}

theorem le_foldl (hr : ∀ s, le s s) (ht : ∀ s t u, le s t → le t u → le s u) (hi : ∀ s a, le s (step s a))
    (s : σ) (as : List α) : le s (as.foldl step s) := by
  induction as generalizing s with
  | nil => exact hr s
  | cons a as ih => exact ht _ _ _ (hi s a) (ih (step s a))

/-- `C s a` says when the step `a` leaves `s` as it was, and says the same of states that are
below each other. -/
theorem foldl_fixed_iff {C : σ → α → Prop} (hr : ∀ s, le s s) (ht : ∀ s t u, le s t → le t u → le s u)
    (hi : ∀ s a, le s (step s a)) (hf : ∀ s a, le (step s a) s ↔ C s a)
    (hc : ∀ s t a, le s t → le t s → C s a → C t a) (s : σ) (as : List α) :
    le (as.foldl step s) s ↔ ∀ a ∈ as, C s a := by
  induction as generalizing s with
  | nil => exact ⟨fun _ _ ha => absurd ha List.not_mem_nil,fun _ => hr s⟩
  | cons a as ih =>
    rw [List.foldl_cons,List.forall_mem_cons]
    have hup := hi s a
    constructor
    · intro h
      have hdown : le (step s a) s := ht _ _ _ (le_foldl hr ht hi (step s a) as) h
      refine ⟨(hf s a).mp hdown,fun b hb => ?_⟩
      exact hc _ _ b hdown hup ((ih (step s a)).mp (ht _ _ _ h hup) b hb)
    · intro ⟨ha,has⟩
      have hdown := (hf s a).mpr ha
      exact ht _ _ _ ((ih (step s a)).mpr fun b hb => hc _ _ b hup hdown (has b hb)) hdown

end Yeoman.Library.Inflation
