import Mathlib.Logic.Relation

/-! Runs of a system that takes one action after another. Properties of whole
runs are derived here once from what a single action does. -/
namespace Yeoman.Library.Runs
variable {σ α : Type} (step : σ → α → σ)

def run (s : σ) (as : List α) : σ := as.foldl step s

def tally (p : σ → α → Bool) : σ → List α → Nat
  | _, [] => 0
  | s, a :: as => (p s a).toNat + tally p (step s a) as

def Along (P : σ → α → Prop) : σ → List α → Prop
  | _, [] => True
  | s, a :: as => P s a ∧ Along P (step s a) as

instance decidableAlong (P : σ → α → Prop) [∀ s a, Decidable (P s a)] :
    (s : σ) → (as : List α) → Decidable (Along step P s as)
  | _, [] => isTrue trivial
  | s, a :: as =>
    have := decidableAlong P (step s a) as
    inferInstanceAs (Decidable (P s a ∧ Along step P (step s a) as))

def Reachable (init : σ) (s : σ) : Prop := ∃ as, run step init as = s

@[simp] theorem run_nil {s : σ} : run step s [] = s := rfl

@[simp] theorem run_cons (s : σ) (a : α) (as : List α) :
    run step s (a :: as) = run step (step s a) as := rfl

theorem run_append (s : σ) (as bs : List α) :
    run step s (as ++ bs) = run step (run step s as) bs := List.foldl_append

variable {step}

theorem Reachable.init (s : σ) : Reachable step s s := ⟨[],rfl⟩
variable {s : σ} {I : σ → Prop} {P : σ → α → Prop} {as : List α} {init : σ} {Q : σ → α → Prop}

theorem Reachable.run (h : Reachable step init s) (as : List α) : Reachable step init (run step s as) := by
  obtain ⟨bs,rfl⟩ := h
  exact ⟨bs ++ as,run_append step init bs as⟩

theorem Reachable.next (h : Reachable step init s) (a : α) :
    Reachable step init (step s a) := h.run [a]

theorem run_invariant (hs : ∀ s a, I s → I (step s a)) (h : I s) (as : List α) : I (run step s as) := by
  induction as generalizing s with
  | nil => exact h
  | cons a as ih => exact ih (hs s a h)

theorem Reachable.invariant (h : Reachable step init s) (hi : I init) (hs : ∀ s a, I s → I (step s a)) : I s := by
  obtain ⟨as,rfl⟩ := h
  exact run_invariant hs hi as

/-- An invariant of the actions that satisfy `P` turns a run along `P` into one along
whatever the invariant and `P` imply. -/
theorem Along.imp (hs : ∀ s a, I s → P s a → I (step s a))
    (hq : ∀ s a, I s → P s a → Q s a) (hi : I s) (h : Along step P s as) : Along step Q s as := by
  induction as generalizing s with
  | nil => trivial
  | cons a as ih => exact ⟨hq s a hi h.1,ih (hs s a hi h.1) h.2⟩

theorem Along.of_invariant (hs : ∀ s a, I s → I (step s a))
    (hq : ∀ s a, I s → Q s a) (hi : I s) : Along step Q s as := by
  induction as generalizing s with
  | nil => trivial
  | cons a as ih => exact ⟨hq s a hi,ih (hs s a hi)⟩

theorem Along.of_forall {p : α → Prop} (h : ∀ a ∈ as, p a) : Along step (fun _ a => p a) s as := by
  induction as generalizing s with
  | nil => trivial
  | cons a as ih => exact ⟨h a List.mem_cons_self,ih fun b hb => h b (List.mem_cons_of_mem a hb)⟩

theorem along_append {bs : List α} :
    Along step P s (as ++ bs) ↔ Along step P s as ∧ Along step P (run step s as) bs := by
  induction as generalizing s with
  | nil => exact (and_iff_right trivial).symm
  | cons a as ih =>
    rw [List.cons_append,Along,Along,ih,and_assoc]
    rfl

theorem Along.invariant (hs : ∀ s a, I s → P s a → I (step s a))
    (hi : I s) (h : Along step P s as) : I (run step s as) := by
  induction as generalizing s with
  | nil => exact hi
  | cons a as ih => exact ih (hs s a hi h.1) h.2

theorem run_relates {R : σ → σ → Prop} (hr : ∀ s, R s s) (ht : ∀ a b c, R a b → R b c → R a c)
    (hs : ∀ s a, R s (step s a)) (s : σ) (as : List α) : R s (run step s as) := by
  induction as generalizing s with
  | nil => exact hr s
  | cons a as ih => exact ht _ _ _ (hs s a) (ih (step s a))

/-- Amortised counting: when each counted action is paid for by a potential that
only other counted actions refill, the two counts differ by the initial credit. -/
theorem tally_le_of_potential {p q : σ → α → Bool} {φ : σ → Nat} (hI : ∀ s a, I s → I (step s a))
    (hs : ∀ s a, I s → (p s a).toNat + φ (step s a) ≤ φ s + (q s a).toNat) (h : I s) :
    tally step p s as + φ (run step s as) ≤ φ s + tally step q s as := by
  induction as generalizing s with
  | nil => simp [tally]
  | cons a as ih =>
    have hr := ih (hI s a h)
    have ha := hs s a h
    simp only [tally,run_cons]
    omega

end Yeoman.Library.Runs
