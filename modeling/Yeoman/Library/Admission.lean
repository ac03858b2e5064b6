import Mathlib.Data.List.Induction
import Yeoman.Library.Table

/-! Admission control. An entry joins a log when fewer than `limit` of the entries before it
count for it; later the entries may change, as long as none comes to count that did not. Then
no selection whose entries count for each other is larger than the limit. -/
namespace Yeoman.Library.Admission
variable {α : Type} {sel : α → Bool} {counts : α → α → Bool} {limit : Nat} {log : List α}

def Admitted (sel : α → Bool) (counts : α → α → Bool) (limit : Nat) (log : List α) : Prop :=
  ∀ before r after, log = before ++ r :: after → sel r = true → before.countP (counts r) < limit

theorem Admitted.nil : Admitted sel counts limit [] := by
  intro before r after h
  exact absurd h (by simp)

theorem Admitted.append (h : Admitted sel counts limit log) {new : List α}
    (hn : ∀ before r after, new = before ++ r :: after → sel r = true →
      (log ++ before).countP (counts r) < limit) : Admitted sel counts limit (log ++ new) := by
  intro before r after he hs
  rcases List.append_eq_append_iff.mp he with ⟨mid,rfl,hnew⟩ | ⟨mid,rfl,hnew⟩
  · exact hn mid r after hnew hs
  · cases mid with
    | nil =>
      have hb := hn [] r after hnew.symm hs
      rwa [List.append_nil,List.append_nil] at hb
    | cons x mid =>
      obtain ⟨rfl,-⟩ := List.cons.inj hnew
      exact h before r mid rfl hs

theorem Admitted.rewrites (h : Admitted sel counts limit log) {R : α → α → Prop} {log' : List α}
    (hr : Table.Rewrites R log log') (hs : ∀ r r', R r r' → sel r' = true → sel r = true)
    (hc : ∀ r r' q q', R r r' → R q q' → counts r' q' = true → counts r q = true) :
    Admitted sel counts limit log' := by
  rintro before' r' after' rfl hsel
  obtain ⟨before,r,after,rfl,hb,hrr⟩ := hr.split
  have hle : before'.countP (counts r') ≤ before.countP (counts r) :=
    hb.countP_le fun q q' hq => hc r r' q q' hrr hq
  exact lt_of_le_of_lt hle (h before r after rfl (hs r r' hrr hsel))

/-- A selection in which every entry counts for the ones after it is within the limit. -/
theorem Admitted.countP_le (h : Admitted sel counts limit log) {p : α → Bool}
    (hs : ∀ r ∈ log, p r = true → sel r = true)
    (hp : ∀ before r after, log = before ++ r :: after → p r = true → ∀ q ∈ before, p q = true → counts r q = true) :
    log.countP p ≤ limit := by
  induction log using List.reverseRecOn with
  | nil => exact Nat.zero_le _
  | append_singleton log r ih =>
    rw [List.countP_append,List.countP_singleton]
    cases hr : p r with
    | true =>
      have hlt := h log r [] rfl (hs r (by simp) hr)
      have hle : log.countP p ≤ log.countP (counts r) :=
        List.countP_mono_left fun q hq => hp log r [] rfl hr q hq
      simp only [if_true]
      omega
    | false =>
      refine ih ?_ (fun q hq => hs q (List.mem_append_left _ hq)) ?_
      · rintro before q after rfl
        exact h before q (after ++ [r]) (by simp)
      · rintro before q after rfl
        exact hp before q (after ++ [r]) (by simp)

end Yeoman.Library.Admission
