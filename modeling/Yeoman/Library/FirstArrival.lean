import Mathlib.Data.List.Basic
import Mathlib.Order.Lattice

/-! Logs in which a key may be entered more than once, first in part and later whole. A log is in
order when every entry ranks at least as high as what stands before it, or repeats a key that
stands there whole. The first whole entries then follow the ranks. -/
namespace Yeoman.Library.FirstArrival
variable {ε κ ν : Type} [LinearOrder ν] (key : ε → κ) (rank : κ → ν) (whole : ε → Bool)

def Admits (log : List ε) (k : κ) : Prop :=
  (∀ x ∈ log, rank (key x) ≤ rank k) ∨ ∃ x ∈ log, whole x = true ∧ key x = k

def InOrder (log : List ε) : Prop :=
  ∀ front e rest, log = front ++ e :: rest → Admits key rank whole front (key e)

variable {key rank whole}

theorem InOrder.nil : InOrder key rank whole [] := by
  intro front e rest h
  exact absurd h.symm (by simp)
variable {log : List ε} {e : ε}

theorem InOrder.concat (h : InOrder key rank whole log)
    (he : Admits key rank whole log (key e)) : InOrder key rank whole (log ++ [e]) := by
  intro front x rest hs
  rcases List.eq_nil_or_concat rest with rfl | ⟨rest,y,rfl⟩
  · obtain ⟨rfl,hx⟩ := List.append_inj' hs rfl
    cases hx
    exact he
  · have hs : log ++ [e] = (front ++ x :: rest) ++ [y] := by simpa using hs
    exact h front x rest (List.append_inj' hs rfl).1

theorem InOrder.of_append {more : List ε} (h : InOrder key rank whole (log ++ more)) :
    InOrder key rank whole log := by
  intro front e rest hs
  exact h front e (rest ++ more) (by rw [hs]; simp)

theorem Admits.concat {k : κ} (h : Admits key rank whole log k)
    (he : rank (key e) ≤ rank k) : Admits key rank whole (log ++ [e]) k := by
  rcases h with h | ⟨x,hx,h⟩
  · refine .inl fun x hx => ?_
    rcases List.mem_append.mp hx with hx | hx
    · exact h x hx
    · rw [List.mem_singleton.mp hx]
      exact he
  · exact .inr ⟨x,List.mem_append_left _ hx,h⟩

variable (key whole) in
def first [DecidableEq κ] (log : List ε) (k : κ) : Option Nat := log.findIdx? fun e => key e = k && whole e

theorem InOrder.first_lt [DecidableEq κ] (h : InOrder key rank whole log) {j k : κ} {m n : Nat}
    (hj : first key whole log j = some m) (hk : first key whole log k = some n) (hr : rank j < rank k) : m < n := by
  simp only [first,List.findIdx?_eq_some_iff_getElem,Bool.and_eq_true,decide_eq_true_eq] at hj hk
  obtain ⟨hm,⟨hjk,_⟩,hfirst⟩ := hj
  obtain ⟨hn,⟨hkk,_⟩,_⟩ := hk
  by_contra hlt
  have hne : n ≠ m := by
    rintro rfl
    rw [hjk] at hkk
    exact absurd hr (hkk ▸ lt_irrefl _)
  -- The entry of `j` would come after a higher one, so `j` stood there whole before.
  rcases h (log.take m) log[m] (log.drop (m + 1)) (by simp) with hle | ⟨x,hx,hw,hxj⟩
  · have := hle log[n] (List.mem_take_iff_getElem.mpr ⟨n,by omega,rfl⟩)
    rw [hkk,hjk] at this
    exact absurd hr (not_lt.mpr this)
  · obtain ⟨i,hi,rfl⟩ := List.mem_take_iff_getElem.mp hx
    have := hfirst i (by omega)
    rw [hjk] at hxj
    simp [hxj,hw] at this

end Yeoman.Library.FirstArrival
