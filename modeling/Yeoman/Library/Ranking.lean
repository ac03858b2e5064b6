import Mathlib.Data.List.Sort
import Mathlib.Data.List.Nodup

/-! Sorting by a key and keeping the first entries. -/
namespace Yeoman.Library
variable {α κ : Type} [LinearOrder κ]

def ranked (key : α → κ) (xs : List α) : List α := xs.insertionSort fun a b => key a ≤ key b

variable {key : α → κ} {xs ys : List α} {n : Nat}

theorem ranked_perm (key : α → κ) (xs : List α) : (ranked key xs).Perm xs := List.perm_insertionSort _ xs

theorem mem_ranked {a : α} : a ∈ ranked key xs ↔ a ∈ xs := (ranked_perm key xs).mem_iff

theorem ranked_sorted (key : α → κ) (xs : List α) : (ranked key xs).Pairwise fun a b => key a ≤ key b := by
  exact List.pairwise_insertionSort _ xs

theorem ranked_unique (hkey : Function.Injective key) (hp : ys.Perm xs)
    (hs : ys.Pairwise fun a b => key a ≤ key b) : ranked key xs = ys :=
  ((ranked_perm key xs).trans hp.symm).eq_of_pairwise
    (fun _ _ _ _ hab hba => hkey (le_antisymm hab hba)) (ranked_sorted key xs) hs

theorem filter_ranked (hkey : Function.Injective key) {p : α → Bool} :
    (ranked key xs).filter p = ranked key (xs.filter p) :=
  (ranked_unique hkey ((ranked_perm key xs).filter p) ((ranked_sorted key xs).sublist List.filter_sublist)).symm

/-- The first entries are a given selection exactly if it is sorted and nothing outside comes before it. -/
theorem take_ranked_eq_iff (hkey : Function.Injective key) (hxs : xs.Nodup) (hys : ys.Nodup)
    (hle : ys.length ≤ n) (hall : ys.length < n → xs ⊆ ys) :
    (ranked key xs).take n = ys ↔
      ys ⊆ xs ∧ (ys.Pairwise fun a b => key a ≤ key b) ∧ ∀ y ∈ ys, ∀ x ∈ xs, x ∉ ys → key y ≤ key x := by
  constructor
  · rintro rfl
    refine ⟨fun a ha => mem_ranked.mp (List.mem_of_mem_take ha),(ranked_sorted key xs).sublist (List.take_sublist _ _),?_⟩
    intro y hy x hx hout
    have hsplit := List.take_append_drop n (ranked key xs)
    have hx : x ∈ (ranked key xs).drop n := by
      have hx : x ∈ ranked key xs := mem_ranked.mpr hx
      rw [← hsplit,List.mem_append] at hx
      exact hx.resolve_left hout
    have hs := ranked_sorted key xs
    rw [← hsplit,List.pairwise_append] at hs
    exact hs.2.2 y hy x hx
  · rintro ⟨hsub,hs,hout⟩
    classical
    let rest := ranked key (xs.filter (· ∉ ys))
    have hrest : ∀ x ∈ rest, x ∈ xs ∧ x ∉ ys := fun x hx => by simpa using mem_ranked.mp hx
    have hperm : (ys ++ rest).Perm xs := by
      refine (List.perm_ext_iff_of_nodup ?_ hxs).mpr fun a => ?_
      · refine hys.append ((ranked_perm key _).nodup_iff.mpr (hxs.filter _)) ?_
        exact fun a ha hr => (hrest a hr).2 ha
      · simp only [List.mem_append,rest,mem_ranked,List.mem_filter,decide_eq_true_eq]
        exact ⟨fun h => h.elim (hsub ·) And.left,fun h => (em (a ∈ ys)).imp id fun hn => ⟨h,hn⟩⟩
    have hsorted : (ys ++ rest).Pairwise fun a b => key a ≤ key b :=
      List.pairwise_append.mpr ⟨hs,ranked_sorted key _,fun y hy x hx => hout y hy x (hrest x hx).1 (hrest x hx).2⟩
    rw [ranked_unique hkey hperm hsorted]
    rcases Nat.lt_or_ge ys.length n with hlt | hge
    · -- fewer than asked for: nothing is left over
      have hnil : rest = [] := List.eq_nil_iff_forall_not_mem.mpr fun x hx => (hrest x hx).2 (hall hlt (hrest x hx).1)
      rw [hnil,List.append_nil,List.take_of_length_le hle]
    · rw [List.take_append_of_le_length hge,List.take_of_length_le hle]

end Yeoman.Library
