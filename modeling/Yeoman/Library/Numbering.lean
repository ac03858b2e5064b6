import Mathlib.Data.Int.Order.Basic
import Mathlib.Data.List.Range
import Yeoman.Library.Table

/-! Rows that are numbered from one for each owner, in the order they were inserted. -/
namespace Yeoman.Library.Numbering
variable {α κ : Type} [DecidableEq κ] {owner : α → κ} {number : α → Int}

def upTo (n : Nat) : List Int := (List.range n).map fun i : Nat => (i : Int) + 1

def numbers (owner : α → κ) (number : α → Int) (k : κ) (t : List α) : List Int :=
  (t.filter fun r => owner r = k).map number

def count (owner : α → κ) (k : κ) (t : List α) : Nat := (t.filter fun r => owner r = k).length

def Numbered (owner : α → κ) (number : α → Int) (t : List α) : Prop :=
  ∀ k, numbers owner number k t = upTo (count owner k t)
variable {t : List α} (n : Nat)

theorem upTo_succ : upTo (n + 1) = upTo n ++ [(n : Int) + 1] := by
  unfold upTo
  rw [List.range_succ,List.map_append,List.map_singleton]

theorem mem_upTo {n : Nat} {i : Int} : i ∈ upTo n ↔ 1 ≤ i ∧ i ≤ n := by
  rw [upTo,List.mem_map]
  constructor
  · rintro ⟨j,hj,rfl⟩
    rw [List.mem_range] at hj
    omega
  · rintro ⟨h₁,h₂⟩
    refine ⟨(i - 1).toNat,List.mem_range.mpr ?_,?_⟩
    · omega
    · omega

theorem nodup_upTo : (upTo n).Nodup := by
  refine List.nodup_range.map fun i j h => ?_
  omega

theorem foldl_max_upTo : (upTo n).foldl max 0 = n := by
  induction n with
  | zero => rfl
  | succ n ih =>
    rw [upTo_succ,List.foldl_append,ih]
    change max (n : Int) ((n : Int) + 1) = _
    omega

theorem Numbered.nil : Numbered owner number ([] : List α) := fun _ => rfl
variable {row : α}

theorem count_append {k : κ} : count owner k (t ++ [row]) = count owner k t + if owner row = k then 1 else 0 := by
  unfold count
  split_ifs with h
  · simp [h]
  · simp [h]

theorem numbers_append {k : κ} :
    numbers owner number k (t ++ [row]) =
      numbers owner number k t ++ if owner row = k then [number row] else [] := by
  unfold numbers
  split_ifs with h
  · simp [h]
  · simp [h]

theorem Numbered.append (h : Numbered owner number t)
    (hn : number row = count owner (owner row) t + 1) : Numbered owner number (t ++ [row]) := by
  intro k
  rw [numbers_append,count_append,h k]
  split_ifs with hk
  · subst hk
    rw [upTo_succ,hn]
  · rw [List.append_nil,Nat.add_zero]

theorem Numbered.number_mem (h : Numbered owner number t) {r : α} (hr : r ∈ t) :
    1 ≤ number r ∧ number r ≤ count owner (owner r) t := by
  rw [← mem_upTo,← h]
  exact List.mem_map_of_mem (List.mem_filter.mpr ⟨hr,decide_eq_true rfl⟩)

theorem Numbered.eq_of_mem (h : Numbered owner number t) {a b : α} (ha : a ∈ t) (hb : b ∈ t)
    (ho : owner a = owner b) (hn : number a = number b) : a = b := by
  refine List.inj_on_of_nodup_map (f := number) (l := t.filter fun r => owner r = owner b) ?_ ?_ ?_ hn
  · rw [show (t.filter fun r => owner r = owner b).map number = upTo _ from h (owner b)]
    exact nodup_upTo _
  · exact List.mem_filter.mpr ⟨ha,decide_eq_true ho⟩
  · exact List.mem_filter.mpr ⟨hb,decide_eq_true rfl⟩

theorem Numbered.next (h : Numbered owner number t) {k : κ} :
    (numbers owner number k t).foldl max 0 + 1 = count owner k t + 1 := by
  rw [h k,foldl_max_upTo]

theorem Numbered.count_eq_zero (h : Numbered owner number t) {k : κ}
    (hf : ∀ r ∈ t, owner r = k → number r ≠ 1) : count owner k t = 0 := by
  by_contra hc
  have hm : (1 : Int) ∈ numbers owner number k t := by
    rw [h k,mem_upTo]
    omega
  obtain ⟨r,hr,hn⟩ := List.mem_map.mp hm
  obtain ⟨hr,hk⟩ := List.mem_filter.mp hr
  exact hf r hr (of_decide_eq_true hk) hn

section Rewrites
variable {R : α → α → Prop} {t t' : List α}

theorem filter_rewrites (ho : ∀ a b, R a b → owner b = owner a) (h : Table.Rewrites R t t') {k : κ} :
    Table.Rewrites R (t.filter fun r => owner r = k) (t'.filter fun r => owner r = k) := by
  induction h with
  | nil => exact .nil
  | @cons a b l l' hab _ ih =>
    rw [List.filter_cons,List.filter_cons,ho a b hab]
    split
    · exact .cons hab ih
    · exact ih

theorem count_rewrites (ho : ∀ a b, R a b → owner b = owner a) (h : Table.Rewrites R t t') {k : κ} :
    count owner k t' = count owner k t :=
  (List.Forall₂.length_eq (filter_rewrites ho h)).symm

theorem Numbered.rewrites (hn : Numbered owner number t) (ho : ∀ a b, R a b → owner b = owner a)
    (hr : ∀ a b, R a b → number b = number a) (h : Table.Rewrites R t t') : Numbered owner number t' := by
  intro k
  rw [count_rewrites ho h,← hn k]
  exact (filter_rewrites ho h).keys hr

end Rewrites

end Yeoman.Library.Numbering
