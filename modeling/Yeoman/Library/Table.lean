import Mathlib.Data.List.Nodup
import Mathlib.Data.List.Sort
import Mathlib.Data.List.Perm.Basic

/-! Keyed tables as lists of rows in insertion order, with the statements that
`UPDATE`, `INSERT` and lookups by key make about them. -/
namespace Yeoman.Library.Table
variable {α κ : Type}

/-- `UPDATE t SET f WHERE p`. -/
def updateWhere (p : α → Bool) (f : α → α) (t : List α) : List α :=
  t.map (fun r => if p r then f r else r)

def rowCount (p : α → Bool) (t : List α) : Nat := t.countP p

def Unique (key : α → κ) (t : List α) : Prop := (t.map key).Nodup

/-- `ORDER BY time, id`. -/
def timeLe (time : α → Int) (id : α → String) (a b : α) : Prop :=
  time a < time b ∨ (time a = time b ∧ id a ≤ id b)
deriving Decidable

def orderBy (time : α → Int) (id : α → String) (t : List α) : List α :=
  t.insertionSort (timeLe time id)

def maxBy (value : α → Int) : List α → Option α
  | [] => none
  | r :: t =>
    match maxBy value t with
    | none => some r
    | some q => if value r < value q then some q else some r

def minBy (value : α → Int) (t : List α) : Option α := maxBy (fun r => -value r) t
variable {value : α → Int} {t : List α} {r : α} {key : α → κ} {p : α → Bool} {f : α → α}

theorem mem_concat {row : α} : r ∈ t ++ [row] ↔ r ∈ t ∨ r = row := by
  rw [List.mem_append,List.mem_singleton]

theorem forall_mem_concat {q : α → Prop} {row : α} (h : ∀ r ∈ t, q r) (hr : q row) : ∀ r ∈ t ++ [row], q r :=
  List.forall_mem_append.mpr ⟨h,List.forall_mem_singleton.mpr hr⟩

theorem mem_of_maxBy (h : maxBy value t = some r) : r ∈ t := by
  induction t with
  | nil => cases h
  | cons q t ih =>
    rw [maxBy] at h
    cases ht : maxBy value t with
    | none =>
      rw [ht] at h
      cases h
      exact List.mem_cons_self
    | some best =>
      rw [ht] at h
      dsimp only at h
      split at h
      · cases h
        exact List.mem_cons_of_mem q (ih ht)
      · cases h
        exact List.mem_cons_self

theorem maxBy_eq_none : maxBy value t = none ↔ t = [] := by
  cases t with
  | nil => exact ⟨fun _ => rfl,fun _ => rfl⟩
  | cons r t =>
    refine ⟨fun h => ?_,nofun⟩
    rw [maxBy] at h
    split at h
    · cases h
    · split at h <;> cases h

theorem le_of_maxBy (h : maxBy value t = some r) {q : α} (hq : q ∈ t) : value q ≤ value r := by
  induction t generalizing r with
  | nil => cases hq
  | cons p t ih =>
    rw [maxBy] at h
    cases ht : maxBy value t with
    | none =>
      rw [ht] at h
      cases h
      rw [maxBy_eq_none.mp ht] at hq
      rw [List.mem_singleton.mp hq]
    | some best =>
      rw [ht] at h
      dsimp only at h
      split at h <;> cases h <;> cases hq with
      | head => omega
      | tail _ hq =>
        have := ih ht hq
        omega

theorem Unique.nil : Unique key [] := List.nodup_nil

theorem Unique.eq_of_mem (h : Unique key t) {a b : α} (ha : a ∈ t) (hb : b ∈ t) (hk : key a = key b) : a = b :=
  List.inj_on_of_nodup_map h ha hb hk

theorem Unique.map (h : Unique key t) {g : α → α} (hg : ∀ r ∈ t, key (g r) = key r) : Unique key (t.map g) := by
  unfold Unique at *
  have he : (t.map g).map key = t.map key := by
    rw [List.map_map]
    exact List.map_congr_left fun r hr => hg r hr
  rwa [he]

theorem Unique.append (h : Unique key t) {row : α} (hf : ∀ r ∈ t, key r ≠ key row) : Unique key (t ++ [row]) := by
  unfold Unique at *
  rw [List.map_append,List.map_singleton]
  refine List.Nodup.append h (List.nodup_singleton _) ?_
  intro k hk hk'
  obtain ⟨r,hr,rfl⟩ := List.mem_map.mp hk
  exact hf r hr (List.mem_singleton.mp hk')

theorem Unique.filter (h : Unique key t) : Unique key (t.filter p) :=
  List.Nodup.sublist (List.Sublist.map key List.filter_sublist) h

theorem keys_updateWhere (hf : ∀ r, key (f r) = key r) (t : List α) : (updateWhere p f t).map key = t.map key := by
  rw [updateWhere,List.map_map]
  refine List.map_congr_left fun r _ => ?_
  rw [Function.comp_apply]
  split
  · exact hf r
  · rfl

theorem mem_updateWhere : r ∈ updateWhere p f t ↔ ∃ q ∈ t, (if p q then f q else q) = r := by
  simp [updateWhere]

theorem updateWhere_updateWhere {q : α → Bool} (hf : ∀ r, f (f r) = f r) (t : List α) :
    updateWhere q f (updateWhere p f t) = updateWhere (fun r => p r || q r) f t := by
  unfold updateWhere
  rw [List.map_map]
  refine List.map_congr_left fun r _ => ?_
  cases hp : p r with
  | true => simp [hp,hf]
  | false => simp [hp]

theorem countP_updateWhere_le_add (q p : α → Bool) (f : α → α) (t : List α) :
    (updateWhere p f t).countP q ≤ t.countP q + t.countP p := by
  unfold updateWhere
  induction t with
  | nil => exact le_rfl
  | cons r t ih =>
    simp only [List.map_cons,List.countP_cons]
    cases hp : p r with
    | true =>
      split <;> split <;> omega
    | false =>
      simp only [Bool.false_eq_true,if_false]
      omega

def Rewrites (R : α → α → Prop) (t t' : List α) : Prop := List.Forall₂ R t t'

namespace Rewrites
variable {R : α → α → Prop} {t t' t'' : List α}

theorem refl (hr : ∀ r, R r r) (t : List α) : Rewrites R t t := by
  induction t with
  | nil => exact .nil
  | cons r t ih => exact .cons (hr r) ih

theorem trans (ht : ∀ a b c, R a b → R b c → R a c) (h : Rewrites R t t')
    (h' : Rewrites R t' t'') : Rewrites R t t'' := by
  induction h generalizing t'' with
  | nil => exact h'
  | cons hr _ ih =>
    cases h' with
    | cons hr' h' => exact .cons (ht _ _ _ hr hr') (ih h')

theorem mono {Q : α → α → Prop} (hq : ∀ a b, R a b → Q a b) (h : Rewrites R t t') :
    Rewrites Q t t' := List.Forall₂.imp (fun a b hr => hq a b hr) h

theorem map {g : α → α} (hg : ∀ r ∈ t, R r (g r)) : Rewrites R t (t.map g) := by
  induction t with
  | nil => exact .nil
  | cons r t ih =>
    exact .cons (hg r List.mem_cons_self) (ih fun q hq => hg q (List.mem_cons_of_mem r hq))
variable {r' : α}

theorem updateWhere (hr : ∀ r, R r r) (hf : ∀ r ∈ t, p r = true → R r (f r)) : Rewrites R t (updateWhere p f t) := by
  refine map fun r hm => ?_
  split
  · exact hf r hm ‹_›
  · exact hr r
variable {key : α → κ}

theorem keys (hk : ∀ a b, R a b → key b = key a) (h : Rewrites R t t') : t'.map key = t.map key := by
  induction h with
  | nil => rfl
  | cons hr _ ih => rw [List.map_cons,List.map_cons,hk _ _ hr,ih]

theorem mem_old (h : Rewrites R t t') (hr : r ∈ t) : ∃ r' ∈ t', R r r' := by
  induction h with
  | nil => cases hr
  | cons hab _ ih =>
    rcases List.mem_cons.mp hr with rfl | hm
    · exact ⟨_,List.mem_cons_self,hab⟩
    · obtain ⟨r',hr',hR⟩ := ih hm
      exact ⟨r',List.mem_cons_of_mem _ hr',hR⟩

theorem mem_new (h : Rewrites R t t') (hr : r' ∈ t') : ∃ r ∈ t, R r r' := by
  induction h with
  | nil => cases hr
  | cons hab _ ih =>
    rcases List.mem_cons.mp hr with rfl | hm
    · exact ⟨_,List.mem_cons_self,hab⟩
    · obtain ⟨r,hr',hR⟩ := ih hm
      exact ⟨r,List.mem_cons_of_mem _ hr',hR⟩

theorem unique (hk : ∀ a b, R a b → key b = key a) (h : Rewrites R t t') (hu : Unique key t) : Unique key t' := by
  unfold Unique at *
  rwa [h.keys hk]

theorem split {before' after' : List α} (h : Rewrites R t (before' ++ r' :: after')) :
    ∃ before r after, t = before ++ r :: after ∧ Rewrites R before before' ∧ R r r' := by
  induction before' generalizing t with
  | nil =>
    obtain ⟨r,after,hr,-,rfl⟩ := List.forall₂_cons_right_iff.mp h
    exact ⟨[],r,after,rfl,.nil,hr⟩
  | cons q' before' ih =>
    obtain ⟨q,rest,hq,hrest,rfl⟩ := List.forall₂_cons_right_iff.mp h
    obtain ⟨before,r,after,rfl,hb,hr⟩ := ih hrest
    exact ⟨q :: before,r,after,rfl,.cons hq hb,hr⟩

end Rewrites

section Lookup
variable [DecidableEq κ]

/-- `SELECT * FROM t WHERE key = k LIMIT 1`. -/
def lookup (key : α → κ) (k : κ) (t : List α) : Option α := t.find? (fun r => key r = k)

/-- `INSERT OR IGNORE` on a primary key. -/
def insertIgnore (key : α → κ) (row : α) (t : List α) : List α :=
  if (lookup key (key row) t).isSome then t else t ++ [row]
variable {t : List α} {r row : α} {p : α → Bool} {f : α → α} {R : α → α → Prop} {t' u : List α}

theorem lookup_some {k : κ} (h : lookup key k t = some r) : r ∈ t ∧ key r = k :=
  ⟨List.mem_of_find?_eq_some h,by simpa using List.find?_some h⟩

theorem lookup_none {k : κ} : lookup key k t = none ↔ ∀ r ∈ t, key r ≠ k := by
  simp [lookup,List.find?_eq_none]

theorem lookup_isSome {k : κ} : (lookup key k t).isSome ↔ ∃ r ∈ t, key r = k := by
  simp [lookup,List.find?_isSome]

theorem Unique.lookup_of_mem (h : Unique key t) (hr : r ∈ t) : lookup key (key r) t = some r := by
  cases hl : lookup key (key r) t with
  | none => exact absurd rfl (lookup_none.mp hl r hr)
  | some q =>
    obtain ⟨hq,hk⟩ := lookup_some hl
    rw [List.inj_on_of_nodup_map h hq hr hk]

theorem Unique.insertIgnore (h : Unique key t) : Unique key (insertIgnore key row t) := by
  unfold Table.insertIgnore
  split_ifs with hs
  · exact h
  · exact h.append fun r hr hk => hs (lookup_isSome.mpr ⟨r,hr,hk⟩)

theorem mem_insertIgnore (h : r ∈ insertIgnore key row t) : r ∈ t ∨ r = row ∧ lookup key (key row) t = none := by
  unfold insertIgnore at h
  split_ifs at h with hs
  · exact .inl h
  · rcases List.mem_append.mp h with h | h
    · exact .inl h
    · exact .inr ⟨List.mem_singleton.mp h,by simpa using hs⟩

theorem mem_insertIgnore_of_mem (h : r ∈ t) : r ∈ insertIgnore key row t := by
  unfold insertIgnore
  split
  · exact h
  · exact List.mem_append_left _ h

theorem exists_insertIgnore (key : α → κ) (row : α) (t : List α) :
    ∃ r ∈ insertIgnore key row t, key r = key row := by
  unfold insertIgnore
  split
  · exact lookup_isSome.mp ‹_›
  · exact ⟨row,List.mem_concat_self,rfl⟩

theorem insertIgnore_eq_self_iff (key : α → κ) (row : α) (t : List α) :
    insertIgnore key row t = t ↔ ∃ r ∈ t, key r = key row := by
  rw [← lookup_isSome,insertIgnore]
  split_ifs with h
  · simp [h]
  · simp [h]

theorem keys_insertIgnore_iff : (insertIgnore key row t).map key = t.map key ↔ lookup key (key row) t ≠ none := by
  unfold insertIgnore
  cases lookup key (key row) t with
  | none | some => simp

/-- `INSERT OR IGNORE` of several rows appends some of them, under keys that were not there,
and leaves every key present. -/
theorem foldl_insertIgnore {β : Type} (key : α → κ) (row : β → α) (bs : List β) (t : List α) :
    ∃ new, bs.foldl (fun t b => insertIgnore key (row b) t) t = t ++ new ∧
      (∀ r ∈ new, (∃ b ∈ bs, r = row b) ∧ ∀ q ∈ t, key q ≠ key r) ∧
      (∀ b ∈ bs, ∃ r ∈ t ++ new, key r = key (row b)) ∧ Unique key new := by
  induction bs generalizing t with
  | nil => exact ⟨[],(List.append_nil t).symm,nofun,nofun,.nil⟩
  | cons b bs ih =>
    obtain ⟨new,he,hnew,hall,hu⟩ := ih (insertIgnore key (row b) t)
    rw [List.foldl_cons,he]
    by_cases hs : (lookup key (key (row b)) t).isSome = true
    · have hi : insertIgnore key (row b) t = t := if_pos hs
      rw [hi] at hnew hall ⊢
      refine ⟨new,rfl,fun r hr => ⟨?_,(hnew r hr).2⟩,?_,hu⟩
      · obtain ⟨b',hb',rfl⟩ := (hnew r hr).1
        exact ⟨b',List.mem_cons_of_mem b hb',rfl⟩
      · intro b' hb'
        rcases List.mem_cons.mp hb' with rfl | hb'
        · obtain ⟨q,hq,hk⟩ := lookup_isSome.mp hs
          exact ⟨q,List.mem_append_left new hq,hk⟩
        · exact hall b' hb'
    · have hi : insertIgnore key (row b) t = t ++ [row b] := if_neg hs
      rw [hi] at hnew hall ⊢
      refine ⟨row b :: new,by simp,?_,?_,?_⟩
      · intro r hr
        rcases List.mem_cons.mp hr with rfl | hr
        · exact ⟨⟨b,List.mem_cons_self,rfl⟩,fun q hq hk => hs (lookup_isSome.mpr ⟨q,hq,hk⟩)⟩
        · obtain ⟨⟨b',hb',rfl⟩,hk⟩ := hnew r hr
          exact ⟨⟨b',List.mem_cons_of_mem b hb',rfl⟩,fun q hq => hk q (List.mem_append_left _ hq)⟩
      · intro b' hb'
        rcases List.mem_cons.mp hb' with rfl | hb'
        · exact ⟨row b',by simp,rfl⟩
        · obtain ⟨r,hr,hk⟩ := hall b' hb'
          exact ⟨r,by simpa using hr,hk⟩
      · refine List.nodup_cons.mpr ⟨fun hm => ?_,hu⟩
        obtain ⟨r,hr,hk⟩ := List.mem_map.mp hm
        exact (hnew r hr).2 (row b) List.mem_concat_self hk.symm

theorem lookup_map {g : α → α} (hg : ∀ r ∈ t, key (g r) = key r)
    {k : κ} : lookup key k (t.map g) = (lookup key k t).map g := by
  unfold lookup
  rw [List.find?_map]
  congr 1
  induction t with
  | nil => rfl
  | cons r t ih =>
    have hr := hg r List.mem_cons_self
    have ht := ih fun q hq => hg q (List.mem_cons_of_mem r hq)
    rw [List.find?_cons,List.find?_cons,Function.comp_apply,hr,ht]

theorem lookup_updateWhere (hf : ∀ r, key (f r) = key r) {k : κ} :
    lookup key k (updateWhere p f t) = (lookup key k t).map fun r => if p r then f r else r := by
  refine lookup_map (fun r _ => ?_)
  split
  · exact hf r
  · rfl

theorem lookup_updateWhere_of_pos (hf : ∀ r, key (f r) = key r)
    {k : κ} (h : lookup key k t = some r) (hp : p r = true) : lookup key k (updateWhere p f t) = some (f r) := by
  rw [lookup_updateWhere hf,h,Option.map_some,if_pos hp]

theorem Rewrites.lookup (hk : ∀ a b, R a b → key b = key a) (h : Rewrites R t t') (k : κ) :
    Option.Rel R (lookup key k t) (lookup key k t') := by
  induction h with
  | nil => exact .none
  | cons hr _ ih =>
    unfold Table.lookup at *
    rw [List.find?_cons,List.find?_cons,hk _ _ hr]
    split
    · exact .some hr
    · exact ih

theorem Rewrites.lookup_none {k : κ}
    (hk : ∀ a b, R a b → key b = key a) (h : Rewrites R t t') (hn : Table.lookup key k t = none) :
    Table.lookup key k t' = none := by
  have hl := h.lookup hk k
  rw [hn] at hl
  generalize Table.lookup key k t' = new at hl ⊢
  cases hl
  rfl

theorem lookup_append_of_some {k : κ} (h : lookup key k t = some r) : lookup key k (t ++ u) = some r := by
  unfold lookup at *
  rw [List.find?_append,h]
  rfl

theorem lookup_append_singleton {k : κ}
    (h : lookup key k (t ++ [row]) = some r) : lookup key k t = some r ∨ r = row := by
  unfold lookup at h ⊢
  rw [List.find?_append] at h
  rcases Option.or_eq_some_iff.mp h with h | ⟨-,h⟩
  · exact .inl h
  · exact .inr (List.mem_singleton.mp (List.mem_of_find?_eq_some h))

theorem lookup_insertIgnore_of_some {k : κ}
    (h : lookup key k t = some r) : lookup key k (insertIgnore key row t) = some r := by
  unfold insertIgnore
  split
  · exact h
  · exact lookup_append_of_some h

theorem lookup_append_of_none {k : κ} (h : lookup key k t = none) : lookup key k (t ++ u) = lookup key k u := by
  unfold lookup at *
  rw [List.find?_append,h]
  rfl

theorem lookup_insertIgnore {k : κ} :
    lookup key k (insertIgnore key row t) = if k = key row then some ((lookup key k t).getD row) else lookup key k t := by
  cases hl : lookup key k t with
  | some r =>
    rw [lookup_insertIgnore_of_some hl]
    split <;> rfl
  | none =>
    unfold insertIgnore
    split
    next hs =>
      rw [hl,if_neg]
      rintro rfl
      rw [hl] at hs
      cases hs
    · rw [lookup_append_of_none hl]
      by_cases hk : k = key row
      · simp [lookup,hk]
      · simp [lookup,hk,Ne.symm hk]

def Kept (key : α → κ) (R : α → α → Prop) (t t' : List α) : Prop :=
  ∀ k r, lookup key k t = some r → ∃ r', lookup key k t' = some r' ∧ R r r'

namespace Kept
variable {key : α → κ} {R : α → α → Prop}

theorem refl (hr : ∀ r, R r r) (t : List α) : Kept key R t t := fun _ r h => ⟨r,h,hr r⟩

theorem trans (ht : ∀ a b c, R a b → R b c → R a c) {t t' t'' : List α} (h : Kept key R t t')
    (h' : Kept key R t' t'') : Kept key R t t'' := by
  intro k r hr
  obtain ⟨r',hr',hs⟩ := h k r hr
  obtain ⟨r'',hr'',hs'⟩ := h' k r' hr'
  exact ⟨r'',hr'',ht r r' r'' hs hs'⟩

theorem of_rewrites (hk : ∀ a b, R a b → key b = key a) (h : Rewrites R t t') : Kept key R t t' := by
  intro k r hr
  have hl := h.lookup hk k
  rw [hr] at hl
  generalize lookup key k t' = new at hl ⊢
  cases hl with
  | some hs => exact ⟨_,rfl,hs⟩

theorem append (hr : ∀ r, R r r) (t : List α) : Kept key R t (t ++ u) :=
  fun _ r h => ⟨r,lookup_append_of_some h,hr r⟩

theorem insertIgnore (hr : ∀ r, R r r) : Kept key R t (insertIgnore key row t) :=
  fun _ r h => ⟨r,lookup_insertIgnore_of_some h,hr r⟩

theorem exists_key (h : Kept key R t t') (hr : r ∈ t) : ∃ r' ∈ t', key r' = key r := by
  cases hl : lookup key (key r) t with
  | none => exact absurd rfl (lookup_none.mp hl r hr)
  | some q =>
    obtain ⟨q',hq',-⟩ := h _ q hl
    exact ⟨q',lookup_some hq'⟩

end Kept

theorem Rewrites.countP_le {q q' : α → Bool} (hq : ∀ a b, R a b → q' b = true → q a = true)
    (h : Rewrites R t t') : t'.countP q' ≤ t.countP q := by
  induction h with
  | nil => exact le_rfl
  | @cons a b t t' hab _ ih =>
    rw [List.countP_cons,List.countP_cons]
    have hle : (if q' b = true then 1 else 0) ≤ if q a = true then 1 else 0 := by
      cases hb : q' b with
      | false => simp
      | true => simp [hq a b hab hb]
    omega

theorem Unique.countP_mem_le (h : Unique key t) (ks : List κ) : t.countP (fun r => key r ∈ ks) ≤ ks.length := by
  have hn : ((t.filter fun r => key r ∈ ks).map key).Nodup := h.filter
  have hs : (t.filter fun r => key r ∈ ks).map key ⊆ ks := by
    intro k hk
    obtain ⟨r,hr,rfl⟩ := List.mem_map.mp hk
    exact of_decide_eq_true (List.mem_filter.mp hr).2
  have hl := (List.subperm_of_subset hn hs).length_le
  rwa [List.length_map,← List.countP_eq_length_filter] at hl

theorem Unique.rowCount_key (h : Unique key t) {k : κ} (hr : lookup key k t = some r) (q : α → Bool) :
    rowCount (fun x => decide (key x = k) && q x) t = if q r then 1 else 0 := by
  obtain ⟨hm,rfl⟩ := lookup_some hr
  obtain ⟨a,b,rfl⟩ := List.append_of_mem hm
  have hd : ∀ x ∈ a ++ b, key x ≠ key r := by
    intro x hx hk
    unfold Unique at h
    simp only [List.map_append,List.map_cons] at h
    have hp := List.perm_middle.nodup_iff.mp h
    apply (List.nodup_cons.mp hp).1
    rw [← List.map_append]
    exact List.mem_map.mpr ⟨x,hx,hk⟩
  have hz (l : List α) (hl : ∀ x ∈ l, key x ≠ key r) :
      l.countP (fun x => decide (key x = key r) && q x) = 0 := by
    rw [List.countP_eq_zero]
    intro x hx
    simp [hl x hx]
  rw [rowCount,List.countP_append,List.countP_cons,hz a fun x hx => hd x (List.mem_append_left _ hx),
    hz b fun x hx => hd x (List.mem_append_right _ hx)]
  simp

def upsert (key : α → κ) (row : α) (t : List α) : List α :=
  if (lookup key (key row) t).isSome then updateWhere (fun r => key r = key row) (fun _ => row) t else t ++ [row]

/-- `delete map[key]`. -/
def remove (key : α → κ) (k : κ) (t : List α) : List α := t.filter fun r => key r ≠ k

theorem lookup_remove {k k' : κ} : lookup key k (remove key k' t) = if k = k' then none else lookup key k t := by
  unfold lookup remove
  rw [List.find?_filter]
  split_ifs with hk
  · subst k'
    simp
  · refine congrArg (List.find? · t) (funext fun r => ?_)
    by_cases hr : key r = k
    · simp [hr,hk]
    · simp [hr]

theorem mem_remove {k : κ} : r ∈ remove key k t ↔ r ∈ t ∧ key r ≠ k := by
  simp [remove]

theorem Unique.remove (h : Unique key t) {k : κ} : Unique key (remove key k t) :=
  h.filter

theorem length_remove_le {k : κ} : (remove key k t).length ≤ t.length :=
  List.length_filter_le _ _

theorem lookup_upsert {k : κ} :
    lookup key k (upsert key row t) = if key row = k then some row else lookup key k t := by
  unfold upsert
  split
  next hs =>
    have hmap : lookup key k (updateWhere (fun r => key r = key row) (fun _ => row) t) =
        (lookup key k t).map fun r => if key r = key row then row else r := by
      rw [updateWhere,lookup_map fun r _ => ?_]
      · simp
      · split
        · simp_all
        · rfl
    rw [hmap]
    split_ifs with hk
    · subst k
      obtain ⟨r,hr⟩ := Option.isSome_iff_exists.mp hs
      rw [hr,Option.map_some,if_pos (lookup_some hr).2]
    · cases hl : lookup key k t with
      | none => rfl
      | some r => rw [Option.map_some,if_neg fun he => hk (he.symm.trans (lookup_some hl).2)]
  next hs =>
    rw [Bool.not_eq_true,Option.isSome_eq_false_iff,Option.isNone_iff_eq_none] at hs
    split_ifs with hk
    · subst k
      rw [lookup_append_of_none hs]
      simp [lookup]
    · cases hl : lookup key k t with
      | none =>
        rw [lookup_append_of_none hl]
        simp [lookup,hk]
      | some r => exact lookup_append_of_some hl

theorem mem_upsert (h : r ∈ upsert key row t) : r = row ∨ r ∈ t ∧ key r ≠ key row := by
  unfold upsert at h
  split_ifs at h with hs
  · obtain ⟨q,hq,rfl⟩ := mem_updateWhere.mp h
    by_cases hk : key q = key row
    · exact .inl (by simp [hk])
    · exact .inr (by simpa [hk] using hq)
  · rw [lookup_isSome] at hs
    rcases List.mem_append.mp h with h | h
    · exact .inr ⟨h,fun hk => hs ⟨r,h,hk⟩⟩
    · exact .inl (List.mem_singleton.mp h)

theorem Unique.upsert (h : Unique key t) : Unique key (upsert key row t) := by
  unfold Table.upsert
  split_ifs with hs
  · refine h.map fun r _ => ?_
    split
    · simp_all
    · rfl
  · refine h.append fun r hr hk => hs ?_
    exact lookup_isSome.mpr ⟨r,hr,hk⟩

theorem Unique.upsert_self (h : Unique key t) (hr : lookup key (key row) t = some row) :
    Table.upsert key row t = t := by
  rw [Table.upsert,hr,Option.isSome_some,if_pos rfl,updateWhere]
  conv_rhs => rw [← List.map_id t]
  refine List.map_congr_left fun r hm => ?_
  by_cases hk : key r = key row
  · rw [if_pos (decide_eq_true hk)]
    exact h.eq_of_mem (lookup_some hr).1 hm hk.symm
  · rw [if_neg (by rwa [decide_eq_true_iff])]
    rfl

theorem length_upsert :
    (upsert key row t).length = if (lookup key (key row) t).isSome then t.length else t.length + 1 := by
  unfold upsert updateWhere
  split <;> simp

end Lookup
end Yeoman.Library.Table
