import Mathlib.Logic.Relation

/-! Write transactions with rollback. A body may write before it raises; only
the transaction boundary restores the state it started from. -/
namespace Yeoman.Library

theorem except_bind_ok {ε α β : Type} {x : Except ε α} {f : α → Except ε β} {b : β}
    (h : (x >>= f) = .ok b) : ∃ a, x = .ok a ∧ f a = .ok b := by
  cases x with
  | ok a => exact ⟨a,rfl,h⟩
  | error e => cases h

/-- A computation over a state that returns a value or raises, together with
whatever it had written at that moment. -/
def Txn (σ ε α : Type) : Type := σ → Except ε α × σ

namespace Txn
variable {σ ε α β : Type}

instance : Monad (Txn σ ε) where
  pure a s := (.ok a, s)
  bind x f s := match x s with
    | (.ok a, s') => f a s'
    | (.error e, s') => (.error e, s')

def raise (e : ε) : Txn σ ε α := fun s => (.error e, s)

def read : Txn σ ε σ := fun s => (.ok s, s)

def modify (f : σ → σ) : Txn σ ε Unit := fun s => (.ok (), f s)

def require (p : Prop) [Decidable p] (e : ε) : Txn σ ε Unit :=
  fun s => if p then (.ok (), s) else (.error e, s)

def liftExcept (x : Except ε α) : Txn σ ε α := fun s => (x, s)

def each : List β → (β → Txn σ ε Unit) → Txn σ ε Unit
  | [], _ => pure ()
  | b :: bs, f => do f b; each bs f

def select : List β → (β → Txn σ ε Bool) → Txn σ ε (List β)
  | [], _ => pure []
  | b :: bs, f => do
    let hit ← f b
    let rest ← select bs f
    pure (if hit then b :: rest else rest)

def atomically (body : Txn σ ε α) : Txn σ ε α := fun s =>
  match body s with
  | (.ok a, s') => (.ok a, s')
  | (.error e, _) => (.error e, s)

def recover (x y : Txn σ ε α) : Txn σ ε α := fun s =>
  match x s with
  | (.ok a, s') => (.ok a, s')
  | (.error _, s') => y s'

def zoom {τ : Type} (get : τ → σ) (put : σ → τ → τ) (x : Txn σ ε α) : Txn τ ε α := fun t =>
  ((x (get t)).1, put (x (get t)).2 t)

@[simp] theorem pure_apply {a : α} {s : σ} : (pure a : Txn σ ε α) s = (.ok a, s) := rfl

@[simp] theorem raise_apply (e : ε) (s : σ) : (raise e : Txn σ ε α) s = (.error e, s) := rfl

@[simp] theorem read_apply {s : σ} : (read : Txn σ ε σ) s = (.ok s, s) := rfl

@[simp] theorem modify_apply (f : σ → σ) (s : σ) :
    (modify f : Txn σ ε Unit) s = (.ok (), f s) := rfl

@[simp] theorem liftExcept_apply {x : Except ε α} {s : σ} :
    (liftExcept x : Txn σ ε α) s = (x, s) := rfl

theorem bind_apply (x : Txn σ ε α) (f : α → Txn σ ε β) (s : σ) :
    (x >>= f) s = match x s with
      | (.ok a, s') => f a s'
      | (.error e, s') => (.error e, s') := rfl
variable {x body : Txn σ ε α} {f : α → Txn σ ε β} {s s' : σ} {a : α} {e : ε} {bs : List β}

theorem bind_of_ok (h : x s = (.ok a, s')) : (x >>= f) s = f a s' := by
  rw [bind_apply,h]

theorem bind_of_error (h : x s = (.error e, s')) : (x >>= f) s = (.error e, s') := by
  rw [bind_apply,h]

theorem bind_cases {P : Except ε β × σ → Prop} (herror : ∀ {e m}, x s = (.error e, m) → P (.error e, m))
    (hok : ∀ {a m}, x s = (.ok a, m) → P (f a m)) : P ((x >>= f) s) := by
  rw [bind_apply]
  cases hx : x s with
  | mk r m =>
    cases r with
    | ok a => exact hok hx
    | error e => exact herror hx
variable {y : Txn σ ε α} {r : Except ε α}

theorem liftExcept_cases {P : Except ε β × σ → Prop} (herror : ∀ e, r = .error e → P (.error e, s))
    (hok : ∀ a, r = .ok a → P (f a s)) : P ((liftExcept r >>= f) s) := by
  cases r with
  | ok a => exact hok a rfl
  | error e => exact herror e rfl

theorem recover_of_ok (h : x s = (.ok a, s')) : recover x y s = (.ok a, s') := by
  rw [recover,h]

theorem recover_of_error (h : x s = (.error e, s')) : recover x y s = y s' := by
  rw [recover,h]

theorem zoom_of_eq {τ : Type} {get : τ → σ} {put : σ → τ → τ} {t : τ}
    (h : x (get t) = (r, s)) : zoom get put x t = (r, put s t) := by
  rw [zoom,h]

@[simp] theorem pure_bind_apply (a : α) (f : α → Txn σ ε β) (s : σ) :
    ((pure a : Txn σ ε α) >>= f) s = f a s := rfl

@[simp] theorem raise_bind_apply (e : ε) (f : α → Txn σ ε β) (s : σ) :
    ((raise e : Txn σ ε α) >>= f) s = (.error e, s) := rfl

@[simp] theorem read_bind_apply (f : σ → Txn σ ε β) (s : σ) :
    ((read : Txn σ ε σ) >>= f) s = f s s := rfl

@[simp] theorem modify_bind_apply {g : σ → σ} {f : Unit → Txn σ ε β} :
    ((modify g : Txn σ ε Unit) >>= f) s = f () (g s) := rfl

theorem each_modify (bs : List β) {f : β → σ → σ} (s : σ) :
    (each bs fun b => modify (f b) : Txn σ ε Unit) s = (.ok (), bs.foldl (fun s b => f b s) s) := by
  induction bs generalizing s with
  | nil => rfl
  | cons b bs ih => exact ih (f b s)

theorem bind_pure_snd {f : α → β} : ((x >>= fun a => (pure (f a) : Txn σ ε β)) s).2 = (x s).2 := by
  rw [bind_apply]
  cases x s with
  | mk r m => cases r <;> rfl

theorem bind_settles {m : σ} (hx : (x s).2 = m) (hf : ∀ a, (f a m).2 = m) : ((x >>= f) s).2 = m := by
  subst hx
  refine bind_cases (P := fun p => p.2 = (x s).2) (fun hx => by rw [hx]) fun hx => ?_
  rw [hx] at hf ⊢
  exact hf _

theorem require_bind_apply {p : Prop} [Decidable p] {f : Unit → Txn σ ε β} :
    (require p e >>= f) s = if p then f () s else (.error e, s) := by
  by_cases h : p <;> simp [require,bind_apply,h]

variable {p : Prop}

theorem require_bind_of_pos [Decidable p] (h : p) (e : ε) (f : Unit → Txn σ ε β)
    (s : σ) : (require p e >>= f) s = f () s := by
  rw [require_bind_apply,if_pos h]

theorem require_bind_of_neg [Decidable p] (h : ¬ p) {f : Unit → Txn σ ε β}
    : (require p e >>= f) s = (.error e, s) := by
  rw [require_bind_apply,if_neg h]

theorem require_bind_cases [Decidable p] {f : Unit → Txn σ ε β} {r : Except ε β × σ} (h : (require p e >>= f) s = r) :
    (¬ p ∧ r = (.error e, s)) ∨ (p ∧ f () s = r) := by
  rw [require_bind_apply] at h
  split at h
  · exact .inr ⟨‹p›,h⟩
  · exact .inl ⟨‹¬ p›,h.symm⟩

theorem bind_ok {b : β} (h : (x >>= f) s = (.ok b, s')) : ∃ a m, x s = (.ok a, m) ∧ f a m = (.ok b, s') := by
  revert h
  exact bind_cases (P := (· = (.ok b, s') → _)) nofun fun hx h => ⟨_,_,hx,h⟩

theorem liftExcept_bind_ok {b : β} (h : (liftExcept r >>= f) s = (.ok b, s')) :
    ∃ a, r = .ok a ∧ f a s = (.ok b, s') := by
  revert h
  exact liftExcept_cases (P := (· = (.ok b, s') → _)) (fun _ _ => nofun) fun a ha h => ⟨a,ha,h⟩

theorem require_ok [Decidable p] {u : Unit} (h : (require p e : Txn σ ε Unit) s = (.ok u, s')) : p ∧ s' = s := by
  unfold require at h
  split at h
  · cases h
    exact ⟨‹p›,rfl⟩
  · cases h

theorem atomically_error (h : atomically body s = (.error e, s')) : s' = s := by
  unfold atomically at h
  split at h <;> cases h
  rfl

theorem atomically_ok (h : atomically body s = (.ok a, s')) : body s = (.ok a, s') := by
  unfold atomically at h
  split at h <;> cases h
  assumption

theorem atomically_of_ok (h : body s = (.ok a, s')) : atomically body s = (.ok a, s') := by
  simp only [atomically,h]

theorem atomically_of_error (h : body s = (.error e, s')) : atomically body s = (.error e, s) := by
  simp only [atomically,h]

theorem atomically_post {P : σ → Prop} (h₀ : P s) (h : P (body s).2) : P (atomically body s).2 := by
  cases hb : body s with
  | mk r s' =>
    rw [hb] at h
    cases r with
    | ok a =>
      rw [atomically_of_ok hb]
      exact h
    | error e =>
      rw [atomically_of_error hb]
      exact h₀

/-- A raising call restored everything it wrote. -/
def Restores (x : Txn σ ε α) : Prop := ∀ s e s', x s = (.error e, s') → s' = s

theorem Restores.atomically : Restores (atomically body) :=
  fun _ _ _ h => atomically_error h

theorem Restores.require [Decidable p] {x : Unit → Txn σ ε α} (h : Restores (x ())) : Restores (require p e >>= x) := by
  intro s e' s' hx
  rw [require_bind_apply] at hx
  split at hx
  · exact h s e' s' hx
  · cases hx
    rfl

theorem Restores.liftExcept {x : α → Txn σ ε β} (h : ∀ a, Restores (x a)) : Restores (liftExcept r >>= x) := by
  intro s e s' hx
  cases r with
  | ok a => exact h a s e s' hx
  | error e => cases hx; rfl

theorem Restores.map (h : Restores x) {f : α → β} : Restores (x >>= fun a => Pure.pure (f a)) := by
  intro s e s'
  refine bind_cases (P := (· = (.error e, s') → s' = s)) (fun hs hx => ?_) nofun
  cases hx
  exact h s _ _ hs

/-- A call that cannot raise. -/
def Returns (x : Txn σ ε α) : Prop := ∀ s, ∃ a s', x s = (.ok a, s')

theorem Returns.pure : Returns (pure a : Txn σ ε α) := fun s => ⟨a,s,rfl⟩

theorem Returns.read : Returns (read : Txn σ ε σ) := fun s => ⟨s,s,rfl⟩

theorem Returns.modify {f : σ → σ} : Returns (modify f : Txn σ ε Unit) := fun s => ⟨(),f s,rfl⟩

theorem Returns.bind (hx : Returns x) (hf : ∀ a, Returns (f a)) : Returns (x >>= f) := by
  intro s
  obtain ⟨a,m,hm⟩ := hx s
  obtain ⟨b,s',hs⟩ := hf a m
  exact ⟨b,s',(bind_of_ok hm).trans hs⟩

theorem Returns.bind_pure {f : α → β} (hx : Returns x) : Returns (x >>= fun a => Pure.pure (f a)) :=
  .bind hx fun _ => .pure

theorem Returns.ite [Decidable p] (hx : Returns x) (hy : Returns y) : Returns (if p then x else y) := by
  split
  · exact hx
  · exact hy

theorem Returns.each {f : β → Txn σ ε Unit} (hf : ∀ b, Returns (f b)) : Returns (each bs f) := by
  induction bs with
  | nil => exact .pure
  | cons b bs ih => exact .bind (hf b) fun _ => ih

theorem Returns.select {f : β → Txn σ ε Bool} (hf : ∀ b, Returns (f b)) : Returns (select bs f) := by
  induction bs with
  | nil => exact .pure
  | cons b bs ih => exact .bind (hf b) fun _ => .bind ih fun _ => .pure

theorem Returns.atomically_apply (hx : Returns x) (s : σ) : atomically x s = x s := by
  obtain ⟨a,s',h⟩ := hx s
  rw [atomically_of_ok h,h]

theorem Returns.atomically (hx : Returns x) : Returns (atomically x) := by
  intro s
  rw [hx.atomically_apply]
  exact hx s

theorem Returns.bind_snd (hx : Returns x) {y : Txn σ ε β} (hf : ∀ a, f a = y) : (x >>= f) s = y (x s).2 := by
  obtain ⟨a,s',h⟩ := hx s
  rw [bind_of_ok h,hf,h]

def Keeps {τ : Type} (π : σ → τ) (Q : τ → τ → Prop) (x : Txn σ ε α) : Prop :=
  ∀ s, Q (π s) (π (x s).2)

def Frame {τ : Type} (π : σ → τ) (x : Txn σ ε α) : Prop := ∀ s, π (x s).2 = π s

section Keeps
variable {τ : Type} {π : σ → τ} {Q : τ → τ → Prop} {x : Txn σ ε α} {f : α → Txn σ ε β} {bs : List β}

theorem Keeps.of_frame (hq : ∀ a, Q a a) (hx : Frame π x) : Keeps π Q x := by
  intro s
  rw [hx s]
  exact hq _

theorem Keeps.modify {f : σ → σ} (h : ∀ s, Q (π s) (π (f s))) :
    Keeps π Q (Txn.modify f : Txn σ ε Unit) := h

theorem Keeps.bind_of {P R : τ → τ → Prop} (hx : Keeps π P x) (hf : ∀ a, Keeps π R (f a))
    (hraise : ∀ a b, P a b → Q a b) (hseq : ∀ a b c, P a b → R b c → Q a c) : Keeps π Q (x >>= f) := by
  intro s
  have h := hx s
  refine bind_cases (P := fun p => Q (π s) (π p.2)) (fun hs => ?_) fun hs => ?_ <;> rw [hs] at h
  · exact hraise _ _ h
  · exact hseq _ _ _ h (hf _ _)

theorem Keeps.bind (ht : ∀ a b c, Q a b → Q b c → Q a c) (hx : Keeps π Q x) (hf : ∀ a, Keeps π Q (f a)) :
    Keeps π Q (x >>= f) := hx.bind_of hf (fun _ _ => id) ht

/-- Any relation composes with steps that frame the projection. -/
theorem Keeps.frame_bind (hq : ∀ a, Q a a) (hx : Frame π x) (hf : ∀ a, Keeps π Q (f a)) : Keeps π Q (x >>= f) :=
  Keeps.bind_of (P := fun a b => b = a) hx hf (fun _ _ h => h ▸ hq _) fun _ _ _ h k => h ▸ k

theorem Keeps.bind_frame (hx : Keeps π Q x) (hf : ∀ a, Frame π (f a)) : Keeps π Q (x >>= f) :=
  hx.bind_of (R := fun a b => b = a) hf (fun _ _ => id) fun _ _ _ h k => k ▸ h

theorem Keeps.liftExcept_bind (hq : ∀ a, Q a a) {x : Except ε α}
    (hf : ∀ a, x = .ok a → Keeps π Q (f a)) : Keeps π Q (Txn.liftExcept x >>= f) := by
  intro s
  cases x with
  | ok a => exact hf a rfl s
  | error e => exact hq _
variable {y : Txn σ ε α}

theorem Keeps.ite [Decidable p] (hx : Keeps π Q x) (hy : Keeps π Q y) : Keeps π Q (if p then x else y) := by
  split
  · exact hx
  · exact hy

theorem Keeps.each (hq : ∀ a, Q a a) (ht : ∀ a b c, Q a b → Q b c → Q a c)
    {f : β → Txn σ ε Unit} (hf : ∀ b, Keeps π Q (f b)) : Keeps π Q (Txn.each bs f) := by
  induction bs with
  | nil => exact fun s => hq _
  | cons b bs ih => exact Keeps.bind ht (hf b) fun _ => ih

theorem Keeps.select (hq : ∀ a, Q a a) (ht : ∀ a b c, Q a b → Q b c → Q a c)
    {f : β → Txn σ ε Bool} (hf : ∀ b, Keeps π Q (f b)) : Keeps π Q (Txn.select bs f) := by
  induction bs with
  | nil => exact fun s => hq _
  | cons b bs ih =>
    exact Keeps.bind ht (hf b) fun _ => Keeps.bind ht ih fun _ => fun s => hq _

theorem Keeps.atomically (hq : ∀ a, Q a a) (hx : Keeps π Q x) : Keeps π Q (Txn.atomically x) := by
  intro s
  have h := hx s
  unfold Txn.atomically
  cases hs : x s with
  | mk r m =>
    rw [hs] at h
    cases r with
    | ok a => exact h
    | error e => exact hq _

theorem Keeps.mono {Q' : τ → τ → Prop} (h : ∀ a b, Q a b → Q' a b)
    (hx : Keeps π Q x) : Keeps π Q' x := fun s => h _ _ (hx s)

theorem Keeps.ends (hx : Keeps π Q x) (h : x s = (r, s')) : Q (π s) (π s') := by
  have hs := hx s
  rwa [h] at hs

theorem Frame.ends (hx : Frame π x) (h : x s = (r, s')) : π s' = π s :=
  Keeps.ends (Q := fun a b => b = a) hx h

theorem Frame.pure : Frame π (Pure.pure a : Txn σ ε α) := fun _ => rfl

theorem Frame.raise : Frame π (Txn.raise e : Txn σ ε α) := fun _ => rfl

theorem Frame.read : Frame π (Txn.read : Txn σ ε σ) := fun _ => rfl

theorem Frame.liftExcept {x : Except ε α} : Frame π (Txn.liftExcept x : Txn σ ε α) := fun _ => rfl

theorem Frame.require [Decidable p] : Frame π (Txn.require p e : Txn σ ε Unit) := by
  intro s
  unfold Txn.require
  split <;> rfl

theorem Frame.modify {f : σ → σ} (h : ∀ s, π (f s) = π s) :
    Frame π (Txn.modify f : Txn σ ε Unit) := h

private theorem same_trans (a b c : τ) (h : b = a) (k : c = b) : c = a := k.trans h

theorem Frame.bind (hx : Frame π x) (hf : ∀ a, Frame π (f a)) : Frame π (x >>= f) :=
  Keeps.bind (Q := fun a b => b = a) same_trans hx hf

theorem Frame.bind_pure {f : α → β} (hx : Frame π x) : Frame π (x >>= fun a => Pure.pure (f a)) :=
  .bind hx fun _ => .pure

theorem Keeps.bind_pure {f : α → β} (hx : Keeps π Q x) : Keeps π Q (x >>= fun a => Pure.pure (f a)) :=
  .bind_frame hx fun _ => .pure

theorem Frame.ite [Decidable p] (hx : Frame π x) (hy : Frame π y) : Frame π (if p then x else y) := by
  split
  · exact hx
  · exact hy

theorem Frame.each {f : β → Txn σ ε Unit} (hf : ∀ b, Frame π (f b)) : Frame π (Txn.each bs f) :=
  Keeps.each (Q := fun a b => b = a) (fun _ => rfl) same_trans hf

theorem Frame.select {f : β → Txn σ ε Bool} (hf : ∀ b, Frame π (f b)) : Frame π (Txn.select bs f) :=
  Keeps.select (Q := fun a b => b = a) (fun _ => rfl) same_trans hf

theorem Frame.atomically (hx : Frame π x) : Frame π (Txn.atomically x) :=
  Keeps.atomically (Q := fun a b => b = a) (fun _ => rfl) hx

end Keeps
end Txn
end Yeoman.Library
