import Yeoman.Processing.Postbox

/-! The additional generations of an actor, turn by turn. -/
namespace Yeoman.Processing.ThreadActor
open Library Table Txn Runs

def asksRestart (r : Except Error (GenerationOutcome × Nat)) : Bool :=
  r.toOption.any fun o => o.1.state = .restart

def countAfter (additional : Nat) (r : Except Error (GenerationOutcome × Nat)) : Nat :=
  (r.toOption.map Prod.snd).getD additional

variable {a : ThreadActor} {additional : Nat} {snapshot : GenerationSnapshot} {text : Option String}
  {nowMs : Int} {pending : List PendingRow} {s : Store}

theorem restart_asks (pending : List PendingRow) (nowMs : Int) (h : s.turn? snapshot.turnId ≠ none) :
    ∃ o m, restart snapshot pending nowMs s = (.ok o, m) ∧ o.state = .restart := by
  obtain ⟨rows,ha,-⟩ := addSources_known h
  obtain ⟨turn,ht⟩ := Option.ne_none_iff_exists'.mp h
  have hb : ∃ v m, bumpContextVersion snapshot.turnId nowMs { s with turnSources := rows } = (.ok v, m) := by
    rw [bumpContextVersion,bind_of_ok (atomically_of_ok (show updateTurns _ _ _ = _ from rfl)),
      read_bind_apply]
    dsimp only [Store.turn?]
    rw [lookup_updateWhere_of_pos ?_ ht (decide_eq_true (lookup_some ht).2)]
    · exact ⟨_,_,rfl⟩
    · exact fun _ => rfl
  obtain ⟨v,m,hb⟩ := hb
  rw [restart,bind_of_ok ha,bind_of_ok hb]
  exact ⟨_,_,rfl,rfl⟩

theorem handOver_state {o : GenerationOutcome} {m : Store}
    (h : a.handOver snapshot text pending nowMs s = (.ok o, m)) : o.state = .send := by
  obtain ⟨_,_,_,h⟩ := bind_ok h
  obtain ⟨_,_,_,h⟩ := bind_ok h
  cases h
  rfl

def Counts (additional : Nat) (p : Prop) (r : Except Error (GenerationOutcome × Nat)) : Prop :=
  (asksRestart r = true ↔ p) ∧ countAfter additional r = additional + (asksRestart r).toNat

theorem counts_nothing {α : Type} {x : StoreM α} {f : α → GenerationOutcome} {p : Prop} (hp : ¬ p)
    (h : ∀ {v m}, x s = (.ok v, m) → (f v).state ≠ .restart) :
    Counts additional p ((x >>= fun v => pure (f v, additional)) s).1 := by
  refine bind_cases (P := fun r => Counts additional p r.1)
    (fun _ => ⟨iff_of_false Bool.false_ne_true hp,rfl⟩) fun hx => ?_
  have hr : asksRestart (.ok (f _, additional)) = false := decide_eq_false (h hx)
  exact ⟨iff_of_false (hr ▸ Bool.false_ne_true) hp,hr ▸ rfl⟩

theorem settleDrained_counts :
    Counts additional (Continues snapshot pending s ∧ additional < maxAdditionalGenerations)
      (a.settleDrained additional snapshot text nowMs pending s).1 := by
  refine settleDrained_cases a (P := fun r => Counts additional _ r.1) (fun hcont => ?_)
    fun hcont _ _ _ _ ho => counts_nothing (fun h => hcont h.1) ho
  split
  next hroom =>
    obtain ⟨o,m,hr,ho⟩ := restart_asks pending nowMs hcont.turn
    rw [bind_of_ok hr]
    have hask : asksRestart (.ok (o, additional + 1)) = true := decide_eq_true ho
    exact ⟨iff_of_true hask ⟨hcont,hroom⟩,congrArg (additional + Bool.toNat ·) hask.symm⟩
  next hspent =>
    exact counts_nothing (fun h => hspent h.2) fun ho => handOver_state ho ▸ nofun

variable (a)

def restarts (w : ActorWorld) (snapshot : GenerationSnapshot) (text : Option String) (nowMs : Int) : Bool :=
  asksRestart (a.evaluatePostbox w.additional snapshot text nowMs w.store).1

def logStep (x : ActorWorld × List String) (act : ActorAction a.threadId) : ActorWorld × List String :=
  (a.step x.1 act,
    match act with
    | .returned snapshot text nowMs =>
      if snapshot ∈ x.1.frozen ∧ a.restarts x.1 snapshot text nowMs = true then snapshot.turnId :: x.2 else x.2
    | .forgotten => []
    | _ => x.2)

theorem restarts_iff {w : ActorWorld} : a.restarts w snapshot text nowMs = true ↔
    Continues snapshot (w.store.drained a.threadId (some a.cap)) w.store ∧
      w.additional < maxAdditionalGenerations := by
  rw [restarts,evaluatePostbox_apply]
  exact settleDrained_counts.1

/-- The count is that of all restarts since the actor was built, whatever turn they were for. -/
theorem logStep_counts {x : ActorWorld × List String} (h : x.1.additional = x.2.length)
    (act : ActorAction a.threadId) : (a.logStep x act).1.additional = (a.logStep x act).2.length := by
  cases act with
  | returned snapshot text nowMs =>
    have hcount := (@settleDrained_counts a x.1.additional snapshot text nowMs
      (x.1.store.drained a.threadId (some a.cap)) (a.drainedStore nowMs x.1.store)).2
    rw [← evaluatePostbox_apply] at hcount
    rw [logStep,step]
    by_cases hf : snapshot ∈ x.1.frozen
    · simp only [hf,if_true,true_and,restarts]
      generalize a.evaluatePostbox x.1.additional snapshot text nowMs x.1.store = r at hcount ⊢
      obtain ⟨r,m⟩ := r
      rcases r with e | ⟨o,n⟩
      · exact h
      refine Eq.trans (show n = x.1.additional + (asksRestart (.ok (o, n))).toNat from hcount) ?_
      rw [h]
      cases asksRestart (.ok (o, n)) <;> rfl
    · simpa only [hf,if_false,false_and] using h
  | freeze generationId nowMs =>
    have hkept : (a.step x.1 (.freeze generationId nowMs)).additional = x.1.additional := by
      rw [step]
      split <;> rfl
    exact hkept.trans h
  | forgotten => rfl
  | accept | failed | other => exact h

/-- An evaluation that finds pending inputs restarts its turn exactly as long as that turn has
restarts left, if and only if all restarts of the actor leave one too and the turn continues, or
the turn itself has used them up. -/
theorem restart_budget_per_turn_iff (a : ThreadActor) (as : List (ActorAction a.threadId))
    (snapshot : GenerationSnapshot) (text : Option String) (nowMs : Int) :
    let x := run a.logStep (.start, []) as
    let drained := x.1.store.drained a.threadId (some a.cap)
    (drained ≠ [] →
      (a.restarts x.1 snapshot text nowMs = true ↔ x.2.count snapshot.turnId < maxAdditionalGenerations)) ↔
    (drained ≠ [] →
      Continues snapshot drained x.1.store ∧ x.2.length < maxAdditionalGenerations ∨
        maxAdditionalGenerations ≤ x.2.count snapshot.turnId) := by
  intro x drained
  refine imp_congr_right fun _ => ?_
  have hcount : x.1.additional = x.2.length :=
    run_invariant (I := fun x : ActorWorld × List String => x.1.additional = x.2.length)
      (fun _ act h => a.logStep_counts h act) rfl as
  have hle := x.2.count_le_length (a := snapshot.turnId)
  rw [restarts_iff,hcount]
  by_cases hcont : Continues snapshot drained x.1.store
  · simp only [drained] at hcont ⊢
    simp only [hcont,true_and]
    omega
  · simp only [drained] at hcont ⊢
    simp only [hcont,false_and,false_or,false_iff]
    omega

def nextTurn : List (ActorAction orderActor.threadId) :=
  andReturn 109 (followedUp ++ [.freeze "g2" 107, .accept (followUp "m3") 108]) ++
    [.other (.closeTurn (turnIdFor orderActor.threadId "m1" 1) 110 "closed") rfl,
     .other (.openTurn orderActor.threadId "u1" "m4" 111 .open) rfl, .freeze "g3" 112, .accept (followUp "m5") 113]

/-- A turn that was never restarted is not restarted for its first follow-up. -/
theorem next_turn_has_no_restart :
    let x := run orderActor.logStep (.start, []) nextTurn
    ∃ g ∈ x.1.frozen, x.2.count g.turnId = 0 ∧
      Continues g (x.1.store.drained orderActor.threadId (some orderActor.cap)) x.1.store ∧
      orderActor.restarts x.1 g (some "ok") 114 = false := by
  decide +kernel

end Yeoman.Processing.ThreadActor
