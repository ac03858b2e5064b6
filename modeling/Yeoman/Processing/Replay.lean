import Yeoman.Processing.JournalSteps

/-! Replays of journaled events. The source projection is keyed by the incoming event,
so a replay is silent exactly when that key is projected already. -/
namespace Yeoman.Processing
open Library Table Txn

def Store.Projects (s : Store) (eventId : String) (revision : Int) : Prop :=
  ∃ q ∈ s.authority, q.key = (eventId, revision)

def Store.ProjectsOnly (s s' : Store) : Prop :=
  ∀ q ∈ s'.authority, q ∈ s.authority ∨ ∃ r ∈ s'.events, (r.eventId, r.revision) = q.key

theorem World.Reachable.projects {w : World} (h : w.Reachable) :
    ∀ e ∈ w.store.events, w.store.Projects e.eventId e.revision := by
  refine h.store_invariant (I := fun s => ∀ e ∈ s.events, s.Projects e.eventId e.revision)
    (fun _ h => absurd h List.not_mem_nil) ?_
  intro s op hs e he
  have hstep := op.sources_step s
  rcases hstep.events e he with ⟨e₀,he₀,hk⟩ | hq
  · obtain ⟨q,hq,hqk⟩ := hs e₀ he₀
    obtain ⟨q',hq',hqk'⟩ := hstep.authority q hq
    exact ⟨q',hq',hqk'.trans (hqk.trans hk)⟩
  · exact hq

variable {e : CanonicalEvent} {a : AppendArgs}

theorem coerceEvent_identity (h : coerceEvent a = .ok e) : e.eventKey = a.eventKey ∧ e.eventId = a.eventId := by
  unfold coerceEvent at h
  split at h
  · obtain ⟨revision,-,h⟩ := except_bind_ok h
    obtain ⟨payloadHash,-,h⟩ := except_bind_ok h
    split at h
    all_goals
      obtain ⟨direction,-,h⟩ := except_bind_ok h
      cases h
      exact ⟨rfl,rfl⟩
  · obtain ⟨normalized,-,h⟩ := except_bind_ok h
    obtain ⟨revision,-,h⟩ := except_bind_ok h
    obtain ⟨payloadHash,-,h⟩ := except_bind_ok h
    obtain ⟨kind,-,h⟩ := except_bind_ok h
    obtain ⟨direction,-,h⟩ := except_bind_ok h
    cases h
    exact ⟨rfl,rfl⟩

theorem appendEvent_of_coerced (hk : a.eventKey ≠ "")
    (he : coerceEvent a = .ok e) (s : Store) : Appended e s (appendEvent a s) := by
  rw [appendEvent,require_bind_of_pos hk,he,bind_of_ok liftExcept_apply]
  exact atomically_appended e s

variable {s : Store}

theorem appendEvent_replay {row : EventRow}
    (hk : a.eventKey ≠ "") (he : coerceEvent a = .ok e) (hr : s.eventByKey? a.eventKey = some row)
    (ha : acceptsReplay row e = .ok true) : appendEvent a s = (.ok row.eventId, s.projected e.toRow) := by
  rw [appendEvent,require_bind_of_pos hk,he,bind_of_ok liftExcept_apply]
  refine atomically_of_ok ?_
  rw [appendEventConnection,read_bind_apply,(coerceEvent_identity he).1,hr]
  dsimp only
  rw [ha]
  rfl

theorem projected_eq_self_iff {e : EventRow} : s.projected e = s ↔ s.Projects e.eventId e.revision := by
  have h := insertIgnore_eq_self_iff AuthorityRow.key (unprovenAuthority e) s.authority
  constructor
  · intro hs
    exact h.mp (congrArg Store.authority hs)
  · intro hp
    rw [Store.projected,h.mpr hp]

/-- A replay projects a key of the journal only where that key was projected before:
the journal itself has all of its keys projected. -/
theorem projected_projectsOnly_iff (hp : ∀ r ∈ s.events, s.Projects r.eventId r.revision)
    {e : EventRow} : s.ProjectsOnly (s.projected e) ↔ s.Projects e.eventId e.revision := by
  constructor
  · intro ho
    obtain ⟨q,hq,hk⟩ := exists_insertIgnore AuthorityRow.key (unprovenAuthority e) s.authority
    rcases ho q hq with hq | ⟨r,hr,hrk⟩
    · exact ⟨q,hq,hk⟩
    · obtain ⟨q',hq',hk'⟩ := hp r hr
      exact ⟨q',hq',hk'.trans (hrk.trans hk)⟩
  · intro h q hq
    rw [(projected_eq_self_iff).mpr h] at hq
    exact .inl hq

theorem journaled_projectsOnly : s.ProjectsOnly (s.journaled e) := by
  intro q hq
  rcases mem_insertIgnore hq with hq | ⟨rfl,-⟩
  · exact .inl hq
  · exact .inr ⟨e.toRow,List.mem_concat_self,rfl⟩

/-- An accepted replay returns the stored id. It leaves every table as it was, and every
projected row has its event, exactly when the incoming id and revision are projected
already, as those of the stored event are. A first append always projects its own row. -/
theorem replay_silent_iff {w : World} (hw : w.Reachable) {a : AppendArgs} {e : CanonicalEvent}
    (hk : a.eventKey ≠ "") (he : coerceEvent a = .ok e) :
    (∀ row, w.store.eventByKey? a.eventKey = some row → acceptsReplay row e = .ok true →
      (appendEvent a w.store).1 = .ok row.eventId ∧
      ((appendEvent a w.store).2 = w.store ↔ w.store.Projects e.eventId e.revision) ∧
      (w.store.ProjectsOnly (appendEvent a w.store).2 ↔ w.store.Projects e.eventId e.revision) ∧
      (e.eventId = row.eventId → e.revision = row.revision → w.store.Projects e.eventId e.revision)) ∧
    (w.store.eventByKey? a.eventKey = none → w.store.ProjectsOnly (appendEvent a w.store).2) := by
  refine ⟨?_,?_⟩
  · intro row hr ha
    rw [appendEvent_replay hk he hr ha]
    refine ⟨rfl,projected_eq_self_iff,projected_projectsOnly_iff hw.projects,?_⟩
    intro hi hrev
    rw [hi,hrev]
    exact hw.projects row (lookup_some hr).1
  · intro hn
    have h := appendEvent_of_coerced hk he w.store
    revert h
    generalize appendEvent a w.store = result
    intro h
    cases h with
    | refused err => exact fun q hq => .inl hq
    | replayed row hr ha =>
      rw [(coerceEvent_identity he).1] at hr
      cases hn.symm.trans hr
    | journaled hr hi => exact journaled_projectsOnly

private def messageBody : Dict :=
  ⟨[("kind", .str "message"), ("text", .str "secret")],by decide,trivial,trivial,trivial⟩

def firstMessage : AppendArgs :=
  { eventKey := "wa:event-1", eventId := "e1", traceId := "tr1", nowMs := 10,
    payload := .mapping messageBody }

def renamedMessage : AppendArgs := { firstMessage with eventId := "e9", nowMs := 20 }

def purgedJournal : World :=
  Runs.run World.step World.initial
    [.call (.appendEvent firstMessage), .call (.purge defaultRetention (10 + 8 * dayMs))]

/-- The replay is accepted, and leaves a projected row that no event has. -/
theorem renamed_replay_projects_phantom :
    purgedJournal.Reachable ∧
    (purgedJournal.store.eventByKey? renamedMessage.eventKey).map EventRow.eventId = some "e1" ∧
    (appendEvent renamedMessage purgedJournal.store).1.toOption = some "e1" ∧
    purgedJournal.store.authority.map AuthorityRow.key = [("e1", 1)] ∧
    (appendEvent renamedMessage purgedJournal.store).2.authority.map AuthorityRow.key =
      [("e1", 1), ("e9", 1)] ∧
    (appendEvent renamedMessage purgedJournal.store).2.events.map EventRow.eventId = ["e1"] := by
  refine ⟨⟨_,rfl⟩,?_⟩
  decide +kernel

/-- A replay under the stored id and revision changes nothing. -/
theorem unrenamed_replay_silent :
    purgedJournal.Reachable ∧ (appendEvent firstMessage purgedJournal.store).1 = .ok "e1" ∧
    (appendEvent firstMessage purgedJournal.store).2 = purgedJournal.store := by
  have hw : purgedJournal.Reachable := ⟨_,rfl⟩
  have hc : (coerceEvent firstMessage).toOption.map (fun e => (e.eventId, e.revision)) = some ("e1", 1) := by
    decide +kernel
  have hj : (purgedJournal.store.eventByKey? firstMessage.eventKey).map
      (fun r => (r.eventId, r.revision, r.payloadJson)) = some ("e1", 1, none) := by
    decide +kernel
  cases he : coerceEvent firstMessage with
  | error err =>
    rw [he] at hc
    cases hc
  | ok e =>
    rw [he] at hc
    cases hr : purgedJournal.store.eventByKey? firstMessage.eventKey with
    | none =>
      rw [hr] at hj
      cases hj
    | some row =>
      rw [hr] at hj
      obtain ⟨hei,her⟩ := Prod.mk.inj (Option.some.inj hc)
      obtain ⟨hri,hrest⟩ := Prod.mk.inj (Option.some.inj hj)
      obtain ⟨hrr,hrp⟩ := Prod.mk.inj hrest
      have ha : acceptsReplay row e = .ok true := by
        rw [acceptsReplay,hrp]
      obtain ⟨hid,hsilent,-,hsame⟩ := (replay_silent_iff hw (by decide) he).1 row hr ha
      rw [hri] at hid
      exact ⟨hw,hid,hsilent.mpr (hsame (hei.trans hri.symm) (her.trans hrr.symm))⟩

end Yeoman.Processing
