import Mathlib.Data.List.Induction
import Yeoman.Processing.Replay

/-! Resolution of event relations in append-only runs. An append marks its own target as
resolved, so the column tells the truth as long as targets are journaled first. -/
namespace Yeoman.Processing
open Library Table Txn Runs

def Store.Knows (s : Store) (refId : String) : Prop :=
  ∃ e ∈ s.events, e.eventId = refId ∨ e.sourceMessageId = some refId

def Store.Resolved (s : Store) : Prop := ∀ r ∈ s.relations, (r.resolved = true ↔ s.Knows r.refId)

def Store.RefsNamed (s : Store) : Prop := ∀ r ∈ s.relations, r.refId ≠ ""

def Store.TargetKnown (s : Store) (e : CanonicalEvent) : Prop :=
  ∀ id, e.targetMessageId = some id → id ≠ "" →
    id = e.eventId ∨ e.sourceMessageId = some id ∨ s.Knows id

variable {s : Store} {refId : String} {e : CanonicalEvent} {a : AppendArgs}

theorem refKnown_iff : s.refKnown refId = true ↔ s.Knows refId := by
  unfold Store.refKnown Store.Knows
  simp only [List.any_eq_true,Bool.or_eq_true,decide_eq_true_eq]

theorem journaled_knows :
    (s.journaled e).Knows refId ↔
      s.Knows refId ∨ refId = e.eventId ∨ e.sourceMessageId = some refId := by
  constructor
  · rintro ⟨x,hx,h⟩
    rcases mem_concat.mp hx with hx | rfl
    · exact .inl ⟨x,hx,h⟩
    · exact .inr (h.imp_left Eq.symm)
  · rintro (⟨x,hx,h⟩ | h)
    · exact ⟨x,List.mem_append_left _ hx,h⟩
    · exact ⟨e.toRow,List.mem_concat_self,h.imp_left Eq.symm⟩

section Edges
variable {known : String → Bool} {e : CanonicalEvent}
  {t : List RelationRow} {r : RelationRow} {edges : List (String × String)}

theorem mem_linkEdges_of_mem (known : String → Bool) (e : CanonicalEvent) (edges : List (String × String))
    (h : r ∈ t) : r ∈ linkEdges known e edges t := by
  induction edges generalizing t with
  | nil => exact h
  | cons edge edges ih => exact ih (mem_insertIgnore_of_mem h)

theorem mem_linkEdges (h : r ∈ linkEdges known e edges t) :
    r ∈ t ∨ ∃ edge ∈ edges, r.refId = edge.2 ∧ r.resolved = known r.refId := by
  induction edges generalizing t with
  | nil => exact .inl h
  | cons edge edges ih =>
    rcases ih h with h | ⟨edge',he,hr⟩
    · rcases mem_insertIgnore h with h | ⟨rfl,-⟩
      · exact .inl h
      · exact .inr ⟨edge,List.mem_cons_self,rfl,rfl⟩
    · exact .inr ⟨edge',List.mem_cons_of_mem _ he,hr⟩

theorem exists_linkEdges (known : String → Bool) {edge : String × String}
    (h : edge ∈ edges) (t : List RelationRow) : ∃ r ∈ linkEdges known e edges t, r.refId = edge.2 := by
  induction edges generalizing t with
  | nil => cases h
  | cons first edges ih =>
    rcases List.mem_cons.mp h with rfl | h
    · obtain ⟨r,hr,hk⟩ := exists_insertIgnore RelationRow.key
        ⟨e.eventId,edge.1,edge.2,known edge.2,e.createdMs⟩ t
      have hr' : r ∈ linkEdges known e (edge :: edges) t :=
        mem_linkEdges_of_mem known e edges hr
      exact ⟨r,hr',congrArg (fun k => k.2.2) hk⟩
    · exact ih h _

/-- The back-fill resolves exactly the references to the ids of the event. -/
theorem mem_resolveEdges :
    r ∈ resolveEdges e t ↔ ∃ q ∈ t,
      { q with resolved := q.resolved || decide (q.refId ∈ e.resolvedIds) } = r := by
  rw [resolveEdges,mem_updateWhere]
  refine exists_congr fun q => and_congr_right fun _ => ?_
  obtain ⟨eventId,relation,refId,resolved,createdMs⟩ := q
  by_cases hi : refId ∈ e.resolvedIds
  · cases resolved <;> simp [hi]
  · simp [hi]

end Edges

theorem journaled_refsNamed (h : s.RefsNamed) : (s.journaled e).RefsNamed := by
  intro r hr
  obtain ⟨q,hq,rfl⟩ := mem_resolveEdges.mp hr
  rcases mem_linkEdges hq with hq | ⟨edge,hedge,href,-⟩
  · exact h q hq
  · rw [href]
    exact CanonicalEvent.relations_ne hedge

/-- A first append keeps the column truthful exactly when the target it names is known. -/
theorem journaled_resolved_iff (hn : s.RefsNamed) (hs : s.Resolved) : (s.journaled e).Resolved ↔ s.TargetKnown e := by
  constructor
  · intro h id ht hi
    obtain ⟨q,hq,href⟩ := exists_linkEdges (e := e)
      (Store.refKnown { s with events := s.events ++ [e.toRow] })
      (CanonicalEvent.target_mem_relations ht hi) s.relations
    have hid : q.refId ∈ e.resolvedIds := by
      rw [href]
      exact CanonicalEvent.mem_resolvedIds.mpr ⟨hi,.inr (.inr ht)⟩
    have hk := (h _ (mem_resolveEdges.mpr ⟨q,hq,rfl⟩)).mp (by simp [hid])
    rw [href] at hk
    rcases journaled_knows.mp hk with hk | hk | hk
    · exact .inr (.inr hk)
    · exact .inl hk
    · exact .inr (.inl hk)
  · intro ht r hr
    obtain ⟨q,hq,rfl⟩ := mem_resolveEdges.mp hr
    have hback : q.refId ∈ e.resolvedIds → (s.journaled e).Knows q.refId := by
      intro hid
      obtain ⟨hne,h | h | h⟩ := CanonicalEvent.mem_resolvedIds.mp hid
      · exact journaled_knows.mpr (.inr (.inl h))
      · exact journaled_knows.mpr (.inr (.inr h))
      · rcases ht _ h hne with h | h | h
        · exact journaled_knows.mpr (.inr (.inl h))
        · exact journaled_knows.mpr (.inr (.inr h))
        · exact journaled_knows.mpr (.inl h)
    rw [Bool.or_eq_true,decide_eq_true_eq]
    rcases mem_linkEdges hq with hq | ⟨edge,-,-,hres⟩
    · rw [hs q hq]
      refine ⟨fun h => h.elim (fun h => journaled_knows.mpr (.inl h)) hback,?_⟩
      intro hk
      rcases journaled_knows.mp hk with h | h
      · exact .inl h
      · exact .inr (CanonicalEvent.mem_resolvedIds.mpr ⟨hn q hq,h.imp_right .inl⟩)
    · rw [hres,refKnown_iff]
      exact ⟨fun h => h.elim id hback,.inl⟩

def appendStep (s : Store) (a : AppendArgs) : Store := (appendEvent a s).2

def Store.Journals (s : Store) (a : AppendArgs) (e : CanonicalEvent) : Prop :=
  a.eventKey ≠ "" ∧ coerceEvent a = .ok e ∧ s.eventByKey? a.eventKey = none ∧ s.event? a.eventId = none

theorem appendEvent_first (h : s.Journals a e) : appendEvent a s = (.ok e.eventId, s.journaled e) := by
  obtain ⟨hk,he,hr,hi⟩ := h
  obtain ⟨hkey,hid⟩ := coerceEvent_identity he
  rw [appendEvent,require_bind_of_pos hk,he,bind_of_ok liftExcept_apply]
  refine atomically_of_ok ?_
  rw [appendEventConnection,read_bind_apply,hkey,hr]
  rw [hid,hi]
  dsimp only
  rw [modify_bind_apply,bind_of_ok (recordRelations_apply e _)]
  rfl

theorem appendStep_of_not_journals (h : ∀ e, ¬ s.Journals a e) :
    (appendStep s a).events = s.events ∧ (appendStep s a).relations = s.relations := by
  unfold appendStep
  rcases appendEvent_cases a with ⟨err,hr⟩ | ⟨e,hk,he,ha⟩
  · rw [hr]
    exact ⟨rfl,rfl⟩
  · obtain ⟨hkey,hid⟩ := coerceEvent_identity he
    revert ha
    generalize appendEvent a s = result
    intro ha
    cases ha with
    | refused | replayed => exact ⟨rfl,rfl⟩
    | journaled hr hi => exact absurd ⟨hk,he,hkey ▸ hr,hid ▸ hi⟩ (h e)

theorem appendStep_refsNamed (h : s.RefsNamed) : (appendStep s a).RefsNamed := by
  by_cases hj : ∃ e, s.Journals a e
  · obtain ⟨e,hj⟩ := hj
    rw [appendStep,appendEvent_first hj]
    exact journaled_refsNamed h
  · intro r hr
    rw [(appendStep_of_not_journals (not_exists.mp hj)).2] at hr
    exact h r hr

theorem appendStep_resolved_iff (hn : s.RefsNamed) (hs : s.Resolved) :
    (appendStep s a).Resolved ↔ ∀ e, s.Journals a e → s.TargetKnown e := by
  by_cases hj : ∃ e, s.Journals a e
  · obtain ⟨e,hj⟩ := hj
    rw [appendStep,appendEvent_first hj,journaled_resolved_iff hn hs]
    refine ⟨fun h e' hj' => ?_,fun h => h e hj⟩
    cases hj.2.1.symm.trans hj'.2.1
    exact h
  · have hj := not_exists.mp hj
    obtain ⟨he,hr⟩ := appendStep_of_not_journals hj
    refine iff_of_true ?_ fun e h => absurd h (hj e)
    unfold Store.Resolved Store.Knows
    rw [he,hr]
    exact hs

/-- In an append-only run the column is truthful in every state reached exactly when
every event the run journals names a target that is known at that moment: an event id or
source message id of the journal or of the event itself. -/
theorem relations_resolved_iff (as : List AppendArgs) :
    (∀ bs cs, as = bs ++ cs → (run appendStep Store.empty bs).Resolved) ↔
    ∀ bs a cs e, as = bs ++ a :: cs → (run appendStep Store.empty bs).Journals a e →
      (run appendStep Store.empty bs).TargetKnown e := by
  have hn (bs : List AppendArgs) : (run appendStep Store.empty bs).RefsNamed :=
    run_invariant (I := Store.RefsNamed) (fun _ a h => appendStep_refsNamed h)
      (fun _ h => absurd h List.not_mem_nil) bs
  have hstep (bs : List AppendArgs) (a : AppendArgs) :
      run appendStep Store.empty (bs ++ [a]) = appendStep (run appendStep Store.empty bs) a :=
    run_append _ _ _ _
  constructor
  · intro h bs a cs e has hj
    have hs := h bs (a :: cs) has
    have hs' := h (bs ++ [a]) cs (by simpa using has)
    rw [hstep] at hs'
    exact (appendStep_resolved_iff (hn bs) hs).mp hs' e hj
  · intro h bs
    induction bs using List.reverseRecOn with
    | nil => exact fun _ _ _ hr => absurd hr List.not_mem_nil
    | append_singleton bs a ih =>
      intro cs has
      rw [hstep]
      refine (appendStep_resolved_iff (hn bs) (ih (a :: cs) (by simpa using has))).mpr fun e hj => ?_
      exact h bs a cs e (by simpa using has) hj

private def strayBody : Dict :=
  ⟨[("kind", .str "reaction"), ("target_message_id", .str "m404")],by decide,trivial,trivial,trivial⟩

def strayReaction : AppendArgs :=
  { eventKey := "wa:event-5", eventId := "e5", traceId := "tr1", nowMs := 10, payload := .mapping strayBody }

/-- Its reference is marked as resolved although the journal does not know the message. -/
theorem stray_target_resolved :
    (run appendStep Store.empty [strayReaction]).relations.map
      (fun r => (r.relation, r.refId, r.resolved)) = [("target", "m404", true)] ∧
    (run appendStep Store.empty [strayReaction]).events.map
      (fun e => (e.eventId, e.sourceMessageId)) = [("e5", none)] := by
  decide +kernel

end Yeoman.Processing
