import Yeoman.Processing.AuthoritySteps

/-! What the operations can do to the journal and to the source authority projection:
the outcomes of an append, and the keys that every operation keeps. -/
namespace Yeoman.Processing
open Library Table Txn

def linkEdges (known : String → Bool) (e : CanonicalEvent) (edges : List (String × String))
    (t : List RelationRow) : List RelationRow :=
  edges.foldl (fun t edge => insertIgnore RelationRow.key
    { eventId := e.eventId, relation := edge.1, refId := edge.2, resolved := known edge.2,
      createdMs := e.createdMs } t) t

def resolveEdges (e : CanonicalEvent) (t : List RelationRow) : List RelationRow :=
  updateWhere (fun r => !r.resolved && decide (r.refId ∈ e.resolvedIds))
    (fun r => { r with resolved := true }) t
variable (e : CanonicalEvent) (s : Store) (a : AppendArgs)

private theorem each_insertRelation (edges : List (String × String)) (s : Store) :
    each edges (fun edge => insertRelation e edge.1 edge.2) s =
      (.ok (), { s with relations := linkEdges s.refKnown e edges s.relations }) := by
  induction edges generalizing s with
  | nil => rfl
  | cons edge edges ih => exact ih _

theorem recordRelations_apply :
    recordRelations e s = (.ok (),
      { s with relations := resolveEdges e (linkEdges s.refKnown e e.relations s.relations) }) := by
  rw [recordRelations,bind_of_ok (each_insertRelation e e.relations s)]
  rfl

def Store.projected (s : Store) (e : EventRow) : Store :=
  { s with authority := insertIgnore AuthorityRow.key (unprovenAuthority e) s.authority }

def Store.journaled (s : Store) (e : CanonicalEvent) : Store :=
  let known := Store.refKnown { s with events := s.events ++ [e.toRow] }
  { s with
    events := s.events ++ [e.toRow]
    relations := resolveEdges e (linkEdges known e e.relations s.relations)
    authority := insertIgnore AuthorityRow.key (unprovenAuthority e.toRow) s.authority }

inductive Appended (e : CanonicalEvent) (s : Store) : Except Error String × Store → Prop
  | refused (err : Error) : Appended e s (.error err, s)
  | replayed (row : EventRow) (hk : s.eventByKey? e.eventKey = some row)
      (ha : acceptsReplay row e = .ok true) : Appended e s (.ok row.eventId, s.projected e.toRow)
  | journaled (hk : s.eventByKey? e.eventKey = none) (hi : s.event? e.eventId = none) :
      Appended e s (.ok e.eventId, s.journaled e)

theorem appendEventConnection_appended : Appended e s (appendEventConnection e s) := by
  rw [appendEventConnection,read_bind_apply]
  cases hk : s.eventByKey? e.eventKey with
  | some row =>
    dsimp only
    cases ha : acceptsReplay row e with
    | error err => exact .refused err
    | ok accepted =>
      cases accepted with
      | true => exact .replayed row hk ha
      | false => exact .refused _
  | none =>
    cases hi : s.event? e.eventId with
    | some clash => exact .refused _
    | none =>
      dsimp only
      rw [modify_bind_apply]
      rw [bind_of_ok (recordRelations_apply e _)]
      exact .journaled hk hi

theorem atomically_appended : Appended e s (atomically (appendEventConnection e) s) := by
  have h := appendEventConnection_appended e s
  unfold atomically
  cases hr : appendEventConnection e s with
  | mk r m =>
    rw [hr] at h
    cases r with
    | ok id => exact h
    | error err => exact .refused err

theorem appendEvent_cases {s : Store} :
    (∃ err, appendEvent a s = (.error err, s)) ∨
    ∃ e, a.eventKey ≠ "" ∧ coerceEvent a = .ok e ∧ Appended e s (appendEvent a s) := by
  unfold appendEvent
  by_cases hk : a.eventKey ≠ ""
  · rw [require_bind_of_pos hk]
    cases he : coerceEvent a with
    | error err => exact .inl ⟨err,rfl⟩
    | ok e =>
      exact .inr ⟨e,hk,rfl,atomically_appended e s⟩
  · rw [require_bind_of_neg hk]
    exact .inl ⟨_,rfl⟩

def Store.sources (s : Store) : List EventRow × List AuthorityRow := (s.events, s.authority)

/-- What an operation does to the journal: nothing, an append, another place for an event, or retention. -/
inductive JournalStep (op : Op) (p p' : List EventRow × List AuthorityRow) : Prop
  | kept (h : p'.1 = p.1)
  | appended {e : CanonicalEvent} {s s' : Store} {r : Except Error String} (h : Appended e s (r, s'))
      (hs : s.sources = p) (hs' : s'.sources = p')
  | attached (eventId : String) (th tu : Option String) (hop : op = .attachEventAssignment eventId th tu)
      (h : p' = (updateWhere (fun e => e.eventId = eventId)
        (fun e => { e with threadId := th, turnId := tu }) p.1, p.2))
  | purged (rs : RetentionSettings) (n : Int) (hop : op = .purge rs n) (due : EventRow → Bool)
      (h : p' = ((updateWhere (payloadDue (n - rs.journalPayloadMs)) (purgeEventRow n) p.1).filter due, p.2))
variable (op : Op)

theorem Op.journal_step {s : Store} : JournalStep op s.sources (op.exec s).sources := by
  by_cases hw : Tbl.events ∈ op.writes
  · unfold Op.exec
    cases op <;> first | (simp [Op.writes] at hw; done) | rw [Op.apply,reply_snd]
    case appendEvent a =>
      rcases appendEvent_cases a with ⟨err,h⟩ | ⟨e,-,-,h⟩
      · rw [h]
        exact .kept rfl
      · exact .appended h rfl rfl
    case attachEventAssignment => exact .attached _ _ _ rfl rfl
    case recordTransportReceipt a =>
      exact recordTransportReceipt_keeps (fun _ => .kept rfl) (fun _ _ => rfl)
        (fun e s => .appended (appendEventConnection_appended e s) rfl rfl) s
    case purge => exact .purged _ _ rfl _ rfl
  · exact .kept (Op.rows_eq hw s)

structure SourcesStep (p p' : List EventRow × List AuthorityRow) : Prop where
  authority : ∀ q ∈ p.2, ∃ q' ∈ p'.2, q'.key = q.key
  events : ∀ e ∈ p'.1, (∃ e₀ ∈ p.1, (e₀.eventId, e₀.revision) = (e.eventId, e.revision)) ∨
    ∃ q ∈ p'.2, q.key = (e.eventId, e.revision)

theorem SourcesStep.refl {p : List EventRow × List AuthorityRow} : SourcesStep p p :=
  ⟨fun q hq => ⟨q,hq,rfl⟩,fun e he => .inl ⟨e,he,rfl⟩⟩

theorem SourcesStep.of_kept {t : List EventRow} {u u' : List AuthorityRow}
    (h : AuthorityKept u u') : SourcesStep (t, u) (t, u') :=
  ⟨fun _ hq => Kept.exists_key h hq,fun e he => .inl ⟨e,he,rfl⟩⟩

theorem SourcesStep.of_events {t t' : List EventRow} {u : List AuthorityRow}
    (h : ∀ e ∈ t', ∃ e₀ ∈ t, (e₀.eventId, e₀.revision) = (e.eventId, e.revision)) :
    SourcesStep (t, u) (t', u) :=
  ⟨fun q hq => ⟨q,hq,rfl⟩,fun e he => .inl (h e he)⟩

theorem Appended.sources {e : CanonicalEvent} {s s' : Store} {r : Except Error String}
    (h : Appended e s (r, s')) : SourcesStep s.sources s'.sources := by
  cases h with
  | refused err => exact .refl
  | replayed row hk ha => exact .of_kept (ensureEventSourceAuthority_kept s)
  | journaled hk hi =>
    refine ⟨fun q hq => ⟨q,mem_insertIgnore_of_mem hq,rfl⟩,?_⟩
    intro x hx
    rcases mem_concat.mp hx with hx | rfl
    · exact .inl ⟨x,hx,rfl⟩
    · exact .inr (exists_insertIgnore AuthorityRow.key (unprovenAuthority e.toRow) s.authority)

/-- No operation loses a projected key or adds an event without its projection. -/
theorem Op.sources_step (s : Store) : SourcesStep s.sources (op.exec s).sources := by
  cases op.journal_step with
  | kept h => exact ⟨fun _ hq => Kept.exists_key (op.authority_kept s) hq,fun e he => .inl ⟨e,h ▸ he,rfl⟩⟩
  | appended h hs hs' =>
    rw [← hs,← hs']
    exact h.sources
  | attached eventId th tu hop h =>
    rw [h]
    refine .of_events fun x hx => ?_
    obtain ⟨q,hq,rfl⟩ := mem_updateWhere.mp hx
    refine ⟨q,hq,?_⟩
    split <;> rfl
  | purged rs n hop due h =>
    rw [h]
    refine .of_events fun x hx => ?_
    obtain ⟨q,hq,rfl⟩ := mem_updateWhere.mp (List.mem_filter.mp hx).1
    refine ⟨q,hq,?_⟩
    split <;> rfl

end Yeoman.Processing
