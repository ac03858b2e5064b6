import Yeoman.Library.Table

/-! Statements derived from journaled messages and the person notes that rest on them: what
withdrawing a source does to both. -/
namespace Yeoman.Knowledge
open Library Table

inductive SourceStatus where
  | active
  | revoked
  | unknown
deriving DecidableEq

inductive StatementStatus where
  | assertion
  | confirmed
  | superseded
  | revoked
  | expired
deriving DecidableEq

inductive JobState where
  | queued
  | running
  | done
  | skipped
  | cancelled
  | failed
deriving DecidableEq

inductive NoteStatus where
  | active
  | superseded
  | stale
deriving DecidableEq

inductive NoteSourceKind where
  | statement
  | message
deriving DecidableEq

structure StatementSourceRow where
  (statementId eventId : String)
  revision : Int
  status : SourceStatus
  eventId_ne : eventId ≠ ""

structure StatementRow where
  statementId : String
  status : StatementStatus
  supersessionReason : String
  revokedAtMs : Option Int
  (revision updatedMs : Int)

structure JobRow where
  jobId : String
  sources : List (String × Int)
  state : JobState
  reason : String
  updatedMs : Int

structure NoteRow where
  noteId : String
  status : NoteStatus
  staleReason : Option String

structure NoteSourceRow where
  noteId : String
  kind : NoteSourceKind
  ref : String
  ref_ne : ref ≠ ""

structure KnowledgeStore where
  statementSources : List StatementSourceRow := []
  statements : List StatementRow := []
  jobs : List JobRow := []
  notes : List NoteRow := []
  noteSources : List NoteSourceRow := []

def revokedSource (r : StatementSourceRow) : StatementSourceRow := { r with status := .revoked }

def staleNote (reason : String) (n : NoteRow) : NoteRow :=
  { n with status := .stale, staleReason := some (if reason = "" then "stale_source" else reason) }

namespace KnowledgeStore

def setStatus (statementId : String) (status : StatementStatus) (ts : Int) (supersessionReason : String)
    (k : KnowledgeStore) : KnowledgeStore :=
  { k with
    statements := updateWhere (fun s => s.statementId = statementId) (fun s =>
      { s with
        status := status
        supersessionReason := if status = .superseded then supersessionReason else s.supersessionReason
        revision := s.revision + 1
        revokedAtMs := if status = .revoked then some ts else s.revokedAtMs
        updatedMs := ts }) k.statements }

/-- One affected statement of `_invalidate`: without another active source it is redacted,
otherwise superseded for an unknown reason. -/
def withdraw (eventId : String) (revision ts : Int) (k : KnowledgeStore) (statementId : String) : KnowledgeStore :=
  let remaining := k.statementSources.countP fun r =>
    r.statementId = statementId && r.status = .active && !(r.eventId = eventId && r.revision = revision)
  let k := { k with
    statementSources := updateWhere
      (fun r => r.statementId = statementId && (r.eventId = eventId && r.revision = revision))
      revokedSource k.statementSources }
  if remaining ≠ 0 then k.setStatus statementId .superseded ts "unknown"
  else k.setStatus statementId .revoked ts ""

def affected (k : KnowledgeStore) (eventId : String) (revision : Int) : List String :=
  (k.statementSources.filter fun r =>
    (r.eventId = eventId && r.revision = revision) && r.status ≠ .revoked).map StatementSourceRow.statementId

def refersTo (eventId : String) (revision : Int) (j : JobRow) : Bool :=
  (j.state = .queued || j.state = .running) && (eventId, revision) ∈ j.sources

def cancelJobsForEvent (eventId : String) (revision ts : Int) (k : KnowledgeStore) : KnowledgeStore × List String :=
  ({ k with
      jobs := updateWhere (refersTo eventId revision) (fun j =>
        { j with state := .cancelled, reason := "source_revoked", updatedMs := ts }) k.jobs },
    (k.jobs.filter (refersTo eventId revision)).map JobRow.jobId)

def invalidate (eventId : String) (revision ts : Int) (k : KnowledgeStore) : KnowledgeStore × List String :=
  let statements := k.affected eventId revision
  let (k, cancelled) := (statements.foldl (withdraw eventId revision ts) k).cancelJobsForEvent eventId revision ts
  (k, statements ++ cancelled)

def invalidateEach (ts : Int) : KnowledgeStore → List StatementSourceRow → KnowledgeStore × List String
  | k, [] => (k, [])
  | k, row :: rows =>
    let (k, changed) := k.invalidate row.eventId row.revision ts
    let (k, more) := invalidateEach ts k rows
    (k, changed ++ more)

def invalidateEventIds (eventIds : List String) (ts : Int) (k : KnowledgeStore) : KnowledgeStore × List String :=
  let wanted := eventIds.filter (· ≠ "")
  let (k, changed) := invalidateEach ts k (k.statementSources.filter fun r => r.eventId ∈ wanted)
  (k, changed.eraseDups)

def markSourceStale (reason : String) (k : KnowledgeStore) (source : NoteSourceKind × String) : KnowledgeStore :=
  { k with
    notes := updateWhere (fun n => n.status = .active && k.noteSources.any fun q =>
      q.noteId = n.noteId && q.kind = source.1 && q.ref = source.2) (staleNote reason) k.notes }

def markPersonNotesStale (sources : List (NoteSourceKind × String)) (reason : String) (k : KnowledgeStore) :
    KnowledgeStore :=
  (sources.filter fun source => source.2 ≠ "").eraseDups.foldl (markSourceStale reason) k

/-- Apply a provider revocation to the statements derived from the events, and mark the notes
that rest on the events or on those statements. -/
def invalidateEventSources (eventIds : List String) (reason : String) (ts : Int) (k : KnowledgeStore) : KnowledgeStore :=
  let wanted := eventIds.filter (· ≠ "")
  let (k, changed) := k.invalidateEventIds wanted ts
  k.markPersonNotesStale (wanted.map (.message, ·) ++ changed.map (.statement, ·)) reason

def DerivedFrom (k : KnowledgeStore) (statementId eventId : String) : Prop :=
  ∃ r ∈ k.statementSources, r.statementId = statementId ∧ r.eventId = eventId ∧ r.status ≠ .revoked
deriving Decidable

def RestsOn (k : KnowledgeStore) (noteId eventId : String) : Prop :=
  ∃ q ∈ k.noteSources, q.noteId = noteId ∧
    (q.kind = .message ∧ q.ref = eventId ∨ q.kind = .statement ∧ k.DerivedFrom q.ref eventId)
deriving Decidable

variable {r : StatementSourceRow} {eventIds : List String} (eventId : String) (revision ts : Int)
  (rows : List StatementSourceRow) (ids : List String)

def noteTables (k : KnowledgeStore) : List NoteRow × List NoteSourceRow := (k.notes, k.noteSources)

def Withdrawn (p : StatementSourceRow → Bool) (k k' : KnowledgeStore) : Prop :=
  k'.statementSources = updateWhere p revokedSource k.statementSources ∧ k'.noteTables = k.noteTables

theorem Withdrawn.refl (k : KnowledgeStore) : Withdrawn (fun _ => false) k k :=
  ⟨by simp [updateWhere],rfl⟩

theorem Withdrawn.trans {p q : StatementSourceRow → Bool} {k k' k'' : KnowledgeStore} (h : Withdrawn p k k')
    (h' : Withdrawn q k' k'') : Withdrawn (fun r => p r || q r) k k'' :=
  ⟨by rw [h'.1,h.1,updateWhere_updateWhere (f := revokedSource) fun _ => rfl],h'.2.trans h.2⟩

theorem withdraw_withdrawn (k : KnowledgeStore) (statementId : String) :
    Withdrawn (fun r => r.statementId = statementId && (r.eventId = eventId && r.revision = revision)) k
      (k.withdraw eventId revision ts statementId) := by
  unfold withdraw setStatus
  dsimp only
  split <;> exact ⟨rfl,rfl⟩

theorem foldl_withdraw_withdrawn (k : KnowledgeStore) :
    Withdrawn (fun r => r.statementId ∈ ids && (r.eventId = eventId && r.revision = revision)) k
      (ids.foldl (withdraw eventId revision ts) k) := by
  induction ids generalizing k with
  | nil => simpa using Withdrawn.refl k
  | cons id ids ih =>
    simpa only [List.foldl_cons,List.mem_cons,Bool.decide_or,Bool.and_or_distrib_right] using
      (withdraw_withdrawn eventId revision ts k id).trans (ih _)

theorem invalidate_withdrawn (k : KnowledgeStore) :
    Withdrawn (fun r => r.eventId = eventId && r.revision = revision) k (k.invalidate eventId revision ts).1 := by
  obtain ⟨hs,hn⟩ := foldl_withdraw_withdrawn eventId revision ts (k.affected eventId revision) k
  refine ⟨hs.trans (List.map_congr_left fun r hr => ?_),hn⟩
  by_cases hat : (r.eventId = eventId && r.revision = revision) = true
  · by_cases hrev : r.status = .revoked
    · -- a row that is revoked already is what the update makes of it
      have hself : revokedSource r = r := by
        rw [revokedSource,← hrev]
      rw [hself,ite_self,ite_self]
    · have hmem : r.statementId ∈ k.affected eventId revision :=
        List.mem_map_of_mem (List.mem_filter.mpr ⟨hr,by simp [hat,hrev]⟩)
      simp [hat,hmem]
  · simp [hat]

theorem invalidateEach_withdrawn (k : KnowledgeStore) :
    Withdrawn (fun r => rows.any fun row => r.eventId = row.eventId && r.revision = row.revision) k
      (k.invalidateEach ts rows).1 := by
  induction rows generalizing k with
  | nil => exact .refl k
  | cons row rows ih => exact (invalidate_withdrawn row.eventId row.revision ts k).trans (ih _)

variable {k : KnowledgeStore}

theorem mem_invalidateEach (hr : r ∈ k.statementSources) (hs : r.status ≠ .revoked)
    (hrow : ∃ row ∈ rows, r.eventId = row.eventId ∧ r.revision = row.revision) :
    r.statementId ∈ (k.invalidateEach ts rows).2 := by
  induction rows generalizing k with
  | nil =>
    obtain ⟨row,hm,-⟩ := hrow
    cases hm
  | cons row rows ih =>
    refine List.mem_append.mpr ?_
    by_cases hat : r.eventId = row.eventId ∧ r.revision = row.revision
    · refine .inl (List.mem_append_left _ (List.mem_map_of_mem (List.mem_filter.mpr ⟨hr,?_⟩)))
      simp [hat.1,hat.2,hs]
    · -- the step for another revision leaves the row alone
      refine .inr (ih (k := (k.invalidate row.eventId row.revision ts).1) ?_ ?_)
      · rw [(k.invalidate_withdrawn row.eventId row.revision ts).1]
        exact mem_updateWhere.mpr ⟨r,hr,if_neg (by simpa using hat)⟩
      · obtain ⟨row',hm,he⟩ := hrow
        rcases List.mem_cons.mp hm with rfl | hm
        · exact absurd he hat
        · exact ⟨row',hm,he⟩

theorem invalidateEventIds_revokes {ts : Int}
    (hr : r ∈ (k.invalidateEventIds eventIds ts).1.statementSources) (he : r.eventId ∈ eventIds) :
    r.status = .revoked := by
  rw [show (k.invalidateEventIds eventIds ts).1.statementSources = _ from (k.invalidateEach_withdrawn ts
    (k.statementSources.filter fun r => r.eventId ∈ eventIds.filter (· ≠ ""))).1] at hr
  obtain ⟨old,hold,rfl⟩ := mem_updateWhere.mp hr
  split_ifs with hnone
  · rfl
  · rw [if_neg hnone] at he
    refine absurd (List.any_eq_true.mpr ⟨old,List.mem_filter.mpr ⟨hold,?_⟩,by simp⟩) hnone
    simpa using ⟨he,old.eventId_ne⟩

theorem mem_invalidateEventIds {statementId eventId : String}
    (h : k.DerivedFrom statementId eventId) (he : eventId ∈ eventIds) :
    statementId ∈ (k.invalidateEventIds eventIds ts).2 := by
  obtain ⟨r,hr,rfl,rfl,hs⟩ := h
  refine List.mem_eraseDups.mpr (mem_invalidateEach ts _ hr hs ⟨r,List.mem_filter.mpr ⟨hr,?_⟩,rfl,rfl⟩)
  simpa using ⟨he,r.eventId_ne⟩

end KnowledgeStore

def NoteRow.Marked (reason : String) (n n' : NoteRow) : Prop :=
  n' = n ∨ n.status = .active ∧ n' = staleNote reason n

namespace NoteRow.Marked
variable {reason : String}

theorem refl (n : NoteRow) : NoteRow.Marked reason n n := .inl rfl

theorem trans (a b c : NoteRow) (h : NoteRow.Marked reason a b) (h' : NoteRow.Marked reason b c) :
    NoteRow.Marked reason a c := by
  rcases h with rfl | ⟨ha,rfl⟩
  · exact h'
  · rcases h' with rfl | ⟨hs,-⟩
    · exact .inr ⟨ha,rfl⟩
    · cases hs

theorem eq_of_active {n n' : NoteRow} (h : NoteRow.Marked reason n n') (ha : n'.status = .active) : n' = n := by
  rcases h with rfl | ⟨-,rfl⟩
  · rfl
  · cases ha

end NoteRow.Marked

namespace KnowledgeStore
variable {sources : List (NoteSourceKind × String)} {q : NoteSourceRow} {n : NoteRow} {eventId : String}
  (reason : String)

theorem markSourceStale_marked (k : KnowledgeStore) (source : NoteSourceKind × String) :
    Rewrites (NoteRow.Marked reason) k.notes (k.markSourceStale reason source).notes := by
  refine .updateWhere NoteRow.Marked.refl fun n _ hn => .inr ⟨?_,rfl⟩
  rw [Bool.and_eq_true,decide_eq_true_eq] at hn
  exact hn.1

theorem foldl_markSourceStale_marked (sources : List (NoteSourceKind × String)) (k : KnowledgeStore) :
    Rewrites (NoteRow.Marked reason) k.notes (sources.foldl (markSourceStale reason) k).notes := by
  induction sources generalizing k with
  | nil => exact .refl NoteRow.Marked.refl _
  | cons source sources ih => exact (markSourceStale_marked reason k source).trans NoteRow.Marked.trans (ih _)

theorem foldl_markSourceStale_sources (sources : List (NoteSourceKind × String)) (k : KnowledgeStore) :
    (sources.foldl (markSourceStale reason) k).statementSources = k.statementSources := by
  induction sources generalizing k with
  | nil => rfl
  | cons source sources ih => exact ih _

variable {k : KnowledgeStore}

theorem foldl_markSourceStale_stale {reason : String} (hq : q ∈ k.noteSources) (hs : (q.kind, q.ref) ∈ sources)
    (hn : n ∈ (sources.foldl (markSourceStale reason) k).notes) (hid : n.noteId = q.noteId) : n.status ≠ .active := by
  induction sources generalizing k with
  | nil => cases hs
  | cons source sources ih =>
    rcases List.mem_cons.mp hs with hhead | hs
    · intro ha
      obtain ⟨old,hold,hmark⟩ := (foldl_markSourceStale_marked reason sources _).mem_new hn
      cases hmark.eq_of_active ha
      obtain ⟨first,-,hfirst⟩ := mem_updateWhere.mp hold
      split_ifs at hfirst with hnot
      · rw [← hfirst] at ha
        cases ha
      · subst hfirst
        refine hnot (Bool.and_eq_true_iff.mpr ⟨decide_eq_true ha,List.any_eq_true.mpr ⟨q,hq,?_⟩⟩)
        simp [← hhead,hid]
    · exact ih (k := k.markSourceStale reason source) hq hs hn

theorem markPersonNotesStale_stale {reason : String} (hq : q ∈ k.noteSources) (hs : (q.kind, q.ref) ∈ sources)
    (hn : n ∈ (k.markPersonNotesStale sources reason).notes) (hid : n.noteId = q.noteId) : n.status ≠ .active := by
  refine foldl_markSourceStale_stale hq (List.mem_eraseDups.mpr (List.mem_filter.mpr ⟨hs,?_⟩)) hn hid
  exact decide_eq_true q.ref_ne

/-- The sources of the event are revoked, no active note rests on it, and no row changed in
any other way. -/
structure Invalidated (eventId reason : String) (k k' : KnowledgeStore) : Prop where
  sources : ∀ r ∈ k'.statementSources, r.eventId = eventId → r.status = .revoked
  notes : ∀ n ∈ k'.notes, k.RestsOn n.noteId eventId → n.status ≠ .active
  revoked : Rewrites (fun r r' => r' = r ∨ r' = revokedSource r) k.statementSources k'.statementSources
  marked : Rewrites (NoteRow.Marked reason) k.notes k'.notes

theorem invalidateEventSources_invalidated {eventIds : List String} (he : eventId ∈ eventIds)
    {reason : String} {ts : Int} (k : KnowledgeStore) :
    Invalidated eventId reason k (k.invalidateEventSources eventIds reason ts) := by
  have hwanted : eventId ≠ "" → eventId ∈ eventIds.filter (· ≠ "") := fun hne =>
    List.mem_filter.mpr ⟨he,decide_eq_true hne⟩
  obtain ⟨hrevoked,htables⟩ := k.invalidateEach_withdrawn ts
    (k.statementSources.filter fun r => r.eventId ∈ (eventIds.filter (· ≠ "")).filter (· ≠ ""))
  have hnotes : (k.invalidateEventIds (eventIds.filter (· ≠ "")) ts).1.notes = k.notes :=
    congrArg Prod.fst htables
  have hrests : (k.invalidateEventIds (eventIds.filter (· ≠ "")) ts).1.noteSources = k.noteSources :=
    congrArg Prod.snd htables
  have hsources : (k.invalidateEventSources eventIds reason ts).statementSources =
      (k.invalidateEventIds (eventIds.filter (· ≠ "")) ts).1.statementSources :=
    foldl_markSourceStale_sources reason _ _
  refine ⟨fun r hr hre => ?_,fun n hn hrest => ?_,?_,?_⟩
  · rw [hsources] at hr
    exact invalidateEventIds_revokes hr (hre ▸ hwanted (hre ▸ r.eventId_ne))
  · obtain ⟨q,hq,hid,hkind⟩ := hrest
    rw [← hrests] at hq
    refine markPersonNotesStale_stale hq (List.mem_append.mpr ?_) hn hid.symm
    rcases hkind with ⟨hk,href⟩ | ⟨hk,hder⟩
    · exact .inl (List.mem_map.mpr ⟨eventId,hwanted (href ▸ q.ref_ne),by rw [hk,href]⟩)
    · have hne : eventId ≠ "" := by
        obtain ⟨r,-,-,hre,-⟩ := hder
        exact hre ▸ r.eventId_ne
      exact .inr (List.mem_map.mpr ⟨q.ref,mem_invalidateEventIds ts hder (hwanted hne),by rw [hk]⟩)
  · rw [hsources,show (k.invalidateEventIds (eventIds.filter (· ≠ "")) ts).1.statementSources = _ from hrevoked]
    exact .updateWhere (fun _ => .inl rfl) fun _ _ _ => .inr rfl
  · rw [← hnotes]
    exact foldl_markSourceStale_marked reason _ _

theorem Invalidated.mark {reason : String} {k' : KnowledgeStore} (h : Invalidated eventId reason k k') :
    Invalidated eventId reason k (k'.markPersonNotesStale sources reason) := by
  have hsources : (k'.markPersonNotesStale sources reason).statementSources = k'.statementSources :=
    foldl_markSourceStale_sources reason _ _
  have hmarked : Rewrites (NoteRow.Marked reason) k'.notes (k'.markPersonNotesStale sources reason).notes :=
    foldl_markSourceStale_marked reason _ _
  refine ⟨hsources ▸ h.sources,fun n hn hrest ha => ?_,hsources ▸ h.revoked,h.marked.trans NoteRow.Marked.trans hmarked⟩
  obtain ⟨old,hold,hm⟩ := hmarked.mem_new hn
  cases hm.eq_of_active ha
  exact h.notes n hold hrest ha

def Settled (k : KnowledgeStore) (eventId : String) : Prop :=
  (∀ r ∈ k.statementSources, r.eventId = eventId → r.status = .revoked) ∧
    ∀ n ∈ k.notes, k.RestsOn n.noteId eventId → n.status ≠ .active
deriving Decidable

theorem invalidated_self_iff {reason : String} : Invalidated eventId reason k k ↔ k.Settled eventId :=
  ⟨fun h => ⟨h.sources,h.notes⟩,fun h => ⟨h.1,h.2,.refl (fun _ => .inl rfl) _,.refl NoteRow.Marked.refl _⟩⟩

end KnowledgeStore

end Yeoman.Knowledge
