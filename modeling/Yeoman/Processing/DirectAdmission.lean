import Yeoman.Library.Runs
import Yeoman.Processing.Authority

/-! Direct admissions: each directly admitted event fences its chat with an arbitration
revision that autonomous work has to be newer than. -/
namespace Yeoman.Processing
open Library Table Txn Runs

inductive DirectState where
  | active
  | finished
  | recovered
deriving DecidableEq

structure DirectAdmissionRow where
  (bindingId channel chatId eventId turnId : String)
  arbitrationRevision : Int
  state : DirectState
  createdMs : Int
  finishedMs : Option Int

abbrev DirectM := Txn (List DirectAdmissionRow) Error

structure DirectCall where
  (channel chatId eventId turnId : String)
  nowMs : Int

namespace DirectCall

def stripped (c : DirectCall) : DirectCall :=
  { c with channel := stripText c.channel, chatId := stripText c.chatId,
           eventId := stripText c.eventId, turnId := stripText c.turnId }

def Complete (c : DirectCall) : Prop :=
  c.channel ≠ "" ∧ c.chatId ≠ "" ∧ c.eventId ≠ "" ∧ c.turnId ≠ ""
deriving Decidable

def bindingId (c : DirectCall) : String :=
  "direct-" ++ firstChars 32
    (canonicalHash (.arr [.str c.channel, .str c.chatId, .str c.eventId, .str c.turnId]))

end DirectCall

namespace DirectAdmissionRow

def inChat (channel chatId : String) (row : DirectAdmissionRow) : Bool :=
  row.channel = channel && row.chatId = chatId

def binds (c : DirectCall) (row : DirectAdmissionRow) : Bool :=
  row.inChat c.channel c.chatId && row.eventId = c.eventId

def event (row : DirectAdmissionRow) : String × String × String :=
  (row.channel, row.chatId, row.eventId)

end DirectAdmissionRow

def directArbitrationRevision (rows : List DirectAdmissionRow) (channel chatId : String) : Int :=
  match maxBy DirectAdmissionRow.arbitrationRevision
      (rows.filter (DirectAdmissionRow.inChat channel chatId)) with
  | none => 0
  | some row => row.arbitrationRevision

def insertDirectAdmission (row : DirectAdmissionRow) : DirectM Unit := do
  let rows ← Txn.read
  require (∀ r ∈ rows, r.bindingId ≠ row.bindingId)
    ⟨.integrityError,"UNIQUE constraint failed: direct_admissions.binding_id"⟩
  require (∀ r ∈ rows, r.event ≠ row.event)
    ⟨.integrityError,"UNIQUE constraint failed: direct_admissions.channel, " ++
      "direct_admissions.chat_id, direct_admissions.event_id"⟩
  require (∀ r ∈ rows, r.turnId ≠ row.turnId)
    ⟨.integrityError,"UNIQUE constraint failed: direct_admissions.turn_id"⟩
  Txn.modify fun rows => rows ++ [row]

def DirectCall.row (c : DirectCall) (revision : Int) : DirectAdmissionRow :=
  { bindingId := c.bindingId, channel := c.channel, chatId := c.chatId, eventId := c.eventId,
    turnId := c.turnId, arbitrationRevision := revision, state := .active, createdMs := c.nowMs,
    finishedMs := none }

def noteDirectAdmission (call : DirectCall) : DirectM Int := do
  let c := call.stripped
  require c.Complete (valueError "channel, chat_id, event_id and turn_id are required")
  atomically do
    let rows ← Txn.read
    match rows.find? (DirectAdmissionRow.binds c) with
    | some row => return row.arbitrationRevision
    | none =>
      let revision := directArbitrationRevision rows c.channel c.chatId + 1
      -- After an IntegrityError the source looks for the event again. It holds the write
      -- lock, so it finds what it found above, nothing, and the error goes on.
      insertDirectAdmission (c.row revision)
      return revision

def finishDirectAdmission (turnId : String) (nowMs : Int) : DirectM Unit :=
  if stripText turnId = "" then pure ()
  else Txn.modify <| updateWhere
    (fun r => r.turnId = stripText turnId && r.state = .active)
    (fun r => { r with state := .finished, finishedMs := some nowMs })

def recoverDirectAdmissions (nowMs : Int) : DirectM (List String) := do
  let rows ← Txn.read
  let bindingIds := (rows.filter fun r => r.state = .active).map DirectAdmissionRow.bindingId
  each bindingIds fun bindingId => Txn.modify <| updateWhere
    (fun r => r.bindingId = bindingId && r.state = .active)
    (fun r => { r with state := .recovered, finishedMs := some nowMs })
  return bindingIds

section
variable {row : DirectAdmissionRow} {rows : List DirectAdmissionRow}

theorem insertDirectAdmission_ok (he : ∀ r ∈ rows, r.event ≠ row.event)
    (h : ∀ r ∈ rows, r.turnId ≠ row.turnId ∧ r.bindingId ≠ row.bindingId) :
    insertDirectAdmission row rows = (.ok (), rows ++ [row]) := by
  rw [insertDirectAdmission,read_bind_apply,require_bind_of_pos fun r hr => (h r hr).2,
    require_bind_of_pos he,require_bind_of_pos fun r hr => (h r hr).1]
  rfl

theorem insertDirectAdmission_error (he : ∀ r ∈ rows, r.event ≠ row.event)
    (h : ¬ ∀ r ∈ rows, r.turnId ≠ row.turnId ∧ r.bindingId ≠ row.bindingId) :
    ∃ e, insertDirectAdmission row rows = (.error e, rows) := by
  rw [insertDirectAdmission,read_bind_apply]
  by_cases hb : ∀ r ∈ rows, r.bindingId ≠ row.bindingId
  · rw [require_bind_of_pos hb,require_bind_of_pos he]
    exact ⟨_,require_bind_of_neg (fun ht => h fun r hr => ⟨ht r hr,hb r hr⟩)⟩
  · exact ⟨_,require_bind_of_neg hb⟩

end

def DirectCall.Fresh (c : DirectCall) (rows : List DirectAdmissionRow) : Prop :=
  ∀ row ∈ rows, row.turnId ≠ c.turnId ∧ row.bindingId ≠ c.bindingId
variable {c : DirectCall} {row : DirectAdmissionRow}

theorem DirectAdmissionRow.binds_iff : row.binds c = true ↔ row.event = (c.channel, c.chatId, c.eventId) := by
  simp [DirectAdmissionRow.binds,DirectAdmissionRow.inChat,DirectAdmissionRow.event,and_assoc]

section
variable {call : DirectCall} {rows : List DirectAdmissionRow}

theorem noteDirectAdmission_incomplete (h : ¬ call.stripped.Complete) :
    noteDirectAdmission call rows =
      (.error (valueError "channel, chat_id, event_id and turn_id are required"), rows) :=
  require_bind_of_neg h

theorem noteDirectAdmission_repeated (h : call.stripped.Complete)
    (hr : rows.find? (DirectAdmissionRow.binds call.stripped) = some row) :
    noteDirectAdmission call rows = (.ok row.arbitrationRevision, rows) := by
  rw [noteDirectAdmission,require_bind_of_pos h]
  refine atomically_of_ok ?_
  rw [read_bind_apply,hr]
  rfl

private theorem event_ne (hr : rows.find? (DirectAdmissionRow.binds call.stripped) = none) {revision : Int} :
    ∀ r ∈ rows, r.event ≠ (call.stripped.row revision).event :=
  fun r hm he => List.find?_eq_none.mp hr r hm (DirectAdmissionRow.binds_iff.mpr he)

theorem noteDirectAdmission_fresh (h : call.stripped.Complete)
    (hr : rows.find? (DirectAdmissionRow.binds call.stripped) = none) (hf : call.stripped.Fresh rows) :
    noteDirectAdmission call rows =
      (.ok (directArbitrationRevision rows call.stripped.channel call.stripped.chatId + 1),
       rows ++ [call.stripped.row
         (directArbitrationRevision rows call.stripped.channel call.stripped.chatId + 1)]) := by
  rw [noteDirectAdmission,require_bind_of_pos h]
  refine atomically_of_ok ?_
  rw [read_bind_apply,hr]
  exact bind_of_ok (insertDirectAdmission_ok (event_ne hr) hf)

theorem noteDirectAdmission_taken (h : call.stripped.Complete)
    (hr : rows.find? (DirectAdmissionRow.binds call.stripped) = none) (hf : ¬ call.stripped.Fresh rows) :
    ∃ e, noteDirectAdmission call rows = (.error e, rows) := by
  obtain ⟨e,he⟩ := insertDirectAdmission_error
    (event_ne hr) hf
  rw [noteDirectAdmission,require_bind_of_pos h]
  refine ⟨e,atomically_of_error (?_ : _ = (_, rows))⟩
  rw [read_bind_apply,hr]
  exact bind_of_error he

end

theorem le_directArbitrationRevision {rows : List DirectAdmissionRow} {channel chatId : String}
    (hr : row ∈ rows) (hc : row.inChat channel chatId = true) :
    row.arbitrationRevision ≤ directArbitrationRevision rows channel chatId := by
  have hm : row ∈ rows.filter (DirectAdmissionRow.inChat channel chatId) := List.mem_filter.mpr ⟨hr,hc⟩
  unfold directArbitrationRevision
  cases h : maxBy DirectAdmissionRow.arbitrationRevision
      (rows.filter (DirectAdmissionRow.inChat channel chatId)) with
  | none =>
    rw [maxBy_eq_none.mp h] at hm
    cases hm
  | some top => exact le_of_maxBy h hm

structure IssuedRevision where
  (channel chatId eventId : String)
  revision : Int

namespace IssuedRevision

def inChat (i : IssuedRevision) (c : DirectCall) : Prop := i.channel = c.channel ∧ i.chatId = c.chatId

def isFor (i : IssuedRevision) (c : DirectCall) : Prop := i.inChat c ∧ i.eventId = c.eventId

def event (i : IssuedRevision) : String × String × String := (i.channel, i.chatId, i.eventId)

theorem isFor_iff {i : IssuedRevision} : i.isFor c ↔ i.event = (c.channel, c.chatId, c.eventId) := by
  simp [isFor,inChat,event,and_assoc]

end IssuedRevision

def DirectAdmissionRow.issue (row : DirectAdmissionRow) : IssuedRevision :=
  ⟨row.channel,row.chatId,row.eventId,row.arbitrationRevision⟩

theorem DirectAdmissionRow.inChat_iff : row.inChat c.channel c.chatId = true ↔ row.issue.inChat c := by
  simp [DirectAdmissionRow.inChat,DirectAdmissionRow.issue,IssuedRevision.inChat]

inductive DirectAction where
  | note (call : DirectCall)
  | finish (turnId : String) (nowMs : Int)
  | recover (nowMs : Int)

structure DirectWorld where
  rows : List DirectAdmissionRow
  issued : List IssuedRevision

namespace DirectWorld

def empty : DirectWorld := ⟨[],[]⟩

def step (w : DirectWorld) : DirectAction → DirectWorld
  | .note call =>
    match noteDirectAdmission call w.rows with
    | (.ok revision, rows) => ⟨rows,w.issued ++ [(call.stripped.row revision).issue]⟩
    | (.error _, rows) => { w with rows := rows }
  | .finish turnId nowMs => { w with rows := (finishDirectAdmission turnId nowMs w.rows).2 }
  | .recover nowMs => { w with rows := (recoverDirectAdmissions nowMs w.rows).2 }

structure Recorded (w : DirectWorld) : Prop where
  mem_iff : ∀ i, i ∈ w.issued ↔ i ∈ w.rows.map DirectAdmissionRow.issue
  unique : Table.Unique IssuedRevision.event (w.rows.map DirectAdmissionRow.issue)

theorem recorded_empty : empty.Recorded := ⟨fun _ => Iff.rfl,Table.Unique.nil⟩

variable {nowMs : Int}

theorem finishDirectAdmission_frame {turnId : String} :
    Frame (List.map DirectAdmissionRow.issue) (finishDirectAdmission turnId nowMs) := by
  refine .ite .pure (.modify fun rows => ?_)
  refine keys_updateWhere (fun r => ?_) rows
  rfl

theorem recoverDirectAdmissions_frame :
    Frame (List.map DirectAdmissionRow.issue) (recoverDirectAdmissions nowMs) := by
  refine .bind .read fun _ => .bind_pure (.each fun _ => .modify fun rows => ?_)
  refine keys_updateWhere (fun r => ?_) rows
  rfl

variable {w : DirectWorld}

theorem Recorded.of_issue_eq (h : w.Recorded) {rows : List DirectAdmissionRow}
    (he : rows.map DirectAdmissionRow.issue = w.rows.map DirectAdmissionRow.issue) :
    ({ w with rows := rows } : DirectWorld).Recorded := by
  constructor
  · intro i
    rw [he]
    exact h.mem_iff i
  · rw [he]
    exact h.unique
variable {c : DirectCall}

theorem Recorded.find_eq_none (h : w.Recorded) :
    w.rows.find? (DirectAdmissionRow.binds c) = none ↔ ∀ i ∈ w.issued, ¬ i.isFor c := by
  rw [List.find?_eq_none]
  constructor
  · intro hn i hi hf
    obtain ⟨row,hr,rfl⟩ := List.mem_map.mp ((h.mem_iff i).mp hi)
    exact hn row hr (DirectAdmissionRow.binds_iff.mpr (IssuedRevision.isFor_iff.mp hf))
  · intro hn row hr hb
    exact hn row.issue ((h.mem_iff _).mpr (List.mem_map_of_mem hr))
      (IssuedRevision.isFor_iff.mpr (DirectAdmissionRow.binds_iff.mp hb))

theorem Recorded.find_eq_some (h : w.Recorded)
    (hr : w.rows.find? (DirectAdmissionRow.binds c) = some row) {i : IssuedRevision} (hi : i ∈ w.issued)
    (hf : i.isFor c) : row.issue = i := by
  have hm : row.issue ∈ w.rows.map DirectAdmissionRow.issue :=
    List.mem_map_of_mem (List.mem_of_find?_eq_some hr)
  have hb : row.issue.event = (c.channel, c.chatId, c.eventId) :=
    DirectAdmissionRow.binds_iff.mp (List.find?_some hr)
  exact h.unique.eq_of_mem hm ((h.mem_iff i).mp hi) (hb.trans (IssuedRevision.isFor_iff.mp hf).symm)

theorem Recorded.note (h : w.Recorded) {call : DirectCall} : (w.step (.note call)).Recorded := by
  rw [DirectWorld.step]
  by_cases hc : call.stripped.Complete
  · cases hr : w.rows.find? (DirectAdmissionRow.binds call.stripped) with
    | some row =>
      rw [noteDirectAdmission_repeated hc hr]
      have hb : row.event = _ := DirectAdmissionRow.binds_iff.mp (List.find?_some hr)
      have he : (call.stripped.row row.arbitrationRevision).issue = row.issue := by
        simp only [DirectAdmissionRow.event,Prod.mk.injEq] at hb
        simp [DirectAdmissionRow.issue,DirectCall.row,hb]
      refine ⟨fun i => ?_,h.unique⟩
      dsimp only
      rw [he,List.mem_append,List.mem_singleton,h.mem_iff i,or_iff_left_iff_imp]
      rintro rfl
      exact List.mem_map_of_mem (List.mem_of_find?_eq_some hr)
    | none =>
      by_cases hf : call.stripped.Fresh w.rows
      · rw [noteDirectAdmission_fresh hc hr hf]
        refine ⟨fun i => ?_,?_⟩
        · rw [List.map_append,List.mem_append,List.mem_append,h.mem_iff i]
          rfl
        · rw [List.map_append]
          refine h.unique.append fun i hi he => ?_
          exact h.find_eq_none.mp hr i ((h.mem_iff i).mpr hi) (IssuedRevision.isFor_iff.mpr he)
      · obtain ⟨e,he⟩ := noteDirectAdmission_taken hc hr hf
        rw [he]
        exact h
  · rw [noteDirectAdmission_incomplete hc]
    exact h

theorem Recorded.step (h : w.Recorded) {a : DirectAction} : (w.step a).Recorded := by
  cases a with
  | note call => exact h.note
  | finish turnId nowMs => exact h.of_issue_eq (finishDirectAdmission_frame w.rows)
  | recover nowMs => exact h.of_issue_eq (recoverDirectAdmissions_frame w.rows)

end DirectWorld

/-- What the fence promises of a call: it returns, a known event gets its revision back
and a new one gets more than its chat was ever given. -/
def DirectCall.Fenced (call : DirectCall) (w : DirectWorld) : Prop :=
  ∃ r, (noteDirectAdmission call w.rows).1 = .ok r ∧
    (∀ i ∈ w.issued, i.isFor call.stripped → r = i.revision) ∧
    ((∀ i ∈ w.issued, ¬ i.isFor call.stripped) →
      ∀ i ∈ w.issued, i.inChat call.stripped → i.revision < r)

theorem direct_admission_fenced_iff (as : List DirectAction) (call : DirectCall) :
    let w := run DirectWorld.step .empty as
    call.Fenced w ↔ call.stripped.Complete ∧
      ((∃ i ∈ w.issued, i.isFor call.stripped) ∨ call.stripped.Fresh w.rows) := by
  intro w
  have hw : w.Recorded := run_invariant (fun _ a h => h.step) DirectWorld.recorded_empty as
  by_cases hc : call.stripped.Complete
  · rw [and_iff_right hc]
    cases hr : w.rows.find? (DirectAdmissionRow.binds call.stripped) with
    | some row =>
      have hk : ∃ i ∈ w.issued, i.isFor call.stripped := by
        by_contra hn
        rw [hw.find_eq_none.mpr fun i hi hf => hn ⟨i,hi,hf⟩] at hr
        cases hr
      refine iff_of_true ⟨row.arbitrationRevision,?_,?_,?_⟩ (.inl hk)
      · rw [noteDirectAdmission_repeated hc hr]
      · intro i hi hf
        exact congrArg IssuedRevision.revision (hw.find_eq_some hr hi hf)
      · intro hn
        obtain ⟨i,hi,hf⟩ := hk
        exact absurd hf (hn i hi)
    | none =>
      have hn := hw.find_eq_none.mp hr
      have hk : ¬ ∃ i ∈ w.issued, i.isFor call.stripped := fun ⟨i,hi,hf⟩ => hn i hi hf
      rw [or_iff_right hk]
      refine ⟨fun hfen => ?_,fun hf => ⟨_,congrArg Prod.fst (noteDirectAdmission_fresh hc hr hf),?_,?_⟩⟩
      · by_contra hf
        obtain ⟨e,he⟩ := noteDirectAdmission_taken hc hr hf
        obtain ⟨r,hok,-⟩ := hfen
        rw [he] at hok
        cases hok
      · exact fun i hi hf' => absurd hf' (hn i hi)
      · intro _ i hi hchat
        obtain ⟨row,hm,rfl⟩ := List.mem_map.mp ((hw.mem_iff i).mp hi)
        have hle : row.arbitrationRevision ≤ _ :=
          le_directArbitrationRevision hm (DirectAdmissionRow.inChat_iff.mpr hchat)
        exact Int.lt_add_one_of_le hle
  · refine iff_of_false ?_ fun h => hc h.1
    rintro ⟨r,hok,-⟩
    rw [noteDirectAdmission_incomplete hc] at hok
    cases hok

def firstDirect : DirectCall := ⟨"whatsapp","group","m1","tu_1",1000⟩

def secondDirect : DirectCall := ⟨"whatsapp","group","m2","tu_1",2000⟩

/-- The second event of one turn is refused: its turn is bound to the first. -/
theorem follow_up_event_not_fenced :
    secondDirect.stripped.Complete ∧
    ¬ secondDirect.Fenced (run DirectWorld.step .empty [.note firstDirect]) := by
  have hc : secondDirect.stripped.Complete := by decide +kernel
  have he : (noteDirectAdmission secondDirect
      (run DirectWorld.step .empty [.note firstDirect]).rows).1 =
      .error ⟨.integrityError,"UNIQUE constraint failed: direct_admissions.turn_id"⟩ := by
    decide +kernel
  refine ⟨hc,?_⟩
  rintro ⟨r,hok,-⟩
  rw [he] at hok
  cases hok

end Yeoman.Processing
