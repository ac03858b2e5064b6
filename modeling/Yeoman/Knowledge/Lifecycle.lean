import Mathlib.Data.List.Induction
import Mathlib.Logic.Relation
import Mathlib.Order.Basic
import Yeoman.Knowledge.Statements
import Yeoman.Library.Runs

/-! The lifecycle of captured statements: the periods of single-valued attributes, corrections, and the
views that show the one and the other. -/
namespace Yeoman.Knowledge.Lifecycle
open Library Table Runs

inductive SupersessionReason where
  | stateChange
  | correction
  | qualityRejected
  | unknown
deriving DecidableEq

structure PersonAttribute where
  (personId attributeKey valueKey : String)
  positive : Bool

structure PeriodRow where
  (statementId scopeKey visibilityScope : String)
  sources : List (String × Int)
  attributes : List PersonAttribute
  status : StatementStatus := .assertion
  supersededBy : Option String := none
  supersessionReason : Option SupersessionReason := none
  revokedAtMs : Option Int := none
  validFromMs : Int
  validUntilMs : Option Int := none

/-- A candidate as the checks of its sources, its audience and its people left it. The statement id is
the digest under which a repeated capture finds its row. -/
structure Candidate where
  statementId : String
  scopeKey : String := ""
  visibilityScope : String := ""
  sources : List (String × Int) := []
  attributes : List PersonAttribute := []
  validFromMs : Int
  validUntilMs : Option Int := none
  sourcesRefused : Option String := none
  peopleRefused : Option String := none

inductive View where
  | current
  | historic (atMs : Int)
  | correctionAudit
  | diagnosis
deriving DecidableEq

namespace PeriodRow

def shown (r : PeriodRow) : View → Bool
  | .current => (r.status = .assertion ∨ r.status = .confirmed ∨ r.status = .expired) ∧ r.revokedAtMs = none ∧
      r.supersededBy = none
  | .historic atMs => r.status = .superseded ∧ r.supersededBy = none ∧
      r.supersessionReason = some .stateChange ∧ r.revokedAtMs = none ∧ 0 < r.validFromMs ∧ r.validFromMs < atMs ∧
      r.validUntilMs.all (atMs < ·)
  | .correctionAudit => r.status = .superseded ∧ r.supersededBy = none ∧
      r.supersessionReason = some .correction ∧ r.revokedAtMs = none
  | .diagnosis => r.status ≠ .revoked ∧ r.revokedAtMs = none

/-- `row_is_visible`: the same contract for a row that is already loaded, by its status first. -/
def rowIsVisible (r : PeriodRow) (view : View) : Bool :=
  if r.revokedAtMs.isSome ∨ r.status = .revoked then false
  else if view = .diagnosis then true
  else if r.status = .assertion ∨ r.status = .confirmed ∨ r.status = .expired then r.supersededBy.isNone
  else if r.status ≠ .superseded ∨ r.supersededBy.isSome then false
  else
    let reason := r.supersessionReason.getD .unknown
    match view with
    | .current | .diagnosis => false
    | .correctionAudit => reason = .correction
    | .historic atMs =>
      if reason ≠ .stateChange ∨ r.validFromMs ≤ 0 ∨ atMs ≤ r.validFromMs then false else r.validUntilMs.all (atMs < ·)

/-- Both spellings agree but on a current value, which the row check also takes for a part of the past. -/
theorem rowIsVisible_eq_shown_iff (r : PeriodRow) (view : View) : r.rowIsVisible view = r.shown view ↔
    view = .current ∨ view = .diagnosis ∨ r.status = .superseded ∨ r.status = .revoked ∨ r.revokedAtMs ≠ none ∨
      r.supersededBy ≠ none := by
  obtain ⟨_,_,_,_,_,status,supersededBy,reason,revokedAtMs,validFromMs,validUntilMs⟩ := r
  unfold rowIsVisible shown
  cases revokedAtMs with
  | some ts => cases view <;> simp
  | none =>
    cases supersededBy with
    | some id => cases status <;> cases view <;> simp
    | none =>
      cases status with
      | assertion | confirmed | revoked | expired => cases view <;> simp
      | superseded =>
        cases view with
        | current | diagnosis => simp
        | correctionAudit => cases reason <;> simp
        | historic atMs => cases reason <;> grind

theorem rowIsVisible_residence : ∃ r : PeriodRow, r.rowIsVisible (.historic 2) = true ∧ r.shown (.historic 2) = false :=
  ⟨{ statementId := "s", scopeKey := "", visibilityScope := "", sources := [], attributes := [], validFromMs := 1 },by decide⟩

def setStatus (status : StatementStatus) (ts : Int) (supersededBy : Option String) (reason : SupersessionReason)
    (r : PeriodRow) : PeriodRow :=
  { r with
    status
    supersededBy := supersededBy.or r.supersededBy
    supersessionReason := if status = .superseded then some reason else r.supersessionReason
    revokedAtMs := if status = .revoked then some ts else r.revokedAtMs }

def closePeriod (endMs : Int) (r : PeriodRow) : PeriodRow :=
  { r with validUntilMs := if r.validUntilMs.all (endMs < ·) then some endMs else r.validUntilMs }

def endState (endMs ts : Int) (r : PeriodRow) : PeriodRow :=
  (r.setStatus .superseded ts none .stateChange).closePeriod endMs

/-- Whether `r` is a current value of an attribute that the new statement has another value of. -/
def competes (new r : PeriodRow) : Bool :=
  r.statementId ≠ new.statementId ∧ r.scopeKey = new.scopeKey ∧ r.visibilityScope = new.visibilityScope ∧
    r.shown .current ∧ new.attributes.any fun n =>
      let same (a : PersonAttribute) : Bool := a.positive ∧ a.personId = n.personId ∧ a.attributeKey = n.attributeKey
      n.positive && n.attributeKey == "residence" && r.attributes.any same &&
        !r.attributes.any fun x => same x && x.valueKey == n.valueKey

end PeriodRow

def Candidate.row (c : Candidate) : PeriodRow :=
  { statementId := c.statementId, scopeKey := c.scopeKey, visibilityScope := c.visibilityScope, sources := c.sources
    attributes := c.attributes, validFromMs := c.validFromMs, validUntilMs := c.validUntilMs }

/-- Older current values end where the new one starts; behind a newer one the new value ends itself. -/
def supersedeSingleValued (new : PeriodRow) (ts : Int) (rows : List PeriodRow) : List PeriodRow :=
  let others := rows.filter new.competes
  let older := (others.filter (·.validFromMs < new.validFromMs)).map (·.statementId)
  let newer := (others.map (·.validFromMs)).filter (new.validFromMs < ·)
  let rows := updateWhere (older.contains ·.statementId) (·.endState new.validFromMs ts) rows
  match newer.min? with
  | none => rows
  | some start => updateWhere (·.statementId == new.statementId) (·.endState start ts) rows

theorem supersedeSingleValued_append {new : PeriodRow} {ts : Int} {stored rows : List PeriodRow}
    (h : ∀ r ∈ stored, new.competes r = false ∧ ∀ q ∈ rows, r.statementId ≠ q.statementId) (hnew : new ∈ rows) :
    supersedeSingleValued new ts (stored ++ rows) = stored ++ supersedeSingleValued new ts rows := by
  have hothers : (stored ++ rows).filter new.competes = rows.filter new.competes := by
    rw [List.filter_append,List.filter_eq_nil_iff.mpr fun r hr => by simp [(h r hr).1],List.nil_append]
  have hkept (p : String → Bool) (hp : ∀ id, p id = true → ∃ q ∈ rows, q.statementId = id)
      (f : PeriodRow → PeriodRow) (rows' : List PeriodRow) :
      updateWhere (fun r => p r.statementId) f (stored ++ rows') = stored ++ updateWhere (fun r => p r.statementId) f rows' := by
    rw [updateWhere,List.map_append]
    congr 1
    refine (List.map_congr_left (g := id) fun r hr => if_neg fun hm => ?_).trans (List.map_id _)
    obtain ⟨q,hq,hid⟩ := hp _ hm
    exact (h r hr).2 q hq hid.symm
  have holder : ∀ id, ((((rows.filter new.competes).filter (·.validFromMs < new.validFromMs)).map
      (·.statementId)).contains id) = true → ∃ q ∈ rows, q.statementId = id := by
    intro id hm
    obtain ⟨q,hq,hid⟩ := List.mem_map.mp (List.contains_iff_mem.mp hm)
    exact ⟨q,List.mem_of_mem_filter (List.mem_of_mem_filter hq),hid⟩
  unfold supersedeSingleValued
  dsimp only
  rw [hothers,hkept _ holder]
  split
  · rfl
  · exact hkept (· == new.statementId) (fun id hm => ⟨new,hnew,(beq_iff_eq.mp hm).symm⟩) _ _

def capture (ts : Int) (rows : List PeriodRow) (c : Candidate) : Except String (List PeriodRow) :=
  match c.sourcesRefused with
  | some error => .error error
  | none =>
    if (lookup PeriodRow.statementId c.statementId rows).isSome then .ok rows
    else match c.peopleRefused with
      | some error => .error error
      | none => .ok (supersedeSingleValued c.row ts (rows ++ [c.row]))

/-- `_would_cycle`: the chain of successors behind `current`, which is no longer than the fuel. -/
def wouldCycle (rows : List PeriodRow) (statementId : String) : Nat → Option String → Bool
  | 0, _ => false
  | _ + 1, none => false
  | fuel + 1, some current => current == statementId ||
      wouldCycle rows statementId fuel ((lookup PeriodRow.statementId current rows).bind (·.supersededBy))

def correctStatement (statementId : String) (replacement : Candidate) (expectedSource : String × Int) (ts : Int)
    (rows : List PeriodRow) : Except String (List PeriodRow) :=
  match lookup PeriodRow.statementId statementId rows with
  | none => .error "unresolved"
  | some original =>
    if !original.sources.contains expectedSource then .error "invalid_input"
    else if original.status = .revoked then .error "source_revoked"
    else match capture ts rows replacement with
      | .error error => .error error
      | .ok rows =>
        if replacement.statementId = statementId then .error "identity_conflict"
        else if wouldCycle rows statementId (rows.length + 1) (some replacement.statementId) then
          .error "invalid_input"
        else
          .ok (updateWhere (·.statementId == statementId) (fun r =>
            (r.setStatus .superseded ts (some replacement.statementId) .correction).closePeriod ts) rows)

/-- What a correction should leave behind. -/
structure Corrected (rows : List PeriodRow) (statementId replacementId : String) (ts : Int) : Prop where
  replaced : ∀ r ∈ rows, r.statementId = replacementId → r.revokedAtMs = none → r.validUntilMs.all (ts < ·) →
    r.shown .current
  withdrawn : ∀ r ∈ rows, r.statementId = statementId → ¬ r.shown .current
  audited : ∃ r ∈ rows, r.statementId = statementId ∧ r.shown .correctionAudit
  acyclic : ∀ a, ¬ Relation.TransGen (fun a b => ∃ r ∈ rows, r.statementId = a ∧ r.supersededBy = some b) a a

/-- The correction names a statement that is there with this source and not revoked, and another
statement that is there or can be captured and does not lead back. -/
def Accepts (rows : List PeriodRow) (statementId : String) (replacement : Candidate) (expectedSource : String × Int)
    (ts : Int) : Prop :=
  (∃ r, lookup PeriodRow.statementId statementId rows = some r ∧ r.sources.contains expectedSource ∧
    r.status ≠ .revoked) ∧ replacement.statementId ≠ statementId ∧
  ∃ captured, capture ts rows replacement = .ok captured ∧
    wouldCycle captured statementId (captured.length + 1) (some replacement.statementId) = false
variable {rows : List PeriodRow} {statementId : String} {replacement : Candidate} {expectedSource : String × Int} {ts : Int}

theorem correctStatement_ok {rows' : List PeriodRow}
    (h : correctStatement statementId replacement expectedSource ts rows = .ok rows') :
    Accepts rows statementId replacement expectedSource ts ∧
      ∀ r ∈ rows', r.statementId = statementId → r.supersededBy = some replacement.statementId := by
  rw [correctStatement] at h
  split at h
  · cases h
  next original hl =>
    split at h
    · cases h
    next hs =>
      split at h
      · cases h
      next hr =>
        split at h
        · cases h
        next captured hc =>
          split at h
          · cases h
          next hne =>
            split at h
            · cases h
            next hcycle =>
              cases h
              refine ⟨⟨⟨original,hl,by simpa using hs,hr⟩,hne,captured,hc,by simpa using hcycle⟩,fun r hm hid => ?_⟩
              obtain ⟨q,-,rfl⟩ := mem_updateWhere.mp hm
              by_cases hq : q.statementId == statementId
              · rw [if_pos hq]
                rfl
              · rw [if_neg hq] at hid
                exact absurd (beq_iff_eq.mpr hid) hq

theorem correctStatement_of_accepts (h : Accepts rows statementId replacement expectedSource ts) :
    ∃ rows', correctStatement statementId replacement expectedSource ts rows = .ok rows' := by
  obtain ⟨⟨r,hl,hs,hr⟩,hne,captured,hc,hcycle⟩ := h
  simp only [correctStatement,hl,hs,hr,hc,hne,hcycle,Bool.not_true,Bool.false_eq_true,if_false]
  exact ⟨_,rfl⟩

/-- A correction always names its successor, and the audit shows statements without one. So what a
correction should leave behind is left exactly where the correction is refused. -/
theorem correction_audited_iff (rows : List PeriodRow) (statementId : String) (replacement : Candidate)
    (expectedSource : String × Int) (ts : Int) :
    (∀ rows', correctStatement statementId replacement expectedSource ts rows = .ok rows' →
        Corrected rows' statementId replacement.statementId ts) ↔
      ¬ Accepts rows statementId replacement expectedSource ts := by
  constructor
  · intro h ha
    obtain ⟨rows',hok⟩ := correctStatement_of_accepts ha
    obtain ⟨r,hr,hid,hshown⟩ := (h rows' hok).audited
    simp [PeriodRow.shown,(correctStatement_ok hok).2 r hr hid] at hshown
  · exact fun hn rows' hok => absurd (correctStatement_ok hok).1 hn

/-- Of two statements one is corrected to the other, and the audit shows neither. -/
theorem correction_not_audited :
    let residence (id value : String) (start : Int) : Candidate :=
      { statementId := id, sources := [(id, 1)], validFromMs := start
        attributes := [⟨"tom","residence",value,true⟩] }
    ∃ rows, correctStatement "s" (residence "t" "bonn" 5) ("s", 1) 9 [(residence "s" "berlin" 3).row] = .ok rows ∧
      ∀ r ∈ rows, ¬ r.shown .correctionAudit :=
  ⟨_,rfl,by decide +kernel⟩

def Candidate.residences (c : Candidate) : List PersonAttribute :=
  c.attributes.filter fun a => a.positive ∧ a.attributeKey = "residence"

/-- Positive captures of one person's residence for one chat and visibility, with values, sources and
source times of their own, whatever else they say. -/
structure Residences (cs : List Candidate) : Prop where
  facet : ∃ personId scopeKey visibilityScope, ∀ c ∈ cs, c.scopeKey = scopeKey ∧
    c.visibilityScope = visibilityScope ∧ ∃ value, c.residences = [⟨personId,"residence",value,true⟩]
  accepted : ∀ c ∈ cs, c.sourcesRefused = none ∧ c.peopleRefused = none ∧ 0 < c.validFromMs
  ids : (cs.map (·.statementId)).Nodup
  values : (cs.map (·.residences)).Nodup
  times : (cs.map (·.validFromMs)).Nodup

def Apart (stored : List PeriodRow) (cs : List Candidate) : Prop :=
  ∀ r ∈ stored, ∀ c ∈ cs, r.statementId ≠ c.statementId ∧ c.row.competes r = false
deriving Decidable

def step (rows : List PeriodRow) (a : Int × Candidate) : List PeriodRow := (capture a.1 rows a.2).toOption.getD rows

/-- The value carries no end of its own, and comes in the order of the source times of those behind the
stored rows; only the first two may come the other way. -/
def InOrder (stored : List PeriodRow) (rows : List PeriodRow) (a : Int × Candidate) : Prop :=
  a.2.validUntilMs = none ∧ ((∀ r ∈ rows.drop stored.length, r.validFromMs < a.2.validFromMs) ∨
    rows.length ≤ stored.length + 1)

def next (cs : List Candidate) (c : Candidate) : Option Int :=
  ((cs.map (·.validFromMs)).filter (c.validFromMs < ·)).min?

def Candidate.ended (c : Candidate) (start : Int) : PeriodRow :=
  { c.row with status := .superseded, supersessionReason := some .stateChange, validUntilMs := some start }

def settled (cs : List Candidate) (c : Candidate) : PeriodRow := (next cs c).elim c.row c.ended

section
variable {cs : List Candidate} {c d : Candidate} {stored : List PeriodRow}

theorem next_eq_none_iff : next cs c = none ↔ ∀ d ∈ cs, d.validFromMs ≤ c.validFromMs := by
  simp [next,List.min?_eq_none_iff,List.filter_eq_nil_iff]
variable {start t : Int}

theorem next_eq_some_iff : next cs c = some start ↔ (∃ d ∈ cs, d.validFromMs = start) ∧
    c.validFromMs < start ∧ ∀ d ∈ cs, c.validFromMs < d.validFromMs → start ≤ d.validFromMs := by
  simp [next,List.min?_eq_some_iff,and_assoc]

theorem next_concat_of_none (h : next cs d = none) (hlt : d.validFromMs < c.validFromMs) :
    next (cs ++ [c]) d = some c.validFromMs := by
  refine next_eq_some_iff.mpr ⟨⟨c,by simp,rfl⟩,hlt,fun e he hde => ?_⟩
  rcases List.mem_append.mp he with he | he
  · exact absurd hde (next_eq_none_iff.mp h e he).not_gt
  · rw [List.mem_singleton.mp he]

theorem next_concat_of_some (h : next cs d = some start) (hle : start ≤ c.validFromMs) :
    next (cs ++ [c]) d = some start := by
  obtain ⟨⟨e,he,hes⟩,hlt,hmin⟩ := next_eq_some_iff.mp h
  refine next_eq_some_iff.mpr ⟨⟨e,List.mem_append_left _ he,hes⟩,hlt,fun x hx hdx => ?_⟩
  rcases mem_concat.mp hx with hx | hx
  · exact hmin x hx hdx
  · rwa [hx]

@[simp] theorem row_fields : c.row.statementId = c.statementId ∧ c.row.validFromMs = c.validFromMs := ⟨rfl,rfl⟩

theorem settled_fields : (settled cs c).statementId = c.statementId ∧ (settled cs c).validFromMs = c.validFromMs ∧
    (settled cs c).scopeKey = c.scopeKey ∧ (settled cs c).visibilityScope = c.visibilityScope ∧
    (settled cs c).attributes = c.attributes := by
  rw [settled]
  cases next cs c with
  | none | some => exact ⟨rfl,rfl,rfl,rfl,rfl⟩

theorem settled_current_iff : (settled cs c).shown .current ↔ next cs c = none := by
  rw [settled]
  cases next cs c with
  | none => simp [PeriodRow.shown,Candidate.row]
  | some start => simp [PeriodRow.shown,Candidate.ended]

theorem settled_historic_iff (hpos : 0 < c.validFromMs) : (settled cs c).shown (.historic t) ↔
    c.validFromMs < t ∧ ∃ start, next cs c = some start ∧ t < start := by
  rw [settled]
  cases next cs c with
  | none => simp [PeriodRow.shown,Candidate.row]
  | some start => simp [PeriodRow.shown,Candidate.row,Candidate.ended,hpos]

/-- Between two source times the earlier one's value is shown. -/
theorem settled_historic_iff_latest (hpos : 0 < c.validFromMs) (hne : c.validFromMs ≠ t)
    (hlater : ∃ d ∈ cs, t < d.validFromMs) : (settled cs c).shown (.historic t) ↔
      c.validFromMs ≤ t ∧ ∀ d ∈ cs, d.validFromMs ≤ t → d.validFromMs ≤ c.validFromMs := by
  rw [settled_historic_iff hpos]
  constructor
  · rintro ⟨hlt,start,hn,hstart⟩
    refine ⟨hlt.le,fun d hd hdt => not_lt.mp fun hcd => ?_⟩
    exact absurd (((next_eq_some_iff.mp hn).2.2 d hd hcd).trans hdt) hstart.not_ge
  · rintro ⟨hle,hmax⟩
    have hlt := lt_of_le_of_ne hle hne
    refine ⟨hlt,?_⟩
    cases hn : next cs c with
    | none =>
      obtain ⟨d,hd,hdt⟩ := hlater
      exact absurd (next_eq_none_iff.mp hn d hd) (hlt.trans hdt).not_ge
    | some start =>
      obtain ⟨⟨d,hd,rfl⟩,hcd,-⟩ := next_eq_some_iff.mp hn
      exact ⟨_,rfl,not_le.mp fun hdt => hcd.not_ge (hmax d hd hdt)⟩

theorem endState_row (hu : c.validUntilMs = none) : c.row.endState start ts = c.ended start := by
  simp [PeriodRow.endState,PeriodRow.setStatus,PeriodRow.closePeriod,Candidate.row,Candidate.ended,hu]

namespace Residences

theorem of_append (h : Residences (cs ++ [c])) : Residences cs where
  facet := by
    obtain ⟨p,k,v,hall⟩ := h.facet
    exact ⟨p,k,v,fun d hd => hall d (List.mem_append_left _ hd)⟩
  accepted d hd := h.accepted d (List.mem_append_left _ hd)
  ids := h.ids.sublist ((List.sublist_append_left cs [c]).map _)
  values := h.values.sublist ((List.sublist_append_left cs [c]).map _)
  times := h.times.sublist ((List.sublist_append_left cs [c]).map _)
variable (h : Residences (cs ++ [c]))
include h

theorem id_ne (hd : d ∈ cs) : d.statementId ≠ c.statementId := by
  have hids := h.ids
  rw [List.map_append,List.nodup_append] at hids
  exact hids.2.2 _ (List.mem_map_of_mem hd) _ (List.mem_singleton_self _)

theorem competes_iff (hd : d ∈ cs) : c.row.competes (settled cs d) ↔ next cs d = none := by
  obtain ⟨_,_,_,hall⟩ := h.facet
  obtain ⟨hsc,hvc,v,hac⟩ := hall c List.mem_concat_self
  obtain ⟨hsd,hvd,w,had⟩ := hall d (List.mem_append_left _ hd)
  obtain ⟨hid,-,hsco,hvis,hattr⟩ := @settled_fields cs d
  have hval : w ≠ v := by
    have hvals := h.values
    rw [List.map_append,List.nodup_append] at hvals
    rintro rfl
    exact hvals.2.2 _ (List.mem_map_of_mem hd) _ (List.mem_singleton_self _) (had.trans hac.symm)
  -- of what the candidates say, only the one residence each counts
  have hmem {e : Candidate} {a : PersonAttribute} :
      a ∈ e.residences ↔ a ∈ e.attributes ∧ a.positive = true ∧ a.attributeKey = "residence" := by
    simp [Candidate.residences]
  have hlives := hmem.mp (had ▸ List.mem_singleton_self _)
  have hother : ∃ n ∈ c.attributes, ((n.positive = true ∧ n.attributeKey = "residence") ∧
      ∃ x ∈ d.attributes, x.positive = true ∧ x.personId = n.personId ∧ x.attributeKey = n.attributeKey) ∧
      ∀ x ∈ d.attributes, x.positive = true → x.personId = n.personId → x.attributeKey = n.attributeKey →
        x.valueKey ≠ n.valueKey := by
    obtain ⟨hn,hdwells⟩ := hmem.mp (hac ▸ List.mem_singleton_self _)
    refine ⟨_,hn,⟨hdwells,_,hlives.1,rfl,rfl,rfl⟩,fun x hx hpos _ hkey => ?_⟩
    have hxd : x ∈ d.residences := hmem.mpr ⟨hx,hpos,hkey⟩
    rw [had,List.mem_singleton] at hxd
    rwa [hxd]
  rw [← settled_current_iff]
  simpa [PeriodRow.competes,hid,hsco,hvis,hattr,hsc,hvc,hsd,hvd,h.id_ne hd,Candidate.row] using fun _ => hother

theorem others_eq : (cs.map (settled cs) ++ [c.row]).filter c.row.competes =
    (cs.filter (next cs · = none)).map (settled cs) := by
  have hself : c.row.competes c.row = false := by simp [PeriodRow.competes]
  rw [List.filter_append,List.filter_cons,hself,List.filter_map]
  simp only [Bool.false_eq_true,if_false,List.filter_nil,List.append_nil]
  congr 1
  refine List.filter_congr fun d hd => ?_
  rw [Bool.eq_iff_iff,decide_eq_true_iff]
  exact h.competes_iff hd

/-- A value that is newer than all others ends the latest of them. -/
theorem supersede_newer (hu : ∀ d ∈ cs, d.validUntilMs = none) (hnew : ∀ d ∈ cs, d.validFromMs < c.validFromMs) :
    supersedeSingleValued c.row ts (cs.map (settled cs) ++ [c.row]) = (cs ++ [c]).map (settled (cs ++ [c])) := by
  have hnewer : (((cs.filter (next cs · = none)).map (settled cs)).map (·.validFromMs)).filter
      (c.row.validFromMs < ·) = [] := by
    simp only [List.map_map,List.filter_eq_nil_iff,List.mem_map,List.mem_filter,Function.comp]
    rintro _ ⟨d,⟨hd,-⟩,rfl⟩
    rw [settled_fields.2.1]
    exact fun hlt => (hnew d hd).not_gt (of_decide_eq_true hlt)
  simp only [supersedeSingleValued,h.others_eq,hnewer,List.min?_nil]
  generalize hold : (((cs.filter (next cs · = none)).map (settled cs)).filter
    (·.validFromMs < c.row.validFromMs)).map (·.statementId) = older
  have holder (id : String) : id ∈ older ↔ ∃ d ∈ cs, next cs d = none ∧ d.statementId = id := by
    simp only [← hold,List.mem_map,List.mem_filter,decide_eq_true_iff]
    constructor
    · rintro ⟨_,⟨⟨d,⟨hd,hn⟩,rfl⟩,-⟩,rfl⟩
      exact ⟨d,hd,hn,settled_fields.1.symm⟩
    · rintro ⟨d,hd,hn,rfl⟩
      exact ⟨_,⟨⟨d,⟨hd,hn⟩,rfl⟩,by simpa [settled_fields] using hnew d hd⟩,settled_fields.1⟩
  have hlast : next (cs ++ [c]) c = none := by
    refine next_eq_none_iff.mpr fun d hd => ?_
    rcases List.mem_append.mp hd with hd | hd
    · exact (hnew d hd).le
    · rw [List.mem_singleton.mp hd]
  simp only [updateWhere,List.map_append,List.map_map,List.contains_iff_mem,holder]
  congr 1
  · refine List.map_congr_left fun d hd => ?_
    have hids := h.ids
    rw [List.map_append,List.nodup_append] at hids
    simp only [Function.comp,settled_fields.1]
    cases hn : next cs d with
    | none =>
      rw [if_pos ⟨d,hd,hn,rfl⟩,settled,settled,hn,next_concat_of_none hn (hnew d hd)]
      exact endState_row (hu d hd)
    | some start =>
      obtain ⟨e,he,hes⟩ := (next_eq_some_iff.mp hn).1
      rw [if_neg,settled,settled,hn,next_concat_of_some hn (hes ▸ (hnew e he).le)]
      rintro ⟨e,he,hne,hid⟩
      rw [List.inj_on_of_nodup_map hids.1 he hd hid,hn] at hne
      cases hne
  · rw [List.map_singleton,List.map_singleton,if_neg,settled,hlast]
    · rfl
    · rintro ⟨d,hd,-,hid⟩
      exact h.id_ne hd hid

omit h in
/-- Of two values the older one may come second: it ends where the newer one starts. -/
theorem supersede_older (h : Residences ([d] ++ [c])) (hu : c.validUntilMs = none)
    (hlt : c.validFromMs < d.validFromMs) :
    supersedeSingleValued c.row ts ([d].map (settled [d]) ++ [c.row]) = [d, c].map (settled [d, c]) := by
  have hne := h.id_ne (List.mem_singleton_self d)
  have hnext : next [d] d = none := next_eq_none_iff.mpr (by simp)
  have hlast : next [d, c] d = none := next_eq_none_iff.mpr (by simpa using hlt.le)
  have hold : next [d, c] c = some d.validFromMs := next_eq_some_iff.mpr (by simp [hlt])
  rw [supersedeSingleValued,h.others_eq]
  simp [hnext,hlast,hold,settled,hlt,hlt.not_gt,updateWhere,hne,endState_row hu]

theorem step_settled (ha : Apart stored (cs ++ [c])) (hu : ∀ d ∈ cs, d.validUntilMs = none)
    (ho : InOrder stored (stored ++ cs.map (settled cs)) (ts, c)) :
    step (stored ++ cs.map (settled cs)) (ts, c) = stored ++ (cs ++ [c]).map (settled (cs ++ [c])) := by
  obtain ⟨hsources,hpeople,-⟩ := h.accepted c List.mem_concat_self
  have hl : lookup PeriodRow.statementId c.statementId (stored ++ cs.map (settled cs)) = none := by
    refine lookup_none.mpr (List.forall_mem_append.mpr ⟨fun r hr => (ha r hr c List.mem_concat_self).1,
      List.forall_mem_map.mpr fun d hd => ?_⟩)
    rw [settled_fields.1]
    exact h.id_ne hd
  have hstored : supersedeSingleValued c.row ts (stored ++ (cs.map (settled cs) ++ [c.row])) =
      stored ++ supersedeSingleValued c.row ts (cs.map (settled cs) ++ [c.row]) := by
    refine supersedeSingleValued_append (fun r hr => ⟨(ha r hr c List.mem_concat_self).2,?_⟩) List.mem_concat_self
    refine forall_mem_concat (List.forall_mem_map.mpr fun d hd => ?_) (ha r hr c List.mem_concat_self).1
    rw [settled_fields.1]
    exact (ha r hr d (List.mem_append_left _ hd)).1
  suffices hs : supersedeSingleValued c.row ts (cs.map (settled cs) ++ [c.row]) =
      (cs ++ [c]).map (settled (cs ++ [c])) by
    simp [step,capture,hsources,hpeople,hl,hstored,hs,Except.toOption]
  have hlater := ho.2
  rw [List.drop_left,List.length_append,List.length_map,Nat.add_le_add_iff_left] at hlater
  rcases hlater with hnew | hlen
  · refine h.supersede_newer hu fun d hd => ?_
    have := hnew _ (List.mem_map_of_mem hd)
    rwa [settled_fields.2.1] at this
  · rcases cs with _ | ⟨d,_ | ⟨_,_⟩⟩
    · exact h.supersede_newer hu (by simp)
    · have hne : d.validFromMs ≠ c.validFromMs := by simpa using h.times
      rcases hne.lt_or_gt with hlt | hlt
      · exact h.supersede_newer hu (by simpa using hlt)
      · exact supersede_older h ho.1 hlt
    · simp at hlen

end Residences

theorem run_settled {as : List (Int × Candidate)} (h : Residences (as.map Prod.snd)) (ha : Apart stored (as.map Prod.snd))
    (ho : Along step (InOrder stored) stored as) : (∀ c ∈ as.map Prod.snd, c.validUntilMs = none) ∧
      run step stored as = stored ++ (as.map Prod.snd).map (settled (as.map Prod.snd)) := by
  induction as using List.reverseRecOn with
  | nil => simp
  | append_singleton as a ih =>
    rw [List.map_append,List.map_singleton] at h ha ⊢
    obtain ⟨hos,hoa,-⟩ := along_append.mp ho
    obtain ⟨hu,hrun⟩ := ih h.of_append (fun r hr c hc => ha r hr c (List.mem_append_left _ hc)) hos
    rw [hrun] at hoa
    refine ⟨fun c hc => ?_,?_⟩
    · rcases mem_concat.mp hc with hc | rfl
      · exact hu c hc
      · exact hoa.1
    · rw [run_append,hrun]
      exact h.step_settled ha hu hoa

end

/-- Captured in the order of their source times, the values of an attribute are shown one after the
other, and stored statements with which they do not compete stay as they are. The bound below is strict,
so at a source time itself none is shown. -/
theorem residence_shown_between_times (stored : List PeriodRow) (as : List (Int × Candidate))
    (h : Residences (as.map Prod.snd)) (ha : Apart stored (as.map Prod.snd))
    (ho : Along step (InOrder stored) stored as) :
    ∃ rows, run step stored as = stored ++ rows ∧
    rows.map (fun r => (r.statementId, r.validFromMs)) =
      (as.map Prod.snd).map (fun c => (c.statementId, c.validFromMs)) ∧
    (∀ r ∈ rows, r.shown .current ↔ ∀ q ∈ rows, q.validFromMs ≤ r.validFromMs) ∧
    ∀ t, (∃ q ∈ rows, q.validFromMs ≤ t) → (∃ q ∈ rows, t < q.validFromMs) →
      ((∀ r ∈ rows, r.shown (.historic t) ↔
          r.validFromMs ≤ t ∧ ∀ q ∈ rows, q.validFromMs ≤ t → q.validFromMs ≤ r.validFromMs) ↔
        ∀ q ∈ rows, q.validFromMs ≠ t) := by
  refine ⟨_,(run_settled h ha ho).2,?_⟩
  clear ha ho
  generalize as.map Prod.snd = cs at h
  simp only [List.mem_map,exists_exists_and_eq_and,forall_exists_index,and_imp,forall_apply_eq_imp_iff₂,
    List.map_map,Function.comp_def,settled_fields,settled_current_iff,next_eq_none_iff,true_and,implies_true]
  intro t _ _ _ later hmem hlater
  constructor
  · rintro hall d hd rfl
    have := (hall d hd).mpr ⟨le_rfl,fun _ _ hle => hle⟩
    exact absurd ((settled_historic_iff (h.accepted _ hd).2.2).mp this).1 (lt_irrefl _)
  · exact fun hne d hd => settled_historic_iff_latest (h.accepted _ hd).2.2 (hne d hd) ⟨later,hmem,hlater⟩

/-- Values of January and March: nothing is shown in January itself. Where February's comes last, the
month after it shows two. -/
theorem residence_shown_twice_or_never :
    let residence (id : String) (start : Int) : Int × Candidate :=
      (9, { statementId := id, attributes := [⟨"tom","residence",id,true⟩], validFromMs := start })
    let shown (as : List (Int × Candidate)) (t : Int) :=
      ((run step [] as).filter (·.shown (.historic t))).map (·.statementId)
    shown [residence "a" 1, residence "c" 5] 1 = [] ∧
      shown [residence "c" 5, residence "a" 1, residence "b" 3] 4 = ["a", "b"] := by
  decide +kernel

/-- Two residences of Tom, who is a baker, beside the stored one of Eva. -/
theorem residence_shown_between_times_two :
    let residence (id : String) (start : Int) : Int × Candidate :=
      (9, { statementId := id, validFromMs := start
            attributes := [⟨"tom","job","baker",true⟩, ⟨"tom","residence",id,true⟩] })
    let stored : List PeriodRow :=
      [{ statementId := "e", scopeKey := "", visibilityScope := "", sources := [], validFromMs := 2
         attributes := [⟨"eva","residence","bonn",true⟩] }]
    let rows := (run step stored [residence "c" 5, residence "a" 1]).drop 1
    ∀ r ∈ rows, r.shown (.historic 3) ↔
      r.validFromMs ≤ 3 ∧ ∀ q ∈ rows, q.validFromMs ≤ 3 → q.validFromMs ≤ r.validFromMs := by
  intro residence stored rows
  obtain ⟨rows',hrun,-,-,hhistoric⟩ := residence_shown_between_times stored [residence "c" 5, residence "a" 1]
    { facet := ⟨"tom","","",by simp [residence,Candidate.residences]⟩, accepted := by simp [residence]
      ids := by simp [residence], values := by simp [residence,Candidate.residences], times := by simp [residence] }
    (by decide +kernel) (by simp [Along,InOrder,step,capture,residence,stored]; decide +kernel)
  obtain rfl : rows = rows' := congrArg (List.drop 1) hrun
  exact (hhistoric 3 (by decide +kernel) (by decide +kernel)).mpr (by decide +kernel)

end Yeoman.Knowledge.Lifecycle
