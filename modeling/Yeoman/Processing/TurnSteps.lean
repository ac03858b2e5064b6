import Yeoman.Processing.ConversationSteps

/-! What the operations of the store can do to a turn: its row is never lost, its
revision only grows, and a closing time stays one. -/
namespace Yeoman.Processing
open Library Table Txn

structure TurnStep (r r' : TurnRow) : Prop where
  turnId : r'.turnId = r.turnId
  revision : r.revision ≤ r'.revision
  closed : r.closedMs ≠ none → r'.closedMs ≠ none

theorem TurnStep.refl {r : TurnRow} : TurnStep r r := ⟨rfl,le_rfl,id⟩

theorem TurnStep.trans {a b c : TurnRow} (h : TurnStep a b) (h' : TurnStep b c) : TurnStep a c :=
  ⟨h'.turnId.trans h.turnId,h.revision.trans h'.revision,fun hc => h'.closed (h.closed hc)⟩

def TurnsKept (t t' : List TurnRow) : Prop :=
  ∀ turnId row, lookup TurnRow.turnId turnId t = some row →
    ∃ row', lookup TurnRow.turnId turnId t' = some row' ∧ TurnStep row row'

theorem TurnsKept.refl {t : List TurnRow} : TurnsKept t t := fun _ row h => ⟨row,h,.refl⟩

theorem TurnsKept.trans {a b c : List TurnRow} (h : TurnsKept a b) (h' : TurnsKept b c) : TurnsKept a c := by
  intro turnId row hr
  obtain ⟨row',hr',hs⟩ := h turnId row hr
  obtain ⟨row'',hr'',hs'⟩ := h' turnId row' hr'
  exact ⟨row'',hr'',hs.trans hs'⟩

theorem Conversed.turnsKept {a b : List ThreadRow × List TurnRow} (h : Conversed a b) : TurnsKept a.2 b.2 := by
  induction h with
  | rewritten ht hu =>
    have hstep := hu.mono fun r r' h => ({ h with } : TurnStep r r')
    exact Kept.of_rewrites (fun _ _ h => h.turnId) hstep
  | opened => exact .refl
  | turned row => exact fun _ row hr => ⟨row,lookup_insertIgnore_of_some hr,.refl⟩
  | trans a b c _ _ h h' => exact h.trans h'

theorem bumpTurnRevision_ok {turnId : String} {revision nowMs : Int} {s s' : Store} {ref : TurnRef}
    (h : bumpTurnRevision turnId revision nowMs s = (.ok ref, s')) :
    ∃ turn, s'.turn? turnId = some turn ∧ turn.revision = revision + 1 := by
  obtain ⟨found,m,ha,hl⟩ := bind_ok h
  have hb := atomically_ok ha
  rw [read_bind_apply] at hb
  cases hj : s.turnJoin? turnId with
  | none =>
    rw [hj] at hb
    cases hb
  | some pair =>
    obtain ⟨current,thread⟩ := pair
    rw [hj] at hb
    obtain ⟨_,m₁,h₁,hb₁⟩ := bind_ok hb
    obtain ⟨-,rfl⟩ := require_ok h₁
    obtain ⟨_,m₂,h₂,hb₂⟩ := bind_ok hb₁
    obtain ⟨hrev,rfl⟩ := require_ok h₂
    have hm : _ = m := congrArg Prod.snd hb₂
    have hs : m = s' := congrArg Prod.snd hl
    rw [← hs,← hm]
    obtain ⟨row,hr,hth⟩ := Option.bind_eq_some_iff.mp hj
    obtain ⟨thread',-,he⟩ := Option.map_eq_some_iff.mp hth
    cases he
    refine ⟨bumpRow nowMs current,lookup_updateWhere_of_pos ?_ hr ?_,congrArg (· + 1) hrev⟩
    · exact fun _ => rfl
    · simp [(lookup_some hr).2,hrev]

theorem Op.turns_kept (op : Op) {s : Store} : TurnsKept s.turns (op.exec s).turns := (Conversed.exec op s).turnsKept

end Yeoman.Processing
