import Yeoman.Library.JsonRoundTrip
import Yeoman.Library.Sha256

/-! Exceptions, canonical hashes and the effect state machine of the processing
core. -/
namespace Yeoman.Processing
open Library

/-- Classes of the exceptions the processing core raises. The conflict and
transition errors derive from both `ProcessingError` and `ValueError`. -/
inductive ErrorKind where
  | typeError
  | valueError
  | processingError
  | journalConflictError
  | effectConflictError
  | invalidTransitionError
  | turnStateError
  | integrityError
  | cancelledError
  | effectNotDeliveredError
deriving DecidableEq

structure Error where
  kind : ErrorKind
  message : String
deriving DecidableEq

def raised {α : Type} : Except Error α → Option ErrorKind
  | .ok _ => none
  | .error e => some e.kind

theorem raised_eq_some {α : Type} {r : Except Error α} {kind : ErrorKind} (h : raised r = some kind) :
    ∃ message, r = .error ⟨kind,message⟩ := by
  cases r with
  | ok a => cases h
  | error e =>
    cases h
    exact ⟨e.message,rfl⟩

def canonicalJson (value : Json) : String := Json.dumps value

def canonicalHash (value : Json) : String := Sha256.hexdigest (canonicalJson value)

inductive EffectState where
  | planned
  | queued
  | executing
  | sent
  | blocked
  | expired
  | failed
  | cancelled
  | unknown
  | unknownNonrepeatable
deriving DecidableEq

namespace EffectState

def name : EffectState → String
  | planned => "planned"
  | queued => "queued"
  | executing => "executing"
  | sent => "sent"
  | blocked => "blocked"
  | expired => "expired"
  | failed => "failed"
  | cancelled => "cancelled"
  | unknown => "unknown"
  | unknownNonrepeatable => "unknown_nonrepeatable"

def all : List EffectState :=
  [planned, queued, executing, sent, blocked, expired, failed, cancelled, unknown, unknownNonrepeatable]

def ofName? (s : String) : Option EffectState := all.find? (fun e => e.name = s)

theorem name_injective : Function.Injective name := by
  intro a b h
  cases a <;> cases b <;> first | rfl | exact absurd h (by decide)
variable {e : EffectState}

@[simp] theorem ofName?_name : ofName? e.name = some e := by
  cases e <;> decide

theorem ofName?_eq_some {s : String} (h : ofName? s = some e) : s = e.name := by
  have hf := List.find?_some h
  exact (of_decide_eq_true hf).symm

end EffectState

def allowedTransitions : EffectState → List EffectState
  | .planned => [.queued, .blocked, .cancelled, .expired]
  | .queued => [.executing, .blocked, .cancelled, .expired, .failed]
  | .executing => [.sent, .failed, .unknown]
  | .blocked => [.queued, .cancelled, .expired, .failed]
  | .unknown => [.sent, .queued, .expired, .unknownNonrepeatable]
  | .unknownNonrepeatable => [.sent]
  | .failed => [.queued]
  | .sent => []
  | .expired => []
  | .cancelled => []

def Edge (a b : EffectState) : Prop := b ∈ allowedTransitions a
deriving Decidable

def claimableEffectStates : List EffectState := [.queued]

def requeueEvidenceKinds : List String := ["not_executed", "safe_retry", "operator"]

def showSorted (kinds : List String) : String :=
  (Json.arr ((kinds.insertionSort (· ≤ ·)).map Json.str)).repr

def invalidTransition (message : String) : Error := ⟨.invalidTransitionError,message⟩

/-- Checks `current -> target` and returns the state the target names. The stored
`current` is a state by construction, so only the target can be unknown. -/
def validateTransition (current : EffectState) (target : String) (evidenceKinds : List String)
    (workerId leaseOwner : Option String) : Except Error EffectState := do
  let some next := EffectState.ofName? target
    | throw (invalidTransition s!"unknown effect state: {target}")
  if next ∉ allowedTransitions current then
    throw (invalidTransition s!"illegal effect transition: {current.name} -> {target}")
  if current = .executing then
    if workerId = none then
      throw (invalidTransition "transition out of executing requires the claiming worker")
    if leaseOwner ≠ none ∧ workerId ≠ leaseOwner then
      throw (invalidTransition "only the claiming worker may leave executing")
  if next = .queued ∧ (current = .unknown ∨ current = .failed) then
    if ∀ k ∈ requeueEvidenceKinds, k ∉ evidenceKinds then
      throw (invalidTransition (current.name ++ " may only be requeued with evidence " ++
        showSorted requeueEvidenceKinds ++ ", got " ++ showSorted evidenceKinds))
  return next

/-- What an accepted transition promises: the target's name, an edge of the table,
the claiming worker on the way out of `executing`, and evidence for a requeue. -/
theorem validateTransition_ok {current next : EffectState} {target : String} {kinds : List String}
    {workerId leaseOwner : Option String} :
    validateTransition current target kinds workerId leaseOwner = .ok next ↔
      EffectState.ofName? target = some next ∧ Edge current next ∧
      (current = .executing → workerId ≠ none ∧ (leaseOwner = none ∨ workerId = leaseOwner)) ∧
      (next = .queued → current = .unknown ∨ current = .failed →
        ∃ k ∈ requeueEvidenceKinds, k ∈ kinds) := by
  unfold validateTransition Edge
  cases hn : EffectState.ofName? target with
  | none =>
    constructor
    · intro h
      cases h
    · rintro ⟨h,_⟩
      cases h
  | some next' =>
    split_ifs with h₁ h₂ h₃ h₄ h₅ h₆ <;>
      simp_all [bind,Except.bind,pure,Except.pure,throw,throwThe,MonadExceptOf.throw] <;> grind

theorem edge_terminal {a b : EffectState} (h : Edge a b) :
    a ≠ .sent ∧ a ≠ .expired ∧ a ≠ .cancelled := by
  cases a <;> cases b <;> revert h <;> decide

theorem edge_executing {a : EffectState} (h : Edge a .executing) : a = .queued := by
  cases a <;> revert h <;> decide

end Yeoman.Processing
