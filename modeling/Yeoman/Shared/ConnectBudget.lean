import Mathlib.Algebra.Order.Ring.Rat
import Mathlib.Data.List.Sort

/-! The persisted reconnect budget of one account, as the Python process keeps it. Times are
seconds. The file is the memory of the budget: a new process starts from what was saved last. -/
namespace Yeoman.Shared

def hourS : Rat := 3600

def dayS : Rat := 24 * hourS

structure BudgetOptions where
  perHour : Nat := 5
  perDay : Nat := 15
  probeIntervalS : Rat := 8 * hourS

inductive WaitReason where
  | hourlyLimit
  | budgetExhausted
deriving DecidableEq

/-- What `decide` answers; `raised` is the `IndexError` of `in_hour[0]` on an empty list. -/
inductive BudgetDecision where
  | connect (probe : Bool)
  | wait (waitS : Rat) (why : WaitReason)
  | raised
deriving DecidableEq

structure BudgetFile where
  attempts : List Rat
  nextProbeAt : Option Rat

/-- The object and the file at its path. -/
structure ConnectBudget where
  attempts : List Rat
  nextProbeAt : Option Rat
  file : Option BudgetFile

namespace ConnectBudget

def load (file : Option BudgetFile) : ConnectBudget :=
  match file with
  | some raw => ⟨raw.attempts,raw.nextProbeAt,file⟩
  | none => ⟨[],none,none⟩

def save (b : ConnectBudget) : ConnectBudget := { b with file := some ⟨b.attempts,b.nextProbeAt⟩ }

def exhausted (b : ConnectBudget) : Bool := b.nextProbeAt.isSome

def hourlyWait (now : Rat) (inHour : List Rat) : BudgetDecision :=
  match inHour with
  | [] => .raised
  | oldest :: _ => .wait (max 1 (oldest + hourS - now)) .hourlyLimit

def decide (o : BudgetOptions) (now : Rat) (b : ConnectBudget) : BudgetDecision × ConnectBudget :=
  match b.nextProbeAt with
  | some nextProbeAt =>
    if nextProbeAt ≤ now then (.connect true, b) else (.wait (nextProbeAt - now) .budgetExhausted, b)
  | none =>
    let b := { b with attempts := b.attempts.filter (now - dayS < ·) }
    if o.perDay ≤ b.attempts.length then
      (.wait o.probeIntervalS .budgetExhausted, { b with nextProbeAt := some (now + o.probeIntervalS) }.save)
    else
      let inHour := (b.attempts.filter (now - hourS < ·)).insertionSort (· ≤ ·)
      if o.perHour ≤ inHour.length then (hourlyWait now inHour, b) else (.connect false, b)

def recordAttempt (o : BudgetOptions) (probe : Bool) (now : Rat) (b : ConnectBudget) : ConnectBudget :=
  let b := { b with attempts := b.attempts ++ [now] }
  { b with nextProbeAt := if probe then b.nextProbeAt.map fun _ => now + o.probeIntervalS else b.nextProbeAt }.save

end ConnectBudget
end Yeoman.Shared
