import Yeoman.Shared.ConnectBudget

/-! The reconnect budget as the bridge keeps it. Times are milliseconds; a spent daily budget is
one kind of hold, next to the hold that waits for the owner. -/
namespace Yeoman.Bridge
open Yeoman.Shared (WaitReason)

def hourMs : Rat := 3600000

def dayMs : Rat := 24 * hourMs

inductive HoldKind where
  | needsHuman
  | budgetExhausted
deriving DecidableEq

structure BudgetHold where
  kind : HoldKind
  since : Rat
  code : Option Int := none
  reason : Option String := none
  nextProbeAt : Option Rat := none
deriving DecidableEq

structure BudgetFile where
  attempts : List Rat
  hold : Option BudgetHold

structure ConnectBudgetOptions where
  perHour : Nat := 5
  perDay : Nat := 15
  probeIntervalMs : Rat := 8 * hourMs

inductive BudgetDecision where
  | connect (probe : Bool)
  | wait (ms : Option Rat) (why : WaitReason)
  | hold (hold : BudgetHold)
deriving DecidableEq

/-- The object and the file it was opened on. -/
structure ConnectBudget where
  state : BudgetFile
  file : Option BudgetFile

namespace ConnectBudget

def load (file : Option BudgetFile) : ConnectBudget := ⟨file.getD ⟨[],none⟩,file⟩

def save (b : ConnectBudget) : ConnectBudget := { b with file := some b.state }

def hourlyWait (now : Rat) (inHour : List Rat) : Option Rat :=
  inHour.head?.map fun oldest => max 1000 (oldest + hourMs - now)

def decideOpen (o : ConnectBudgetOptions) (now : Rat) (b : ConnectBudget) : BudgetDecision × ConnectBudget :=
  let b := { b with state := { b.state with attempts := b.state.attempts.filter (now - dayMs < ·) } }
  if o.perDay ≤ b.state.attempts.length then
    let hold := { kind := .budgetExhausted, since := now, nextProbeAt := some (now + o.probeIntervalMs) }
    (.wait (some o.probeIntervalMs) .budgetExhausted, { b with state := { b.state with hold := some hold } }.save)
  else
    let inHour := (b.state.attempts.filter (now - hourMs < ·)).insertionSort (· ≤ ·)
    if o.perHour ≤ inHour.length then (.wait (hourlyWait now inHour) .hourlyLimit, b) else (.connect false, b)

def decide (o : ConnectBudgetOptions) (now : Rat) (b : ConnectBudget) : BudgetDecision × ConnectBudget :=
  match b.state.hold with
  | some hold =>
    match hold.kind with
    | .needsHuman => (.hold hold, b)
    | .budgetExhausted =>
      let nextProbeAt := hold.nextProbeAt.getD now
      if nextProbeAt ≤ now then (.connect true, b) else (.wait (some (nextProbeAt - now)) .budgetExhausted, b)
  | none => b.decideOpen o now

def probed (o : ConnectBudgetOptions) (now : Rat) (hold : BudgetHold) : BudgetHold :=
  if hold.kind = .budgetExhausted then { hold with nextProbeAt := some (now + o.probeIntervalMs) } else hold

def recordAttempt (o : ConnectBudgetOptions) (probe : Bool) (now : Rat) (b : ConnectBudget) : ConnectBudget :=
  let attempts := b.state.attempts ++ [now]
  let hold := if probe then b.state.hold.map (probed o now) else b.state.hold
  { b with state := ⟨attempts,hold⟩ }.save

end ConnectBudget
end Yeoman.Bridge
