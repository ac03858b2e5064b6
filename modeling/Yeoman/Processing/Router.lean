import Yeoman.Processing.Gateway

/-! The router that turns one intent into one effect: it binds the intent to a turn,
submits the effect, checks the capacity of the chat and executes. -/
namespace Yeoman.Processing
open Library Table Txn

def effectNotDelivered (message : String) : Error := ⟨.effectNotDeliveredError,message⟩

def servicePrincipals : List String :=
  ["service:cron", "service:admin", "service:ipc", "service:speakup", "service:heartbeat", "service:a2a"]

def capabilityByKind : EffectPayload → String
  | .text .. => "send_text"
  | .media .. => "send_media"
  | .forward .. => "forward_message"
  | .reaction .. => "send_reaction"
  | .delete .. => "delete_message"
  | .externalAction .. => "external_action"

def deliveryReservationTtlMs : Int := 10 * 60000

def payloadUnits : EffectPayload → Int
  | .media items _ => max 1 items.length
  | _ => 1

structure BoundTurn where
  (turnId threadId : String)
  revision : Int

structure TurnBinding where
  turn : Option BoundTurn
  traceId : String

structure RunRequest where
  (channel chatId principal : String)
  sourceMessageId : Option String := none
  payload : EffectPayload
  operationKey : String
  traceId : String := ""
  deadlineMs : Int
  effectId : Option String := none
  ownLineage : Bool := false
  admission : Option ParticipationAdmission := none

/-- The wiring `_run` consults: the turn of the running task, the turns frozen per source,
the active turn of a chat, until when an enforced soft limit defers a thread, when the
reservation of an effect was made, and whether there is a participation ledger. -/
structure RouterContext where
  currentTurn : Option TurnBinding := none
  frozenTurn : String → Option TurnBinding := fun _ => none
  turnProvider : Option (String → String → Option BoundTurn) := none
  deferredUntil : String → Option Int := fun _ => none
  reservedMs : String → Option Int := fun _ => none
  ledger : Bool := false

def lineageBinding (s : Store) (source : String) : Option TurnBinding :=
  match (s.eventAssignment source).bind fun a => nonempty a.2 with
  | none => none
  | some turnId =>
    match s.turn? turnId with
    | some turn =>
      if turn.closedMs = none then
        some { turn := some { turnId := turn.turnId, threadId := turn.threadId, revision := turn.revision },
               traceId := source }
      else none
    | none => none

def bindIntent (s : Store) (c : RouterContext) (r : RunRequest) : Option TurnBinding × Option TurnBinding :=
  let service := r.principal ∈ servicePrincipals
  let source := nonempty r.sourceMessageId
  let current := if service then none else c.currentTurn
  let frozen := if current.isNone ∧ ¬ service then source.bind c.frozenTurn else none
  let bound := current.orElse fun _ => frozen
  match source with
  | some id => if r.ownLineage ∧ bound.isNone then (lineageBinding s id, frozen) else (bound, frozen)
  | none => (bound, frozen)

/-- The turn an intent is bound to. Only when nothing is known about its source may it be
the active turn of the chat. -/
def boundTurn (s : Store) (c : RouterContext) (r : RunRequest) : Option BoundTurn :=
  let (binding, frozen) := bindIntent s c r
  match binding.bind TurnBinding.turn with
  | some turn => some turn
  | none =>
    if frozen.isNone ∧ r.ownLineage = false ∧ r.principal ∉ servicePrincipals then
      c.turnProvider.bind fun active => active r.channel r.chatId
    else none

def turnRevisionOf (turn : Option BoundTurn) : Int :=
  match turn with
  | some turn => if turn.revision = 0 then 1 else turn.revision
  | none => 1

def routeEnvelope (s : Store) (c : RouterContext) (r : RunRequest) (freshId : String) (nowMs : Int) :
    Except Error EffectEnvelope := do
  let turn := boundTurn s c r
  let turnId := (turn.map BoundTurn.turnId).getD ""
  let revision := turnRevisionOf turn
  if turnId = "" ∧ r.ownLineage = false ∧ c.turnProvider.isSome ∧ r.principal ∉ servicePrincipals then
    throw (effectNotDelivered "no turn bound to this producer; refusing to queue an effect")
  if let some readyAt := (nonempty (turn.map BoundTurn.threadId)).bind c.deferredUntil then
    throw (effectNotDelivered ("thread soft limit reached (thread=" ++
      (turn.map BoundTurn.threadId).getD "" ++ " ready_at_ms=" ++ toString readyAt ++ ")"))
  let expires := match (nonempty r.effectId).bind c.reservedMs with
    | some created => min (nowMs + r.deadlineMs) (created + deliveryReservationTtlMs)
    | none => nowMs + r.deadlineMs
  let target ← EffectTarget.build r.channel r.chatId none none
  let effectId := (nonempty r.effectId).getD freshId
  let operationKey := r.operationKey ++ ":" ++ turnId ++ ":" ++ toString revision
  if h₁ : effectId = "" then throw (valueError "effect envelope requires an effect id")
  else if h₂ : operationKey = "" then throw (valueError "effect envelope requires an operation key")
  else if h₃ : revision < 1 then throw (valueError "turn revision must be a positive integer")
  else return {
    effectId, operationKey, payload := r.payload, target,
    traceId := (nonempty ((bindIntent s c r).1.map TurnBinding.traceId)).getD r.traceId,
    turnId, turnRevision := revision, principal := r.principal,
    capability := capabilityByKind r.payload, expiresAtMs := some expires, createdMs := nowMs,
    origin := if r.admission.isSome then .participation else .legacy,
    admissionId := r.admission.map ParticipationAdmission.admissionId,
    effectId_ne := h₁, operationKey_ne := h₂, turnRevision_pos := by omega }

structure ChatBudget where
  limit : Int := 6
  windowMs : Int := 60000

/-- The capacity of a chat: the cap on waiting effects, the durable budget, and otherwise
the answer of the in-process budget. -/
structure Capacity where
  waitingCap : Int
  durable : Option ChatBudget := none
  memoryAllows : Bool := true

def capacityReason (c : Capacity) (channel chatId : String) (payload : EffectPayload) (effectId : String)
    (nowMs : Int) : StoreM (Option String) := do
  let s ← Txn.read
  if c.waitingCap < countWaitingEffects s channel chatId then return some "queue_capacity"
  else match c.durable with
    | some budget => do
      let record ← liftExcept (s.getEffect effectId)
      let stamp := (record.map fun e => e.row.updatedMs).getD 0
      let allowed ← reserveSendBudget (effectId ++ ":" ++ toString stamp) channel chatId effectId
        (payloadUnits payload) nowMs budget.limit budget.windowMs
      return if allowed then none else some "budget_exhausted"
    | none => return if c.memoryAllows then none else some "budget_exhausted"

def capacityBlock (capacity : Option Capacity) (channel chatId : String) (payload : EffectPayload)
    (effectId : String) (nowMs : Int) : StoreM (Option EffectReceipt) :=
  match capacity with
  | none => return none
  | some c => do
    match ← capacityReason c channel chatId payload effectId nowMs with
    | none => return none
    | some reason => do
      let _ ← transition effectId [EffectState.queued.name] EffectState.blocked.name nowMs
        (evidenceOf "policy" reason) none
      let s ← Txn.read
      match ← liftExcept (s.getEffect effectId) with
      | none => return none
      | some _ => return some (← receipt effectId EffectState.blocked.name "" none (some reason))

def submitIntent (c : RouterContext) (r : RunRequest) (freshId : String)
    (nowMs submitMs : Int) : StoreM EffectReceipt := do
  let s ← Txn.read
  let v ← liftExcept (routeEnvelope s c r freshId nowMs)
  match r.admission with
  | none => EffectGateway.submit v submitMs
  | some admission =>
    require (c.ledger = true) (effectNotDelivered "participation ledger is required before effect enqueue")
    require (admission.admissionId ≠ "")
      (effectNotDelivered "participation admission requires a stable admission id")
    EffectGateway.submitParticipation v admission submitMs

/-- What a segment of `_run` consults and draws: policy, capacity, fresh ids and the clock. -/
structure RunMoment where
  authorizer : SnapshotEffectAuthorizer
  capacity : Option Capacity := none
  (decisionId attemptId : String)
  (capacityMs nowMs checkMs : Int)

def dispatchIntent (g : EffectGateway) (m : RunMoment) (r : RunRequest) (effectId : String) :
    StoreM Started := do
  match ← capacityBlock m.capacity r.channel r.chatId r.payload effectId m.capacityMs with
  | some blocked => return .finished blocked
  | none => g.beginExecution m.authorizer effectId m.decisionId m.attemptId m.nowMs m.checkMs

def sendBudgetSpent (s : Store) (channel chatId : String) (nowMs windowMs : Int) : Int :=
  ((s.reservations.filter fun r => r.channel = channel && r.chatId = chatId &&
    nowMs - windowMs < r.reservedMs && r.reservedMs ≤ nowMs).map ReservationRow.units).sum
variable {effectId : String} {nowMs : Int}

theorem reserveSendBudget_refused {attemptId channel chatId : String} {units limit windowMs : Int} {s s' : Store}
    (h : reserveSendBudget attemptId channel chatId effectId units nowMs limit windowMs s = (.ok false, s')) :
    lookup ReservationRow.attemptId attemptId s.reservations = none ∧
      limit < sendBudgetSpent s channel chatId nowMs windowMs + max 1 units := by
  have hb := atomically_ok h
  rw [read_bind_apply] at hb
  dsimp only at hb
  split at hb
  · cases hb
  rename_i hn
  split_ifs at hb with hl
  · exact ⟨Option.not_isSome_iff_eq_none.mp hn,hl⟩
  · cases hb

/-- The chat has no capacity for the effect: too many effects wait, or the attempt holds no
reservation and the budget is used up. -/
def OverCapacity (c : Capacity) (s : Store) (channel chatId : String) (payload : EffectPayload)
    (effectId : String) (nowMs : Int) : Prop :=
  c.waitingCap < countWaitingEffects s channel chatId ∨
  match c.durable with
  | some budget =>
    let stamp := ((s.effect? effectId).map EffectRow.updatedMs).getD 0
    lookup ReservationRow.attemptId (effectId ++ ":" ++ toString stamp) s.reservations = none ∧
      budget.limit < sendBudgetSpent s channel chatId nowMs budget.windowMs + max 1 (payloadUnits payload)
  | none => c.memoryAllows = false

theorem capacityReason_some {c : Capacity} {channel chatId : String} {payload : EffectPayload}
    {s s' : Store} {reason : String}
    (h : capacityReason c channel chatId payload effectId nowMs s = (.ok (some reason), s')) :
    OverCapacity c s channel chatId payload effectId nowMs := by
  rw [capacityReason,read_bind_apply] at h
  split at h
  next hw =>
    exact .inl hw
  · refine .inr ?_
    cases hd : c.durable with
    | none =>
      rw [hd] at h
      cases hm : c.memoryAllows with
      | false => rfl
      | true =>
        rw [hm] at h
        cases h
    | some budget =>
      rw [hd] at h
      obtain ⟨record,hg,h⟩ := liftExcept_bind_ok h
      have hstamp : record.map (fun e => e.row.updatedMs) = (s.effect? effectId).map EffectRow.updatedMs := by
        rw [← Store.getEffect_map hg,Option.map_map]
        rfl
      rw [hstamp] at h
      obtain ⟨allowed,m,hr,h⟩ := bind_ok h
      cases allowed with
      | true => cases h
      | false => exact reserveSendBudget_refused hr

end Yeoman.Processing
