import Yeoman.Processing.Authority

/-! Transport receipts, reconciliation probes and the durable send budget. -/
namespace Yeoman.Processing
open Library Table Txn

def optJson (v : Option String) : Json := (v.map Json.str).getD .null

structure ReceiptArgs where
  (effectId channel chatId : String)
  nowMs : Int
  attemptId : Option String := none
  providerMessageId : Option String := none
  clientMessageId : Option String := none
  detail : Option String := none

def ReceiptArgs.receiptId (a : ReceiptArgs) : String :=
  "rc_" ++ firstChars 20 (canonicalHash (.arr
    (if a.channel = "whatsapp" then
      [.str a.effectId, .str a.channel, .str a.chatId, optJson a.providerMessageId,
        optJson a.clientMessageId]
    else [.str a.effectId, optJson a.providerMessageId, optJson a.clientMessageId, .int a.nowMs])))

def ReceiptArgs.row (a : ReceiptArgs) : ReceiptRow :=
  { receiptId := a.receiptId, effectId := a.effectId, attemptId := a.attemptId, channel := a.channel,
    chatId := a.chatId, providerMessageId := a.providerMessageId,
    clientMessageId := a.clientMessageId, confirmedMs := a.nowMs, detail := a.detail }

def effectBody (row : EffectRow) : Except Error Dict :=
  match row.payloadJson with
  | none => .ok Dict.empty
  | some text => match Dict.loads? text with
    | some d => .ok d
    | none =>
      if (Json.loads text).isSome then .ok Dict.empty
      else .error (valueError "stored effect payload is not JSON")

def copiedMembers (effectPayload : Dict) : Json.Members :=
  ["text", "caption", "media", "message_id", "reply_to"].filterMap fun key =>
    if effectPayload.has key then some (key, effectPayload.get key) else none

def outboundMembers (a : ReceiptArgs) (effectPayload : Dict) : Json.Members :=
  [("kind", .str "message"), ("origin", .str "whatsapp_canonical"), ("channel", .str a.channel),
    ("chat_id", .str a.chatId), ("direction", .str "out"), ("effect_id", .str a.effectId),
    ("attempt_id", optJson a.attemptId), ("provider_message_id", optJson a.providerMessageId),
    ("client_message_id", optJson a.clientMessageId), ("confirmed_ms", .int a.nowMs),
    ("effect_payload", effectPayload.toJson)] ++ copiedMembers effectPayload

private theorem optJson_wellFormed {v : Option String} : (optJson v).WellFormed := by
  cases v <;> trivial
variable {d : Dict}

private theorem copied_spec {kv : String × Json} (h : kv ∈ copiedMembers d) :
    kv.1 ∈ ["text", "caption", "media", "message_id", "reply_to"] ∧ kv.2 = d.get kv.1 := by
  obtain ⟨key,hk,he⟩ := List.mem_filterMap.mp h
  split at he
  · cases he
    exact ⟨hk,rfl⟩
  · cases he

private theorem copied_keys (d : Dict) :
    ((copiedMembers d).map Prod.fst).Sublist ["text", "caption", "media", "message_id", "reply_to"] := by
  unfold copiedMembers
  generalize ["text", "caption", "media", "message_id", "reply_to"] = keys
  induction keys with
  | nil => exact List.Sublist.refl _
  | cons key keys ih =>
    rw [List.filterMap_cons]
    split
    · exact ih.cons key
    next he =>
      split at he
      · cases he
        exact ih.cons_cons key
      · cases he

theorem outbound_wellFormed {a : ReceiptArgs} : (Json.obj (outboundMembers a d)).WellFormed := by
  refine ⟨?_,?_⟩
  · have hs := copied_keys d
    rw [outboundMembers,List.map_append]
    have hk : (["kind", "origin", "channel", "chat_id", "direction", "effect_id", "attempt_id",
        "provider_message_id", "client_message_id", "confirmed_ms", "effect_payload"] ++
        ["text", "caption", "media", "message_id", "reply_to"]).Nodup := by decide
    exact List.Nodup.sublist (List.Sublist.append (List.Sublist.refl _) hs) hk
  · rw [Json.wellFormedMembers_iff]
    intro kv hk
    rcases List.mem_append.mp hk with h | h
    · simp only [List.mem_cons,List.not_mem_nil,or_false] at h
      rcases h with rfl | rfl | rfl | rfl | rfl | rfl | rfl | rfl | rfl | rfl | rfl
      all_goals first | trivial | exact optJson_wellFormed | exact d.wellFormed
    · rw [(copied_spec h).2]
      exact d.get_wellFormed _

def outboundEvent (a : ReceiptArgs) (effect : EffectRow) : Except Error CanonicalEvent := do
  let effectPayload ← effectBody effect
  let body : Dict := ⟨outboundMembers a effectPayload,outbound_wellFormed⟩
  let payloadHash ← eventPayloadHash body.toJson
  let eventKey := "whatsapp:" ++ a.chatId ++ ":out:" ++ a.effectId
  return {
    eventId := "out_" ++ firstChars 32 (canonicalHash (.str eventKey))
    eventKey := eventKey
    traceId := if effect.traceId = "" then "effect:" ++ a.effectId else effect.traceId
    kind := .message
    origin := "whatsapp_canonical"
    principal := effect.principal
    channel := a.channel
    chatId := a.chatId
    account := ""
    direction := .outbound
    revision := 1
    audienceRef := none
    occurredMs := none
    createdMs := a.nowMs
    sourceMessageId := a.providerMessageId
    targetMessageId := none
    threadId := none
    turnId := none
    payload := body
    payloadHash := payloadHash
    revision_pos := revision_one }

def unknownEffect (effectId : String) : Error := processingError ("unknown effect: " ++ effectId)

def recordTransportReceipt (a : ReceiptArgs) : StoreM String :=
  atomically do
    let s ← Txn.read
    match s.effect? a.effectId with
    | none => raise (unknownEffect a.effectId)
    | some effect =>
      Txn.modify fun s => { s with
        receipts := insertIgnore ReceiptRow.receiptId a.row s.receipts }
      if a.channel = "whatsapp" ∧
          s.eventByKey? ("whatsapp:" ++ a.chatId ++ ":out:" ++ a.effectId) = none then
        let event ← liftExcept (outboundEvent a effect)
        let _ ← appendEventConnection event
      return a.receiptId

def effectTransportReceipt (s : Store) (effectId : String) : Option ReceiptRow :=
  (orderBy ReceiptRow.confirmedMs ReceiptRow.receiptId
    (s.receipts.filter fun r => r.effectId = effectId)).getLast?

def ReceiptRow.toReceipt (r : ReceiptRow) : TransportReceipt :=
  { channel := r.channel, chatId := r.chatId, providerMessageId := r.providerMessageId,
    clientMessageId := r.clientMessageId, confirmedMs := r.confirmedMs, detail := r.detail }

def scheduleProbe (effectId : String) (attemptNumber dueMs nowMs : Int) : StoreM String := do
  require (1 ≤ attemptNumber) (valueError "attempt_number must be positive")
  let probeId := "pb_" ++ firstChars 20 (canonicalHash (.arr [.str effectId, .int attemptNumber]))
  atomically do
    let s ← Txn.read
    require ((s.effect? effectId).isSome) (unknownEffect effectId)
    let row : ProbeRow :=
      { probeId := probeId, effectId := effectId, attemptNumber := attemptNumber, dueMs := dueMs,
        leaseOwner := none, leaseUntilMs := none, startedMs := none, finishedMs := none,
        outcome := none, evidenceDetail := none, createdMs := nowMs }
    let clash := s.probes.any fun p =>
      p.probeId = probeId || (p.effectId = effectId && p.attemptNumber = attemptNumber)
    Txn.modify fun s => { s with probes := if clash then s.probes else s.probes ++ [row] }
    return probeId

def updateProbes (p : ProbeRow → Bool) (f : ProbeRow → ProbeRow) : StoreM Nat := do
  let s ← Txn.read
  Txn.modify fun s => { s with probes := updateWhere p f s.probes }
  return rowCount p s.probes

def claimProbe (probeId workerId : String) (nowMs leaseMs : Int) : StoreM Bool := do
  require (workerId ≠ "") (valueError "worker_id is required")
  require (0 < leaseMs) (valueError "lease_ms must be positive")
  atomically do
    let count ← updateProbes
      (fun p => p.probeId = probeId && p.outcome = none &&
        ((match p.leaseUntilMs with
          | none => true
          | some until_ => until_ ≤ nowMs) || p.leaseOwner = some workerId))
      fun p => { p with
        leaseOwner := some workerId
        leaseUntilMs := some (nowMs + leaseMs)
        startedMs := some nowMs }
    return count = 1

def finishProbe (probeId outcome workerId : String) (nowMs : Int) (detail : Option String) :
    StoreM Bool :=
  atomically do
    let count ← updateProbes
      (fun p => p.probeId = probeId && p.outcome = none && p.leaseOwner = some workerId)
      fun p => { p with
        outcome := some outcome
        evidenceDetail := detail
        finishedMs := some nowMs
        leaseOwner := none
        leaseUntilMs := none }
    return count = 1

def reserveSendBudget (attemptId channel chatId effectId : String)
    (units nowMs limit windowMs : Int) : StoreM Bool :=
  atomically do
    let s ← Txn.read
    let wanted := max 1 units
    if (lookup ReservationRow.attemptId attemptId s.reservations).isSome then return true
    else
      let spent := ((s.reservations.filter fun r => r.channel = channel && r.chatId = chatId &&
        nowMs - windowMs < r.reservedMs && r.reservedMs ≤ nowMs).map ReservationRow.units).sum
      if limit < spent + wanted then return false
      else
        let row : ReservationRow :=
          { attemptId := attemptId, channel := channel, chatId := chatId, effectId := effectId,
            units := wanted, reservedMs := nowMs }
        Txn.modify fun s => { s with reservations := s.reservations ++ [row] }
        return true

def countWaitingEffects (s : Store) (channel chatId : String) : Nat :=
  s.effects.countP fun e => (e.state = .queued || e.state = .executing) &&
    (match Dict.loads? e.targetJson with
      | some d => (d.get "channel").eq (.str channel) && (d.get "chat_id").eq (.str chatId)
      | none => false)

end Yeoman.Processing
