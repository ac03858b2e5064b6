import Yeoman.Processing.Delivery

/-! Retention: payloads are stripped first, metadata later. -/
namespace Yeoman.Processing
open Library Table

structure RetentionSettings where
  (journalPayloadMs metadataMs unresolvedMs : Int)
  journalPayload_nonneg : 0 ≤ journalPayloadMs
  journalPayload_le : journalPayloadMs ≤ metadataMs
  metadata_le : metadataMs ≤ unresolvedMs

def dayMs : Int := 86400000

def defaultRetention : RetentionSettings :=
  { journalPayloadMs := 7 * dayMs, metadataMs := 30 * dayMs, unresolvedMs := 90 * dayMs,
    journalPayload_nonneg := by decide, journalPayload_le := by decide, metadata_le := by decide }

structure PurgeReport where
  eventPayloadsPurged : Nat
  effectPayloadsPurged : Nat
  eventsDeleted : Nat
  (relationsDeleted decisionsDeleted attemptsDeleted evidenceDeleted probesDeleted receiptsDeleted : Nat)

def payloadDue (cutoff : Int) (e : EventRow) : Bool :=
  e.payloadJson.isSome && e.createdMs ≤ cutoff && !(e.channel = "whatsapp")

def purgeEventRow (nowMs : Int) (e : EventRow) : EventRow :=
  { e with payloadJson := none, payloadPurgedMs := some nowMs }

def effectPayloadDue (cutoff : Int) (r : EffectRow) : Bool := r.payloadJson.isSome && r.updatedMs ≤ cutoff

def purgeEffectRow (nowMs : Int) (r : EffectRow) : EffectRow :=
  { r with payloadJson := none, payloadPurgedMs := some nowMs }

/-- An event that is deleted: old, not WhatsApp, and either without unresolved
references or past their grace period. -/
def eventDue (s : Store) (metadataCutoff unresolvedCutoff : Int) (e : EventRow) : Bool :=
  e.createdMs ≤ metadataCutoff && !(e.channel = "whatsapp") &&
  !(unresolvedCutoff < e.createdMs && s.relations.any fun r => r.eventId = e.eventId && !r.resolved)

def finishedBefore (cutoff : Int) (p : ProbeRow) : Bool :=
  match p.finishedMs with
  | some at_ => at_ ≤ cutoff
  | none => false

/-- The rows one retention pass leaves. Relations go with their event; effects,
admissions and the authority projection are never deleted. -/
def purgeStore (retention : RetentionSettings) (nowMs : Int) (s : Store) : Store :=
  let payloadCutoff := nowMs - retention.journalPayloadMs
  let metadataCutoff := nowMs - retention.metadataMs
  let due := eventDue s metadataCutoff (nowMs - retention.unresolvedMs)
  { s with
    events := (updateWhere (payloadDue payloadCutoff) (purgeEventRow nowMs) s.events).filter
      (fun e => !due e)
    relations := s.relations.filter fun r => !(s.events.any fun e => e.eventId = r.eventId && due e)
    effects := updateWhere (effectPayloadDue payloadCutoff) (purgeEffectRow nowMs) s.effects
    decisions := s.decisions.filter fun d => !(d.createdMs ≤ metadataCutoff)
    attempts := s.attempts.filter fun a => !(a.startedMs ≤ metadataCutoff)
    evidence := s.evidence.filter fun v => !(v.observedMs ≤ metadataCutoff)
    probes := s.probes.filter fun p => !finishedBefore metadataCutoff p
    receipts := s.receipts.filter fun r => !(r.confirmedMs ≤ metadataCutoff) }

def purge (retention : RetentionSettings) (nowMs : Int) : StoreM PurgeReport :=
  Txn.atomically do
    let s ← Txn.read
    Txn.modify (purgeStore retention nowMs)
    let t ← Txn.read
    return {
      eventPayloadsPurged :=
        rowCount (payloadDue (nowMs - retention.journalPayloadMs)) s.events
      effectPayloadsPurged :=
        rowCount (effectPayloadDue (nowMs - retention.journalPayloadMs)) s.effects
      eventsDeleted := s.events.length - t.events.length
      relationsDeleted := s.relations.length - t.relations.length
      decisionsDeleted := s.decisions.length - t.decisions.length
      attemptsDeleted := s.attempts.length - t.attempts.length
      evidenceDeleted := s.evidence.length - t.evidence.length
      probesDeleted := s.probes.length - t.probes.length
      receiptsDeleted := s.receipts.length - t.receipts.length }

end Yeoman.Processing
