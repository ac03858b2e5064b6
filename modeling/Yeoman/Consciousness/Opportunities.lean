import Mathlib.Data.List.Sort
import Mathlib.Logic.Function.Basic
import Yeoman.Consciousness.DeliveryLedger

/-! The opportunity scheduler: one bounded pending record per chat, a ready queue, and a
fixed pool of workers. A worker is suspended only while its handler runs or the ready queue
is empty, so everything between two suspensions is one action. -/
namespace Yeoman.Consciousness
open Library Table
open Processing (stripText)

inductive OpportunityTrigger where
  | inbound
  | burst
  | lull
deriving DecidableEq

def OpportunityTrigger.name : OpportunityTrigger → String
  | inbound => "inbound"
  | burst => "burst"
  | lull => "lull"

abbrev ChatKey := String × String

/-- A trigger over a set of sources. The three numbers are checked to be non-negative. -/
structure ParticipationOpportunity where
  (opportunityId channel chatId : String)
  trigger : OpportunityTrigger
  sourceEventIds : List String
  (observedRevision activationEpoch createdAtMs : Nat)
  lane : Lane
deriving DecidableEq

namespace ParticipationOpportunity

def key (o : ParticipationOpportunity) : ChatKey := (o.channel, o.chatId)

def offered (o : ParticipationOpportunity) : List String := (o.sourceEventIds.map stripText).filter (· ≠ "")

def inbound (chatId : String) (lane : Lane) (source : String) (observedRevision : Nat) :
    ParticipationOpportunity where
  opportunityId := ""
  channel := "whatsapp"
  chatId := chatId
  trigger := .inbound
  sourceEventIds := [source]
  observedRevision := observedRevision
  activationEpoch := 1
  createdAtMs := 0
  lane := lane

end ParticipationOpportunity

def opportunityIdVersion : String := "p1"

def Lane.name : Lane → String
  | production => "production"
  | shadow => "shadow"

def opportunityIdFor (channel chatId : String) (activationEpoch : Nat) (lane : Lane)
    (sourceEventIds : List String) (observedRevision : Nat) : String :=
  let material := String.intercalate "|"
    [opportunityIdVersion, channel, chatId, toString activationEpoch, lane.name,
      String.intercalate "," (sourceEventIds.insertionSort (· ≤ ·)), toString observedRevision]
  "opp-" ++ String.ofList ((Sha256.hexdigest material).toList.take 32)

structure SchedulerBounds where
  maxPendingChats : Nat := 64
  maxConcurrent : Nat := 2
  maxRefs : Nat := 64
  maxBytes : Nat := 16384
  ttlSeconds : Nat := 120
  chats_pos : 0 < maxPendingChats := by decide
  concurrent_pos : 0 < maxConcurrent := by decide
  refs_pos : 0 < maxRefs := by decide
  bytes_pos : 0 < maxBytes := by decide
  ttl_pos : 0 < ttlSeconds := by decide

def SchedulerBounds.ttlMs (b : SchedulerBounds) : Nat := b.ttlSeconds * 1000

/-- The pending record of one chat. `reported` marks the references a handler was given. -/
structure PendingChat where
  (channel chatId : String)
  activationEpoch : Nat
  lane : Lane
  sourceEventIds : List String := []
  sourceBytes : Nat := 0
  observedRevision : Nat := 0
  trigger : OpportunityTrigger := .inbound
  firstTriggerMs : Nat := 0
  lastTriggerMs : Nat := 0
  droppedRefs : Nat := 0
  queued : Bool := false
  reported : List String := []

namespace PendingChat

def key (r : PendingChat) : ChatKey := (r.channel, r.chatId)

def unreported (r : PendingChat) : List String := r.sourceEventIds.filter (· ∉ r.reported)

def opened (o : ParticipationOpportunity) : PendingChat where
  channel := o.channel
  chatId := o.chatId
  activationEpoch := o.activationEpoch
  lane := o.lane
  firstTriggerMs := o.createdAtMs
  lastTriggerMs := o.createdAtMs

def replaced (o : ParticipationOpportunity) (r : PendingChat) : PendingChat :=
  { r with
    sourceEventIds := []
    sourceBytes := 0
    observedRevision := 0
    droppedRefs := 0
    activationEpoch := o.activationEpoch
    lane := o.lane
    firstTriggerMs := o.createdAtMs }

def triggered (o : ParticipationOpportunity) (r : PendingChat) : PendingChat :=
  { r with
    observedRevision := max r.observedRevision o.observedRevision
    lastTriggerMs := o.createdAtMs
    trigger := o.trigger }

/-- The sources of the next evaluation, `record.unreported() or list(record.source_event_ids)`. -/
def retained (r : PendingChat) : List String :=
  if r.unreported = [] then r.sourceEventIds else r.unreported

def asOpportunity (r : PendingChat) : ParticipationOpportunity where
  opportunityId :=
    opportunityIdFor r.channel r.chatId r.activationEpoch r.lane r.retained r.observedRevision
  channel := r.channel
  chatId := r.chatId
  trigger := r.trigger
  sourceEventIds := r.retained
  observedRevision := r.observedRevision
  activationEpoch := r.activationEpoch
  createdAtMs := r.firstTriggerMs
  lane := r.lane

end PendingChat

/-- The progress of one merge: the record, the references seen, and what was dropped. -/
structure Merge where
  record : PendingChat
  seen : List String
  added : Nat := 0
  droppedSourceIds : List String := []
  droppedSourceCount : Nat := 0

namespace Merge

def dropOldest (m : Merge) : Merge :=
  match m.record.sourceEventIds with
  | [] =>
    { m with
      record := { m.record with droppedRefs := m.record.droppedRefs + 1 }
      droppedSourceCount := m.droppedSourceCount + 1 }
  | oldest :: rest =>
    { m with
      record := { m.record with
        sourceEventIds := rest
        reported := m.record.reported.filter (· ≠ oldest)
        sourceBytes := m.record.sourceBytes - oldest.utf8ByteSize
        droppedRefs := m.record.droppedRefs + 1 }
      droppedSourceIds :=
        if oldest ∈ m.record.reported then m.droppedSourceIds else m.droppedSourceIds ++ [oldest]
      droppedSourceCount := m.droppedSourceCount + 1 }

def makeRoom (maxBytes size : Nat) : Nat → Merge → Merge
  | 0, m => m
  | n + 1, m =>
    if maxBytes < m.record.sourceBytes + size ∧ m.record.sourceEventIds ≠ [] then
      makeRoom maxBytes size n m.dropOldest
    else m

def clear (b : SchedulerBounds) (token : String) (m : Merge) : Merge :=
  let m := if b.maxRefs ≤ m.record.sourceEventIds.length then m.dropOldest else m
  makeRoom b.maxBytes token.utf8ByteSize m.record.sourceEventIds.length m

/-- The token is too large for the whole record. -/
def refuse (token : String) (m : Merge) : Merge :=
  { m with
    record := { m.record with droppedRefs := m.record.droppedRefs + 1 }
    droppedSourceIds := m.droppedSourceIds ++ [token]
    droppedSourceCount := m.droppedSourceCount + 1 }

def keep (token : String) (m : Merge) : Merge :=
  { m with
    record := { m.record with
      sourceEventIds := m.record.sourceEventIds ++ [token]
      sourceBytes := m.record.sourceBytes + token.utf8ByteSize }
    seen := token :: m.seen
    added := m.added + 1 }

def add (b : SchedulerBounds) (m : Merge) (token : String) : Merge :=
  if token = "" ∨ token ∈ m.seen then m
  else
    let m := m.clear b token
    if b.maxBytes < m.record.sourceBytes + token.utf8ByteSize then m.refuse token else m.keep token

end Merge

def mergeSources (b : SchedulerBounds) (r : PendingChat) (tokens : List String) : Merge :=
  tokens.foldl (Merge.add b) { record := r, seen := r.sourceEventIds }

structure OfferResult where
  accepted : Bool
  retainedSourceEventIds : List String := []
  droppedSourceEventIds : List String := []
  droppedSourceCount : Nat := 0
deriving DecidableEq

inductive Disposition where
  | cancelled
  | empty
  | duplicate
  | queueFull
  | expired
  | started
  | handlerFailed
deriving DecidableEq

structure DispositionReport where
  disposition : Disposition
  opportunity : ParticipationOpportunity
  detail : Json.Members

inductive Worker where
  | idle
  | handling (key : ChatKey) (record : Nat) (opportunity : ParticipationOpportunity)
  | stopped
deriving DecidableEq

/-- The scheduler. Records are mutated in place by whoever holds them, so they live in a heap
and the pending map and the workers refer to them by number. `handed` lists the handler calls
and `reports` the disposition callbacks. -/
structure Scheduler where
  heap : Nat → PendingChat
  nextRecord : Nat
  pending : List (ChatKey × Nat)
  (ready active : List ChatKey)
  evaluatedRevision : ChatKey × Lane → Int
  workers : List Worker
  cancelled : List ChatKey
  handed : List ParticipationOpportunity
  reports : List DispositionReport

namespace Scheduler

def initial (b : SchedulerBounds) : Scheduler where
  heap := fun _ => { channel := "", chatId := "", activationEpoch := 0, lane := .production }
  nextRecord := 0
  pending := []
  ready := []
  active := []
  evaluatedRevision := fun _ => -1
  workers := List.replicate b.maxConcurrent .idle
  cancelled := []
  handed := []
  reports := []

def record? (s : Scheduler) (key : ChatKey) : Option Nat :=
  (lookup Prod.fst key s.pending).map Prod.snd

def dispose (d : Disposition) (o : ParticipationOpportunity) (detail : Json.Members) (s : Scheduler) :
    Scheduler :=
  { s with reports := s.reports ++ [⟨d,o,detail⟩] }

def setRecord (rid : Nat) (r : PendingChat) (s : Scheduler) : Scheduler :=
  { s with heap := Function.update s.heap rid r }

def popPending (key : ChatKey) (s : Scheduler) : Scheduler :=
  { s with pending := remove Prod.fst key s.pending }

def openRecord (o : ParticipationOpportunity) (s : Scheduler) : Scheduler :=
  { s with
    heap := Function.update s.heap s.nextRecord (.opened o)
    nextRecord := s.nextRecord + 1
    pending := s.pending ++ [(o.key, s.nextRecord)] }

def enqueue (rid : Nat) (s : Scheduler) : Scheduler :=
  if (s.heap rid).queued then s
  else
    { s.setRecord rid { s.heap rid with queued := true } with
      ready := s.ready ++ [(s.heap rid).key] }

def recordFor (b : SchedulerBounds) (o : ParticipationOpportunity) (s : Scheduler) :
    Option Nat × Scheduler :=
  match s.record? o.key with
  | none =>
    if o.offered = [] then (none, s.dispose .empty o [("reason", .str "no_source_refs")])
    else if o.observedRevision ≤ s.evaluatedRevision (o.key, o.lane) then
      (none, s.dispose .duplicate o [("reason", .str "revision_considered")])
    else if b.maxPendingChats ≤ s.pending.length then
      (none, s.dispose .queueFull o [("reason", .str "max_pending_chats")])
    else (some s.nextRecord, s.openRecord o)
  | some rid =>
    if o.activationEpoch ≠ (s.heap rid).activationEpoch then
      (some rid, (s.dispose .cancelled o [("reason", .str "epoch_changed"),
        ("previous", .int (s.heap rid).activationEpoch)]).setRecord rid ((s.heap rid).replaced o))
    else (some rid, s)

def mergeInto (b : SchedulerBounds) (o : ParticipationOpportunity) (rid : Nat) (s : Scheduler) :
    OfferResult × Scheduler :=
  if o.offered = [] then
    (⟨false,[],[],0⟩, (s.popPending o.key).dispose .empty o [("reason", .str "no_source_refs")])
  else
    let m := mergeSources b (s.heap rid) o.offered
    if m.added = 0 then
      let s := (s.setRecord rid m.record).dispose .duplicate o [("reason", .str "no_new_sources"),
        ("dropped_source_count", .int m.droppedSourceCount)]
      (⟨false,m.record.sourceEventIds,m.droppedSourceIds,m.droppedSourceCount⟩,
        if o.key ∉ s.active ∧ m.record.unreported = [] then s.popPending o.key else s)
    else
      (⟨true,m.record.sourceEventIds,m.droppedSourceIds,m.droppedSourceCount⟩,
        (s.setRecord rid (m.record.triggered o)).enqueue rid)

def offerWithResult (b : SchedulerBounds) (o : ParticipationOpportunity) (s : Scheduler) :
    OfferResult × Scheduler :=
  if o.key ∈ s.cancelled then
    (⟨false,[],[],0⟩, s.dispose .cancelled o [("stage", .str "offer")])
  else
    match s.recordFor b o with
    | (none, s) => (⟨false,[],[],0⟩, s)
    | (some rid, s) => s.mergeInto b o rid

def cancelChat (key : ChatKey) (reason : String) (s : Scheduler) : Scheduler :=
  let t := { s with
    pending := remove Prod.fst key s.pending
    cancelled := key :: s.cancelled }
  match s.record? key with
  | none => t
  | some rid =>
    t.dispose .cancelled (s.heap rid).asOpportunity
      [("reason", .str reason), ("stage", .str "pending")]

def releaseChat (key : ChatKey) (s : Scheduler) : Scheduler :=
  { s with cancelled := s.cancelled.filter (· ≠ key) }

def markConsidered (key : ChatKey) (observedRevision : Int) (lane : Lane) (s : Scheduler) : Scheduler :=
  let highest := max (s.evaluatedRevision (key, lane)) observedRevision
  { s with evaluatedRevision := Function.update s.evaluatedRevision (key, lane) highest }

/-- Drop a finished record, or requeue what arrived meanwhile. A record that is no longer the
pending one of its chat is left alone. -/
def retire (rid : Nat) (s : Scheduler) : Scheduler :=
  if s.record? (s.heap rid).key ≠ some rid then s
  else if (s.heap rid).unreported ≠ [] then s.enqueue rid
  else s.popPending (s.heap rid).key

/-- The `finally` of a worker's turn. -/
def conclude (key : ChatKey) (rid : Nat) (s : Scheduler) : Scheduler :=
  let r := s.heap rid
  retire rid (markConsidered r.key r.observedRevision r.lane
    { s with active := s.active.filter (· ≠ key) })

/-- The start of `_run_one`: the record's sources count as reported and the handler is called,
unless the oldest trigger is too old. -/
def runOne (b : SchedulerBounds) (w : Nat) (nowMs : Int) (key : ChatKey) (rid : Nat) (s : Scheduler) :
    Scheduler :=
  let r := s.heap rid
  let o := r.asOpportunity
  let s := s.setRecord rid { r with reported := r.reported ++ r.sourceEventIds }
  if (b.ttlMs : Int) < nowMs - r.firstTriggerMs then
    (s.dispose .expired o [("age_ms", .int (nowMs - r.firstTriggerMs)), ("ttl_ms", .int b.ttlMs)]).conclude
      key rid
  else
    let s := s.dispose .started o [("trigger", .str r.trigger.name), ("dropped_source_count", .int r.droppedRefs),
      ("source_high_watermark", .int r.observedRevision)]
    { s with
      workers := s.workers.set w (.handling key rid o)
      handed := s.handed ++ [o] }

def take (b : SchedulerBounds) (w : Nat) (nowMs : Int) (s : Scheduler) : Scheduler :=
  match s.workers[w]?, s.ready with
  | some .idle, key :: rest =>
    let s := { s with ready := rest }
    match s.record? key with
    | none => s
    | some rid =>
      let s := s.setRecord rid { s.heap rid with queued := false }
      -- the handler that runs requeues what it finds unreported when it retires its record
      if key ∈ s.active then s
      else ({ s with active := s.active ++ [key] }).runOne b w nowMs key rid
  | _, _ => s

end Scheduler

inductive HandlerOutcome where
  | returned
  | raised (errorType : String)
  | cancelled

namespace Scheduler

def finish (w : Nat) (outcome : HandlerOutcome) (s : Scheduler) : Scheduler :=
  match s.workers[w]? with
  | some (.handling key rid o) =>
    match outcome with
    | .returned => ({ s with workers := s.workers.set w .idle }).conclude key rid
    | .raised e =>
      (({ s with workers := s.workers.set w .idle }).dispose .handlerFailed o
        [("error_type", .str e)]).conclude key rid
    | .cancelled =>
      (({ s with workers := s.workers.set w .stopped }).dispose .cancelled o
        [("stage", .str "handler")]).conclude key rid
  | _ => s

end Scheduler

inductive SchedulerAction where
  | offer (o : ParticipationOpportunity)
  | cancel (key : ChatKey) (reason : String)
  | release (key : ChatKey)
  | considered (key : ChatKey) (observedRevision : Int) (lane : Lane)
  | take (worker : Nat) (nowMs : Int)
  | finish (worker : Nat) (outcome : HandlerOutcome)

structure OpportunityDesk where
  scheduler : Scheduler
  offers : List (ParticipationOpportunity × OfferResult)

namespace OpportunityDesk

def initial (b : SchedulerBounds) : OpportunityDesk := ⟨.initial b,[]⟩

def step (b : SchedulerBounds) (d : OpportunityDesk) : SchedulerAction → OpportunityDesk
  | .offer o =>
    let r := d.scheduler.offerWithResult b o
    ⟨r.2,d.offers ++ [(o, r.1)]⟩
  | .cancel key reason => { d with scheduler := d.scheduler.cancelChat key reason }
  | .release key => { d with scheduler := d.scheduler.releaseChat key }
  | .considered key revision lane => { d with scheduler := d.scheduler.markConsidered key revision lane }
  | .take w nowMs => { d with scheduler := d.scheduler.take b w nowMs }
  | .finish w outcome => { d with scheduler := d.scheduler.finish w outcome }

def after (b : SchedulerBounds) (acts : List SchedulerAction) : OpportunityDesk :=
  Runs.run (step b) (initial b) acts

end OpportunityDesk
end Yeoman.Consciousness
