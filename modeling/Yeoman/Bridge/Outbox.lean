import Mathlib.Data.List.Sort
import Yeoman.Bridge.Events
import Yeoman.Library.Runs
import Yeoman.Library.Table

/-! The bridge's outbox: one file per unacknowledged event in a directory, written under a
temporary name and renamed, with appends and acknowledgements grouped behind one barrier that
makes the directory durable. A process can end between any two file operations, and a power loss
takes back what no barrier has covered. -/
namespace Yeoman.Bridge
open Library Table

/-- The name of a file of the outbox. While it is staged the name has a dot in front and a random
suffix, here the number of the call. -/
structure FileName where
  sequence : Nat
  (eventId eventKey : String)
  staged : Option Nat
deriving DecidableEq

def fileNameFor (sequence : Nat) (e : ReplayableBridgeEvent) : FileName := ⟨sequence,e.eventId,e.eventKey,none⟩

def temporaryName (sequence : Nat) (e : ReplayableBridgeEvent) (ticket : Nat) : FileName :=
  { fileNameFor sequence e with staged := some ticket }

structure OutboxFile where
  name : FileName
  content : Option ReplayableBridgeEvent

/-- The directory as the process sees it, and what it was since the last barrier, the newest first. -/
structure Disk where
  directory : List OutboxFile
  older : List (List OutboxFile)

namespace Disk

def states (d : Disk) : List (List OutboxFile) := d.directory :: d.older

def change (f : List OutboxFile → List OutboxFile) (d : Disk) : Disk := ⟨f d.directory,d.states⟩

def create (name : FileName) : Disk → Disk := change (· ++ [⟨name,none⟩])

def write (name : FileName) (e : ReplayableBridgeEvent) : Disk → Disk :=
  change (List.map fun f => if f.name = name then ⟨name,some e⟩ else f)

def rename (name name' : FileName) : Disk → Disk :=
  change (List.map fun f => if f.name = name then { f with name := name' } else f)

def unlink (names : List FileName) : Disk → Disk := change (List.filter fun f => f.name ∉ names)

def sync (d : Disk) : Disk := ⟨d.directory,[]⟩

def powerLoss (k : Nat) (d : Disk) : Disk := ⟨d.states[k]?.getD d.directory,[]⟩

end Disk

structure OutboxEntry where
  sequence : Nat
  fileName : FileName
  event : ReplayableBridgeEvent

namespace OutboxEntry

def eventId (x : OutboxEntry) : String := x.event.eventId

def record (x : OutboxEntry) : Nat × ReplayableBridgeEvent := (x.sequence, x.event)

end OutboxEntry

structure Scan where
  loaded : List OutboxEntry := []
  rejected : List FileName := []

def fileLe (f g : OutboxFile) : Prop :=
  (f.name.staged = none ∧ g.name.staged ≠ none) ∨
    (f.name.staged.isSome = g.name.staged.isSome ∧ f.name.sequence ≤ g.name.sequence)
deriving Decidable

/-- A file is loaded unless it is torn, its name does not fit its content, it is too large, or its
sequence or event was loaded before. -/
def Scan.visit (s : Scan) (f : OutboxFile) : Scan :=
  match f.content with
  | none => { s with rejected := s.rejected ++ [f.name] }
  | some e =>
    if f.name.sequence < 1 ∨ f.name ≠ { fileNameFor f.name.sequence e with staged := f.name.staged } ∨
        maxBridgeFrameBytes < e.serializedBytes ∨ f.name.sequence ∈ s.loaded.map OutboxEntry.sequence ∨
        e.eventId ∈ s.loaded.map OutboxEntry.eventId then { s with rejected := s.rejected ++ [f.name] }
    else { s with loaded := s.loaded ++ [⟨f.name.sequence,f.name,e⟩] }

def scan (directory : List OutboxFile) : Scan := (directory.insertionSort fileLe).foldl Scan.visit {}

def sequenceLe (x y : OutboxEntry) : Prop := x.sequence ≤ y.sequence
deriving Decidable

inductive Operation where
  | append (event : ReplayableBridgeEvent)
  | ack (eventId : String)

structure Write where
  ticket : Nat
  operation : Operation

inductive Failure where
  | tooLarge
  | conflicting
  | io
  | barrier
  | unopened

/-- What a call comes to. Of a stored event the caller is told the event only, not its sequence. -/
inductive Outcome where
  | stored (sequence : Nat) (event : ReplayableBridgeEvent)
  | acknowledged (found : Bool)
  | failed (failure : Failure)

def Outcome.eventId? : Outcome → Option String
  | .stored _ e => some e.eventId
  | _ => none

inductive Opening where
  | closed
  | opened
  | failed
deriving DecidableEq

inductive Staging where
  | created
  | synced
deriving DecidableEq

/-- The outbox of a process over the disk. `batch` are the writes of the current group that have
not run to their end, the first one being under way, and `settled` those that have and wait for
the barrier. `outcomes` are the calls that were answered, and `written` the records in the order in
which they were put on the disk, over all processes. -/
structure Outbox where
  disk : Disk
  opening : Opening
  entries : List OutboxEntry
  nextSequence : Nat
  (writes batch : List Write)
  staging : Option Staging
  settled : List (Write × Outcome)
  calls : Nat
  outcomes : List (Nat × Outcome)
  written : List (Nat × ReplayableBridgeEvent)

namespace Outbox

def initial : Outbox where
  disk := ⟨[],[]⟩
  opening := .closed
  entries := []
  nextSequence := 1
  writes := []
  batch := []
  staging := none
  settled := []
  calls := 0
  outcomes := []
  written := []

variable (o : Outbox)

def find (eventId : String) : Option OutboxEntry := lookup OutboxEntry.eventId eventId o.entries

def listed : List OutboxEntry := o.entries.insertionSort sequenceLe

def pending : List ReplayableBridgeEvent := o.listed.map OutboxEntry.event

def unrun : List Write := o.batch ++ o.writes

def load : Outbox :=
  let s := scan o.disk.directory
  let entries := s.loaded.insertionSort sequenceLe
  { o with
    disk := if s.rejected = [] then o.disk else (o.disk.unlink s.rejected).sync
    opening := .opened
    entries := entries
    nextSequence := entries.foldl (fun n x => max n (x.sequence + 1)) 1 }

/-- A `load` that fails after some files were moved to quarantine; the calls that wait for it fail. -/
def failLoad (n : Nat) : Outbox :=
  { o with
    disk := o.disk.unlink ((scan o.disk.directory).rejected.take n)
    opening := .failed
    writes := []
    outcomes := o.outcomes ++ o.writes.map fun w => (w.ticket, .failed .unopened) }

def call (operation : Operation) : Outbox :=
  match o.opening with
  | .failed => { o with calls := o.calls + 1, outcomes := o.outcomes ++ [(o.calls, .failed .unopened)] }
  | _ => { o with calls := o.calls + 1, writes := o.writes ++ [⟨o.calls,operation⟩] }

def groupSize : Nat := 32

/-- `this.writes.splice(0, 32)`. -/
def beginBatch : Outbox :=
  if o.opening = .opened ∧ o.batch = [] ∧ o.settled = [] then
    { o with batch := o.writes.take groupSize, writes := o.writes.drop groupSize }
  else o

/-- The write under way has run to its end. -/
def settle (outcome : Outcome) : Outbox :=
  match o.batch with
  | [] => o
  | w :: rest => { o with batch := rest, staging := none, settled := o.settled ++ [(w, outcome)] }

def startAppend (ok : Bool) (ticket : Nat) (e : ReplayableBridgeEvent) : Outbox :=
  if maxBridgeFrameBytes < e.serializedBytes then o.settle (.failed .tooLarge)
  else
    match o.find e.eventId with
    | some x =>
      if sameReplayableEvent x.event e then o.settle (.stored x.sequence x.event) else o.settle (.failed .conflicting)
    | none =>
      if ok then { o with disk := o.disk.create (temporaryName o.nextSequence e ticket), staging := some .created }
      else o.settle (.failed .io)

def writeTemporary (ok : Bool) (ticket : Nat) (e : ReplayableBridgeEvent) : Outbox :=
  let name := temporaryName o.nextSequence e ticket
  if ok then
    { o with
      disk := o.disk.write name e
      staging := some .synced
      written := o.written ++ [(o.nextSequence, e)] }
  else { o with disk := o.disk.unlink [name] }.settle (.failed .io)

def remember (name : FileName) (e : ReplayableBridgeEvent) : Outbox :=
  { o with entries := o.entries ++ [⟨o.nextSequence,name,e⟩], nextSequence := o.nextSequence + 1 }

/-- Rename the temporary file. If that fails the staged file is remembered as the entry, and the
append fails. -/
def publish (ok : Bool) (ticket : Nat) (e : ReplayableBridgeEvent) : Outbox :=
  let name := temporaryName o.nextSequence e ticket
  let final := fileNameFor o.nextSequence e
  if ok then { o.remember final e with disk := o.disk.rename name final }.settle (.stored o.nextSequence e)
  else (o.remember name e).settle (.failed .io)

def runAck (ok : Bool) (eventId : String) : Outbox :=
  match o.find eventId with
  | none => o.settle (.acknowledged false)
  | some x =>
    if ok then
      { o with
        disk := o.disk.unlink [x.fileName]
        entries := remove OutboxEntry.eventId eventId o.entries }.settle (.acknowledged true)
    else o.settle (.failed .io)

def runWrite (ok : Bool) : Outbox :=
  match o.batch with
  | [] => o
  | w :: _ =>
    match w.operation, o.staging with
    | .ack eventId, _ => o.runAck ok eventId
    | .append e, none => o.startAppend ok w.ticket e
    | .append e, some .created => o.writeTemporary ok w.ticket e
    | .append e, some .synced => o.publish ok w.ticket e

/-- The next file operation fails, and so does what is to follow: the temporary file of a failed write,
which may hold the whole event, is not removed, or after a failed rename not remembered. -/
def abandonWrite (whole : Bool) : Outbox :=
  match o.batch with
  | [] => o
  | w :: _ =>
    match w.operation, o.staging with
    | .append e, some .created =>
      if whole then
        { o with
          disk := o.disk.write (temporaryName o.nextSequence e w.ticket) e
          written := o.written ++ [(o.nextSequence, e)] }.settle (.failed .io)
      else o.settle (.failed .io)
    | .append _, some .synced => o.settle (.failed .io)
    | _, _ => o.runWrite false

/-- `commitDirectory` once the group has run: on success its calls get their outcomes, and on
failure all of them fail. -/
def barrier (ok : Bool) : Outbox :=
  if o.batch = [] then
    { o with
      disk := if ok ∧ o.settled ≠ [] then o.disk.sync else o.disk
      settled := []
      outcomes := o.outcomes ++ o.settled.map fun x => (x.1.ticket, if ok then x.2 else .failed .barrier) }
  else o

def endProcess (disk : Disk) : Outbox :=
  { o with
    disk := disk
    opening := .closed
    entries := []
    nextSequence := 1
    writes := []
    batch := []
    staging := none
    settled := [] }

end Outbox

inductive OutboxAction where
  | append (event : ReplayableBridgeEvent)
  | ack (eventId : String)
  /-- Opening the outbox, which can fail after some files were moved to quarantine. -/
  | load (failsAfter : Option Nat)
  | beginBatch
  | runWrite (ok : Bool)
  | abandonWrite (whole : Bool)
  | barrier (ok : Bool)
  | restart
  | powerLoss (k : Nat)

def OutboxAction.cleans : OutboxAction → Bool
  | .abandonWrite _ => false
  | _ => true

namespace Outbox

def step (o : Outbox) : OutboxAction → Outbox
  | .append e => o.call (.append e)
  | .ack eventId => o.call (.ack eventId)
  | .load failsAfter =>
    match o.opening, failsAfter with
    | .closed, none => o.load
    | .closed, some n => o.failLoad n
    | _, _ => o
  | .beginBatch => o.beginBatch
  | .runWrite ok => o.runWrite ok
  | .abandonWrite whole => o.abandonWrite whole
  | .barrier ok => o.barrier ok
  | .restart => o.endProcess o.disk
  | .powerLoss k => o.endProcess (o.disk.powerLoss k)

def after (acts : List OutboxAction) : Outbox := Runs.run step initial acts

end Outbox
end Yeoman.Bridge
