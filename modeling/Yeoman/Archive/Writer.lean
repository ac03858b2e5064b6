import Yeoman.Archive.Lines

/-! The writer of the raw archive. A line that cannot reach its file goes to the spool, and when
the spool fails too it stays in a bounded queue in memory; both are drained, oldest first, before
the next line is tried. Each call meets its own pattern of failing file operations. -/
namespace Yeoman.Archive
open Library

structure Media where
  kind : String
  stored : Bool
  (path sha256 : Option String)
  bytes : Option Nat
  reason : String

def unstoredMedia (kind reason : String) : Media := ⟨kind,false,none,none,none,reason⟩

def storedMediaRelative (media : Option Media) : Option String := do
  let m ← media
  let path ← m.path
  let parts := (path.toList.splitOn '/').filter fun part => part ≠ [] && part ≠ ['.']
  if m.stored && path.toList.head? ≠ some '/' && parts.head? = some "media".toList && !parts.contains ['.', '.'] then
    some (String.ofList (['/'].intercalate parts))
  else none

/-- An event, with the text of the record it becomes at a receive time with a note on its media. -/
structure RawEvent where
  channel : String
  receivedMs : Option Int
  media : Option Media
  render : Int → Option Media → PyText

structure GeneratedRecord where
  channel : String
  generatedMs : Except Raised (Option Int)
  text : PyText
  media : Bool

inductive State where
  | ok
  | degraded
  | blocked
deriving DecidableEq

structure Status where
  state : State
  (spooled pendingInMemory : Nat)
deriving DecidableEq

/-- How the file operations of a call go. A scan of the spool that fails is not reported, it finds
nothing. Any other operation succeeds on `0`; on `n + 1` it fails after `n` of its steps, which for
an append are the bytes written. Past the end of a list everything succeeds. -/
structure Faults where
  scans : List Bool := []
  ops : List Nat := []

/-- A call that returned: the line it brought, whether the memory may keep that line, whether the
spool is good enough for the answer true, and the answer. -/
structure Answer where
  line : Line
  (retain reportSpooled result : Bool)

def Answer.accepted (ans : Answer) : Bool := ans.result || ans.retain

/-- The archive with its writer. The spool is listed in the order of the files' names, which is the
order in which they were made. -/
structure RawArchive where
  files : Destination → LineFile := fun _ => {}
  sealed : Destination → Bool := fun _ => false
  spool : List Line := []
  /-- Files of the spool that were set aside under the ending `.corrupt`. -/
  corrupt : List Line := []
  pending : List Line := []
  capacityBlocked : Bool := false
  /-- The status file, as far as it was ever written. -/
  status : Option Status := none
  /-- The lines that a disposition of the owner keeps out. -/
  disposed : Line → Bool := fun _ => false
  calls : Nat := 0
  answers : List Answer := []
  faults : Faults := {}

def maxMemoryPending : Nat := 10000

namespace RawArchive

def op (a : RawArchive) : Nat × RawArchive :=
  (a.faults.ops.headD 0, { a with faults := { a.faults with ops := a.faults.ops.tail } })

def spooledFiles (a : RawArchive) : List Line × RawArchive :=
  (if a.faults.scans.headD true then a.spool else [],
    { a with faults := { a.faults with scans := a.faults.scans.tail } })

def hasBacklogLocked (a : RawArchive) : Bool × RawArchive :=
  if a.pending ≠ [] then (true, a)
  else
    let (items, a) := a.spooledFiles
    (items ≠ [], a)

def write (a : RawArchive) (d : Destination) (q : Line) (bytes : List Nat) (k : Nat) : RawArchive :=
  { a with files := Function.update a.files d ((a.files d).write q bytes k) }

/-- `append_line` on the line's file: true when the line was appended, false when a disposition
keeps it out. -/
def appendArchiveLine (a : RawArchive) (q : Line) : Except Raised Bool × RawArchive :=
  match q.path with
  | .error r => (.error r, a)
  | .ok d =>
    if q.text.contains 10 || q.text.contains 13 then (.error .valueError, a)
    else
      -- the directory comes before the encoding, everything else after it
      let (n, a) := a.op
      if n ≠ 0 then (.error .osError, a)
      else
        match encode q.text with
        | none => (.error .valueError, a)
        | some bytes =>
          let (n, a) := a.op
          if a.sealed d then (.error .osError, a)
          else if a.disposed q then (if n = 0 then .ok false else .error .osError, a)
          else if n = 0 then (.ok true, a.write d q bytes (bytes.length + 2))
          else (.error .osError, a.write d q bytes (n - 1))

/-- Put the line into a new file of the spool. A failure after the rename leaves the file there. -/
def spoolLineLocked (a : RawArchive) (q : Line) : Bool × RawArchive :=
  let (n, a) := a.op
  (n = 0, if n = 1 then a else { a with spool := a.spool ++ [q] })

def statusLocked (a : RawArchive) : Status × RawArchive :=
  let (items, a) := a.spooledFiles
  let degraded := items ≠ [] || a.pending ≠ []
  (⟨if a.capacityBlocked then .blocked else if degraded then .degraded else .ok,items.length,a.pending.length⟩, a)

def publishStatusLocked (a : RawArchive) : RawArchive :=
  let (status, a) := a.statusLocked
  if a.status = some status then a
  else
    let (n, a) := a.op
    if n = 0 then { a with status := some status } else a

def rememberLocked (a : RawArchive) (q : Line) : Except Raised Unit × RawArchive :=
  if maxMemoryPending ≤ a.pending.length then
    (.error .capacityError, publishStatusLocked { a with capacityBlocked := true })
  else (.ok (), { a with pending := a.pending ++ [q] })

def unblock (a : RawArchive) : RawArchive :=
  { a with capacityBlocked := a.capacityBlocked && maxMemoryPending ≤ a.pending.length }

def spoolPending : List Line → RawArchive → RawArchive
  | [], a => a
  | q :: rest, a =>
    match a.spoolLineLocked q with
    | (true, a) => spoolPending rest { a with pending := rest }
    | (false, a) => a

def spoolOrRemember (a : RawArchive) (q : Line) (retain : Bool) : Except Raised Bool × RawArchive :=
  match a.spoolLineLocked q with
  | (true, a) => (.ok true, a)
  | (false, a) =>
    if retain then
      let (r, a) := a.rememberLocked q
      (r.map fun _ => false, a)
    else (.ok false, a)

def deferLocked (a : RawArchive) (q : Line) (retain : Bool) : Except Raised Bool × RawArchive :=
  if a.pending ≠ [] then
    let a := (spoolPending a.pending a).unblock
    if retain then
      let (r, a) := a.rememberLocked q
      (r.map fun _ => false, a)
    else if a.pending ≠ [] then (.ok false, a)
    else a.spoolOrRemember q false
  else a.spoolOrRemember q retain

def unlinkFirst (a : RawArchive) : RawArchive := { a with spool := a.spool.tail }

def quarantineFirst (a : RawArchive) : RawArchive :=
  { a with spool := a.spool.tail, corrupt := a.corrupt ++ a.spool.take 1 }

/-- The loop over the files of the spool: how many lines it moved, and whether it came to its end. -/
def drainItems : List Line → RawArchive → Except Raised (Nat × Bool) × RawArchive
  | [], a => (.ok (0, true), a)
  | q :: items, a =>
    let (n, a) := a.op
    if n ≠ 0 then (.ok (0, false), a)
    else
      let (n, a) := if q.media then a.op else (0, a)
      if n ≠ 0 then (.ok (0, false), a)
      else
        match a.appendArchiveLine q with
        | (.error .osError, a) => (.ok (0, false), a)
        | (.error .valueError, a) =>
          let (n, a) := a.op
          if n ≠ 0 then (.ok (0, false), a) else drainItems items a.quarantineFirst
        | (.error r, a) => (.error r, a)
        | (.ok _, a) =>
          let (n, a) := a.op
          if n ≠ 0 then (.ok (0, false), a)
          else
            let (r, a) := drainItems items a.unlinkFirst
            (r.map fun (moved, ended) => (moved + 1, ended), a)

/-- The loop over the memory queue. It has no answer to a line that cannot be appended at all. -/
def drainPending : List Line → RawArchive → Except Raised Nat × RawArchive
  | [], a => (.ok 0, a)
  | q :: rest, a =>
    match a.appendArchiveLine q with
    | (.error .osError, a) => (.ok 0, a)
    | (.error r, a) => (.error r, a)
    | (.ok _, a) =>
      let (r, a) := drainPending rest { a with pending := rest }
      (r.map (· + 1), a)

def drainLocked (a : RawArchive) : Except Raised Nat × RawArchive :=
  let (items, a) := a.spooledFiles
  match drainItems items a with
  | (.error r, a) => (.error r, a)
  | (.ok (moved, false), a) => (.ok moved, a)
  | (.ok (moved, true), a) =>
    match drainPending a.pending a with
    | (.error r, a) => (.error r, a)
    | (.ok more, a) => (.ok (moved + more), a.unblock)

def deferAndPublish (a : RawArchive) (q : Line) (retain reportSpooled : Bool) : Except Raised Bool × RawArchive :=
  match a.deferLocked q retain with
  | (.error r, a) => (.error r, a)
  | (.ok spooled, a) => (.ok (reportSpooled && spooled), a.publishStatusLocked)

def commitLine (a : RawArchive) (q : Line) (retain reportSpooled : Bool) : Except Raised Bool × RawArchive :=
  match a.drainLocked with
  | (.error r, a) => (.error r, a)
  | (.ok _, a) =>
    let (backlog, a) := a.hasBacklogLocked
    if backlog then a.deferAndPublish q retain reportSpooled
    else
      match a.appendArchiveLine q with
      | (.ok _, a) => (.ok true, a.publishStatusLocked)
      | (.error .osError, a) => a.deferAndPublish q retain reportSpooled
      | (.error r, a) => (.error r, a)

def submit (a : RawArchive) (q : Line) (retain reportSpooled : Bool) : Except Raised Bool × RawArchive :=
  match a.commitLine q retain reportSpooled with
  | (.error r, a) => (.error r, a)
  | (.ok result, a) => (.ok result, { a with answers := a.answers ++ [⟨q,retain,reportSpooled,result⟩] })

def settleMedia (a : RawArchive) (lease : Bool) (media : Option Media) : Option Media × RawArchive :=
  if storedMediaRelative media = none then (media, a)
  else
    let (n, a) := if lease then (0, a) else a.op
    if n ≠ 0 then
      (media.map fun m => { m with stored := false, path := none, reason := "coordination_unavailable" }, a)
    else
      let (n, a) := a.op
      if n ≠ 0 then
        (media.map fun m => { m with stored := false, path := none, reason := "purged_before_append" }, a)
      else (media, a)

def appendLocked (a : RawArchive) (event : RawEvent) (lease durableOnly : Bool) (now : Int) :
    Except Raised Bool × RawArchive :=
  let (media, a) := a.settleMedia lease event.media
  let receivedMs := event.receivedMs.getD now
  match safeChannel event.channel with
  | .error r => (.error r, a)
  | .ok channel =>
    a.submit ⟨a.calls,channel,receivedMs,event.render receivedMs media,none,(storedMediaRelative media).isSome⟩
      (!durableOnly) durableOnly

def appendWithMediaLocked (a : RawArchive) (event : RawEvent) (kind : String) (stored : Except Raised Media)
    (durableOnly : Bool) (now : Int) : Except Raised Bool × RawArchive :=
  let event := { event with receivedMs := some (event.receivedMs.getD now) }
  let (n, a) := a.op
  if n ≠ 0 then
    a.appendLocked { event with media := some (unstoredMedia kind "coordination_unavailable") } false durableOnly now
  else
    match stored with
    | .error r => (.error r, a)
    | .ok media => a.appendLocked { event with media := some media } true durableOnly now

def appendDerived (a : RawArchive) (record : GeneratedRecord) (file : Derived) (reportDurability : Bool) (now : Int) :
    Except Raised Bool × RawArchive :=
  match safeChannel record.channel, record.generatedMs with
  | .error r, _ => (.error r, a)
  | .ok _, .error r => (.error r, a)
  | .ok channel, .ok generatedMs =>
    a.submit ⟨a.calls,channel,generatedMs.getD now,record.text,some file,record.media⟩ true reportDurability

def drainSpool (a : RawArchive) : Except Raised Nat × RawArchive :=
  match a.drainLocked with
  | (.error r, a) => (.error r, a)
  | (.ok moved, a) => (.ok moved, a.publishStatusLocked)

/-- `verify_archive` takes a spool it cannot scan for a backlog, and the status file's word for
what waits in memory. -/
def writerHasBacklog (a : RawArchive) (scanned : Bool) : Bool :=
  !scanned || a.spool ≠ [] ||
    a.status.any fun s => s.state ≠ .ok || 0 < s.spooled || 0 < s.pendingInMemory

def closes (a : RawArchive) (now : Month) : Destination → Bool
  | .month channel m => (a.files (.month channel m)).entries ≠ [] && m.before now
  | .derived _ => false

def verifyArchive (a : RawArchive) (now : Int) (scanned : Bool) : RawArchive :=
  match monthOf now with
  | .error _ => a
  | .ok current =>
    if a.writerHasBacklog scanned then a
    else { a with sealed := fun d => a.sealed d || a.closes current d }

end RawArchive

inductive Call where
  | append (event : RawEvent)
  | appendDurable (event : RawEvent)
  | appendWithMedia (event : RawEvent) (kind : String) (stored : Except Raised Media)
  | appendDurableWithMedia (event : RawEvent) (kind : String) (stored : Except Raised Media)
  | appendMediaDescription (record : GeneratedRecord)
  | appendMediaTranscript (record : GeneratedRecord)

inductive Action where
  | call (c : Call) (now : Int) (faults : Faults)
  | drainSpool (faults : Faults)
  | purge (disposes : Line → Bool)
  | verifyArchive (now : Int) (scanned : Bool)

namespace RawArchive

def perform (a : RawArchive) (c : Call) (now : Int) (faults : Faults) : Except Raised Bool × RawArchive :=
  let a := { a with faults := faults }
  match c with
  | .append event => a.appendLocked event false false now
  | .appendDurable event => a.appendLocked event false true now
  | .appendWithMedia event kind stored => a.appendWithMediaLocked event kind stored false now
  | .appendDurableWithMedia event kind stored => a.appendWithMediaLocked event kind stored true now
  | .appendMediaDescription record => a.appendDerived record .mediaDescriptions false now
  | .appendMediaTranscript record => a.appendDerived record .mediaTranscripts true now

def step (a : RawArchive) : Action → RawArchive
  | .call c now faults =>
    let a := (a.perform c now faults).2
    { a with calls := a.calls + 1 }
  | .drainSpool faults => (drainSpool { a with faults := faults }).2
  | .purge disposes => { a with disposed := fun q => a.disposed q || disposes q }
  | .verifyArchive now scanned => a.verifyArchive now scanned

def after (acts : List Action) : RawArchive := Runs.run step {} acts

end RawArchive

end Yeoman.Archive
