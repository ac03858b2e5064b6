import Mathlib.Logic.Function.Basic
import Yeoman.Library.FirstArrival
import Yeoman.Processing.Reconcile

/-! The line files of the raw archive: the texts that become lines, the month a line belongs to,
and what an append leaves in a file when it fails part of the way. -/
namespace Yeoman.Archive
open Processing (stripText lowerText)
open Library

/-- A Python text by its code points. Unlike a Lean string it can hold lone surrogates. -/
abbrev PyText := List Nat

def utf8 (c : Nat) : Option (List Nat) :=
  if c < 0x80 then some [c]
  else if c < 0x800 then some [0xC0 + c / 64, 0x80 + c % 64]
  else if 0xD800 ≤ c ∧ c ≤ 0xDFFF then none
  else if c < 0x10000 then some [0xE0 + c / 4096, 0x80 + c / 64 % 64, 0x80 + c % 64]
  else some [0xF0 + c / 262144, 0x80 + c / 4096 % 64, 0x80 + c / 64 % 64, 0x80 + c % 64]

def encode (text : PyText) : Option (List Nat) := (text.mapM utf8).map List.flatten

def publishableText (text : PyText) : Bool := !(text.contains 10 || text.contains 13) && (encode text).isSome

inductive Raised where
  | osError
  | valueError
  | overflowError
  | capacityError
deriving DecidableEq

structure Month where
  (year month : Int)
deriving DecidableEq

def Month.before (m n : Month) : Bool := m.year < n.year || m.year = n.year && m.month < n.month

/-- The month of a day counted from the epoch, in the Gregorian calendar with years from March. -/
def monthOfDay (day : Int) : Month :=
  let z := day + 719468
  let doe := z.emod 146097
  let yoe := (doe - doe / 1460 + doe / 36524 - doe / 146096) / 365
  let doy := doe - (365 * yoe + yoe / 4 - yoe / 100)
  let mp := (5 * doy + 2) / 153
  let month := if mp < 10 then mp + 3 else mp - 9
  ⟨yoe + z.ediv 146097 * 400 + (if month ≤ 2 then 1 else 0),month⟩

/-- The UTC month of a time in milliseconds. Outside the years 1 to 9999 there is none; what is
raised then depends on whether the C library can still name the year, or represent the time. -/
def monthOf (ms : Int) : Except Raised Month :=
  let seconds := ms / 1000
  if seconds < -9223372036854775808 ∨ 9223372036854775807 < seconds then .error .overflowError
  else if seconds < -67768040609740800 ∨ 67768036191676799 < seconds then .error .osError
  else if seconds < -62135596800 ∨ 253402300799 < seconds then .error .valueError
  else .ok (monthOfDay (seconds / 86400))

example : monthOf 1790812800000 = .ok ⟨2026,10⟩ ∧ monthOf 1790812799999 = .ok ⟨2026,9⟩ := by decide +kernel

/-- The directory of a channel. Channels are named in ASCII; other letters, which `isalnum` and `lower`
know too, are left out here. -/
def safeChannel (channel : String) : Except Raised String :=
  let cleaned := (lowerText (stripText channel)).toList.filter fun c => c.isAlphanum || c = '-' || c = '_'
  if cleaned = [] then .error .valueError else .ok (String.ofList cleaned)

/-- The fixed files of generated records. -/
inductive Derived where
  | mediaDescriptions
  | mediaTranscripts
deriving DecidableEq

inductive Destination where
  | month (channel : String) (month : Month)
  | derived (file : Derived)
deriving DecidableEq

/-- A line on its way into the archive, with the number of the call that brought it. -/
structure Line where
  call : Nat
  channel : String
  receivedMs : Int
  text : PyText
  destination : Option Derived
  /-- Whether its record names a stored media file. -/
  media : Bool
deriving DecidableEq

namespace Line

def path (q : Line) : Except Raised Destination :=
  match q.destination with
  | some file => .ok (.derived file)
  | none => (monthOf q.receivedMs).map (.month q.channel)

def publishable (q : Line) : Bool := q.path.isOk && publishableText q.text

end Line

/-- What stands between two line breaks of a file: the bytes that were written of a line. -/
structure Entry where
  line : Line
  bytes : List Nat

def Entry.whole (e : Entry) : Bool := encode e.line.text = some e.bytes

structure LineFile where
  entries : List Entry := []
  /-- The last entry has no line break after it. -/
  unfinished : Bool := false

namespace LineFile

def lines (f : LineFile) : List Entry := if f.unfinished then f.entries.dropLast else f.entries

def Holds (f : LineFile) (q : Line) : Prop := ∃ e ∈ f.lines, e.whole = true ∧ e.line = q

def first (f : LineFile) (q : Line) : Option Nat := FirstArrival.first Entry.line Entry.whole f.lines q

/-- The first `k` bytes of an append: a line break where the last line has none, the line's own
bytes, its line break. -/
def write (f : LineFile) (q : Line) (bytes : List Nat) (k : Nat) : LineFile :=
  let k' := if f.unfinished then k - 1 else k
  if k' = 0 then { f with unfinished := f.unfinished && k = 0 }
  else ⟨f.entries ++ [⟨q,bytes.take k'⟩],k' ≤ bytes.length⟩

end LineFile

end Yeoman.Archive
