import Yeoman.Archive.Writer

/-! What each part of the writer can do to the files, the spool and the memory queue: the lines
wait in the order of their calls, and none leaves the queues before it stands in its file or is
disposed of. -/
namespace Yeoman.Archive
open Library FirstArrival

namespace LineFile
variable {f : LineFile}

theorem mem_entries_of_mem_lines {e : Entry} (h : e ∈ f.lines) : e ∈ f.entries := by
  unfold lines at h
  split at h
  · exact (List.dropLast_sublist _).subset h
  · exact h

theorem lines_append (f : LineFile) : ∃ rest, f.entries = f.lines ++ rest := by
  unfold lines
  split
  · exact ⟨f.entries.drop (f.entries.length - 1),by rw [List.dropLast_eq_take,List.take_append_drop]⟩
  · exact ⟨[],(List.append_nil _).symm⟩
variable {q : Line} {bytes : List Nat} {k : Nat}

theorem write_entries (f : LineFile) :
    (f.write q bytes k).entries = f.entries ∨
      ∃ part, (f.write q bytes k).entries = f.entries ++ [⟨q,part⟩] := by
  unfold write
  generalize (if f.unfinished then k - 1 else k) = n
  dsimp only
  split_ifs
  · exact .inl rfl
  · exact .inr ⟨_,rfl⟩

theorem Holds.write {x : Line} (h : f.Holds x) : (f.write q bytes k).Holds x := by
  obtain ⟨e,he,hx⟩ := h
  have hmem := mem_entries_of_mem_lines he
  refine ⟨e,?_,hx⟩
  -- Writing on only ever ends the entry that stood last.
  simp only [LineFile.write,lines] at he ⊢
  split_ifs at he ⊢ <;> simp_all

theorem write_all : f.write q bytes (bytes.length + 2) = ⟨f.entries ++ [⟨q,bytes⟩],false⟩ := by
  cases hu : f.unfinished <;> simp [write,hu,List.take_of_length_le]

theorem holds_write_all (h : encode q.text = some bytes) : (f.write q bytes (bytes.length + 2)).Holds q := by
  rw [write_all]
  exact ⟨⟨q,bytes⟩,by simp [lines],by simp [Entry.whole,h],rfl⟩

end LineFile

/-- The queues hold lines of earlier calls in the order of these calls, and so do the files, where
a line that still waits stands behind nothing younger unless it stands there whole. -/
structure Fifo (calls : Nat) (files : Destination → LineFile) (backlog : List Line) : Prop where
  sorted : backlog.Pairwise fun x y => x.call ≤ y.call
  below : ∀ q ∈ backlog, q.call < calls
  publishable : ∀ q ∈ backlog, q.publishable = true
  written : ∀ d, ∀ e ∈ (files d).entries, e.line.call < calls
  inOrder : ∀ d, InOrder Entry.line Line.call Entry.whole (files d).entries
  admits : ∀ q ∈ backlog, ∀ d, q.path = .ok d → Admits Entry.line Line.call Entry.whole (files d).entries q

namespace Fifo
variable {calls : Nat} {files : Destination → LineFile} {backlog : List Line} {q : Line}

theorem succ (h : Fifo calls files backlog) : Fifo (calls + 1) files backlog where
  sorted := h.sorted
  below x hx := Nat.lt_succ_of_lt (h.below x hx)
  publishable := h.publishable
  written d e he := Nat.lt_succ_of_lt (h.written d e he)
  inOrder := h.inOrder
  admits := h.admits

theorem sublist {fewer : List Line} (h : Fifo calls files backlog) (hs : fewer.Sublist backlog) :
    Fifo calls files fewer where
  sorted := h.sorted.sublist hs
  below x hx := h.below x (hs.subset hx)
  publishable x hx := h.publishable x (hs.subset hx)
  written := h.written
  inOrder := h.inOrder
  admits x hx := h.admits x (hs.subset hx)
variable {d : Destination}

theorem write (h : Fifo calls files backlog) (hq : q.call < calls) (hfront : ∀ x ∈ backlog, q.call ≤ x.call)
    (hadm : Admits Entry.line Line.call Entry.whole (files d).entries q) {bytes : List Nat} {k : Nat} :
    Fifo calls (Function.update files d ((files d).write q bytes k)) backlog := by
  have hcase : ∀ d', (Function.update files d ((files d).write q bytes k) d').entries = (files d').entries ∨
      d' = d ∧ ∃ part, (Function.update files d ((files d).write q bytes k) d').entries = (files d).entries ++ [⟨q,part⟩] := by
    intro d'
    by_cases hd : d' = d
    · subst hd
      rw [Function.update_self]
      rcases (files d').write_entries with he | he
      · exact .inl he
      · exact .inr ⟨rfl,he⟩
    · exact .inl (by rw [Function.update_of_ne hd])
  refine ⟨h.sorted,h.below,h.publishable,fun d' e he => ?_,fun d' => ?_,fun x hx d' hd' => ?_⟩
  · rcases hcase d' with heq | ⟨rfl,part,heq⟩ <;> rw [heq] at he
    · exact h.written d' e he
    · rcases Table.mem_concat.mp he with he | rfl
      · exact h.written d' e he
      · exact hq
  · rcases hcase d' with heq | ⟨rfl,part,heq⟩ <;> rw [heq]
    · exact h.inOrder d'
    · exact (h.inOrder d').concat hadm
  · rcases hcase d' with heq | ⟨rfl,part,heq⟩ <;> rw [heq]
    · exact h.admits x hx d' hd'
    · exact (h.admits x hx d' hd').concat (hfront x hx)

theorem concat (h : Fifo calls files backlog) (hlast : ∀ x ∈ backlog, x.call ≤ q.call) (hq : q.call < calls)
    (hp : q.publishable = true)
    (hadm : ∀ d, q.path = .ok d → Admits Entry.line Line.call Entry.whole (files d).entries q) :
    Fifo calls files (backlog ++ [q]) where
  sorted := List.pairwise_append.mpr ⟨h.sorted,List.pairwise_singleton _ _,fun x hx y hy => by
    rw [List.mem_singleton.mp hy]
    exact hlast x hx⟩
  below := Table.forall_mem_concat h.below hq
  publishable := Table.forall_mem_concat h.publishable hp
  written := h.written
  inOrder := h.inOrder
  admits := Table.forall_mem_concat h.admits hadm

theorem twice {spool pending : List Line} (h : Fifo calls files (spool ++ q :: pending)) :
    Fifo calls files (spool ++ [q] ++ q :: pending) := by
  have hmem : ∀ x, x ∈ spool ++ [q] ++ q :: pending ↔ x ∈ spool ++ q :: pending := by
    intro x
    simp only [List.mem_append,List.mem_cons,List.not_mem_nil,or_false]
    tauto
  refine ⟨?_,fun x hx => h.below x ((hmem x).mp hx),fun x hx => h.publishable x ((hmem x).mp hx),h.written,
    h.inOrder,fun x hx => h.admits x ((hmem x).mp hx)⟩
  have hs := List.pairwise_append.mp h.sorted
  refine List.pairwise_append.mpr ⟨List.pairwise_append.mpr ⟨hs.1,List.pairwise_singleton _ _,fun x hx y hy =>
    hs.2.2 x hx y (List.mem_cons.mpr (.inl (List.mem_singleton.mp hy)))⟩,hs.2.1,fun x hx y hy => ?_⟩
  rcases Table.mem_concat.mp hx with hx | rfl
  · exact hs.2.2 x hx y hy
  · rcases List.mem_cons.mp hy with rfl | hy
    · exact le_refl _
    · exact (List.pairwise_cons.mp hs.2.1).1 y hy

theorem head_le {rest : List Line} (h : Fifo calls files (q :: rest)) : ∀ x ∈ q :: rest, q.call ≤ x.call := by
  intro x hx
  rcases List.mem_cons.mp hx with rfl | hx
  · exact le_refl _
  · exact (List.pairwise_cons.mp h.sorted).1 x hx

theorem admits_last (h : Fifo (q.call + 1) files backlog) :
    Admits Entry.line Line.call Entry.whole (files d).entries q :=
  .inl fun e he => Nat.le_of_lt_succ (h.written d e he)

end Fifo

namespace RawArchive

def withOps (a : RawArchive) (ops : List Nat) : RawArchive := { a with faults := { a.faults with ops := ops } }

inductive Appended (a : RawArchive) (q : Line) : Except Raised Bool → RawArchive → Prop
  | unpublishable {r : Raised} {ops : List Nat} (h : q.publishable = false) : Appended a q (.error r) (a.withOps ops)
  | failed {ops : List Nat} : Appended a q (.error .osError) (a.withOps ops)
  | torn {ops : List Nat} {d : Destination} {bytes : List Nat} {k : Nat} (hp : q.path = .ok d)
      (he : encode q.text = some bytes) : Appended a q (.error .osError) ((a.withOps ops).write d q bytes k)
  | suppressed {ops : List Nat} (h : a.disposed q = true) : Appended a q (.ok false) (a.withOps ops)
  | done {ops : List Nat} {d : Destination} {bytes : List Nat} (hp : q.path = .ok d)
      (he : encode q.text = some bytes) :
      Appended a q (.ok true) ((a.withOps ops).write d q bytes (bytes.length + 2))

theorem appendArchiveLine_cases (a : RawArchive) (q : Line) :
    Appended a q (a.appendArchiveLine q).1 (a.appendArchiveLine q).2 := by
  unfold appendArchiveLine
  cases hp : q.path with
  | error r => exact (.unpublishable (by simp [Line.publishable,hp,Except.isOk,Except.toBool]) :
      Appended a q _ (a.withOps a.faults.ops))
  | ok d =>
    cases he : encode q.text with
    | none =>
      dsimp only [op]
      split_ifs
      · exact (.unpublishable (by simp [Line.publishable,publishableText,he]) : Appended a q _ (a.withOps a.faults.ops))
      · exact .failed
      · exact .unpublishable (by simp [Line.publishable,publishableText,he])
    | some bytes =>
      dsimp only [op]
      split_ifs with hnl h1 hs hd h2 h2
      · exact (.unpublishable (by simp only [Line.publishable,publishableText,hnl]; simp) :
          Appended a q _ (a.withOps a.faults.ops))
      · exact .failed
      · exact .failed
      · exact .suppressed hd
      · exact .failed
      · exact .done hp he
      · exact .torn hp he

/-- A line no longer needs the queues. -/
def Settled (a : RawArchive) (x : Line) : Prop :=
  a.disposed x = true ∨ ∃ d, x.path = .ok d ∧ (a.files d).Holds x

def Keeps (a : RawArchive) (x : Line) : Prop := a.Settled x ∨ x ∈ a.spool ∨ x ∈ a.pending

def InFifo (a : RawArchive) (calls : Nat) : Prop := Fifo calls a.files (a.spool ++ a.pending)

/-- A part of the writer brought the archive from one state to the next without losing a line or
breaking the order. -/
structure Advanced (calls : Nat) (a b : RawArchive) : Prop where
  disposed : b.disposed = a.disposed
  number : b.calls = a.calls
  answers : b.answers = a.answers
  scans : ∀ ok ∈ b.faults.scans, ok ∈ a.faults.scans
  fifo : b.InFifo calls
  settled : ∀ x, a.Settled x → b.Settled x
  keeps : ∀ x, a.Keeps x → b.Keeps x

namespace Advanced
variable {calls : Nat} {a b c : RawArchive}

theorem trans (h : Advanced calls a b) (h' : Advanced calls b c) : Advanced calls a c where
  disposed := h'.disposed.trans h.disposed
  number := h'.number.trans h.number
  answers := h'.answers.trans h.answers
  scans ok hok := h.scans ok (h'.scans ok hok)
  fifo := h'.fifo
  settled x hx := h'.settled x (h.settled x hx)
  keeps x hx := h'.keeps x (h.keeps x hx)

theorem of_bookkeeping (h : a.InFifo calls) {f : Faults} {status : Option Status} {blocked : Bool}
    (hs : ∀ ok ∈ f.scans, ok ∈ a.faults.scans) :
    Advanced calls a { a with faults := f, status := status, capacityBlocked := blocked } where
  disposed := rfl
  number := rfl
  answers := rfl
  scans := hs
  fifo := h
  settled _ hx := hx
  keeps _ hx := hx

theorem withOps (h : a.InFifo calls) (ops : List Nat) : Advanced calls a (a.withOps ops) :=
  of_bookkeeping h fun _ hok => hok

theorem op (h : a.InFifo calls) : Advanced calls a a.op.2 := withOps h _

theorem spooledFiles (h : a.InFifo calls) : Advanced calls a a.spooledFiles.2 :=
  of_bookkeeping h fun _ hok => List.mem_of_mem_tail hok

theorem unblock (h : a.InFifo calls) : Advanced calls a a.unblock := of_bookkeeping h fun _ hok => hok

theorem publishStatusLocked (h : a.InFifo calls) : Advanced calls a a.publishStatusLocked := by
  have hs : Advanced calls a a.statusLocked.2 := spooledFiles h
  unfold RawArchive.publishStatusLocked
  generalize a.statusLocked = r at hs ⊢
  dsimp only at hs ⊢
  split_ifs
  · exact hs
  · exact hs.trans (of_bookkeeping hs.fifo fun _ hok => hok)
  · exact hs.trans (op hs.fifo)

theorem drop {q : Line} {s p t : List Line} (h : a.InFifo calls) (hq : a.Settled q)
    (hold : a.spool ++ a.pending = q :: t) (hnew : s ++ p = t) :
    Advanced calls a { a with spool := s, pending := p } where
  disposed := rfl
  number := rfl
  answers := rfl
  scans _ hok := hok
  fifo := by
    refine Fifo.sublist h (?_ : (s ++ p).Sublist (a.spool ++ a.pending))
    rw [hold,hnew]
    exact List.sublist_cons_self q t
  settled _ hx := hx
  keeps x hx := by
    rcases hx with hx | hx
    · exact .inl hx
    · have hx : x ∈ q :: t := hold ▸ List.mem_append.mpr hx
      rcases List.mem_cons.mp hx with rfl | hx
      · exact .inl hq
      · exact .inr (List.mem_append.mp (hnew ▸ hx : x ∈ s ++ p))

end Advanced

theorem Settled.write {a : RawArchive} {x : Line} (h : a.Settled x) {d : Destination} {q : Line} {bytes : List Nat}
    {k : Nat} : (a.write d q bytes k).Settled x := by
  rcases h with h | ⟨d',hp,h⟩
  · exact .inl h
  · refine .inr ⟨d',hp,?_⟩
    simp only [RawArchive.write]
    by_cases hd : d' = d
    · subst hd
      rw [Function.update_self]
      exact h.write
    · rw [Function.update_of_ne hd]
      exact h

section
variable {calls : Nat} {a : RawArchive} {q : Line}

theorem Advanced.write (h : a.InFifo calls) {d : Destination} (hq : q.call < calls)
    (hfront : ∀ x ∈ a.spool ++ a.pending, q.call ≤ x.call)
    (hadm : Admits Entry.line Line.call Entry.whole (a.files d).entries q) (bytes : List Nat) {k : Nat} :
    Advanced calls a (a.write d q bytes k) where
  disposed := rfl
  number := rfl
  answers := rfl
  scans _ hok := hok
  fifo := Fifo.write h hq hfront hadm
  settled _ hx := hx.write
  keeps _ hx := hx.imp (fun hx => hx.write) id

/-- An attempt to append a line: it leaves the queues alone, an answer settles the line, and only the
file system refuses it. -/
structure Attempted (calls : Nat) (a : RawArchive) (q : Line) (r : Except Raised Bool) (b : RawArchive) : Prop where
  advanced : Advanced calls a b
  spool : b.spool = a.spool
  pending : b.pending = a.pending
  settled : ∀ v, r = .ok v → b.Settled q
  refused : ∀ e, r = .error e → e = .osError

theorem appendArchiveLine_attempted (h : a.InFifo calls) (hq : q.call < calls) (hp : q.publishable = true)
    (hfront : ∀ x ∈ a.spool ++ a.pending, q.call ≤ x.call)
    (hadm : ∀ d, q.path = .ok d → Admits Entry.line Line.call Entry.whole (a.files d).entries q) :
    Attempted calls a q (a.appendArchiveLine q).1 (a.appendArchiveLine q).2 := by
  have hc := appendArchiveLine_cases a q
  have hops := Advanced.withOps h
  generalize a.appendArchiveLine q = r at hc
  obtain ⟨r,b⟩ := r
  cases hc with
  | unpublishable hn => cases hn.symm.trans hp
  | failed => exact ⟨hops _,rfl,rfl,fun _ h => (by cases h),fun _ h => (Except.error.inj h).symm⟩
  | suppressed hd => exact ⟨hops _,rfl,rfl,fun _ _ => .inl hd,fun _ h => by cases h⟩
  | @torn ops d bytes k hd he =>
    exact ⟨(hops ops).trans (.write (hops ops).fifo hq hfront (hadm d hd) bytes),rfl,rfl,fun _ h => (by cases h),
      fun _ h => (Except.error.inj h).symm⟩
  | @done ops d bytes hd he =>
    refine ⟨(hops ops).trans (.write (hops ops).fifo hq hfront (hadm d hd) bytes),rfl,rfl,fun _ _ => .inr ⟨d,hd,?_⟩,
      fun _ h => by cases h⟩
    change (Function.update a.files d ((a.files d).write q bytes (bytes.length + 2)) d).Holds q
    rw [Function.update_self]
    exact LineFile.holds_write_all he

theorem appendArchiveLine_queues : (a.appendArchiveLine q).2.spool = a.spool ∧
    (a.appendArchiveLine q).2.pending = a.pending := by
  have hc := appendArchiveLine_cases a q
  generalize a.appendArchiveLine q = r at hc
  obtain ⟨r,b⟩ := r
  cases hc <;> exact ⟨rfl,rfl⟩

end

end RawArchive

end Yeoman.Archive
