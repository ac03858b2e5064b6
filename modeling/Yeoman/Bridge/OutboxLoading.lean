import Yeoman.Bridge.Outbox

/-! What opening the outbox finds: of a directory that only this outbox has written, exactly the
files that were written to their end, by their sequence. -/
namespace Yeoman.Bridge
open Library

namespace OutboxFile

def entry? (f : OutboxFile) : Option OutboxEntry := f.content.map fun e => ⟨f.name.sequence,f.name,e⟩

def Fits (f : OutboxFile) : Prop :=
  ∀ e ∈ f.content, 1 ≤ f.name.sequence ∧ f.name = { fileNameFor f.name.sequence e with staged := f.name.staged } ∧
    e.serializedBytes ≤ maxBridgeFrameBytes

end OutboxFile

def OutboxEntry.file (x : OutboxEntry) : OutboxFile := ⟨x.fileName,some x.event⟩

def entriesOf (d : List OutboxFile) : List OutboxEntry := d.filterMap OutboxFile.entry?

def recordsOf (d : List OutboxFile) : List (Nat × ReplayableBridgeEvent) := (entriesOf d).map OutboxEntry.record

/-- A directory as the outbox leaves it: files in the order in which they were written, one per
event. -/
structure Tidy (written : List (Nat × ReplayableBridgeEvent)) (d : List OutboxFile) : Prop where
  increasing : d.Pairwise fun f g => f.name.sequence < g.name.sequence
  distinct : Table.Unique OutboxEntry.eventId (entriesOf d)
  fits : ∀ f ∈ d, f.Fits
  written : (recordsOf d).Sublist written

theorem entriesOf_append {d d' : List OutboxFile} : entriesOf (d ++ d') = entriesOf d ++ entriesOf d' :=
  List.filterMap_append

theorem entriesOf_file {xs : List OutboxEntry} (h : ∀ x ∈ xs, x.fileName.sequence = x.sequence) :
    entriesOf (xs.map OutboxEntry.file) = xs := by
  induction xs with
  | nil => rfl
  | cons x xs ih =>
    have hx : x.file.entry? = some x := by
      rw [OutboxFile.entry?,OutboxEntry.file,Option.map_some,h x List.mem_cons_self]
    rw [List.map_cons,entriesOf,List.filterMap_cons_some hx]
    exact congrArg (x :: ·) (ih fun y hy => h y (List.mem_cons_of_mem x hy))

namespace Tidy
variable {written : List (Nat × ReplayableBridgeEvent)} {d d' : List OutboxFile}

theorem nil : Tidy written [] :=
  ⟨.nil,List.nodup_nil,fun _ hf => absurd hf List.not_mem_nil,List.nil_sublist _⟩

theorem sublist (h : Tidy written d) (hs : d'.Sublist d) : Tidy written d' where
  increasing := h.increasing.sublist hs
  distinct := h.distinct.sublist ((hs.filterMap _).map _)
  fits f hf := h.fits f (hs.subset hf)
  written := ((hs.filterMap _).map _).trans h.written

theorem extend (h : Tidy written d) {more : List (Nat × ReplayableBridgeEvent)} : Tidy (written ++ more) d :=
  { h with written := h.written.trans (List.sublist_append_left _ _) }

theorem sequences (h : Tidy written d) : (entriesOf d).Pairwise fun x y => x.sequence < y.sequence := by
  refine List.Pairwise.filterMap _ ?_ h.increasing
  intro f g hlt x hx y hy
  obtain ⟨_,-,rfl⟩ := Option.map_eq_some_iff.mp hx
  obtain ⟨_,-,rfl⟩ := Option.map_eq_some_iff.mp hy
  exact hlt

theorem unique (h : Tidy written d) : Table.Unique (fun f => f.name.sequence) d :=
  List.pairwise_map.mpr (h.increasing.imp Nat.ne_of_lt)

end Tidy

namespace Scan
variable {d : List OutboxFile} {f : OutboxFile} {written : List (Nat × ReplayableBridgeEvent)}

theorem visit_torn (h : f.content = none) (s : Scan) : s.visit f = { s with rejected := s.rejected ++ [f.name] } := by
  rw [visit,h]

theorem visit_whole {x : OutboxEntry} (hx : f.entry? = some x) (hf : f.Fits) {s : Scan}
    (hs : x.sequence ∉ s.loaded.map OutboxEntry.sequence) (hi : x.eventId ∉ s.loaded.map OutboxEntry.eventId) :
    s.visit f = { s with loaded := s.loaded ++ [x] } := by
  obtain ⟨e,he,rfl⟩ := Option.map_eq_some_iff.mp hx
  obtain ⟨hp,hn,hb⟩ := hf e he
  rw [visit,he]
  dsimp only
  rw [if_neg]
  rintro (h | h | h | h | h)
  · omega
  · exact h hn
  · omega
  · exact hs h
  · exact hi h

theorem foldl_visit (d : List OutboxFile) (s : Scan) (hf : ∀ f ∈ d, f.Fits)
    (hs : ((s.loaded ++ entriesOf d).map OutboxEntry.sequence).Nodup)
    (hi : ((s.loaded ++ entriesOf d).map OutboxEntry.eventId).Nodup) :
    d.foldl visit s =
      ⟨s.loaded ++ entriesOf d,s.rejected ++ (d.filter fun f => f.content.isNone).map OutboxFile.name⟩ := by
  induction d generalizing s with
  | nil => simp [entriesOf]
  | cons f d ih =>
    have hrest : ∀ g ∈ d, g.Fits := fun g hg => hf g (List.mem_cons_of_mem f hg)
    rw [List.foldl_cons]
    cases hx : f.entry? with
    | none =>
      have hn : f.content = none := Option.map_eq_none_iff.mp hx
      have he : entriesOf (f :: d) = entriesOf d := List.filterMap_cons_none hx
      rw [he] at hs hi ⊢
      rw [visit_torn hn,ih { s with rejected := s.rejected ++ [f.name] } hrest hs hi]
      simp [hn]
    | some x =>
      have hn : f.content.isNone = false := by
        obtain ⟨e,he,-⟩ := Option.map_eq_some_iff.mp hx
        rw [he]
        rfl
      have he : entriesOf (f :: d) = x :: entriesOf d := List.filterMap_cons_some hx
      rw [he] at hs hi ⊢
      have hfresh : ∀ {β : Type} {key : OutboxEntry → β}, ((s.loaded ++ x :: entriesOf d).map key).Nodup →
          key x ∉ s.loaded.map key := by
        intro β key h
        rw [List.map_append,List.map_cons] at h
        exact fun hm => (List.nodup_append.mp h).2.2 _ hm _ List.mem_cons_self rfl
      rw [visit_whole hx (hf f List.mem_cons_self) (hfresh hs) (hfresh hi),
        ih { s with loaded := s.loaded ++ [x] } hrest (by simpa using hs) (by simpa using hi)]
      simp [hn]

theorem perm_sorted (d : List OutboxFile) : (d.insertionSort fileLe).Perm d := List.perm_insertionSort _ _

theorem scan_tidy (h : Tidy written d) :
    scan d = ⟨entriesOf (d.insertionSort fileLe),
      ((d.insertionSort fileLe).filter fun f => f.content.isNone).map OutboxFile.name⟩ := by
  have hperm : (entriesOf (d.insertionSort fileLe)).Perm (entriesOf d) := (perm_sorted d).filterMap _
  have hscan := foldl_visit (d.insertionSort fileLe) {} (fun f hf => h.fits f ((perm_sorted d).mem_iff.mp hf))
    ((hperm.map _).nodup_iff.mpr (List.pairwise_map.mpr (h.sequences.imp Nat.ne_of_lt)))
    ((hperm.map _).nodup_iff.mpr h.distinct)
  exact hscan

/-- What is loaded, by sequence, is what was written to its end. -/
theorem listed_tidy (h : Tidy written d) : (scan d).loaded.insertionSort sequenceLe = entriesOf d := by
  rw [scan_tidy h]
  have hperm : ((entriesOf (d.insertionSort fileLe)).insertionSort sequenceLe).Perm (entriesOf d) :=
    (List.perm_insertionSort _ _).trans ((perm_sorted d).filterMap _)
  have hseq := h.sequences
  have hunique : Table.Unique OutboxEntry.sequence (entriesOf d) := List.pairwise_map.mpr (hseq.imp Nat.ne_of_lt)
  have htotal : Std.Total sequenceLe := ⟨fun x y => Nat.le_total x.sequence y.sequence⟩
  have htrans : IsTrans OutboxEntry sequenceLe := ⟨fun _ _ _ => Nat.le_trans⟩
  refine List.Perm.eq_of_pairwise ?_ (List.pairwise_insertionSort _ _) (hseq.imp Nat.le_of_lt) hperm
  intro x y hx hy hxy hyx
  exact hunique.eq_of_mem (hperm.mem_iff.mp hx) hy (Nat.le_antisymm hxy hyx)

theorem mem_rejected (h : Tidy written d) (hf : f ∈ d) : f.name ∈ (scan d).rejected ↔ f.content = none := by
  rw [scan_tidy h]
  constructor
  · intro hm
    obtain ⟨g,hg,hname⟩ := List.mem_map.mp hm
    obtain ⟨hg,hnone⟩ := List.mem_filter.mp hg
    have hsame := h.unique.eq_of_mem ((perm_sorted d).mem_iff.mp hg) hf (congrArg FileName.sequence hname)
    exact hsame ▸ Option.isNone_iff_eq_none.mp hnone
  · intro hn
    refine List.mem_map.mpr ⟨f,List.mem_filter.mpr ⟨(perm_sorted d).mem_iff.mpr hf,?_⟩,rfl⟩
    rw [hn]
    rfl

theorem entriesOf_unlink (h : Tidy written d) {names : List FileName}
    (hn : ∀ name ∈ names, name ∈ (scan d).rejected) : entriesOf (d.filter fun f => f.name ∉ names) = entriesOf d := by
  rw [entriesOf,List.filterMap_filter]
  refine List.filterMap_congr ?_
  intro f hf
  split_ifs with hm
  · rfl
  · have hnone := (mem_rejected h hf).mp (hn _ (by simpa using hm))
    rw [OutboxFile.entry?,hnone]
    rfl

theorem unlink_rejected (h : Tidy written d) :
    (d.filter fun f => f.name ∉ (scan d).rejected) = (entriesOf d).map OutboxEntry.file := by
  have hwhole : (d.filter fun f => f.name ∉ (scan d).rejected) = d.filter fun f => f.content.isSome := by
    refine List.filter_congr ?_
    intro f hf
    have hiff := mem_rejected h hf
    cases hc : f.content with
    | none | some => simp [hiff,hc]
  rw [hwhole]
  clear hwhole h
  induction d with
  | nil => rfl
  | cons f d ih =>
    unfold entriesOf
    obtain ⟨name,content⟩ := f
    cases content with
    | none =>
      exact ih
    | some e =>
      exact congrArg (⟨name,some e⟩ :: ·) ih

end Scan
end Yeoman.Bridge
