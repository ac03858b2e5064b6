import Yeoman.Consciousness.MaterialLedger
import Yeoman.Library.Inflation

/-! What a restart does to the material ledger. The backfill runs on every open, over the claims
and dispositions the current code writes as well, and only ever raises a number or adds a row. -/
namespace Yeoman.Consciousness
open Library Table

namespace ChatRevision

def values (r : ChatRevision) : Nat × Nat × Nat := (r.revision, r.consideredRevision, r.shadowConsideredRevision)

/-- No number of the row is smaller. -/
structure Le (r q : ChatRevision) : Prop where
  revision : r.revision ≤ q.revision
  considered : ∀ lane, r.considered lane ≤ q.considered lane
variable (r : ChatRevision)

theorem Le.refl : r.Le r := ⟨Nat.le_refl _,fun _ => Nat.le_refl _⟩

theorem Le.trans {r q p : ChatRevision} (h : r.Le q) (h' : q.Le p) : r.Le p :=
  ⟨h.revision.trans h'.revision,fun lane => (h.considered lane).trans (h'.considered lane)⟩

theorem values_eq_of_le {r q : ChatRevision} (h : r.Le q) (h' : q.Le r) : r.values = q.values := by
  have hp := Nat.le_antisymm (h.considered .production) (h'.considered .production)
  have hs := Nat.le_antisymm (h.considered .shadow) (h'.considered .shadow)
  exact Prod.ext (Nat.le_antisymm h.revision h'.revision) (Prod.ext hp hs)

theorem le_of_values_eq {r q : ChatRevision} (h : r.values = q.values) : r.Le q := by
  obtain ⟨hr,hc⟩ := Prod.mk.inj h
  obtain ⟨hp,hs⟩ := Prod.mk.inj hc
  refine ⟨Nat.le_of_eq hr,?_⟩
  rintro (_ | _)
  · exact Nat.le_of_eq hp
  · exact Nat.le_of_eq hs
variable {revision : Nat}

theorem le_considerAtLeast (lane : Lane) (nowMs : Int) : r.Le (r.considerAtLeast lane revision nowMs) := by
  cases lane with
  | production => exact ⟨Nat.le_refl _,fun | .production => Nat.le_max_left _ _ | .shadow => Nat.le_refl _⟩
  | shadow => exact ⟨Nat.le_refl _,fun | .production => Nat.le_refl _ | .shadow => Nat.le_max_left _ _⟩

theorem considerAtLeast_le {r : ChatRevision} {lane : Lane} {nowMs : Int}
    (h : revision ≤ r.considered lane) : (r.considerAtLeast lane revision nowMs).Le r := by
  cases lane with
  | production =>
    exact ⟨Nat.le_refl _,fun | .production => Nat.max_le.mpr ⟨Nat.le_refl _,h⟩ | .shadow => Nat.le_refl _⟩
  | shadow =>
    exact ⟨Nat.le_refl _,fun | .production => Nat.le_refl _ | .shadow => Nat.max_le.mpr ⟨Nat.le_refl _,h⟩⟩

end ChatRevision

namespace MaterialLedger
variable {l l' : MaterialLedger} {chat k : ChatKey} {nowMs : Int}

structure Grows (l l' : MaterialLedger) : Prop where
  chats : ∀ chat r, l.chatRow chat = some r → ∃ q, l'.chatRow chat = some q ∧ r.Le q
  sources : l.sources <+: l'.sources

theorem Grows.refl (l : MaterialLedger) : Grows l l := ⟨fun _ r h => ⟨r,h,.refl r⟩,List.prefix_refl _⟩

theorem Grows.trans {l'' : MaterialLedger} (h : Grows l l') (h' : Grows l' l'') : Grows l l'' := by
  refine ⟨?_,h.sources.trans h'.sources⟩
  intro chat r hr
  obtain ⟨q,hq,hle⟩ := h.chats chat r hr
  obtain ⟨p,hp,hle'⟩ := h'.chats chat q hq
  exact ⟨p,hp,hle.trans hle'⟩

theorem Grows.considered (h : Grows l l') {lane : Lane} : l.considered chat lane ≤ l'.considered chat lane := by
  unfold MaterialLedger.considered
  cases hr : l.chatRow chat with
  | none => exact Nat.zero_le _
  | some r =>
    obtain ⟨q,hq,hle⟩ := h.chats chat r hr
    rw [hq]
    exact hle.considered lane

theorem Grows.sources_eq (h : Grows l l') (h' : Grows l' l) : l'.sources = l.sources :=
  (h'.sources.eq_of_length_le h.sources.length_le)

theorem amend_grows {f : ChatRevision → ChatRevision} (hf : ∀ r, (f r).key = r.key)
    (hle : ∀ r, l.chatRow chat = some r → r.Le (f r)) : Grows l ((l.ensureChatRevisionRow chat nowMs).updateChat chat f) := by
  refine ⟨?_,List.prefix_refl _⟩
  intro k r hr
  rw [chatRow_amend hf]
  split_ifs with hk
  · subst hk
    rw [hr]
    exact ⟨_,rfl,hle r hr⟩
  · exact ⟨r,hr,.refl r⟩

theorem markConsidered_grows (chat : ChatKey) (nowMs observed : Int) (lane : Lane) (l : MaterialLedger) :
    Grows l (l.markConsidered chat nowMs observed lane) := by
  unfold markConsidered
  split
  · exact .refl l
  · exact amend_grows (ChatRevision.key_considerAtLeast lane _ nowMs) fun r _ => r.le_considerAtLeast lane nowMs

theorem markConsidered_fixed (chat : ChatKey) (nowMs : Int) (observed : Nat) (lane : Lane) (l : MaterialLedger) :
    Grows (l.markConsidered chat nowMs observed lane) l ↔ observed ≤ l.considered chat lane := by
  unfold markConsidered
  split_ifs with hn
  · have : observed = 0 := by omega
    exact ⟨fun _ => by omega,fun _ => .refl l⟩
  · rw [Int.toNat_natCast]
    constructor
    · intro h
      have hrow := @chatRow_amend chat chat nowMs _ (ChatRevision.key_considerAtLeast lane observed nowMs) l
      rw [if_pos rfl] at hrow
      obtain ⟨q,hq,hle⟩ := h.chats chat _ hrow
      have hc := hle.considered lane
      rw [ChatRevision.considered_considerAtLeast] at hc
      rw [considered,hq]
      exact (Nat.le_max_right _ _).trans hc
    · intro h
      refine ⟨?_,List.prefix_refl _⟩
      intro k r hr
      rw [chatRow_amend (ChatRevision.key_considerAtLeast lane observed nowMs)] at hr
      split_ifs at hr with hk
      · subst hk
        cases hq : l.chatRow k with
        | none =>
          rw [considered,hq] at h
          have : observed = 0 := Nat.le_zero.mp h
          omega
        | some q =>
          rw [considered,hq] at h
          rw [hq] at hr
          cases hr
          exact ⟨q,rfl,ChatRevision.considerAtLeast_le h⟩
      · exact ⟨r,hr,.refl r⟩
variable {observed : Nat}

theorem insertSource_grows {id : String} {revision : Nat} : Grows l (l.insertSource chat nowMs id revision) := by
  refine ⟨fun _ r hr => ⟨r,hr,.refl r⟩,?_⟩
  unfold insertSource insertIgnore
  dsimp only
  split
  · exact List.prefix_refl _
  · exact List.prefix_append _ _

variable {id : String}

theorem sources_insertSource (h : l.registered chat id = none) {revision : Nat} :
    (l.insertSource chat nowMs id revision).sources.length = l.sources.length + 1 := by
  have hn : lookup SourceRevision.key (chat, id) l.sources = none := Option.map_eq_none_iff.mp h
  unfold insertSource insertIgnore
  change List.length (if (lookup SourceRevision.key (chat, id) l.sources).isSome then _ else _) = _
  rw [hn,if_neg (by decide),List.length_append]
  rfl

theorem setRevisionAtLeast_grows {revision : Nat} : Grows l (l.setRevisionAtLeast chat nowMs revision) := by
  apply amend_grows
  · exact fun _ => rfl
  · exact fun _ _ => ⟨Nat.le_max_left _ _,fun | .production => Nat.le_refl _ | .shadow => Nat.le_refl _⟩

theorem allocateSourceRevision_grows : Grows l (l.allocateSourceRevision chat nowMs).2 := by
  apply amend_grows
  · exact fun _ => rfl
  · intro r hr
    refine ⟨?_,fun | .production => Nat.le_refl _ | .shadow => Nat.le_refl _⟩
    rw [revision_ensure,revision,hr]
    exact Nat.le_succ _

inductive Enters (chat : ChatKey) (id : String) (l : MaterialLedger) : Nat × MaterialLedger → Prop
  | known {revision : Nat} (h : l.registered chat id = some revision) : Enters chat id l (revision, l)
  | fresh {p : Nat × MaterialLedger} (h : l.registered chat id = none) (hg : Grows l p.2)
      (hs : p.2.sources.length = l.sources.length + 1) : Enters chat id l p

theorem Enters.grows {p : Nat × MaterialLedger} (h : Enters chat id l p) : Grows l p.2 := by
  cases h with
  | known => exact .refl l
  | fresh _ hg => exact hg

theorem ensureSourceRevision_enters : Enters chat id l (l.ensureSourceRevision chat nowMs id) := by
  unfold ensureSourceRevision
  cases h : l.registered chat id with
  | some revision => exact .known h
  | none => exact .fresh h (allocateSourceRevision_grows.trans insertSource_grows) (sources_insertSource h)

theorem backfillSource_enters : Enters chat id l (backfillSource chat nowMs observed l id) := by
  unfold backfillSource
  cases h : l.registered chat id with
  | some revision => exact .known h
  | none =>
    dsimp only
    split
    · exact .fresh h (setRevisionAtLeast_grows.trans insertSource_grows) (sources_insertSource h)
    · exact .fresh h ((allocateSourceRevision_grows.trans setRevisionAtLeast_grows).trans insertSource_grows)
        (sources_insertSource h)

def registerAll (f : MaterialLedger → String → Nat × MaterialLedger) (start : Nat × MaterialLedger) (ids : List String) :
    Nat × MaterialLedger :=
  ids.foldl (fun (highest, l) id =>
    let (revision, l) := f l id
    (max highest revision, l)) start

section RegisterAll
variable {f : MaterialLedger → String → Nat × MaterialLedger} (hf : ∀ l id, Enters chat id l (f l id))
include hf

theorem registerAll_grows (start : Nat × MaterialLedger) (ids : List String) : Grows start.2 (registerAll f start ids).2 := by
  induction ids generalizing start with
  | nil => exact .refl _
  | cons id ids ih =>
    refine Grows.trans ?_ (ih _)
    exact (hf start.2 id).grows

/-- There is a new row for some source, or all were registered and the highest revision stays below
any bound of them all. -/
theorem registerAll_cases (h c : Nat) (ids : List String) :
    (l.sources.length < (registerAll f (h, l) ids).2.sources.length ∧ ∃ id ∈ ids, l.registered chat id = none) ∨
    (registerAll f (h, l) ids).2 = l ∧ ((registerAll f (h, l) ids).1 ≤ c ↔
      h ≤ c ∧ ∀ id ∈ ids, ∃ revision, l.registered chat id = some revision ∧ revision ≤ c) := by
  induction ids generalizing h with
  | nil => exact .inr ⟨rfl,by simp [registerAll]⟩
  | cons id ids ih =>
    have hr := hf l id
    have hgrow := (registerAll_grows hf (max h (f l id).1, (f l id).2) ids).sources.length_le
    rw [registerAll,List.foldl_cons]
    dsimp only
    generalize f l id = p at hr hgrow ⊢
    cases hr with
    | fresh hn _ hs => exact .inl ⟨Nat.lt_of_lt_of_le (Nat.lt_of_succ_le hs.ge) hgrow,id,List.mem_cons_self,hn⟩
    | @known revision hk =>
      rcases ih (max h revision) with ⟨hlt,id',hm,hn⟩ | ⟨hl,hc⟩
      · exact .inl ⟨hlt,id',List.mem_cons_of_mem _ hm,hn⟩
      · refine .inr ⟨hl,hc.trans ?_⟩
        simp [hk,and_assoc]

theorem registerAll_fixed {lane : Lane} {h : Nat} {ids : List String} :
    Grows ((registerAll f (h, l) ids).2.markConsidered chat nowMs (registerAll f (h, l) ids).1 lane) l ↔
      h ≤ l.considered chat lane ∧ ∀ id ∈ ids, ∃ revision, l.registered chat id = some revision ∧
        revision ≤ l.considered chat lane := by
  rcases registerAll_cases hf h (l.considered chat lane) ids with ⟨hlt,id,hm,hn⟩ | ⟨hl,hc⟩
  · refine iff_of_false (fun hg => ?_) fun hc => ?_
    · exact hlt.not_ge ((markConsidered_grows ..).trans hg).sources.length_le
    · obtain ⟨_,hr,-⟩ := hc.2 id hm
      cases hn.symm.trans hr
  · rw [hl,markConsidered_fixed,hc]

end RegisterAll

def Covers (l : MaterialLedger) : LegacyRow → Prop
  | .disposition d => d.observedRevision.toNat ≤ l.considered d.chat d.considersLane ∧
      ∀ id ∈ sourceIds d.sourceIds, ∃ revision, l.registered d.chat id = some revision ∧
        revision ≤ l.considered d.chat d.considersLane
  | .claim c => ∀ p ∈ c.considers, ∃ revision, l.registered c.chat p.2 = some revision ∧
      revision ≤ l.considered c.chat p.1

theorem backfill_grows (nowMs : Int) (l : MaterialLedger) (row : LegacyRow) : Grows l (l.backfill nowMs row) := by
  cases row with
  | disposition d =>
    exact (registerAll_grows (fun _ _ => backfillSource_enters) (_, l) _).trans (markConsidered_grows ..)
  | claim c =>
    rw [backfill,backfillClaim]
    split
    · exact .refl l
    · exact ensureSourceRevision_enters.grows.trans (markConsidered_grows ..)

theorem backfill_fixed (nowMs : Int) (l : MaterialLedger) (row : LegacyRow) :
    Grows (l.backfill nowMs row) l ↔ l.Covers row := by
  cases row with
  | disposition d => exact registerAll_fixed fun _ _ => backfillSource_enters
  | claim c =>
    rw [backfill,backfillClaim,Covers]
    cases hc : c.considers with
    | none => exact ⟨fun _ _ hp => absurd hp (Option.not_mem_none _),fun _ => Grows.refl l⟩
    | some p =>
      -- a claim is a disposition of one source that observed nothing
      have h := @registerAll_fixed l c.chat nowMs _ (fun l id => @ensureSourceRevision_enters l c.chat nowMs id) p.1 0 [p.2]
      simpa [registerAll] using h

theorem Covers.congr {row : LegacyRow} (h : Grows l l') (h' : Grows l' l) (hc : l.Covers row) : l'.Covers row := by
  have hreg : ∀ chat id, l'.registered chat id = l.registered chat id := by
    intro chat id
    unfold registered
    rw [h.sources_eq h']
  have hcons : ∀ chat lane, l'.considered chat lane = l.considered chat lane := fun chat lane =>
    Nat.le_antisymm (h'.considered) (h.considered)
  cases row with
  | disposition | claim => simpa [Covers,hreg,hcons] using hc

/-- The numbers of every chat, the registered sources, and what every lane is offered are the same. -/
structure Unchanged (l l' : MaterialLedger) : Prop where
  chats : ∀ chat, (l'.chatRow chat).map ChatRevision.values = (l.chatRow chat).map ChatRevision.values
  sources : l'.sources = l.sources
  material : ∀ chat lane, l'.materialForOpportunity chat none lane = l.materialForOpportunity chat none lane

theorem unchanged_iff_grows (h : Grows l l') : Unchanged l l' ↔ Grows l' l := by
  constructor
  · intro hu
    refine ⟨?_,hu.sources ▸ List.prefix_refl _⟩
    intro chat q hq
    have hv := hu.chats chat
    rw [hq] at hv
    obtain ⟨r,hr,hrv⟩ := Option.map_eq_some_iff.mp hv.symm
    exact ⟨r,hr,ChatRevision.le_of_values_eq hrv.symm⟩
  · intro hb
    have hs := h.sources_eq hb
    have hc : ∀ chat lane, l'.considered chat lane = l.considered chat lane := fun chat lane =>
      Nat.le_antisymm (hb.considered) (h.considered)
    refine ⟨?_,hs,?_⟩
    · intro chat
      cases hr : l.chatRow chat with
      | some r =>
        obtain ⟨q,hq,hle⟩ := h.chats chat r hr
        obtain ⟨r',hr',hle'⟩ := hb.chats chat q hq
        cases hr.symm.trans hr'
        rw [hq]
        exact congrArg some (ChatRevision.values_eq_of_le hle' hle)
      | none =>
        cases hq : l'.chatRow chat with
        | none => rfl
        | some q =>
          obtain ⟨r,hr',-⟩ := hb.chats chat q hq
          cases hr.symm.trans hr'
    · intro chat lane
      unfold materialForOpportunity
      rw [hs,hc]

/-- Opening the ledger again changes nothing exactly if the watermarks already cover every recorded
disposition and every claim: each source they name is registered, with a revision that the
watermark of their lane has reached, and so has the revision a disposition observed. -/
theorem reopen_unchanged_iff (nowMs : Int) (l : MaterialLedger) :
    Unchanged l (l.reopen nowMs) ↔
      (∀ d ∈ l.dispositions, d.observedRevision.toNat ≤ l.considered d.chat d.considersLane ∧
        ∀ id ∈ sourceIds d.sourceIds, ∃ revision, l.registered d.chat id = some revision ∧
          revision ≤ l.considered d.chat d.considersLane) ∧
      ∀ c ∈ l.claims, ∀ p ∈ c.considers, ∃ revision, l.registered c.chat p.2 = some revision ∧
        revision ≤ l.considered c.chat p.1 := by
  have hgrows : Grows l (l.reopen nowMs) :=
    Inflation.le_foldl Grows.refl (fun _ _ _ => Grows.trans) (backfill_grows nowMs) l l.legacyRows
  have hfixed := Inflation.foldl_fixed_iff Grows.refl (fun _ _ _ => Grows.trans) (backfill_grows nowMs)
    (backfill_fixed nowMs) (fun _ _ _ h h' => Covers.congr h h') l l.legacyRows
  have hrows : (∀ row ∈ l.legacyRows, l.Covers row) ↔
      (∀ d ∈ l.dispositions, l.Covers (.disposition d)) ∧ ∀ c ∈ l.claims, l.Covers (.claim c) := by
    simp only [legacyRows,orderBy,List.mem_append,List.mem_map,List.mem_insertionSort]
    constructor
    · intro h
      exact ⟨fun d hd => h _ (.inl ⟨d,hd,rfl⟩),fun c hc => h _ (.inr ⟨c,hc,rfl⟩)⟩
    · rintro ⟨hd,hc⟩ row (⟨d,hm,rfl⟩ | ⟨c,hm,rfl⟩)
      · exact hd d hm
      · exact hc c hm
  exact (unchanged_iff_grows hgrows).trans (hfixed.trans hrows)

/-- Two sources are registered, one of them is claimed, and the process ends before the offer is
answered. After the restart the claim counts as considered, and neither source is offered again. -/
theorem claim_hides_material :
    let l := after [.ensureSourceRevisions ("whatsapp", "room") ["a", "b"] 1,
      .claimSource ("whatsapp", "room") "b" 1 "production" "participation" 2]
    l.materialForOpportunity ("whatsapp", "room") none .production = (["a", "b"], 2) ∧
    (l.reopen 3).materialForOpportunity ("whatsapp", "room") none .production = ([], 2) ∧
    l.considered ("whatsapp", "room") .production = 0 ∧
    (l.reopen 3).considered ("whatsapp", "room") .production = 2 := by
  decide +kernel

end MaterialLedger
end Yeoman.Consciousness
