import Yeoman.Processing.ProbePlans

/-! The late delivery evidence of an effect: what the signals of its provider message report, and
the scan that keeps a report from being attached twice. -/
namespace Yeoman.Processing
open Library Table Txn

def receiptEvidence (signals : List EventRow) : List (String × String) :=
  let reports := signals.map fun e =>
    let payload := (e.payloadJson.bind Dict.loads?).getD Dict.empty
    (lowerText ((payload.get "status").orElse (.str "")).toStr,
      ((payload.get "recipient_token").orElse (.str "unknown")).toStr)
  ((reports.filter (·.1 ∈ deliveredStatuses)).eraseDups).map fun r => (r.1, "recipient=" ++ r.2)

def Store.lateEvidence (s : Store) (effectId : String) : List (String × String) :=
  match s.transportReceipt? effectId, providerId (s.transportReceipt? effectId) with
  | some receipt, some messageId => receiptEvidence (s.deliverySignals receipt.channel receipt.chatId messageId)
  | _, _ => []

def attachLateEvidence (effectId : String) (nowMs : Int) : StoreM Unit := do
  let s ← Txn.read
  attachReceiptEvidence effectId (s.lateEvidence effectId) nowMs

def Store.Listed (s : Store) (effectId : String) : Prop :=
  ∃ r ∈ s.listEffects (fun _ => true) 500, r.effectId = effectId
deriving Decidable

def Store.Carries (s : Store) (effectId : String) (item : String × String) : Prop :=
  ∃ v ∈ s.evidence, v.effectId = effectId ∧ v.detail.getD "" = item.1 ++ ":" ++ item.2

variable {effectId : String} {nowMs : Int} {s s' : Store} {items : List (String × String)} {item : String × String}

private theorem known_iff : ((s.listEffects (fun _ => true) 500).any (fun r => r.effectId = effectId) &&
    s.evidence.any fun v => v.effectId = effectId && v.detail.getD "" = item.1 ++ ":" ++ item.2) = true ↔
      s.Listed effectId ∧ s.Carries effectId item := by
  simp [Store.Listed,Store.Carries]

theorem attach_known (hl : s.Listed effectId) (hc : s.Carries effectId item) :
    attachReceiptEvidence effectId (item :: items) nowMs s = attachReceiptEvidence effectId items nowMs s := by
  refine bind_of_ok (a := ()) ?_
  simp only [read_bind_apply]
  rw [if_pos (known_iff.mpr ⟨hl,hc⟩)]
  rfl

theorem attach_cons (h : attachReceiptEvidence effectId (item :: items) nowMs s = (.ok (), s')) :
    (s.Listed effectId ∧ s.Carries effectId item ∧ attachReceiptEvidence effectId items nowMs s = (.ok (), s')) ∨
    ∃ row : EvidenceRow, row.effectId = effectId ∧ row.detail = some (item.1 ++ ":" ++ item.2) ∧
      attachReceiptEvidence effectId items nowMs { s with evidence := s.evidence ++ [row] } = (.ok (), s') := by
  by_cases hk : s.Listed effectId ∧ s.Carries effectId item
  · rw [attach_known hk.1 hk.2] at h
    exact .inl ⟨hk.1,hk.2,h⟩
  · obtain ⟨_,m,hm,h⟩ := bind_ok h
    simp only [read_bind_apply] at hm
    rw [if_neg (mt known_iff.mp hk)] at hm
    have hm := atomically_ok hm
    rw [read_bind_apply] at hm
    cases hr : s.effect? effectId with
    | none => rw [hr] at hm; cases hm
    | some row =>
      rw [hr] at hm
      cases hm
      exact .inr ⟨_,rfl,rfl,h⟩

theorem attach_evidence (h : attachReceiptEvidence effectId items nowMs s = (.ok (), s')) :
    s.evidence <+: s'.evidence := by
  induction items generalizing s with
  | nil =>
    cases h
    exact List.prefix_rfl
  | cons item items ih =>
    rcases attach_cons h with ⟨_,_,h⟩ | ⟨row,_,_,h⟩
    · exact ih h
    · exact (List.prefix_append _ [row]).trans (ih h)

theorem Store.Carries.mono (h : s.Carries effectId item) (hp : s.evidence <+: s'.evidence) :
    s'.Carries effectId item := by
  obtain ⟨v,hv,hc⟩ := h
  exact ⟨v,hp.subset hv,hc⟩

theorem attach_carries (h : attachReceiptEvidence effectId items nowMs s = (.ok (), s')) :
    ∀ item ∈ items, s'.Carries effectId item := by
  induction items generalizing s with
  | nil => exact nofun
  | cons item items ih =>
    rcases attach_cons h with ⟨_,hc,h⟩ | ⟨row,he,hd,h⟩
    · exact List.forall_mem_cons.mpr ⟨hc.mono (attach_evidence h),ih h⟩
    · refine List.forall_mem_cons.mpr ⟨?_,ih h⟩
      exact ⟨row,(attach_evidence h).subset List.mem_concat_self,he,by rw [hd]; rfl⟩

theorem attach_none (hl : s.Listed effectId) (hc : ∀ item ∈ items, s.Carries effectId item) :
    attachReceiptEvidence effectId items nowMs s = (.ok (), s) := by
  induction items with
  | nil => rfl
  | cons item items ih =>
    obtain ⟨hi,hc⟩ := List.forall_mem_cons.mp hc
    rw [attach_known hl hi,ih hc]

/-- A second run changes nothing exactly when there is nothing to report or the effect is among
the first five hundred of the listing. -/
theorem attach_twice_iff (effectId : String) (nowMs laterMs : Int) (s s' : Store)
    (h : attachLateEvidence effectId nowMs s = (.ok (), s')) :
    attachLateEvidence effectId laterMs s' = (.ok (), s') ↔ s.lateEvidence effectId = [] ∨ s.Listed effectId := by
  have hframe {β : Type} {π : Store → β} (hv : Tbl.evidence.Ignored π) : π s' = π s :=
    (attachReceiptEvidence_frame hv effectId (s.lateEvidence effectId) nowMs).ends h
  have hlate : s'.lateEvidence effectId = s.lateEvidence effectId :=
    hframe (π := fun s => s.lateEvidence effectId) fun _ _ => rfl
  have hlisted : s'.Listed effectId = s.Listed effectId := hframe (π := fun s => s.Listed effectId) fun _ _ => rfl
  rw [attachLateEvidence,read_bind_apply,hlate,← hlisted]
  constructor
  · intro hagain
    cases hi : s.lateEvidence effectId with
    | nil => exact .inl rfl
    | cons item items =>
      rw [hi] at hagain
      rcases attach_cons hagain with ⟨hl,_⟩ | ⟨row,_,_,hrest⟩
      · exact .inr hl
      · -- the run added a row of evidence
        have hlen := (attach_evidence hrest).length_le
        rw [List.length_append] at hlen
        exact absurd hlen (by simp)
  · rintro (hn | hl)
    · rw [hn]
      rfl
    · exact attach_none hl (attach_carries h)

def deliveredSignal : EventRow :=
  ⟨"e1","k1","",.receipt,"provider","whatsapp","c1","","",.inbound,1,none,none,some "wa1",none,none,none,"",
    some (Json.dumps (.obj [("status", .str "delivered")])),none,5⟩

def sentEffect (i : Nat) : EffectRow :=
  ⟨toString i,toString i,"","",1,"","send","","","text","",none,none,.sent,none,none,none,none,none,.legacy,none,i,i⟩

def deliveredAfter (n : Nat) : Store :=
  { Store.empty with
    events := [deliveredSignal]
    effects := (List.range (n + 1)).map sentEffect
    receipts := [⟨"r1",toString n,none,"whatsapp","c1",some "wa1",none,4,none⟩] }

/-- The delivery of an effect behind five hundred others is attached again by a second run. -/
theorem unlisted_effect_attached_twice :
    let first := attachLateEvidence "500" 10 (deliveredAfter 500)
    first.2.evidence.length = 1 ∧ (attachLateEvidence "500" 20 first.2).2.evidence.length = 2 := by
  decide +kernel

theorem listed_effect_attached_once : ∃ s, attachLateEvidence "0" 10 (deliveredAfter 0) = (.ok (), s) ∧
    attachLateEvidence "0" 20 s = (.ok (), s) := by
  have hl : (deliveredAfter 0).Listed "0" := by decide +kernel
  have hok : (attachLateEvidence "0" 10 (deliveredAfter 0)).1 = .ok () := by decide +kernel
  generalize hs : attachLateEvidence "0" 10 (deliveredAfter 0) = first at hok ⊢
  obtain ⟨r,s⟩ := first
  cases (hok : r = .ok ())
  exact ⟨s,rfl,(attach_twice_iff "0" 10 20 (deliveredAfter 0) s hs).mpr (.inr hl)⟩

end Yeoman.Processing
