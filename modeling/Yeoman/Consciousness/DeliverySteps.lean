import Yeoman.Consciousness.DeliveryLedger

/-! What a call can do to the delivery ledger: the rows of one effect move together, and only
along the transitions of the delivery states. -/
namespace Yeoman.Consciousness
open Library Table Txn Runs

def LedgerCall.evidenced : LedgerCall → Option String
  | .recipientDelivery v => if v.kind ∈ recipientEvidenceKinds then some v.effectId else none
  | .record "delivered" v => if v.kind ∈ recipientEvidenceKinds then some v.effectId else none
  | _ => none

namespace DeliveryState

variable {d : DeliveryState}

theorem isAccepted_iff : d.isAccepted = true ↔ d = transportAccepted ∨ d = delivered := by
  cases d <;> decide

theorem pending_of_not (hc : ¬ d.isConsumed = true) (hr : ¬ d.isReleased = true) :
    d = reserved ∨ d = submitted := by
  revert hc hr
  cases d <;> decide

theorem isHeld_of_isReleased (h : d.isReleased = true) : d.isHeld = false := by
  revert h
  cases d <;> decide

theorem isAccepted_of_isReleased (h : d.isReleased = true) : d.isAccepted = false := by
  revert h
  cases d <;> decide

theorem isReleased_of_releasing {name : String} (h : releasing? name = some d) :
    d.isReleased = true := by
  unfold releasing? at h
  split at h <;> cases h <;> rfl

end DeliveryState

/-- The columns no projection writes. -/
def DeliveryRow.identity (r : DeliveryRow) :
    (String × String) × (String × String × Category) × (Int × Lane) :=
  ((r.proposalId, r.effectId), (r.channel, r.chatId, r.category), (r.createdAtMs, r.lane))

structure DeliveryRow.Advances (a : LedgerCall) (r r' : DeliveryRow) : Prop where
  identity : r'.identity = r.identity
  accepted : r.deliveryState.isAccepted = true →
    r'.deliveryState.isAccepted = true ∧ r'.acceptedAtMs = r.acceptedAtMs
  delivered : r.deliveryState = .delivered → r'.deliveryState = .delivered
  released : r'.deliveryState.isReleased = true →
    r'.deliveryState = r.deliveryState ∨ r.deliveryState = .reserved ∨ r.deliveryState = .submitted
  held : r'.deliveryState.isHeld = true → r.deliveryState.isHeld = true
  confirmed : r.deliveryState.isAccepted = false → r'.deliveryState.isAccepted = true →
    r'.acceptedAtMs = some a.nowMs ∧
    (r.deliveryState.isReleased = true → a.evidenced = some r.effectId)

theorem DeliveryRow.Advances.refl (a : LedgerCall) (r : DeliveryRow) : r.Advances a r where
  identity := rfl
  accepted h := ⟨h,rfl⟩
  delivered h := h
  released _ := .inl rfl
  held h := h
  confirmed h h' := absurd (h.symm.trans h') Bool.false_ne_true

/-- Rows have distinct keys, those of one effect are in one state, and confirmed sends are
dated. -/
structure Coherent (rows : List DeliveryRow) : Prop where
  keys : Table.Unique DeliveryRow.key rows
  states : ∀ r ∈ rows, ∀ q ∈ rows, r.effectId = q.effectId → r.deliveryState = q.deliveryState
  dated : ∀ r ∈ rows, r.deliveryState.isAccepted = true → r.acceptedAtMs.isSome = true

theorem Coherent.state_eq {rows : List DeliveryRow} (h : Coherent rows) {effectId : String} {row r : DeliveryRow}
    (hf : deliveryRowForEffect rows effectId = some row) (hr : r ∈ rows) (he : r.effectId = effectId) :
    r.deliveryState = row.deliveryState := by
  refine h.states r hr row (List.mem_of_find?_eq_some hf) (he.trans ?_)
  have hk := List.find?_some hf
  exact (of_decide_eq_true hk).symm

def Limit.Matches (l : Limit) (entry : LimitEntry) : Prop :=
  Category.ofName? entry.category = some l.category ∧ l.limit = entry.limit ∧
  l.windowMs = entry.windowMs ∧ l.windowKind = entry.windowKind

theorem ReserveDelivery.checkLimits_matches {limits : List LimitEntry} {checked : List Limit}
    (h : checkLimits limits = .ok (some checked)) :
    (∀ entry ∈ limits, ∃ l ∈ checked, l.Matches entry) ∧ ∀ l ∈ checked, ∃ entry ∈ limits, l.Matches entry := by
  induction limits generalizing checked with
  | nil =>
    cases h
    exact ⟨fun _ h => absurd h List.not_mem_nil,fun _ h => absurd h List.not_mem_nil⟩
  | cons entry limits ih =>
    rw [checkLimits] at h
    split at h
    · cases h
    next category hcat =>
      split at h
      · cases h
      · split at h
        · cases h
        · cases h
        next rest hrest =>
          cases h
          obtain ⟨hold,hnew⟩ := ih hrest
          have hhead : Limit.Matches ⟨category,entry.limit,entry.windowMs,entry.windowKind⟩ entry :=
            ⟨hcat,rfl,rfl,rfl⟩
          refine ⟨List.forall_mem_cons.mpr ⟨⟨_,List.mem_cons_self,hhead⟩,fun e he => ?_⟩,
            List.forall_mem_cons.mpr ⟨⟨entry,List.mem_cons_self,hhead⟩,fun l hl => ?_⟩⟩
          · obtain ⟨l,hl,hm⟩ := hold e he
            exact ⟨l,List.mem_cons_of_mem _ hl,hm⟩
          · obtain ⟨e,he,hm⟩ := hnew l hl
            exact ⟨e,List.mem_cons_of_mem _ he,hm⟩

/-- The outcomes of a reservation: nothing, or one row for each category of the limits. -/
inductive Acquired (c : ReserveDelivery) (rows : List DeliveryRow) : List DeliveryRow → Prop
  | unchanged : Acquired c rows rows
  | inserted (lane : Lane) (origin : DeliveryOrigin) (checked : List Limit) (new : List DeliveryRow)
      (hl : Lane.ofName? c.lane = some lane)
      (hc : ReserveDelivery.checkLimits c.limits = .ok (some checked))
      (hfree : ∀ r ∈ rows, r.standsFor c lane = false)
      (hcap : ∀ l ∈ checked, hasCapacity rows c l = true)
      (hnew : ∀ r ∈ new, ∃ l ∈ checked, r = c.row lane origin l)
      (hall : ∀ l ∈ checked, ∃ r ∈ new, r.category = l.category)
      (hu : Table.Unique DeliveryRow.key new) : Acquired c rows (rows ++ new)

inductive Outcome (a : LedgerCall) (rows : List DeliveryRow) : List DeliveryRow → Prop
  | unchanged : Outcome a rows rows
  | moved (effectId : String) (f : DeliveryRow → DeliveryRow)
      (hu : ∀ r q, r.deliveryState = q.deliveryState → (f r).deliveryState = (f q).deliveryState)
      (hm : ∀ r ∈ rows, r.effectId = effectId → r.Advances a (f r)) :
      Outcome a rows (updateWhere (fun r => r.effectId = effectId) f rows)
  | reserved (c : ReserveDelivery) (rows' : List DeliveryRow) (ha : a = .reserve c) (h : Acquired c rows rows') :
      Outcome a rows rows'

theorem DeliveryRow.effectId_ne_of_standsFor {c : ReserveDelivery} {lane : Lane} {r : DeliveryRow}
    (h : r.standsFor c lane = false) : r.effectId ≠ c.effect := by
  intro he
  rw [DeliveryRow.standsFor,decide_eq_true he,Bool.true_or] at h
  cases h

section
variable {rows : List DeliveryRow} (c : ReserveDelivery)

theorem acquire_acquired {lane : Lane} {origin : DeliveryOrigin} {checked : List Limit}
    (hl : Lane.ofName? c.lane = some lane) (hc : ReserveDelivery.checkLimits c.limits = .ok (some checked)) :
    Acquired c rows (acquire c lane origin checked rows).2 := by
  refine atomically_post .unchanged ?_
  rw [read_bind_apply]
  cases hf : rows.find? (DeliveryRow.standsFor c lane) with
  | some existing => exact .unchanged
  | none =>
    dsimp only
    split_ifs with hcap
    · rw [bind_of_ok (each_modify checked rows)]
      obtain ⟨new,he,hnew,hall,hu⟩ := foldl_insertIgnore DeliveryRow.key (c.row lane origin) checked rows
      have hfree : ∀ r ∈ rows, r.standsFor c lane = false := by simpa using hf
      have hstate : (checked.foldl (fun rows l => insertIgnore DeliveryRow.key (c.row lane origin l) rows)
          rows) = rows ++ new := he
      rw [pure_apply,hstate]
      refine .inserted lane origin checked new hl hc hfree (by simpa using hcap)
        (fun r hr => (hnew r hr).1) (fun l hm => ?_) hu
      obtain ⟨r,hr,hk⟩ := hall l hm
      have hkey : r.effectId = c.effect ∧ r.category = l.category := Prod.mk.injEq _ _ _ _ ▸ hk
      rcases List.mem_append.mp hr with hr | hr
      · exact absurd hkey.1 (DeliveryRow.effectId_ne_of_standsFor (hfree r hr))
      · exact ⟨r,hr,hkey.2⟩
    · exact .unchanged

theorem reserveDeliverySync_acquired : Acquired c rows (reserveDeliverySync c rows).2 := by
  unfold reserveDeliverySync
  by_cases hid : c.proposal ≠ "" ∧ c.effect ≠ ""
  · rw [require_bind_of_pos hid]
    split
    · exact .unchanged
    · cases DeliveryOrigin.ofName? c.origin with
      | none => exact .unchanged
      | some origin =>
        cases hl : Lane.ofName? c.lane with
        | none => exact .unchanged
        | some lane =>
          cases hc : ReserveDelivery.checkLimits c.limits with
          | error e => exact .unchanged
          | ok checked =>
            cases checked with
            | none => exact .unchanged
            | some checked => exact acquire_acquired c hl hc
  · rw [require_bind_of_neg hid]
    exact .unchanged

end

namespace DeliveryRow
variable {a : LedgerCall} {v : DeliveryEvidence} {r : DeliveryRow} {nowMs : Int}

theorem submit_advances (r : DeliveryRow) : r.Advances a (r.submit nowMs) := by
  unfold submit
  split_ifs with h
  · constructor <;> simp [h,DeliveryState.isAccepted,DeliveryState.isReleased,DeliveryState.isHeld,identity]
  · exact { Advances.refl a r with }

theorem accept_advances (hn : a.nowMs = v.nowMs) (ha : r.deliveryState.isAccepted = false)
    (hr : r.deliveryState.isReleased = false) : r.Advances a (r.accept v) where
  identity := rfl
  accepted h := absurd (ha.symm.trans h) Bool.false_ne_true
  delivered h := by rw [h] at ha; cases ha
  released h := absurd h Bool.false_ne_true
  held h := absurd h Bool.false_ne_true
  confirmed _ _ := ⟨congrArg some hn.symm,fun h => absurd (hr.symm.trans h) Bool.false_ne_true⟩

theorem deliver_advances (hn : a.nowMs = v.nowMs) (he : a.evidenced = some r.effectId)
    (hd : r.deliveryState ≠ .delivered)
    (hs : r.deliveryState.isAccepted = true → r.acceptedAtMs.isSome = true) :
    r.Advances a (r.deliver v) where
  identity := rfl
  accepted h := by
    have ht : r.deliveryState = .transportAccepted := (DeliveryState.isAccepted_iff.mp h).resolve_right hd
    obtain ⟨t,hat⟩ := Option.isSome_iff_exists.mp (hs h)
    refine ⟨rfl,?_⟩
    rw [deliver,if_pos ht,hat]
    rfl
  delivered h := absurd h hd
  released h := absurd h Bool.false_ne_true
  held h := absurd h Bool.false_ne_true
  confirmed ha _ := by
    have ht : r.deliveryState ≠ .transportAccepted := by
      rintro ht
      rw [ht] at ha
      cases ha
    refine ⟨?_,fun _ => he⟩
    rw [deliver,if_neg ht,hn]

theorem markUnknown_advances {kind ref : String}
    (hp : r.deliveryState = .reserved ∨ r.deliveryState = .submitted) : r.Advances a (r.markUnknown kind ref) := by
  rcases hp with hp | hp <;>
    constructor <;> simp [hp,markUnknown,DeliveryState.isAccepted,DeliveryState.isReleased,DeliveryState.isHeld,identity]

theorem release_advances {state : DeliveryState} {reason : String} (hs : state.isReleased = true)
    (hp : r.deliveryState = .reserved ∨ r.deliveryState = .submitted) :
    r.Advances a (r.release state reason nowMs) where
  identity := rfl
  accepted h := by rcases hp with hp | hp <;> rw [hp] at h <;> cases h
  delivered h := by rcases hp with hp | hp <;> rw [hp] at h <;> cases h
  released _ := .inr hp
  held h := absurd ((DeliveryState.isHeld_of_isReleased hs).symm.trans h) Bool.false_ne_true
  confirmed _ h := absurd ((DeliveryState.isAccepted_of_isReleased hs).symm.trans h) Bool.false_ne_true

end DeliveryRow

section
variable {rows : List DeliveryRow} {effectId : String} {nowMs : Int}

theorem recordSendAttempt_outcome {a : LedgerCall} : Outcome a rows (recordSendAttempt effectId nowMs rows).2 := by
  refine atomically_post .unchanged ?_
  rw [read_bind_apply,require_bind_apply]
  split
  · refine .moved effectId (DeliveryRow.submit nowMs) (fun r q h => ?_) fun r _ _ => r.submit_advances
    simp only [DeliveryRow.submit,h]
  · exact .unchanged
variable {a : LedgerCall} {v : DeliveryEvidence}

theorem projectTransportAccepted_outcome (h : Coherent rows)
    (hn : a.nowMs = v.nowMs) : Outcome a rows (projectTransportAccepted v rows).2 := by
  unfold projectTransportAccepted
  by_cases hk : v.kind ∈ transportEvidenceKinds
  · rw [require_bind_of_pos hk]
    refine atomically_post .unchanged ?_
    rw [read_bind_apply]
    cases hf : deliveryRowForEffect rows v.effectId with
    | none => exact .unchanged
    | some row =>
      dsimp only
      split
      · exact .unchanged
      next ha =>
        split_ifs with hr
        · exact .unchanged
        · refine .moved v.effectId (DeliveryRow.accept v) (fun _ _ _ => rfl) fun r hm he => ?_
          have hs := h.state_eq hf hm he
          rw [← hs,Bool.not_eq_true] at ha hr
          exact DeliveryRow.accept_advances hn ha hr
  · rw [require_bind_of_neg hk]
    exact .unchanged

theorem projectRecipientDelivery_outcome (h : Coherent rows)
    (hn : a.nowMs = v.nowMs) (he : v.kind ∈ recipientEvidenceKinds → a.evidenced = some v.effectId) :
    Outcome a rows (projectRecipientDelivery v rows).2 := by
  unfold projectRecipientDelivery
  by_cases hk : v.kind ∈ recipientEvidenceKinds
  · rw [require_bind_of_pos hk]
    refine atomically_post .unchanged ?_
    rw [read_bind_apply]
    cases hf : deliveryRowForEffect rows v.effectId with
    | none => exact .unchanged
    | some row =>
      dsimp only
      split_ifs with hd
      · exact .unchanged
      · refine .moved v.effectId (DeliveryRow.deliver v) (fun _ _ _ => rfl) fun r hm hid => ?_
        rw [← h.state_eq hf hm hid] at hd
        exact DeliveryRow.deliver_advances hn ((he hk).trans (congrArg some hid.symm)) hd (h.dated r hm)
  · rw [require_bind_of_neg hk]
    exact .unchanged

theorem noteDeliveryUnknown_outcome {kind ref : String} :
    Outcome a rows (noteDeliveryUnknown effectId kind ref rows).2 := by
  have he : (noteDeliveryUnknown effectId kind ref rows).2 =
      updateWhere (fun r => r.effectId = effectId)
        (fun r => if r.deliveryState = .reserved ∨ r.deliveryState = .submitted then r.markUnknown kind ref else r)
        rows := by
    refine List.map_congr_left fun r _ => ?_
    by_cases hid : r.effectId = effectId <;> simp [hid]
  rw [he]
  refine .moved effectId _ (fun r q h => ?_) fun r _ _ => ?_
  · rw [h]
    split
    · rfl
    · exact h
  · split_ifs with hp
    · exact DeliveryRow.markUnknown_advances hp
    · exact .refl a r
variable {state : String}

theorem releaseDelivery_outcome (h : Coherent rows) {reason : String}
    : Outcome a rows (releaseDelivery effectId state reason nowMs rows).2 := by
  unfold releaseDelivery
  cases hs : DeliveryState.releasing? state with
  | none => exact .unchanged
  | some released =>
    refine atomically_post .unchanged ?_
    rw [read_bind_apply]
    cases hf : deliveryRowForEffect rows effectId with
    | none => exact .unchanged
    | some row =>
      dsimp only
      split
      · exact .unchanged
      next hc =>
        split_ifs with hr
        · exact .unchanged
        · refine .moved effectId (DeliveryRow.release released reason nowMs) (fun _ _ _ => rfl) fun r hm he => ?_
          rw [← h.state_eq hf hm he] at hc hr
          exact DeliveryRow.release_advances (DeliveryState.isReleased_of_releasing hs)
            (DeliveryState.pending_of_not hc hr)

theorem recordDelivery_outcome (h : Coherent rows) :
    Outcome (.record state v) rows (recordDelivery state v rows).2 := by
  unfold recordDelivery
  rw [read_bind_apply]
  cases deliveryRowForEffect rows v.effectId with
  | none => exact .unchanged
  | some row =>
    split
    · rw [bind_pure_snd]
      exact projectTransportAccepted_outcome h rfl
    · exact projectRecipientDelivery_outcome h rfl fun hk => if_pos hk
    · exact releaseDelivery_outcome h
    · exact .unchanged

theorem LedgerCall.outcome (h : Coherent rows) (a : LedgerCall) : Outcome a rows (a.exec rows) := by
  cases a with
  | reserve c => exact .reserved c _ rfl (reserveDeliverySync_acquired c)
  | sendAttempt effectId nowMs => exact recordSendAttempt_outcome
  | transportAccepted v => exact projectTransportAccepted_outcome h rfl
  | recipientDelivery v => exact projectRecipientDelivery_outcome h rfl fun hk => if_pos hk
  | unknown effectId kind ref nowMs => exact noteDeliveryUnknown_outcome
  | release effectId state reason nowMs => exact releaseDelivery_outcome h
  | record state v => exact recordDelivery_outcome h

end

namespace DeliveryRow.Advances
variable {a : LedgerCall} {r r' : DeliveryRow}

theorem effectId (h : r.Advances a r') : r'.effectId = r.effectId := congrArg (fun i => i.1.2) h.identity

theorem key (h : r.Advances a r') : r'.key = r.key := congrArg (fun i => (i.1.2, i.2.1.2.2)) h.identity

theorem rewrites {rows : List DeliveryRow} {effectId : String} {f : DeliveryRow → DeliveryRow}
    (hm : ∀ r ∈ rows, r.effectId = effectId → r.Advances a (f r)) :
    Rewrites (DeliveryRow.Advances a) rows (updateWhere (fun r => r.effectId = effectId) f rows) :=
  .updateWhere (.refl a) fun r hr he => hm r hr (of_decide_eq_true he)

end DeliveryRow.Advances

namespace Coherent
variable {a : LedgerCall} {rows : List DeliveryRow}

theorem nil : Coherent [] :=
  ⟨.nil,fun _ h => absurd h List.not_mem_nil,fun _ h => absurd h List.not_mem_nil⟩

theorem dated_of_advances {r r' : DeliveryRow} (ha : r.Advances a r')
    (hd : r.deliveryState.isAccepted = true → r.acceptedAtMs.isSome = true)
    (h : r'.deliveryState.isAccepted = true) : r'.acceptedAtMs.isSome = true := by
  cases hr : r.deliveryState.isAccepted with
  | true =>
    rw [(ha.accepted hr).2]
    exact hd hr
  | false =>
    rw [(ha.confirmed hr h).1]
    rfl

theorem moved (h : Coherent rows) {effectId : String} {f : DeliveryRow → DeliveryRow}
    (hu : ∀ r q, r.deliveryState = q.deliveryState → (f r).deliveryState = (f q).deliveryState)
    (hm : ∀ r ∈ rows, r.effectId = effectId → r.Advances a (f r)) :
    Coherent (updateWhere (fun r => r.effectId = effectId) f rows) := by
  refine ⟨(DeliveryRow.Advances.rewrites hm).unique (fun _ _ ha => ha.key) h.keys,?_,?_⟩
  · intro r' hr' q' hq' he
    obtain ⟨r,hr,rfl⟩ := mem_updateWhere.mp hr'
    obtain ⟨q,hq,rfl⟩ := mem_updateWhere.mp hq'
    have hid : ∀ x ∈ rows, (if x.effectId = effectId then f x else x).effectId = x.effectId := by
      intro x hx
      split
      · exact (hm x hx ‹_›).effectId
      · rfl
    simp only [decide_eq_true_eq] at he ⊢
    rw [hid r hr,hid q hq] at he
    have hs := h.states r hr q hq he
    rw [he]
    split
    · exact hu r q hs
    · exact hs
  · intro r' hr' hacc
    obtain ⟨r,hr,rfl⟩ := mem_updateWhere.mp hr'
    split_ifs at hacc with hid
    · rw [if_pos hid]
      exact dated_of_advances (hm r hr (of_decide_eq_true hid)) (h.dated r hr) hacc
    · rw [if_neg hid]
      exact h.dated r hr hacc

theorem inserted (h : Coherent rows) {c : ReserveDelivery} {lane : Lane} {origin : DeliveryOrigin}
    {checked : List Limit} {new : List DeliveryRow} (hfree : ∀ r ∈ rows, r.standsFor c lane = false)
    (hnew : ∀ r ∈ new, ∃ l ∈ checked, r = c.row lane origin l) (hu : Table.Unique DeliveryRow.key new) :
    Coherent (rows ++ new) := by
  have hold : ∀ r ∈ rows, r.effectId ≠ c.effect := fun r hr =>
    DeliveryRow.effectId_ne_of_standsFor (hfree r hr)
  have hrow : ∀ r ∈ new, r.effectId = c.effect ∧ r.deliveryState = .reserved := by
    intro r hr
    obtain ⟨l,-,rfl⟩ := hnew r hr
    exact ⟨rfl,rfl⟩
  refine ⟨?_,?_,?_⟩
  · rw [Table.Unique,List.map_append]
    refine List.nodup_append.mpr ⟨h.keys,hu,fun k hk k' hk' he => ?_⟩
    obtain ⟨r,hr,rfl⟩ := List.mem_map.mp hk
    obtain ⟨q,hq,rfl⟩ := List.mem_map.mp hk'
    exact hold r hr ((congrArg Prod.fst he).trans (hrow q hq).1)
  · intro r hr q hq he
    rcases List.mem_append.mp hr with hr | hr <;> rcases List.mem_append.mp hq with hq | hq
    · exact h.states r hr q hq he
    · exact absurd (he.trans (hrow q hq).1) (hold r hr)
    · exact absurd (he.symm.trans (hrow r hr).1) (hold q hq)
    · exact (hrow r hr).2.trans (hrow q hq).2.symm
  · intro r hr ha
    rcases List.mem_append.mp hr with hr | hr
    · exact h.dated r hr ha
    · rw [(hrow r hr).2] at ha
      cases ha

theorem exec (h : Coherent rows) (a : LedgerCall) : Coherent (a.exec rows) := by
  have ho := a.outcome h
  generalize a.exec rows = rows' at ho ⊢
  cases ho with
  | unchanged => exact h
  | moved effectId f hu hm => exact h.moved hu hm
  | reserved c rows' ha hq =>
    cases hq with
    | unchanged => exact h
    | inserted lane origin checked new hl hc hfree hcap hnew hall hu => exact h.inserted hfree hnew hu

theorem run {as : List LedgerCall} : Coherent (run LedgerCall.exec [] as) :=
  run_invariant (fun _ a h => h.exec a) nil as

end Coherent

structure DeliveryRow.Settles (r r' : DeliveryRow) : Prop where
  key : r'.key = r.key
  accepted : r.deliveryState.isAccepted = true →
    r'.deliveryState.isAccepted = true ∧ r'.acceptedAtMs = r.acceptedAtMs
  delivered : r.deliveryState = .delivered → r'.deliveryState = .delivered

namespace DeliveryRow.Settles

theorem refl (r : DeliveryRow) : r.Settles r := ⟨rfl,fun h => ⟨h,rfl⟩,id⟩

theorem trans (r q p : DeliveryRow) (h : r.Settles q) (h' : q.Settles p) : r.Settles p where
  key := h'.key.trans h.key
  accepted ha := by
    obtain ⟨hq,ht⟩ := h.accepted ha
    obtain ⟨hp,ht'⟩ := h'.accepted hq
    exact ⟨hp,ht'.trans ht⟩
  delivered hd := h'.delivered (h.delivered hd)

theorem of_advances {a : LedgerCall} {r r' : DeliveryRow} (h : r.Advances a r') : r.Settles r' where
  key := h.key
  accepted := h.accepted
  delivered := h.delivered

end DeliveryRow.Settles

section
variable {a : LedgerCall} {rows : List DeliveryRow}

theorem Coherent.settles (h : Coherent rows) (a : LedgerCall) :
    Kept DeliveryRow.key DeliveryRow.Settles rows (a.exec rows) := by
  have ho := a.outcome h
  generalize a.exec rows = rows' at ho ⊢
  cases ho with
  | unchanged => exact .refl .refl rows
  | moved effectId f hu hm =>
    exact .of_rewrites (fun _ _ h => h.key) ((DeliveryRow.Advances.rewrites hm).mono fun _ _ => .of_advances)
  | reserved c rows' ha hq =>
    cases hq with
    | unchanged => exact .refl .refl rows
    | inserted => exact .append .refl rows

theorem Coherent.released (h : Coherent rows) {k : String × Category} {r' : DeliveryRow}
    (hl : lookup DeliveryRow.key k (a.exec rows) = some r') (hr : r'.deliveryState.isReleased = true) :
    ∃ r, lookup DeliveryRow.key k rows = some r ∧
      (r'.deliveryState = r.deliveryState ∨ r.deliveryState = .reserved ∨ r.deliveryState = .submitted) := by
  have ho := a.outcome h
  generalize a.exec rows = rows' at ho hl
  cases ho with
  | unchanged => exact ⟨r',hl,.inl rfl⟩
  | moved effectId f hu hm =>
    have hrel := (DeliveryRow.Advances.rewrites hm).lookup (fun _ _ ha => ha.key) k
    rw [hl] at hrel
    generalize lookup DeliveryRow.key k rows = old at hrel ⊢
    cases hrel with
    | some ha => exact ⟨_,rfl,ha.released hr⟩
  | reserved c rows' ha hq =>
    cases hq with
    | unchanged => exact ⟨r',hl,.inl rfl⟩
    | inserted lane origin checked new hlane hc hfree hcap hnew hall hu =>
      cases hk : lookup DeliveryRow.key k rows with
      | some r =>
        rw [lookup_append_of_some hk,Option.some.injEq] at hl
        exact ⟨r,rfl,.inl (hl ▸ rfl)⟩
      | none =>
        rw [lookup_append_of_none hk] at hl
        obtain ⟨l,-,rfl⟩ := hnew r' (lookup_some hl).1
        cases hr

end

/-- In every ledger the rows of an effect agree on its state; whatever calls follow, a
confirmed send stays one with its date and a delivered one stays delivered; and a call
releases only what is held, while what was released keeps its state under every release. -/
theorem delivery_ledger_coherent (as bs : List LedgerCall) (a : LedgerCall) :
    let rows := run LedgerCall.exec [] as
    (Table.Unique DeliveryRow.key rows ∧
      ∀ r ∈ rows, ∀ q ∈ rows, r.effectId = q.effectId → r.deliveryState = q.deliveryState) ∧
    Kept DeliveryRow.key DeliveryRow.Settles rows (run LedgerCall.exec rows bs) ∧
    ∀ k r', lookup DeliveryRow.key k (a.exec rows) = some r' → r'.deliveryState.isReleased = true →
      ∃ r, lookup DeliveryRow.key k rows = some r ∧
        (r'.deliveryState = r.deliveryState ∨ r.deliveryState = .reserved ∨ r.deliveryState = .submitted) := by
  intro rows
  have h : Coherent rows := .run
  refine ⟨⟨h.keys,h.states⟩,?_,fun k r' => h.released⟩
  -- Coherence goes along, since a step keeps the rows of a coherent ledger only.
  have hstep : ∀ t b, Coherent t ∧ Kept DeliveryRow.key DeliveryRow.Settles rows t →
      Coherent (LedgerCall.exec t b) ∧ Kept DeliveryRow.key DeliveryRow.Settles rows (LedgerCall.exec t b) :=
    fun t b ht => ⟨ht.1.exec b,ht.2.trans DeliveryRow.Settles.trans (ht.1.settles b)⟩
  exact (run_invariant hstep ⟨h,.refl .refl rows⟩ bs).2

end Yeoman.Consciousness
