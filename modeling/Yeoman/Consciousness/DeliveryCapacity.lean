import Yeoman.Consciousness.DeliverySteps
import Yeoman.Library.Admission

/-! The capacity of a chat for one category of sends. It is checked once, when a send is
reserved; the bound on what is accepted in any later window rests on the leases. -/
namespace Yeoman.Consciousness
open Library Table Runs
open Library.Admission (Admitted)

inductive Window where
  | rolling (windowMs : Int)
  | calendarDay

namespace Window

def since : Window → Int → Int
  | .rolling windowMs, nowMs => nowMs - max 1 windowMs + 1
  | .calendarDay, nowMs => dayStart nowMs

def before : Window → Int → Option Int
  | .rolling _, _ => none
  | .calendarDay, nowMs => some (dayStart nowMs + dayMs)

/-- The window with a given index: the one that ends at that moment, or the day of that number. -/
def spans : Window → Int → Int → Bool
  | .rolling windowMs, upTo, t => upTo - windowMs < t && t ≤ upTo
  | .calendarDay, day, t => day * dayMs ≤ t && t < (day + 1) * dayMs

def Describes (w : Window) (kind : WindowKind) (windowMs : Int) : Prop :=
  match w with
  | .rolling ms => kind = .rolling ∧ windowMs = ms
  | .calendarDay => kind = .calendarDay

instance (w : Window) (kind : WindowKind) (windowMs : Int) : Decidable (w.Describes kind windowMs) :=
  match w with
  | .rolling ms => inferInstanceAs (Decidable (kind = .rolling ∧ windowMs = ms))
  | .calendarDay => inferInstanceAs (Decidable (kind = .calendarDay))

def accounts (w : Window) (nowMs t : Int) : Bool := w.since nowMs ≤ t && (w.before nowMs).all fun e => t < e
variable {nowMs : Int} {t : Int}

theorem accounts_rolling {windowMs : Int} :
    (rolling windowMs).accounts nowMs t = true ↔ nowMs - max 1 windowMs < t := by
  rw [accounts,before,Option.all_none,Bool.and_true,decide_eq_true_eq,since]
  omega

theorem accounts_calendarDay :
    calendarDay.accounts nowMs t = true ↔ dayStart nowMs ≤ t ∧ t < dayStart nowMs + dayMs := by
  rw [accounts,before,Option.all_some,Bool.and_eq_true,decide_eq_true_eq,decide_eq_true_eq,since]

theorem accounts_self (w : Window) : w.accounts nowMs nowMs = true := by
  cases w with
  | rolling windowMs =>
    rw [accounts_rolling]
    omega
  | calendarDay =>
    rw [accounts_calendarDay,dayStart,dayMs]
    omega

/-- Of two moments in one window, a check made before the first accounts for the second,
or the second comes after the check. -/
theorem accounts_of_spans {w : Window} {index u : Int} (ht : w.spans index t = true)
    (hu : w.spans index u = true) (hn : nowMs ≤ t) : w.accounts nowMs u = true ∨ nowMs ≤ u := by
  cases w with
  | rolling windowMs =>
    simp only [spans,Bool.and_eq_true,decide_eq_true_eq] at ht hu
    rw [accounts_rolling]
    omega
  | calendarDay =>
    -- The check was made on the day itself, or on a day before it.
    simp only [spans,Bool.and_eq_true,decide_eq_true_eq] at ht hu
    rw [accounts_calendarDay,dayStart]
    unfold dayMs at *
    omega

end Window

/-- The limit of one chat for one category. -/
structure Budget where
  (channel chatId : String)
  category : Category
  limit : Int
  window : Window

namespace Budget
variable (b : Budget)

def covers (r : DeliveryRow) : Bool :=
  r.channel = b.channel && r.chatId = b.chatId && r.category = b.category

def sent (index : Int) (rows : List DeliveryRow) : Nat :=
  rows.countP fun r => b.covers r && (r.deliveryState.isAccepted && r.acceptedAtMs.any (b.window.spans index))

/-- What a reservation has to leave room for: sends its check accounted for or that were
accepted later, and leases that ran when it was made. -/
def counts (r q : DeliveryRow) : Bool :=
  b.covers q &&
    ((q.deliveryState.isAccepted &&
        q.acceptedAtMs.any fun t => b.window.accounts r.createdAtMs t || r.createdAtMs ≤ t) ||
      (q.deliveryState.isHeld && r.createdAtMs - deliveryReservationTtlMs < q.createdAtMs))

def Governs : LedgerCall → Prop
  | .reserve c => c.channel = b.channel → c.chatId = b.chatId → ∀ entry ∈ c.limits,
      Category.ofName? entry.category = some b.category →
      entry.limit = b.limit ∧ b.window.Describes entry.windowKind entry.windowMs
  | _ => True

instance : DecidablePred b.Governs
  | .reserve c => inferInstanceAs (Decidable (c.channel = b.channel → c.chatId = b.chatId → ∀ entry ∈ c.limits,
      Category.ofName? entry.category = some b.category →
      entry.limit = b.limit ∧ b.window.Describes entry.windowKind entry.windowMs))
  | .sendAttempt .. | .transportAccepted .. | .recipientDelivery .. | .unknown .. | .release .. | .record .. =>
    isTrue trivial

end Budget

namespace LedgerCall

def proposalLane : LedgerCall → Option (String × Option Lane)
  | .reserve c => some (c.proposal, Lane.ofName? c.lane)
  | _ => none

def OneLane (a d : LedgerCall) : Prop :=
  ∀ p ∈ a.proposalLane, ∀ q ∈ d.proposalLane, p.1 = q.1 → p.2 = q.2
deriving Decidable

theorem OneLane.reserve {c d : ReserveDelivery} (h : (LedgerCall.reserve c).OneLane (.reserve d))
    (hp : c.proposal = d.proposal) : Lane.ofName? c.lane = Lane.ofName? d.lane := by
  simp only [OneLane,proposalLane,Option.mem_some_iff,forall_eq'] at h
  exact h hp

def InLease (rows : List DeliveryRow) (a : LedgerCall) : Prop :=
  ∀ r ∈ rows, ∀ r' ∈ a.exec rows, r'.key = r.key → r.deliveryState.isAccepted = false →
    r'.deliveryState.isAccepted = true → a.nowMs < r.createdAtMs + deliveryReservationTtlMs
deriving Decidable

def SparesReleased (rows : List DeliveryRow) (a : LedgerCall) : Prop :=
  ∀ r ∈ rows, a.evidenced = some r.effectId → r.deliveryState.isReleased = false
deriving Decidable

end LedgerCall

def AllOrNone (rows : List DeliveryRow) (c : ReserveDelivery) : Prop :=
  LedgerCall.exec rows (.reserve c) = rows ∨ ∃ new, LedgerCall.exec rows (.reserve c) = rows ++ new ∧
    (∀ entry ∈ c.limits, ∃ r ∈ new, Category.ofName? entry.category = some r.category) ∧
    ∀ r ∈ new, r.effectId = c.effect ∧ ∃ entry ∈ c.limits, Category.ofName? entry.category = some r.category

section
variable {b : Budget}

theorem Budget.covers_iff {r : DeliveryRow} :
    b.covers r = true ↔ r.channel = b.channel ∧ r.chatId = b.chatId ∧ r.category = b.category := by
  simp [covers,and_assoc]

theorem Budget.counts_iff {r q : DeliveryRow} :
    b.counts r q = true ↔ b.covers q = true ∧
      ((q.deliveryState.isAccepted = true ∧ ∃ t, q.acceptedAtMs = some t ∧
          (b.window.accounts r.createdAtMs t = true ∨ r.createdAtMs ≤ t)) ∨
        (q.deliveryState.isHeld = true ∧ r.createdAtMs - deliveryReservationTtlMs < q.createdAtMs)) := by
  simp [counts,Option.any_eq_true]

structure DeliveryRow.Moves (a : LedgerCall) (r r' : DeliveryRow) : Prop where
  advances : r.Advances a r'
  created : r.createdAtMs ≤ a.nowMs
  confirmed : r.deliveryState.isAccepted = false → r'.deliveryState.isAccepted = true →
    r.deliveryState.isReleased = false ∧ a.nowMs < r.createdAtMs + deliveryReservationTtlMs
variable {d : DeliveryState} {rows : List DeliveryRow} {w : Window} {lane : Lane} {origin : DeliveryOrigin}

theorem DeliveryState.isHeld_of_not (ha : d.isAccepted = false) (hr : d.isReleased = false) : d.isHeld = true := by
  revert ha hr
  cases d <;> decide

theorem DeliveryState.isHeld_of_isAccepted (h : d.isAccepted = true) : d.isHeld = false := by
  revert h
  cases d <;> decide

namespace DeliveryRow.Moves
variable {a : LedgerCall} {r r' q q' : DeliveryRow}

theorem covers (h : r.Moves a r') : b.covers r' = b.covers r := by
  have hi := h.advances.identity
  simp only [DeliveryRow.identity,Prod.mk.injEq] at hi
  simp [Budget.covers,hi]

theorem createdAtMs (h : r.Moves a r') : r'.createdAtMs = r.createdAtMs :=
  congrArg (fun i => i.2.2.1) h.advances.identity

/-- Nothing comes to count: a confirmed send held a lease that ran since before. -/
theorem counts (hr : r.Moves a r') (hq : q.Moves a q') (h : b.counts r' q' = true) : b.counts r q = true := by
  rw [Budget.counts_iff,hq.covers,hr.createdAtMs,hq.createdAtMs] at h
  refine Budget.counts_iff.mpr ⟨h.1,?_⟩
  cases ha : q.deliveryState.isAccepted with
  | true =>
    obtain ⟨hacc,hat⟩ := hq.advances.accepted ha
    rcases h.2 with ⟨-,hs⟩ | ⟨hh,-⟩
    · rw [hat] at hs
      exact .inl ⟨rfl,hs⟩
    · rw [DeliveryState.isHeld_of_isAccepted hacc] at hh
      cases hh
  | false =>
    right
    rcases h.2 with ⟨hacc,-⟩ | ⟨hh,hlease⟩
    · obtain ⟨hrel,hlease⟩ := hq.confirmed ha hacc
      have := hr.created
      exact ⟨DeliveryState.isHeld_of_not ha hrel,by omega⟩
    · exact ⟨hq.advances.held hh,hlease⟩

end DeliveryRow.Moves

variable {c : ReserveDelivery} {l : Limit}

theorem hasCapacity_iff (hw : w.Describes l.windowKind l.windowMs) :
    hasCapacity rows c l = true ↔
      heldOrAcceptedCount rows c.channel c.chatId l.category c.proposal c.nowMs (w.since c.nowMs)
        (w.before c.nowMs) < l.limit := by
  unfold hasCapacity
  cases w with
  | rolling windowMs =>
    obtain ⟨hk,rfl⟩ := hw
    rw [hk]
    exact decide_eq_true_iff
  | calendarDay =>
    have hk : l.windowKind = .calendarDay := hw
    rw [hk]
    exact decide_eq_true_iff

theorem DeliveryRow.occupies_iff {nowMs : Int} {q : DeliveryRow} :
    q.occupies (w.since nowMs) (w.before nowMs) nowMs = true ↔
      (q.deliveryState.isAccepted = true ∧ ∃ t, q.acceptedAtMs = some t ∧ w.accounts nowMs t = true) ∨
      (q.deliveryState.isHeld = true ∧ nowMs - deliveryReservationTtlMs < q.createdAtMs) := by
  simp [DeliveryRow.occupies,Window.accounts,Option.any_eq_true]

/-- A reservation finds room for its row: the check counted every row that counts for it. -/
theorem hasCapacity_room (hfree : ∀ r ∈ rows, r.standsFor c lane = false)
    (hlane : ∀ r ∈ rows, r.proposalId = c.proposal → r.lane = lane)
    (hnow : ∀ r ∈ rows, r.deliveryState.isAccepted = true → ∀ t, r.acceptedAtMs = some t → t ≤ c.nowMs)
    (hcap : hasCapacity rows c l = true) (hw : b.window.Describes l.windowKind l.windowMs)
    (hcov : b.covers (c.row lane origin l) = true) :
    (rows.countP (b.counts (c.row lane origin l)) : Int) < l.limit := by
  obtain ⟨hch,hid,hcat⟩ := Budget.covers_iff.mp hcov
  refine lt_of_le_of_lt ?_ ((hasCapacity_iff hw).mp hcap)
  rw [heldOrAcceptedCount,Int.ofNat_le]
  refine List.countP_mono_left fun q hq hcount => ?_
  obtain ⟨hqc,hrest⟩ := Budget.counts_iff.mp hcount
  obtain ⟨hqch,hqid,hqcat⟩ := Budget.covers_iff.mp hqc
  have hchat : q.channel = c.channel ∧ q.chatId = c.chatId ∧ q.category = l.category :=
    ⟨hqch.trans hch.symm,hqid.trans hid.symm,hqcat.trans hcat.symm⟩
  have hprop : q.proposalId ≠ c.proposal := by
    intro hp
    have hs := hfree q hq
    simp [DeliveryRow.standsFor,hp,hlane q hq hp,hchat] at hs
  have hocc : q.occupies (b.window.since c.nowMs) (b.window.before c.nowMs) c.nowMs = true := by
    refine DeliveryRow.occupies_iff.mpr (hrest.imp_left ?_)
    rintro ⟨hacc,t,ht,hw | hle⟩
    · exact ⟨hacc,t,ht,hw⟩
    · -- Accepted at the moment of the check, which the window accounts for.
      have hle' : c.nowMs ≤ t := hle
      have heq : t = c.nowMs := le_antisymm (hnow q hq hacc t ht) hle'
      exact ⟨hacc,t,ht,heq ▸ b.window.accounts_self⟩
  simp [hchat,hprop,hocc]

theorem Budget.admitted_inserted {new : List DeliveryRow}
    {checked : List Limit} (h : Admitted b.covers b.counts b.limit.toNat rows)
    (hroom : ∀ l ∈ checked, b.covers (c.row lane origin l) = true →
      (rows.countP (b.counts (c.row lane origin l)) : Int) < b.limit)
    (hnew : ∀ r ∈ new, ∃ l ∈ checked, r = c.row lane origin l) (hu : Table.Unique DeliveryRow.key new) :
    Admitted b.covers b.counts b.limit.toNat (rows ++ new) := by
  refine h.append fun before r after he hs => ?_
  have hmem : ∀ q ∈ before, q ∈ new := fun q hq => he ▸ List.mem_append_left _ hq
  have hzero : before.countP (b.counts r) = 0 := by
    rw [List.countP_eq_zero]
    intro q hq hcount
    have hqc := (Budget.counts_iff.mp hcount).1
    obtain ⟨lq,-,rfl⟩ := hnew q (hmem q hq)
    obtain ⟨lr,-,rfl⟩ := hnew r (he ▸ by simp)
    have hcat : lq.category = lr.category :=
      (Budget.covers_iff.mp hqc).2.2.trans (Budget.covers_iff.mp hs).2.2.symm
    have hk : (c.row lane origin lq).key = (c.row lane origin lr).key := congrArg (Prod.mk c.effect) hcat
    rw [Table.Unique,he,List.map_append,List.map_cons,List.nodup_append] at hu
    exact hu.2.2 _ (List.mem_map_of_mem hq) _ List.mem_cons_self hk
  obtain ⟨l,hl,rfl⟩ := hnew r (he ▸ by simp)
  rw [List.countP_append,hzero]
  have := hroom l hl hs
  omega

structure Tracked (b : Budget) (as : List LedgerCall) (rows : List DeliveryRow) : Prop where
  coherent : Coherent rows
  created : ∀ r ∈ rows, ∃ c, .reserve c ∈ as ∧ r.createdAtMs = c.nowMs ∧ r.proposalId = c.proposal ∧
    Lane.ofName? c.lane = some r.lane
  accepted : ∀ r ∈ rows, r.deliveryState.isAccepted = true → ∀ t, r.acceptedAtMs = some t →
    r.createdAtMs ≤ t ∧ ∃ a ∈ as, a.nowMs = t
  admitted : Admitted b.covers b.counts b.limit.toNat rows

structure LedgerCall.Follows (b : Budget) (as : List LedgerCall) (rows : List DeliveryRow) (a : LedgerCall) :
    Prop where
  clock : ∀ d ∈ as, d.nowMs ≤ a.nowMs
  lanes : ∀ d ∈ as, d.OneLane a
  governs : b.Governs a
  inLease : a.InLease rows
  spares : a.SparesReleased rows

namespace Tracked
variable {as : List LedgerCall} {rows : List DeliveryRow} {a : LedgerCall}

theorem nil : Tracked b [] [] :=
  ⟨.nil,fun _ h => absurd h List.not_mem_nil,fun _ h => absurd h List.not_mem_nil,.nil⟩

theorem concat (h : Tracked b as rows) : Tracked b (as ++ [a]) rows where
  coherent := h.coherent
  created r hr := by
    obtain ⟨c,hc,hrest⟩ := h.created r hr
    exact ⟨c,List.mem_append_left _ hc,hrest⟩
  accepted r hr hacc t ht := by
    obtain ⟨hle,d,hd,hdt⟩ := h.accepted r hr hacc t ht
    exact ⟨hle,d,List.mem_append_left _ hd,hdt⟩
  admitted := h.admitted

theorem created_le (h : Tracked b as rows) (ha : ∀ d ∈ as, d.nowMs ≤ a.nowMs) {r : DeliveryRow} (hr : r ∈ rows) :
    r.createdAtMs ≤ a.nowMs := by
  obtain ⟨c,hc,ht,-⟩ := h.created r hr
  exact ht ▸ ha _ hc

theorem moved (h : Tracked b as rows) {rows' : List DeliveryRow} (hco : Coherent rows')
    (hr : Rewrites (DeliveryRow.Moves a) rows rows') : Tracked b (as ++ [a]) rows' where
  coherent := hco
  created r' hr' := by
    obtain ⟨r,hm,hmv⟩ := hr.mem_new hr'
    obtain ⟨c,hc,ht,hp,hl⟩ := h.created r hm
    have hi := hmv.advances.identity
    simp only [DeliveryRow.identity,Prod.mk.injEq] at hi
    exact ⟨c,List.mem_append_left _ hc,hmv.createdAtMs.trans ht,hi.1.1.trans hp,hl.trans (congrArg some hi.2.2.2.symm)⟩
  accepted r' hr' hacc t ht := by
    obtain ⟨r,hm,hmv⟩ := hr.mem_new hr'
    rw [hmv.createdAtMs]
    cases hra : r.deliveryState.isAccepted with
    | true =>
      rw [(hmv.advances.accepted hra).2] at ht
      obtain ⟨hle,d,hd,hdt⟩ := h.accepted r hm hra t ht
      exact ⟨hle,d,List.mem_append_left _ hd,hdt⟩
    | false =>
      rw [(hmv.advances.confirmed hra hacc).1] at ht
      cases ht
      exact ⟨hmv.created,a,List.mem_concat_self,rfl⟩
  admitted := by
    refine h.admitted.rewrites hr (fun r r' hmv hc => ?_) fun r r' q q' hr hq => hr.counts hq
    rwa [hmv.covers] at hc

theorem inserted (h : Tracked b as rows) (ha : (LedgerCall.reserve c).Follows b as rows)
    {checked : List Limit} {new : List DeliveryRow} (hl : Lane.ofName? c.lane = some lane)
    (hc : ReserveDelivery.checkLimits c.limits = .ok (some checked))
    (hfree : ∀ r ∈ rows, r.standsFor c lane = false) (hcap : ∀ l ∈ checked, hasCapacity rows c l = true)
    (hnew : ∀ r ∈ new, ∃ l ∈ checked, r = c.row lane origin l) (hu : Table.Unique DeliveryRow.key new) :
    Tracked b (as ++ [.reserve c]) (rows ++ new) where
  coherent := h.coherent.inserted hfree hnew hu
  created r hr := by
    rcases List.mem_append.mp hr with hr | hr
    · exact (h.concat).created r hr
    · obtain ⟨l,-,rfl⟩ := hnew r hr
      exact ⟨c,List.mem_concat_self,rfl,rfl,hl⟩
  accepted r hr hacc t ht := by
    rcases List.mem_append.mp hr with hr | hr
    · exact (h.concat).accepted r hr hacc t ht
    · obtain ⟨l,-,rfl⟩ := hnew r hr
      cases hacc
  admitted := by
    refine b.admitted_inserted h.admitted (fun l hm hcov => ?_) hnew hu
    obtain ⟨entry,he,hcat,hlim,hwin,hkind⟩ := (ReserveDelivery.checkLimits_matches hc).2 l hm
    obtain ⟨hch,hid,hcatb⟩ := Budget.covers_iff.mp hcov
    obtain ⟨hlimit,hdesc⟩ := ha.governs hch hid entry he (hcat.trans (congrArg some hcatb))
    rw [← hlimit,← hlim]
    rw [← hwin,← hkind] at hdesc
    refine hasCapacity_room hfree (fun r hr hp => ?_) (fun r hr hacc t ht => ?_) (hcap l hm) hdesc hcov
    · obtain ⟨d,hd,-,hdp,hdl⟩ := h.created r hr
      have hone : Lane.ofName? d.lane = Lane.ofName? c.lane :=
        (ha.lanes _ hd).reserve (hdp.symm.trans hp)
      rw [hdl,hl] at hone
      exact Option.some.inj hone
    · obtain ⟨-,d,hd,rfl⟩ := h.accepted r hr hacc t ht
      exact ha.clock d hd

theorem step (h : Tracked b as rows) (ha : a.Follows b as rows) : Tracked b (as ++ [a]) (a.exec rows) := by
  have hco := h.coherent.exec a
  have hlease : ∀ r ∈ rows, ∀ r' ∈ a.exec rows, _ := ha.inLease
  have ho := a.outcome h.coherent
  generalize a.exec rows = rows' at ho hco hlease ⊢
  cases ho with
  | unchanged => exact h.concat
  | moved effectId f hu hm =>
    refine h.moved hco (.map fun r hr => ?_)
    have hc := h.created_le ha.clock hr
    split_ifs with hid
    · have hadv := hm r hr (of_decide_eq_true hid)
      have hmem : f r ∈ updateWhere (fun r => r.effectId = effectId) f rows :=
        mem_updateWhere.mpr ⟨r,hr,if_pos hid⟩
      refine ⟨hadv,hc,fun hacc hacc' => ⟨?_,hlease r hr (f r) hmem hadv.key hacc hacc'⟩⟩
      by_contra hrel
      rw [Bool.not_eq_false] at hrel
      have hspare := ha.spares r hr ((hadv.confirmed hacc hacc').2 hrel)
      rw [hrel] at hspare
      cases hspare
    · exact ⟨.refl a r,hc,fun hacc hacc' => absurd (hacc.symm.trans hacc') Bool.false_ne_true⟩
  | reserved c rows' hac hq =>
    subst hac
    cases hq with
    | unchanged => exact h.concat
    | inserted lane origin checked new hl hc hfree hcap hnew hall hu =>
      exact h.inserted ha hl hc hfree hcap hnew hu

theorem run (hclock : as.Pairwise fun a d => a.nowMs ≤ d.nowMs) (hlimits : ∀ a ∈ as, b.Governs a)
    (hlanes : as.Pairwise LedgerCall.OneLane)
    (hlease : Along LedgerCall.exec LedgerCall.InLease [] as)
    (hspare : Along LedgerCall.exec LedgerCall.SparesReleased [] as) :
    Tracked b as (run LedgerCall.exec [] as) := by
  induction as using List.reverseRecOn with
  | nil => exact .nil
  | append_singleton as a ih =>
    obtain ⟨hc,-,hca⟩ := List.pairwise_append.mp hclock
    obtain ⟨hl,-,hla⟩ := List.pairwise_append.mp hlanes
    obtain ⟨hle,hlea⟩ := along_append.mp hlease
    obtain ⟨hs,hsa⟩ := along_append.mp hspare
    rw [run_append]
    refine (ih hc (fun d hd => hlimits d (List.mem_append_left _ hd)) hl hle hs).step ?_
    have hself := List.mem_singleton_self a
    exact ⟨fun d hd => hca d hd a hself,fun d hd => hla d hd a hself,
      hlimits a (List.mem_append_right _ hself),hlea.1,hsa.1⟩

theorem sent_le (h : Tracked b as rows) (index : Int) : b.sent index rows ≤ b.limit.toNat := by
  refine h.admitted.countP_le (fun r _ hp => (Bool.and_eq_true_iff.mp hp).1) ?_
  rintro before r after rfl hr q hq hqp
  simp only [Bool.and_eq_true,Option.any_eq_true] at hr hqp
  obtain ⟨-,hacc,t,ht,hspan⟩ := hr
  obtain ⟨hcov,hqacc,u,hu,hqspan⟩ := hqp
  have hle := (h.accepted r (by simp) hacc t ht).1
  exact Budget.counts_iff.mpr ⟨hcov,.inl ⟨hqacc,u,hu,Window.accounts_of_spans hspan hqspan hle⟩⟩

end Tracked

theorem allOrNone (rows : List DeliveryRow) (c : ReserveDelivery) : AllOrNone rows c := by
  have h : Acquired c rows (LedgerCall.exec rows (.reserve c)) := reserveDeliverySync_acquired c
  unfold AllOrNone
  generalize LedgerCall.exec rows (.reserve c) = rows' at h
  cases h with
  | unchanged => exact .inl rfl
  | inserted lane origin checked new hl hc hfree hcap hnew hall hu =>
    obtain ⟨hold,hmatch⟩ := ReserveDelivery.checkLimits_matches hc
    refine .inr ⟨new,rfl,fun entry he => ?_,fun r hr => ?_⟩
    · obtain ⟨l,hlm,hcat,-⟩ := hold entry he
      obtain ⟨r,hr,hrc⟩ := hall l hlm
      exact ⟨r,hr,hcat.trans (congrArg some hrc.symm)⟩
    · obtain ⟨l,hlm,rfl⟩ := hnew r hr
      obtain ⟨entry,he,hcat,-⟩ := hmatch l hlm
      exact ⟨rfl,entry,he,hcat⟩

end

/-- Within the leases, and as long as no recipient evidence comes for a released effect, no
window of a chat and category holds more accepted sends than the limit, and every reservation
takes all its categories or none. -/
theorem delivery_capacity_kept (b : Budget) (as : List LedgerCall)
    (hclock : as.Pairwise fun a d => a.nowMs ≤ d.nowMs) (hlimits : ∀ a ∈ as, b.Governs a)
    (hlanes : as.Pairwise LedgerCall.OneLane)
    (hlease : Along LedgerCall.exec LedgerCall.InLease [] as)
    (hspare : Along LedgerCall.exec LedgerCall.SparesReleased [] as) :
    let rows := run LedgerCall.exec [] as
    (∀ index, (b.sent index rows : Int) ≤ max b.limit 0) ∧ ∀ c, AllOrNone rows c := by
  intro rows
  refine ⟨fun index => ?_,allOrNone rows⟩
  have h := (Tracked.run hclock hlimits hlanes hlease hspare).sent_le index
  change b.sent index rows ≤ _ at h
  omega

def comments : Budget := ⟨"whatsapp","group",.comment,1,.rolling 3600000⟩

def comment (proposalId effectId : String) (nowMs : Int) : LedgerCall :=
  .reserve ⟨proposalId,effectId,"whatsapp","group",nowMs,[⟨"comment",1,3600000,.rolling⟩],1,none,none,"",""⟩

def oneComment : List LedgerCall :=
  [comment "p1" "e1" 1000, .transportAccepted ⟨"e1",none,"effect_sent","ref",2000⟩, comment "p2" "e2" 3000]

theorem oneComment_kept :
    (comments.sent 3000 (run LedgerCall.exec [] oneComment) : Int) ≤ max 1 0 ∧
    (run LedgerCall.exec [] oneComment).length = 1 :=
  ⟨(delivery_capacity_kept comments oneComment (by decide +kernel) (by decide +kernel) (by decide +kernel)
    (by decide +kernel) (by decide +kernel)).1 3000,by decide +kernel⟩

/-- A comment is released, the next one takes its place and is sent, and then a receipt for
the first arrives. -/
def lateReceipt : List LedgerCall :=
  [comment "p1" "e1" 1000, .release "e1" "failed" "no transport" 2000, comment "p2" "e2" 3000,
   .transportAccepted ⟨"e2",none,"effect_sent","ref",4000⟩,
   .recipientDelivery ⟨"e1",none,"recipient_delivery","ref",5000⟩]

/-- Both comments count as accepted in one hour under a limit of one. -/
theorem late_receipt_exceeds_limit :
    (lateReceipt.Pairwise fun a d => a.nowMs ≤ d.nowMs) ∧ (∀ a ∈ lateReceipt, comments.Governs a) ∧
    lateReceipt.Pairwise LedgerCall.OneLane ∧
    Along LedgerCall.exec LedgerCall.InLease [] lateReceipt ∧
    ¬ (comments.sent 5000 (run LedgerCall.exec [] lateReceipt) : Int) ≤ max comments.limit 0 := by
  decide +kernel

end Yeoman.Consciousness
