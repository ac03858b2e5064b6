import Yeoman.Consciousness.MaterialLedger
import Yeoman.Library.Inflation

/-! How observed material reaches the scheduler: its sources are claimed in the ledger, the offer
is made, the claims of what the scheduler did not keep are released, and the watermark of the lane
is raised to what the offer observed. -/
namespace Yeoman.Consciousness
open Library Table Runs

structure Activation where
  epoch : Nat
  lane : Lane
  ready : Bool

structure SourceOffer where
  chat : ChatKey
  sourceEventIds : List String
  observedRevision : Nat
  trigger : OpportunityTrigger := .inbound
  activation : Activation
  nowMs : Nat := 0

structure OfferEntry where
  chat : ChatKey
  lane : Lane
  observedRevision : Nat
  result : OfferResult

structure Intake where
  ledger : MaterialLedger
  scheduler : Scheduler
  hydrated : List (ChatKey × Lane)
  offers : List OfferEntry

namespace Intake

def ownerParticipation : String := "participation"

def initial (b : SchedulerBounds) : Intake := ⟨.empty,.initial b,[],[]⟩

def hydrateConsideredRevision (provided : Bool) (chat : ChatKey) (lane : Lane) (i : Intake) : Intake :=
  if (chat, lane) ∈ i.hydrated ∨ provided = false then i
  else
    let revision := i.ledger.considered chat lane
    { i with
      hydrated := (chat, lane) :: i.hydrated
      scheduler := if revision = 0 then i.scheduler else i.scheduler.markConsidered chat revision lane }

structure Claims where
  ledger : MaterialLedger
  claimed : List String := []
  newlyClaimed : List String := []

def claim (o : SourceOffer) (c : Claims) (source : String) : Claims :=
  let ((new, winner), ledger) :=
    c.ledger.claimSource o.chat o.nowMs source o.activation.epoch o.activation.lane.name ownerParticipation
  if winner = ownerParticipation then
    ⟨ledger,c.claimed ++ [source],if new then c.newlyClaimed ++ [source] else c.newlyClaimed⟩
  else { c with ledger := ledger }

def opportunity (o : SourceOffer) (claimed : List String) : ParticipationOpportunity where
  opportunityId := opportunityIdFor o.chat.1 o.chat.2 o.activation.epoch o.activation.lane claimed o.observedRevision
  channel := o.chat.1
  chatId := o.chat.2
  trigger := o.trigger
  sourceEventIds := claimed
  observedRevision := o.observedRevision
  activationEpoch := o.activation.epoch
  createdAtMs := o.nowMs
  lane := o.activation.lane

def releaseClaims (o : SourceOffer) (sources : List String) (l : MaterialLedger) : MaterialLedger :=
  sources.foldl (fun l source =>
    (l.releaseSourceClaim o.chat source o.activation.lane.name ownerParticipation).2) l

def offerSource (b : SchedulerBounds) (provided : Bool) (o : SourceOffer) (i : Intake) : Bool × Intake :=
  if sourceIds o.sourceEventIds = [] ∨ o.activation.ready = false then (false, i)
  else
    let i := i.hydrateConsideredRevision provided o.chat o.activation.lane
    let c := (sourceIds o.sourceEventIds).foldl (claim o) { ledger := i.ledger }
    if c.claimed = [] then (false, { i with ledger := c.ledger })
    else
      let (result, scheduler) := i.scheduler.offerWithResult b (opportunity o c.claimed)
      let released := result.droppedSourceEventIds ++ if result.accepted then [] else c.newlyClaimed
      let ledger := releaseClaims o released c.ledger
      (result.accepted,
        { i with
          ledger := if result.accepted then ledger.markConsidered o.chat o.nowMs o.observedRevision o.activation.lane
            else ledger
          scheduler := scheduler
          offers := i.offers ++ [⟨o.chat,o.activation.lane,o.observedRevision,result⟩] })

end Intake

inductive IntakeAction where
  | register (chat : ChatKey) (values : List String) (nowMs : Int)
  | offer (o : SourceOffer)
  | cancel (key : ChatKey) (reason : String)
  | release (key : ChatKey)
  | take (worker : Nat) (nowMs : Int)
  | finish (worker : Nat) (outcome : HandlerOutcome)

namespace Intake

def step (b : SchedulerBounds) (provided : Bool) (i : Intake) : IntakeAction → Intake
  | .register chat values nowMs => { i with ledger := (i.ledger.ensureSourceRevisions chat nowMs values).2 }
  | .offer o => (i.offerSource b provided o).2
  | .cancel key reason => { i with scheduler := i.scheduler.cancelChat key reason }
  | .release key => { i with scheduler := i.scheduler.releaseChat key }
  | .take w nowMs => { i with scheduler := i.scheduler.take b w nowMs }
  | .finish w outcome => { i with scheduler := i.scheduler.finish w outcome }

def after (b : SchedulerBounds) (provided : Bool) (acts : List IntakeAction) : Intake :=
  run (step b provided) (initial b) acts

end Intake

namespace MaterialLedger
variable {l : MaterialLedger} {chat k : ChatKey} {nowMs : Int} {lane : Lane} {l' : MaterialLedger}

theorem considered_of_chats (h : l'.chats = l.chats) (k : ChatKey) (lane : Lane) :
    l'.considered k lane = l.considered k lane := by
  unfold considered chatRow
  rw [h]

theorem considered_ensure {l : MaterialLedger} :
    (l.ensureChatRevisionRow chat nowMs).considered k lane = l.considered k lane := by
  unfold considered
  rw [chatRow_ensure]
  split_ifs with hk
  · subst hk
    cases l.chatRow k with
    | none => cases lane <;> rfl
    | some r => rfl
  · rfl

theorem considered_allocate : (l.allocateSourceRevision chat nowMs).2.considered k lane = l.considered k lane := by
  have hrow := @chatRow_updateChat chat k
    (fun q => { q with revision := (l.ensureChatRevisionRow chat nowMs).revision chat + 1, updatedAtMs := nowMs })
    (fun _ => rfl) (l.ensureChatRevisionRow chat nowMs)
  rw [← @considered_ensure chat k nowMs lane l]
  unfold allocateSourceRevision considered
  rw [hrow]
  split_ifs with hk
  · subst hk
    cases (l.ensureChatRevisionRow k nowMs).chatRow k with
    | none => rfl
    | some r => cases lane <;> rfl
  · rfl

theorem considered_markConsidered {observed : Nat} {lane' : Lane} :
    (l.markConsidered chat nowMs observed lane).considered k lane' =
      if k = chat ∧ lane' = lane then max (l.considered k lane') observed else l.considered k lane' := by
  unfold markConsidered
  split
  · have : observed = 0 := by omega
    subst this
    split <;> simp
  · unfold considered
    rw [chatRow_amend (ChatRevision.key_considerAtLeast lane _ nowMs),Int.toNat_natCast]
    by_cases hk : k = chat
    · subst hk
      cases l.chatRow k with
      | none | some => cases lane <;> cases lane' <;> simp [ChatRevision.considered,ChatRevision.considerAtLeast]
    · simp [hk]

theorem sources_markConsidered {observed : Int} :
    (l.markConsidered chat nowMs observed lane).sources = l.sources := by
  unfold markConsidered
  split <;> rfl

structure Registry (l : MaterialLedger) : Prop where
  unique : Table.Unique SourceRevision.key l.sources
  rows : ∀ r ∈ l.sources, r.channel ≠ "" ∧ r.chatId ≠ "" ∧ 0 < r.revision

theorem Registry.of_sources (h : l.Registry) (hs : l'.sources = l.sources) : l'.Registry :=
  ⟨hs ▸ h.unique,hs ▸ h.rows⟩

/-- Registering one source keeps the registry and the watermarks, and the source has a revision. -/
structure Registers (chat : ChatKey) (ids : List String) (l l' : MaterialLedger) : Prop where
  registry : l'.Registry
  considered : ∀ k lane, l'.considered k lane = l.considered k lane
  kept : ∀ k id revision, l.registered k id = some revision → l'.registered k id = some revision
  named : ∀ id ∈ ids, ∃ revision, l'.registered chat id = some revision

theorem ensureSourceRevision_registers (h : l.Registry) (hc : chat.1 ≠ "" ∧ chat.2 ≠ "") (id : String) :
    Registers chat [id] l (l.ensureSourceRevision chat nowMs id).2 := by
  unfold ensureSourceRevision
  cases hr : l.registered chat id with
  | some revision => exact ⟨h,fun _ _ => rfl,fun _ _ _ h => h,by simp [hr]⟩
  | none =>
    have hlookup : ∀ k id', lookup SourceRevision.key (k, id')
        ((l.allocateSourceRevision chat nowMs).2.insertSource chat nowMs id (l.allocateSourceRevision chat nowMs).1).sources =
        if (k, id') = (chat, id) then some ((lookup SourceRevision.key (k, id') l.sources).getD
          ⟨chat.1,chat.2,id,(l.allocateSourceRevision chat nowMs).1,nowMs⟩)
        else lookup SourceRevision.key (k, id') l.sources :=
      fun k id' => lookup_insertIgnore
    refine ⟨⟨h.unique.insertIgnore,?_⟩,?_,?_,?_⟩
    · intro r hm
      rcases mem_insertIgnore hm with hm | ⟨rfl,-⟩
      · exact h.rows r hm
      · exact ⟨hc.1,hc.2,Nat.succ_pos _⟩
    · intro k lane
      exact (considered_of_chats rfl k lane).trans considered_allocate
    · intro k id' revision hk
      unfold registered at hk ⊢
      obtain ⟨r,hr,hrev⟩ := Option.map_eq_some_iff.mp hk
      rw [hlookup,hr]
      split <;> simp [hrev]
    · intro id' hid
      rw [List.mem_singleton.mp hid]
      rw [registered,hlookup,if_pos rfl]
      exact ⟨_,rfl⟩

theorem Registers.trans {ids ids' : List String} {l' l'' : MaterialLedger} (h : Registers chat ids l l')
    (h' : Registers chat ids' l' l'') : Registers chat (ids ++ ids') l l'' := by
  refine ⟨h'.registry,fun k lane => (h'.considered k lane).trans (h.considered k lane),
    fun k id revision hr => h'.kept k id revision (h.kept k id revision hr),?_⟩
  intro id hid
  rcases List.mem_append.mp hid with hid | hid
  · obtain ⟨revision,hr⟩ := h.named id hid
    exact ⟨revision,h'.kept chat id revision hr⟩
  · exact h'.named id hid

theorem foldl_registers {α : Type} {f : α × MaterialLedger → String → α × MaterialLedger}
    (hf : ∀ p id, (f p id).2 = (p.2.ensureSourceRevision chat nowMs id).2) (hc : chat.1 ≠ "" ∧ chat.2 ≠ "")
    (ids : List String) (p : α × MaterialLedger) (hp : p.2.Registry) :
    Registers chat ids p.2 (ids.foldl f p).2 := by
  induction ids generalizing p with
  | nil => exact ⟨hp,fun _ _ => rfl,fun _ _ _ h => h,fun _ hm => absurd hm List.not_mem_nil⟩
  | cons id ids ih =>
    have hone := @ensureSourceRevision_registers p.2 chat nowMs hp hc id
    rw [← hf] at hone
    exact hone.trans (ih (f p id) hone.registry)

theorem ensureSourceRevisions_registers (h : l.Registry) (values : List String) :
    Registers chat (if chat.1 = "" ∨ chat.2 = "" then [] else sourceIds values) l
      (l.ensureSourceRevisions chat nowMs values).2 := by
  have hsame : Registers chat [] l l :=
    ⟨h,fun _ _ => rfl,fun _ _ _ h => h,fun _ hm => absurd hm List.not_mem_nil⟩
  unfold ensureSourceRevisions
  by_cases hc : chat.1 = "" ∨ chat.2 = ""
  · rw [if_pos hc,if_pos (or_assoc.mp (.inl hc))]
    exact hsame
  rw [if_neg hc]
  by_cases hn : sourceIds values = []
  · rw [if_pos (.inr (.inr hn)),hn]
    exact hsame
  · rw [if_neg fun h => (or_assoc.mpr h).elim hc hn]
    have hrow : Registers chat [] l (l.ensureChatRevisionRow chat nowMs) :=
      ⟨h.of_sources rfl,fun _ _ => considered_ensure,fun _ _ _ h => h,fun _ hm => absurd hm List.not_mem_nil⟩
    refine @Registers.trans l chat [] (sourceIds values) _ _ hrow ?_
    refine @foldl_registers chat nowMs _ _ ?_ (not_or.mp hc) (sourceIds values) ([], l.ensureChatRevisionRow chat nowMs)
      hrow.registry
    exact fun _ _ => rfl

theorem mem_material_iff (h : l.Registry) {id : String} {revision : Nat} (hr : l.registered chat id = some revision)
    : id ∈ (l.materialForOpportunity chat none lane).1 ↔ l.considered chat lane < revision := by
  obtain ⟨r,hl,hrev⟩ := Option.map_eq_some_iff.mp hr
  obtain ⟨hm,hkey⟩ := lookup_some hl
  obtain ⟨hchat,hid⟩ := Prod.mk.inj hkey
  have hne : ¬(chat.1 = "" ∨ chat.2 = "") := by
    obtain ⟨hc,hd,-⟩ := h.rows r hm
    rw [← hchat]
    exact not_or.mpr ⟨hc,hd⟩
  rw [materialForOpportunity,if_neg hne]
  simp only [orderBy,List.mem_map,List.mem_insertionSort,List.mem_filter,decide_eq_true_eq]
  constructor
  · rintro ⟨q,⟨hq,hqc,hlt,-⟩,hqid⟩
    have hsame : q = r := List.inj_on_of_nodup_map h.unique hq hm (by
      rw [SourceRevision.key,SourceRevision.key,hqc,hchat,hqid,hid])
    rw [← hrev,← hsame]
    exact hlt
  · intro hlt
    exact ⟨r,⟨hm,hchat,hrev ▸ hlt,fun _ hn => absurd hn (Option.not_mem_none _)⟩,hid⟩

end MaterialLedger

namespace Intake
open MaterialLedger (Registry)
variable {b : SchedulerBounds} {provided : Bool} {i : Intake}

structure SameMaterial (l l' : MaterialLedger) : Prop where
  chats : l'.chats = l.chats
  sources : l'.sources = l.sources

theorem SameMaterial.registered {l l' : MaterialLedger} (h : SameMaterial l l') {chat : ChatKey} {id : String} :
    l'.registered chat id = l.registered chat id := by
  unfold MaterialLedger.registered
  rw [h.sources]

theorem sameMaterial_foldl {α β : Type} (ledger : α → MaterialLedger) (f : α → β → α)
    (hf : ∀ a x, SameMaterial (ledger a) (ledger (f a x))) (a : α) (xs : List β) :
    SameMaterial (ledger a) (ledger (xs.foldl f a)) :=
  @Inflation.le_foldl α β (fun a a' => SameMaterial (ledger a) (ledger a')) f (fun _ => ⟨rfl,rfl⟩)
    (fun _ _ _ h h' => ⟨h'.chats.trans h.chats,h'.sources.trans h.sources⟩) hf a xs
variable {i' : Intake} {chat : ChatKey} {id : String} (o : SourceOffer)

theorem claim_sameMaterial (c : Claims) (source : String) : SameMaterial c.ledger (claim o c source).ledger := by
  have hclaim : SameMaterial c.ledger (c.ledger.claimSource o.chat o.nowMs source o.activation.epoch
      o.activation.lane.name ownerParticipation).2 := by
    unfold MaterialLedger.claimSource
    split <;> exact ⟨rfl,rfl⟩
  unfold claim
  dsimp only
  split <;> exact hclaim

theorem releaseClaims_sameMaterial (sources : List String) (l : MaterialLedger) :
    SameMaterial l (releaseClaims o sources l) := by
  apply sameMaterial_foldl id
  exact fun _ _ => ⟨rfl,rfl⟩

/-- What an offer does to the material: nothing, unless the scheduler was asked and accepted. -/
inductive Made (o : SourceOffer) (i i' : Intake) : Prop where
  | unasked (material : SameMaterial i.ledger i'.ledger) (offers : i'.offers = i.offers)
  | refused (result : OfferResult) (refused : result.accepted = false) (material : SameMaterial i.ledger i'.ledger)
    (offers : i'.offers = i.offers ++ [⟨o.chat,o.activation.lane,o.observedRevision,result⟩])
  | accepted (result : OfferResult) (accepted : result.accepted = true) (released : MaterialLedger)
    (material : SameMaterial i.ledger released)
    (ledger : i'.ledger = released.markConsidered o.chat o.nowMs o.observedRevision o.activation.lane)
    (offers : i'.offers = i.offers ++ [⟨o.chat,o.activation.lane,o.observedRevision,result⟩])

theorem hydrate_keeps {chat : ChatKey} {lane : Lane} {i : Intake} :
    (i.hydrateConsideredRevision provided chat lane).ledger = i.ledger ∧
      (i.hydrateConsideredRevision provided chat lane).offers = i.offers := by
  unfold hydrateConsideredRevision
  split <;> exact ⟨rfl,rfl⟩

theorem offerSource_made : Made o i (i.offerSource b provided o).2 := by
  unfold offerSource
  split
  · exact .unasked ⟨rfl,rfl⟩ rfl
  · obtain ⟨hl,ho⟩ := @hydrate_keeps provided o.chat o.activation.lane i
    generalize i.hydrateConsideredRevision provided o.chat o.activation.lane = j at hl ho
    have hc := sameMaterial_foldl Claims.ledger (claim o) (claim_sameMaterial o) ⟨j.ledger,[],[]⟩
      (sourceIds o.sourceEventIds)
    generalize hcs : (sourceIds o.sourceEventIds).foldl (claim o) ⟨j.ledger,[],[]⟩ = c at hc
    rw [hl] at hc
    dsimp only
    rw [hcs]
    split
    · exact .unasked hc ho
    · generalize j.scheduler.offerWithResult b (opportunity o c.claimed) = r
      obtain ⟨result,scheduler⟩ := r
      have hr := releaseClaims_sameMaterial o
        (result.droppedSourceEventIds ++ if result.accepted then [] else c.newlyClaimed) c.ledger
      have hreleased : SameMaterial i.ledger _ := ⟨hr.chats.trans hc.chats,hr.sources.trans hc.sources⟩
      cases ha : result.accepted with
      | false =>
        exact .refused result ha (by simpa [ha] using hreleased) (by simp [ho])
      | true =>
        rw [ha] at hreleased
        exact .accepted result ha _ hreleased (by simp) (by simp [ho])

/-- The watermarks are what the accepted offers observed, and the registry is in order. -/
structure Attentive (i : Intake) : Prop where
  registry : i.ledger.Registry
  observed : ∀ e ∈ i.offers, e.result.accepted = true → e.observedRevision ≤ i.ledger.considered e.chat e.lane
  attained : ∀ chat lane, i.ledger.considered chat lane = 0 ∨ ∃ e ∈ i.offers, e.chat = chat ∧ e.lane = lane ∧
    e.result.accepted = true ∧ e.observedRevision = i.ledger.considered chat lane

theorem Attentive.initial : (initial b).Attentive :=
  ⟨⟨List.nodup_nil,fun _ hr => absurd hr List.not_mem_nil⟩,fun _ he => absurd he List.not_mem_nil,
    fun _ _ => .inl rfl⟩

theorem Attentive.keep (h : i.Attentive) (hr : i'.ledger.Registry)
    (hc : ∀ chat lane, i'.ledger.considered chat lane = i.ledger.considered chat lane)
    (ho : i'.offers = i.offers) : i'.Attentive := by
  refine ⟨hr,?_,?_⟩
  · intro e he
    rw [ho] at he
    rw [hc]
    exact h.observed e he
  · intro chat lane
    rw [hc,ho]
    exact h.attained chat lane

/-- Appending one offer: the watermark of its lane is raised if it was accepted. -/
theorem Attentive.log (h : i.Attentive) (hr : i'.ledger.Registry) {e : OfferEntry} (ho : i'.offers = i.offers ++ [e])
    (hc : ∀ chat lane, i'.ledger.considered chat lane =
      if e.result.accepted = true ∧ chat = e.chat ∧ lane = e.lane
      then max (i.ledger.considered chat lane) e.observedRevision else i.ledger.considered chat lane) :
    i'.Attentive := by
  have hle : ∀ chat lane, i.ledger.considered chat lane ≤ i'.ledger.considered chat lane := by
    intro chat lane
    rw [hc]
    split
    · exact Nat.le_max_left _ _
    · exact Nat.le_refl _
  refine ⟨hr,?_,?_⟩
  · intro e' he ha
    rw [ho] at he
    rcases mem_concat.mp he with he | he
    · exact (h.observed e' he ha).trans (hle e'.chat e'.lane)
    · obtain rfl := he
      rw [hc,if_pos ⟨ha,rfl,rfl⟩]
      exact Nat.le_max_right _ _
  · intro chat lane
    have hold : i'.ledger.considered chat lane = i.ledger.considered chat lane →
        i'.ledger.considered chat lane = 0 ∨ ∃ e ∈ i'.offers, e.chat = chat ∧ e.lane = lane ∧
          e.result.accepted = true ∧ e.observedRevision = i'.ledger.considered chat lane := by
      intro heq
      rw [heq,ho]
      rcases h.attained chat lane with hz | ⟨e',he,hrest⟩
      · exact .inl hz
      · exact .inr ⟨e',List.mem_append_left _ he,hrest⟩
    have hcl := hc chat lane
    split_ifs at hcl with hin
    · obtain ⟨ha,rfl,rfl⟩ := hin
      rcases Nat.le_total e.observedRevision (i.ledger.considered e.chat e.lane) with hm | hm
      · exact hold (by rw [hcl,Nat.max_eq_left hm])
      · refine .inr ⟨e,by simp [ho],rfl,rfl,ha,?_⟩
        rw [hcl,Nat.max_eq_right hm]
    · exact hold hcl

theorem Attentive.offer (h : i.Attentive) {o : SourceOffer} : (i.offerSource b provided o).2.Attentive := by
  cases offerSource_made (b := b) o with
  | unasked material offers =>
    exact h.keep (h.registry.of_sources material.sources)
      (MaterialLedger.considered_of_chats material.chats) offers
  | refused result refused material offers =>
    refine h.log (h.registry.of_sources material.sources) offers ?_
    intro chat lane
    rw [if_neg fun hin => Bool.false_ne_true (refused.symm.trans hin.1)]
    exact MaterialLedger.considered_of_chats material.chats chat lane
  | accepted result accepted released material ledger offers =>
    refine h.log (h.registry.of_sources ?_) offers ?_
    · rw [ledger,MaterialLedger.sources_markConsidered]
      exact material.sources
    · intro chat lane
      rw [ledger,MaterialLedger.considered_markConsidered,
        MaterialLedger.considered_of_chats material.chats]
      simp [accepted]

theorem Attentive.step (h : i.Attentive) (a : IntakeAction) : (i.step b provided a).Attentive := by
  cases a with
  | register chat values nowMs =>
    have hr := @MaterialLedger.ensureSourceRevisions_registers i.ledger chat nowMs h.registry values
    exact h.keep hr.registry hr.considered rfl
  | offer o => exact h.offer
  | cancel | release | take | finish => exact h.keep h.registry (fun _ _ => rfl) rfl

theorem attentive_after (b : SchedulerBounds) (provided : Bool) (acts : List IntakeAction) :
    (after b provided acts).Attentive :=
  run_invariant (fun _ a h => h.step a) (.initial) acts

theorem registered_step {revision : Nat} (h : i.Attentive)
    (hr : i.ledger.registered chat id = some revision) (a : IntakeAction) :
    (i.step b provided a).ledger.registered chat id = some revision := by
  cases a with
  | register chat' values nowMs =>
    exact (MaterialLedger.ensureSourceRevisions_registers h.registry values).kept chat id revision hr
  | offer o =>
    change (i.offerSource b provided o).2.ledger.registered chat id = some revision
    have hmade : Made o i (i.offerSource b provided o).2 := offerSource_made o
    cases hmade with
    | unasked material | refused _ _ material =>
      rw [material.registered]
      exact hr
    | accepted _ _ released material ledger =>
      rw [ledger]
      rw [MaterialLedger.registered,MaterialLedger.sources_markConsidered]
      exact (material.registered).trans hr
  | cancel | release | take | finish => exact hr

theorem registered_of_register {values : List String} {nowMs : Int} {acts : List IntakeAction}
    (ha : .register chat values nowMs ∈ acts) (hc : chat.1 ≠ "" ∧ chat.2 ≠ "")
    (hid : id ∈ sourceIds values) : ∃ revision, (after b provided acts).ledger.registered chat id = some revision := by
  obtain ⟨before,later,rfl⟩ := List.append_of_mem ha
  have hbefore := attentive_after b provided before
  have hnamed := (@MaterialLedger.ensureSourceRevisions_registers _ chat nowMs hbefore.registry values).named id
  rw [if_neg (not_or.mpr hc)] at hnamed
  obtain ⟨revision,hr⟩ := hnamed hid
  refine ⟨revision,?_⟩
  rw [after,run_append,run_cons]
  -- from the registration on, the rest of the run keeps the revision
  exact (run_invariant (I := fun i : Intake => i.Attentive ∧ i.ledger.registered chat id = some revision)
    (fun _ a h => ⟨h.1.step a,registered_step h.1 h.2 a⟩) ⟨hbefore.step (.register chat values nowMs),hr⟩ later).2

/-- Whatever is registered and offered, in whatever order and under whatever bounds: a lane is
still shown a registered source exactly as long as no offer it accepted for the chat observed a
revision that reaches the source. -/
theorem material_shown_iff (b : SchedulerBounds) (provided : Bool) (acts : List IntakeAction) :
    (∀ chat values nowMs, .register chat values nowMs ∈ acts → chat.1 ≠ "" ∧ chat.2 ≠ "" →
      ∀ id ∈ sourceIds values, ∃ revision, (after b provided acts).ledger.registered chat id = some revision) ∧
    ∀ chat id revision, (after b provided acts).ledger.registered chat id = some revision → ∀ lane,
      (id ∈ ((after b provided acts).ledger.materialForOpportunity chat none lane).1 ↔
        ∀ e ∈ (after b provided acts).offers, e.chat = chat → e.lane = lane → e.result.accepted = true →
          e.observedRevision < revision) := by
  have h := attentive_after b provided acts
  refine ⟨fun _ _ _ ha hc _ hid => registered_of_register ha hc hid,?_⟩
  intro chat id revision hr lane
  rw [MaterialLedger.mem_material_iff h.registry hr]
  constructor
  · rintro hlt e he rfl rfl ha
    exact (h.observed e he ha).trans_lt hlt
  · intro hall
    rcases h.attained chat lane with hz | ⟨e,he,hc,hl,ha,heq⟩
    · obtain ⟨r,hlookup,hrev⟩ := Option.map_eq_some_iff.mp hr
      rw [hz,← hrev]
      exact (h.registry.rows r (lookup_some hlookup).1).2.2
    · rw [← heq]
      exact hall e he hc hl ha

/-- Three registered sources are offered at once to a scheduler that keeps two: the offer is
accepted, the oldest is dropped and its claim released, but the lane is not shown it again. -/
theorem dropped_source_hidden :
    let b : SchedulerBounds := { maxRefs := 2 }
    let chat : ChatKey := ("whatsapp", "g")
    let i := after b true
      [.register chat ["m1", "m2", "m3"] 0,
        .offer { chat := chat, sourceEventIds := ["m1", "m2", "m3"], observedRevision := 3, activation := ⟨1,.production,true⟩ }]
    i.ledger.registered chat "m1" = some 1 ∧
      i.offers.map (·.result) = [⟨true,["m2", "m3"],["m1"],1⟩] ∧
      i.ledger.claims.map SourceClaim.claimKey = ["m2", "m3"] ∧
      (i.ledger.materialForOpportunity chat none .production).1 = [] := by
  decide +kernel

end Intake
end Yeoman.Consciousness
