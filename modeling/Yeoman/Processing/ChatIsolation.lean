import Yeoman.Processing.Reactions

/-! Which chat an event is attached in: what every lookup behind the join rules must find so
that an assignment stays in the chat of its event. -/
namespace Yeoman.Processing
open Library Table Txn Runs

theorem keyed_run (reg : ThreadRegistry) (steps : List RegistryAction) :
    Keyed (conversation (run reg.step Store.empty steps)) := by
  refine run_invariant (I := fun s => Keyed (conversation s)) (fun s a h => ?_)
    ⟨Table.Unique.nil,Table.Unique.nil⟩ steps
  cases a with
  | assign c => exact (reg.assign_via c s).carries.keyed h
  | call op => exact (op.carries).keyed h

def InChat (threads : List ThreadRow) (event : CanonicalEvent) (threadId : String) : Prop :=
  ∀ t ∈ lookup ThreadRow.threadId threadId threads,
    t.channel = event.channel ∧ t.chatId = event.chatId
deriving Decidable

def TurnInChat (a : List ThreadRow × List TurnRow) (event : CanonicalEvent) (turnId : String) : Prop :=
  ∀ t ∈ lookup TurnRow.turnId turnId a.2, InChat a.1 event t.threadId

section
variable {event : CanonicalEvent} {threadId turnId : String}

theorem InChat.of_same {rows rows' : List ThreadRow} (h : Rewrites ThreadRow.Same rows rows') :
    InChat rows' event threadId ↔ InChat rows event threadId := by
  have hl := h.lookup (fun _ _ h => h.threadId) threadId
  unfold InChat
  generalize lookup ThreadRow.threadId threadId rows = old at hl ⊢
  generalize lookup ThreadRow.threadId threadId rows' = new at hl ⊢
  cases hl with
  | none => rfl
  | some hs => simp [hs.channel,hs.chatId]
variable {c : AssignCall} {thread : Option String} {s : Store}

theorem InChat.threadsWith {kind : String} :
    InChat (c.threadsWith kind thread s) c.event threadId ↔ InChat s.threads c.event threadId := by
  unfold AssignCall.threadsWith
  split
  · unfold InChat
    cases hl : lookup ThreadRow.threadId threadId s.threads with
    | some row => rw [lookup_append_of_some hl]
    | none =>
      rw [lookup_append_of_none hl]
      refine iff_of_true (fun t ht => ?_) (fun t ht => absurd ht (Option.not_mem_none t))
      cases List.mem_singleton.mp (lookup_some ht).1
      exact ⟨rfl,rfl⟩
  · rfl

theorem TurnInChat.of_same {a b : List ThreadRow × List TurnRow}
    (ht : ∀ threadId, InChat b.1 event threadId ↔ InChat a.1 event threadId)
    (hu : Rewrites TurnRow.Same a.2 b.2) : TurnInChat b event turnId ↔ TurnInChat a event turnId := by
  have hl := hu.lookup (fun _ _ h => h.turnId) turnId
  unfold TurnInChat
  generalize lookup TurnRow.turnId turnId a.2 = old at hl ⊢
  generalize lookup TurnRow.turnId turnId b.2 = new at hl ⊢
  cases hl with
  | none => simp
  | some hs => simp [hs.threadId,ht]

theorem TurnInChat.turnsWith {turn : Option String} (h : InChat s.threads c.event (c.place thread)) :
    TurnInChat (s.threads, c.turnsWith thread turn s) c.event turnId ↔
      TurnInChat (s.threads, s.turns) c.event turnId := by
  unfold AssignCall.turnsWith
  split
  · unfold TurnInChat
    cases hl : lookup TurnRow.turnId turnId s.turns with
    | some row => rw [lookup_insertIgnore_of_some hl]
    | none =>
      refine iff_of_true (fun t ht => ?_) (fun t ht => absurd ht (Option.not_mem_none t))
      obtain ⟨hm,hid⟩ := lookup_some ht
      rcases mem_insertIgnore hm with hm | ⟨rfl,-⟩
      · exact absurd hid (lookup_none.mp hl t hm)
      · exact h
  · rfl

end

structure Isolated (c : AssignCall) (r : Except Error JoinDecision) (s s' : Store) : Prop where
  thread : ∀ p ∈ placeOf r, ∀ t ∈ p.1, InChat s'.threads c.event t
  turn : ∀ p ∈ placeOf r, ∀ t ∈ p.2, TurnInChat (conversation s') c.event t
  sources : ∀ q ∈ s'.turnSources, q.eventId = c.event.eventId → TurnInChat (conversation s') c.event q.turnId
  events : ∀ e ∈ s'.events, e.eventId = c.event.eventId → e ∈ s.events ∨
    (∀ t ∈ e.threadId, InChat s'.threads c.event t) ∧ ∀ t ∈ e.turnId, TurnInChat (conversation s') c.event t

namespace ThreadRegistry

def ThreadScoped (reg : ThreadRegistry) (s : Store) (c : AssignCall) : Prop :=
  match (reg.decision s c).threadId, (reg.decision s c).rule with
  | none, _ => InChat s.threads c.event c.ownThread
  | some _, .replyKnown => ∀ t ∈ replyThread s c.data, InChat s.threads c.event t
  | some _, .explicitCorrection => ∀ p ∈ correctionTargets s c.data, InChat s.threads c.event p.1
  | some _, .followupSingleActive => c.event.channel ≠ "" ∨
      ∀ p ∈ reg.activeThreads s c.data c.nowMs, InChat s.threads c.event p.1
  | some _, .dmLastActive => ∀ id ∈ lastDmThread s c.data, ∀ t ∈ s.thread? id, t.channel = c.event.channel
  | some _, _ => True

/-- The turn a correction names is of the chat, and so is a turn that has the id of a new one. -/
def TurnScoped (reg : ThreadRegistry) (s : Store) (c : AssignCall) : Prop :=
  match reg.joinedTurn s c with
  | some turnId => (reg.decision s c).rule = .followupSingleActive ∨
      TurnInChat (conversation s) c.event turnId
  | none => c.allowTurn = true → TurnInChat (conversation s) c.event
      (nextTurnId s (c.place (reg.decision s c).threadId) c.event.eventId)

def Scoped (reg : ThreadRegistry) (s : Store) (c : AssignCall) : Prop :=
  (∀ q ∈ s.turnSources, q.eventId = c.event.eventId → TurnInChat (conversation s) c.event q.turnId) ∧
  match storedAnswer s c with
  | some (threadId, turnId) => InChat s.threads c.event threadId ∧
      ∀ t ∈ turnId, TurnInChat (conversation s) c.event t
  | none => reg.Background s c ∨ c.Refused s (reg.decision s c).threadId (reg.joinedTurn s c) ∨
      reg.ThreadScoped s c ∧ reg.TurnScoped s c

variable {reg : ThreadRegistry} {s : Store} {c : AssignCall}

theorem inChat_of_mem (h : Keyed (conversation s)) {t : ThreadRow} (hm : t ∈ s.threads) :
    InChat s.threads c.event t.threadId ↔ t.channel = c.event.channel ∧ t.chatId = c.event.chatId := by
  have hl : lookup ThreadRow.threadId t.threadId s.threads = some t := h.threads.lookup_of_mem hm
  unfold InChat
  simp [hl]

theorem threadScoped_iff (h : Keyed (conversation s)) :
    reg.ThreadScoped s c ↔ InChat s.threads c.event (c.place (reg.decision s c).threadId) := by
  have hj := (reg.decision_placed s c).joins
  unfold ThreadScoped
  generalize (reg.decision s c).threadId = thread at hj ⊢
  generalize (reg.decision s c).rule = rule at hj ⊢
  generalize (reg.decision s c).turnId = turn at hj
  generalize (reg.decision s c).newTurn = new at hj
  cases hj with
  | replyEnded | ambiguous | replyBot | mention | dmNew | ambient => rfl
  | reply threadId hr =>
    have hreply : replyThread s c.data = some threadId := nonempty_eq_some hr
    simp [hreply,AssignCall.place]
  | correction threadId turnId hr hc ht =>
    have htargets : correctionTargets s c.data = [(threadId, turnId)] := ht
    simp [htargets,AssignCall.place]
  | followup threadId turnId ht =>
    have hactive : reg.activeThreads s c.data c.nowMs = [(threadId, turn)] := ht
    obtain ⟨t,hm,hid,hchat,-,hchannel,-⟩ := activeThreads_open (hactive ▸ List.mem_singleton_self _)
    subst hid
    simp only [hactive,List.mem_singleton,forall_eq]
    exact ⟨fun hs => hs.elim (fun hne => (inChat_of_mem h hm).mpr ⟨hchannel hne,hchat⟩) id,.inr⟩
  | semantic threadId ht =>
    obtain ⟨t,hm,hid,hchannel,hchat,-⟩ := semanticTarget_open (nonempty_eq_some ht)
    subst hid
    exact iff_of_true trivial ((inChat_of_mem h hm).mpr ⟨hchannel,hchat⟩)
  | dmLast threadId hg ht =>
    have hlast : lastDmThread s c.data = some threadId := nonempty_eq_some ht
    obtain ⟨t,hm,hid,hchat,-⟩ := lastDmThread_open hlast
    subst hid
    rw [show c.place (some t.threadId) = t.threadId from rfl,inChat_of_mem h hm]
    have hrow : s.thread? t.threadId = some t := h.threads.lookup_of_mem hm
    simp only [hlast,Option.mem_def,Option.some.injEq,forall_eq',hrow]
    exact (and_iff_left hchat).symm

theorem activeTurn_mem {threadId : String} {t : TurnRow} (h : s.activeTurn threadId = some t) :
    t ∈ s.turns ∧ t.threadId = threadId := by
  have hm := (List.mem_insertionSort _).mp (List.mem_of_head? h)
  rw [List.mem_filter,Bool.and_eq_true,decide_eq_true_eq] at hm
  exact ⟨hm.1,hm.2.1⟩

theorem followup_turnInChat (h : Keyed (conversation s))
    (hin : InChat s.threads c.event (c.place (reg.decision s c).threadId))
    (hrule : (reg.decision s c).rule = .followupSingleActive) {turnId : String}
    (ht : (reg.decision s c).turnId = some turnId) : TurnInChat (conversation s) c.event turnId := by
  have hj := (reg.decision_placed s c).joins
  rw [hrule,ht] at hj
  generalize (reg.decision s c).threadId = thread at hj hin
  generalize (reg.decision s c).newTurn = new at hj
  cases hj with
  | followup threadId _ hactive =>
    have hmem : (threadId, some turnId) ∈ reg.activeThreads s c.data c.nowMs := by
      rw [show reg.activeThreads s c.data c.nowMs = _ from hactive]
      exact List.mem_singleton_self _
    obtain ⟨-,-,-,-,-,-,hturn⟩ := activeThreads_open hmem
    obtain ⟨t,hactiveTurn,rfl⟩ := Option.map_eq_some_iff.mp hturn.symm
    obtain ⟨hm,hthread⟩ := activeTurn_mem hactiveTurn
    have hl : lookup TurnRow.turnId t.turnId (conversation s).2 = some t := h.turns.lookup_of_mem hm
    intro u hu
    cases hl.symm.trans hu
    rw [hthread]
    exact hin

theorem turnScoped_iff (h : Keyed (conversation s))
    (hin : InChat s.threads c.event (c.place (reg.decision s c).threadId)) :
    reg.TurnScoped s c ↔ ∀ t ∈ c.turnIn s (reg.decision s c).threadId (reg.joinedTurn s c),
      TurnInChat (conversation s) c.event t := by
  unfold TurnScoped AssignCall.turnIn
  cases hj : reg.joinedTurn s c with
  | none =>
    cases c.allowTurn <;> simp
  | some turnId =>
    have ht : (reg.decision s c).turnId = some turnId := by
      unfold joinedTurn at hj
      split at hj
      · cases hj
      · exact hj
    simp only [Option.mem_def,Option.some.injEq,forall_eq']
    exact ⟨fun hs => hs.elim (fun hrule => followup_turnInChat h hin hrule ht) id,.inr⟩

/-- A call that put its event into its place stayed in the chat exactly when the sources the
event had, its thread and its turn are of the chat. -/
theorem placed_isolated_iff {d : JoinDecision} {kind : String} {thread turn : Option String} {s' : Store}
    (hp : c.Placed kind thread turn s s') (ht : d.threadId = some (c.place thread))
    (hu : d.turnId = none ∨ d.turnId = c.turnIn s thread turn) :
    Isolated c (.ok d) s s' ↔
      (∀ q ∈ s.turnSources, q.eventId = c.event.eventId → TurnInChat (conversation s) c.event q.turnId) ∧
      InChat s.threads c.event (c.place thread) ∧
      ∀ t ∈ c.turnIn s thread turn, TurnInChat (conversation s) c.event t := by
  have hthreads (threadId : String) :
      InChat s'.threads c.event threadId ↔ InChat s.threads c.event threadId :=
    (InChat.of_same hp.threads).trans InChat.threadsWith
  have hturns (hin : InChat s.threads c.event (c.place thread)) (turnId : String) :
      TurnInChat (conversation s') c.event turnId ↔ TurnInChat (conversation s) c.event turnId :=
    (TurnInChat.of_same (a := (s.threads, c.turnsWith thread turn s)) hthreads hp.turns).trans
      (TurnInChat.turnsWith hin)
  have hplace : placeOf (.ok d) = some (some (c.place thread), d.turnId) := by
    rw [placeOf,Except.toOption,Option.map_some,ht]
  constructor
  · intro hi
    have hin : InChat s.threads c.event (c.place thread) :=
      (hthreads _).mp (hi.thread _ hplace _ rfl)
    refine ⟨fun q hq he => (hturns hin _).mp (hi.sources q (hp.sources.kept q hq) he),hin,fun t htu => ?_⟩
    obtain ⟨q,hq,rfl,he⟩ := hp.sources.joined t htu
    exact (hturns hin _).mp (hi.sources q hq he)
  · rintro ⟨hsources,hin,hturn⟩
    refine ⟨?_,?_,fun q hq he => (hturns hin _).mpr ?_,fun e he hid => .inr ?_⟩
    · intro p hpp t htp
      cases hplace.symm.trans hpp
      cases htp
      exact (hthreads _).mpr hin
    · intro p hpp t htp
      cases hplace.symm.trans hpp
      refine (hturns hin _).mpr (hturn t ?_)
      rcases hu with hu | hu
      · cases hu.symm.trans htp
      · exact hu.symm.trans htp
    · rcases hp.sources.only q hq with hold | ⟨hnew,-⟩
      · exact hsources q hold he
      · exact hturn _ hnew
    · rw [hp.events] at he
      obtain ⟨hthread,hturnId⟩ := AssignCall.mem_attached he hid
      rw [hthread,hturnId]
      refine ⟨?_,fun t htp => (hturns hin _).mpr (hturn t htp)⟩
      rintro t ⟨⟩
      exact (hthreads _).mpr hin

/-- From every store that calls of the registry and of the store reach, a call stays in the
chat of its event exactly when its lookups do. -/
theorem isolated_iff_scoped (reg : ThreadRegistry) (steps : List RegistryAction) (c : AssignCall) :
    Isolated c (reg.assign c (run reg.step Store.empty steps)).1 (run reg.step Store.empty steps)
        (reg.assign c (run reg.step Store.empty steps)).2 ↔
      reg.Scoped (run reg.step Store.empty steps) c := by
  have hkeyed := keyed_run reg steps
  generalize run reg.step Store.empty steps = s at hkeyed ⊢
  have ha := reg.assign_assigned c s
  generalize (reg.assign c s).1 = r at ha ⊢
  generalize (reg.assign c s).2 = s' at ha ⊢
  unfold Scoped
  cases ha with
  | answered d threadId turnId topics hs ht hu =>
    have hplace : placeOf (.ok d) = some (some threadId, turnId) := by
      rw [placeOf,Except.toOption,Option.map_some,ht,hu]
    rw [hs]
    constructor
    · exact fun hi => ⟨hi.sources,hi.thread _ hplace _ rfl,fun t ht => hi.turn _ hplace t ht⟩
    · rintro ⟨hsources,hthread,hturn⟩
      refine ⟨?_,?_,hsources,fun e he _ => .inl he⟩
      · intro p hp t ht
        cases hplace.symm.trans hp
        cases ht
        exact hthread
      · intro p hp t ht
        cases hplace.symm.trans hp
        exact hturn t ht
  | background d topics hs hb ht hu =>
    have hplace : placeOf (.ok d) = some (none, none) := by
      rw [placeOf,Except.toOption,Option.map_some,ht,hu]
    rw [hs]
    refine ⟨fun hi => ⟨hi.sources,.inl hb⟩,fun hsc => ⟨?_,?_,hsc.1,fun e he _ => .inl he⟩⟩
    · intro p hp t ht
      cases hplace.symm.trans hp
      cases ht
    · intro p hp t ht
      cases hplace.symm.trans hp
      cases ht
  | placed d kind s' hs hb hp ht hu =>
    have hturn : d.turnId = none ∨
        d.turnId = c.turnIn s (reg.decision s c).threadId (reg.joinedTurn s c) := by
      rw [hu]
      split
      · exact .inl rfl
      · exact .inr rfl
    rw [placed_isolated_iff hp ht hturn,hs]
    refine and_congr_right fun _ => ?_
    rw [or_iff_right hb,or_iff_right hp.accepted,threadScoped_iff hkeyed]
    exact and_congr_right fun hin => (turnScoped_iff hkeyed hin).symm
  | raised e kind s' hs hb hr =>
    have hthreads (threadId : String) :
        InChat s'.threads c.event threadId ↔ InChat s.threads c.event threadId :=
      (InChat.of_same hr.threads).trans InChat.threadsWith
    have hturns (turnId : String) :
        TurnInChat (conversation s') c.event turnId ↔ TurnInChat (conversation s) c.event turnId := by
      refine TurnInChat.of_same hthreads ?_
      rw [hr.rest]
      exact .refl TurnRow.Same.refl _
    have hrest := hr.rest
    have hsrc : s'.turnSources = s.turnSources := by rw [hrest]
    have hev : s'.events = s.events := by rw [hrest]
    rw [hs]
    constructor
    · intro hi
      refine ⟨fun q hq he => (hturns _).mp (hi.sources q (hsrc ▸ hq) he),.inr (.inl hr.refused)⟩
    · intro hsc
      refine ⟨?_,?_,fun q hq he => (hturns _).mpr (hsc.1 q (hsrc ▸ hq) he),fun e he _ => .inl (hev ▸ he)⟩
      · intro p hp
        cases hp
      · intro p hp
        cases hp

end ThreadRegistry

def foreignDm : AssignCall :=
  { event := chatEvent "ev2" .message "whatsapp" "4915" "4915" Dict.empty, nowMs := 2000 }

def telegramChat : List RegistryAction := [.call (.openThread "telegram" "4915" "4915" "dm" "ev1" 1000)]

theorem foreign_dm_joins_other_channel :
    ¬ Isolated foreignDm
      (({} : ThreadRegistry).assign foreignDm (run ({} : ThreadRegistry).step Store.empty telegramChat)).1
      (run ({} : ThreadRegistry).step Store.empty telegramChat)
      (({} : ThreadRegistry).assign foreignDm (run ({} : ThreadRegistry).step Store.empty telegramChat)).2 := by
  intro h
  refine absurd h.thread ?_
  decide +kernel

end Yeoman.Processing
