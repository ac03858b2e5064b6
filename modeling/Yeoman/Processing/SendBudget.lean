import Yeoman.Library.SlidingWindow
import Yeoman.Processing.Router

/-! The durable send budget of a chat: a sliding window over its reservations, keyed by
attempt. -/
namespace Yeoman.Processing
open Library Table Txn Runs
open Library.SlidingWindow (Charged spent)

structure ReserveCall where
  (attemptId channel chatId effectId : String)
  (units nowMs : Int)

def ReserveCall.chat (c : ReserveCall) : String × String := (c.channel, c.chatId)

def ReserveCall.row (c : ReserveCall) : ReservationRow :=
  { attemptId := c.attemptId, channel := c.channel, chatId := c.chatId, effectId := c.effectId,
    units := max 1 c.units, reservedMs := c.nowMs }

namespace ChatBudget

def request (b : ChatBudget) (c : ReserveCall) : StoreM Bool :=
  reserveSendBudget c.attemptId c.channel c.chatId c.effectId c.units c.nowMs b.limit b.windowMs

def reserveStep (b : ChatBudget) (s : Store) (c : ReserveCall) : Store := (b.request c s).2

def allows (b : ChatBudget) (s : Store) (c : ReserveCall) : Bool :=
  (b.request c s).1.toOption = some true

end ChatBudget

def chatLog (s : Store) (chat : String × String) : List ReservationRow :=
  s.reservations.filter fun r => (r.channel, r.chatId) = chat

theorem sendBudgetSpent_eq (s : Store) (channel chatId : String) (nowMs windowMs : Int) :
    sendBudgetSpent s channel chatId nowMs windowMs =
      spent ReservationRow.reservedMs ReservationRow.units (nowMs - windowMs) nowMs
        (chatLog s (channel, chatId)) := by
  unfold sendBudgetSpent spent chatLog
  rw [List.filter_filter]
  congr 2
  refine List.filter_congr fun r _ => ?_
  simp only [Prod.mk.injEq,Bool.decide_and]
  ac_rfl

/-- The outcomes of a reservation: the attempt holds one, the window is full, or a new one
is made. -/
inductive Reserved (b : ChatBudget) (c : ReserveCall) (s : Store) : Except Error Bool × Store → Prop
  | repeated (h : (lookup ReservationRow.attemptId c.attemptId s.reservations).isSome = true) :
      Reserved b c s (.ok true, s)
  | exhausted (h : lookup ReservationRow.attemptId c.attemptId s.reservations = none)
      (hl : b.limit < sendBudgetSpent s c.channel c.chatId c.nowMs b.windowMs + max 1 c.units) :
      Reserved b c s (.ok false, s)
  | granted (h : lookup ReservationRow.attemptId c.attemptId s.reservations = none)
      (hl : sendBudgetSpent s c.channel c.chatId c.nowMs b.windowMs + max 1 c.units ≤ b.limit) :
      Reserved b c s (.ok true, { s with reservations := s.reservations ++ [c.row] })

theorem ChatBudget.request_reserved (b : ChatBudget) (c : ReserveCall) (s : Store) :
    Reserved b c s (b.request c s) := by
  unfold ChatBudget.request reserveSendBudget
  rw [Returns.atomically_apply (.bind .read fun _ => .ite .pure (.ite .pure
    (.bind_pure (.modify)))),read_bind_apply]
  split
  next h =>
    exact .repeated h
  next h =>
    have hn := Option.not_isSome_iff_eq_none.mp h
    split_ifs with hl
    · exact .exhausted hn hl
    · exact .granted hn (not_lt.mp hl)

theorem chatLog_append (s : Store) (row : ReservationRow) (chat : String × String) :
    chatLog { s with reservations := s.reservations ++ [row] } chat =
      if (row.channel, row.chatId) = chat then chatLog s chat ++ [row] else chatLog s chat := by
  unfold chatLog
  rw [List.filter_append,List.filter_singleton]
  split_ifs with h
  · simp [h]
  · simp [h]

/-- The budget was kept so far: the reservations are in time order, none is negative, and
every chat's fitted when they were made. -/
structure Store.Budgeted (b : ChatBudget) (s : Store) : Prop where
  ordered : s.reservations.Pairwise fun a b => a.reservedMs ≤ b.reservedMs
  units : ∀ r ∈ s.reservations, 0 ≤ r.units
  charged : ∀ chat, Charged ReservationRow.reservedMs ReservationRow.units b.limit b.windowMs (chatLog s chat)

variable {b : ChatBudget} {s : Store} {c : ReserveCall} {r : ReservationRow} {cs : List ReserveCall}

theorem Store.Budgeted.step (h : s.Budgeted b)
    (ht : ∀ r ∈ s.reservations, r.reservedMs ≤ c.nowMs) : (b.reserveStep s c).Budgeted b := by
  unfold ChatBudget.reserveStep
  have hr := b.request_reserved c s
  revert hr
  generalize b.request c s = result
  rintro (_ | _ | ⟨-,hl⟩)
  · exact h
  · exact h
  · refine ⟨List.pairwise_append.mpr ⟨h.ordered,List.pairwise_singleton _ _,?_⟩,?_,?_⟩
    · intro r hr q hq
      cases List.mem_singleton.mp hq
      exact ht r hr
    · exact forall_mem_concat h.units (le_trans Int.one_nonneg (le_max_left 1 c.units))
    · intro chat
      rw [chatLog_append]
      split_ifs with hc
      · refine (h.charged chat).concat ?_
        rw [sendBudgetSpent_eq] at hl
        rw [← hc]
        exact hl
      · exact h.charged chat

theorem reservations_step (hr : r ∈ (b.reserveStep s c).reservations) : r ∈ s.reservations ∨ r = c.row := by
  revert hr
  unfold ChatBudget.reserveStep
  have h := b.request_reserved c s
  revert h
  generalize b.request c s = result
  rintro (_ | _ | _)
  · exact .inl
  · exact .inl
  · intro hr
    exact (List.mem_append.mp hr).imp_right List.mem_singleton.mp

theorem Store.Budgeted.run (h : s.Budgeted b) (ht : cs.Pairwise fun c d => c.nowMs ≤ d.nowMs)
    (hs : ∀ r ∈ s.reservations, ∀ c ∈ cs, r.reservedMs ≤ c.nowMs) :
    (run b.reserveStep s cs).Budgeted b := by
  induction cs generalizing s with
  | nil => exact h
  | cons c cs ih =>
    obtain ⟨hc,ht⟩ := List.pairwise_cons.mp ht
    refine ih (h.step fun r hr => hs r hr c List.mem_cons_self) ht fun r hr d hd => ?_
    rcases reservations_step hr with hr | rfl
    · exact hs r hr d (List.mem_cons_of_mem _ hd)
    · exact hc d hd

theorem Store.Budgeted.spent_le (h : s.Budgeted b) (hl : 0 ≤ b.limit) (channel chatId : String) (upTo : Int) :
    sendBudgetSpent s channel chatId upTo b.windowMs ≤ b.limit := by
  rw [sendBudgetSpent_eq]
  refine (h.charged (channel, chatId)).spent_le hl ?_ (h.ordered.filter _)
  exact fun r hr => h.units r (List.mem_filter.mp hr).1
variable {chat : String × String}

theorem reservations_kept (b : ChatBudget) (cs : List ReserveCall)
    (hr : r ∈ s.reservations) : r ∈ (run b.reserveStep s cs).reservations := by
  refine run_invariant (I := fun t : Store => r ∈ t.reservations) (fun t c ht => ?_) hr cs
  unfold ChatBudget.reserveStep
  have h := b.request_reserved c t
  revert h
  generalize b.request c t = result
  rintro (_ | _ | _)
  · exact ht
  · exact ht
  · exact List.mem_append_left _ ht

theorem ChatBudget.reserved_of_allows
    (h : b.allows s c = true) : ∃ r ∈ (b.reserveStep s c).reservations, r.attemptId = c.attemptId := by
  revert h
  unfold ChatBudget.allows ChatBudget.reserveStep
  have hr := b.request_reserved c s
  revert hr
  generalize b.request c s = result
  rintro (hs | _ | _) ha
  · exact lookup_isSome.mp hs
  · cases ha
  · exact ⟨c.row,List.mem_concat_self,rfl⟩

theorem ChatBudget.repeated (h : ∃ r ∈ s.reservations, r.attemptId = c.attemptId) :
    b.reserveStep s c = s ∧ b.allows s c = true := by
  unfold ChatBudget.allows ChatBudget.reserveStep
  have hr := b.request_reserved c s
  have hn : lookup ReservationRow.attemptId c.attemptId s.reservations ≠ none := by
    rw [← Option.isSome_iff_ne_none]
    exact lookup_isSome.mpr h
  revert hr
  generalize b.request c s = result
  rintro (_ | ⟨hs,-⟩ | ⟨hs,-⟩)
  · exact ⟨rfl,rfl⟩
  · exact absurd hs hn
  · exact absurd hs hn

def AttemptsApart (cs : List ReserveCall) : Prop :=
  ∀ c ∈ cs, ∀ d ∈ cs, c.chat ≠ d.chat → c.attemptId ≠ d.attemptId

def logStep (b : ChatBudget) (log : List ReservationRow) (c : ReserveCall) : Bool × List ReservationRow :=
  if ∃ r ∈ log, r.attemptId = c.attemptId then (true, log)
  else if b.limit < spent ReservationRow.reservedMs ReservationRow.units (c.nowMs - b.windowMs) c.nowMs log +
      max 1 c.units then (false, log)
  else (true, log ++ [c.row])

/-- No other chat uses the id of this attempt. -/
def OwnAttempt (s : Store) (c : ReserveCall) : Prop :=
  ∀ r ∈ s.reservations, (r.channel, r.chatId) ≠ c.chat → r.attemptId ≠ c.attemptId

theorem OwnAttempt.lookup_isSome (h : OwnAttempt s c) :
    (lookup ReservationRow.attemptId c.attemptId s.reservations).isSome = true ↔
      ∃ r ∈ chatLog s c.chat, r.attemptId = c.attemptId := by
  rw [Table.lookup_isSome]
  constructor
  · rintro ⟨r,hr,ha⟩
    refine ⟨r,List.mem_filter.mpr ⟨hr,decide_eq_true ?_⟩,ha⟩
    by_contra hc
    exact h r hr hc ha
  · rintro ⟨r,hr,ha⟩
    exact ⟨r,(List.mem_filter.mp hr).1,ha⟩

theorem OwnAttempt.unreserved (h : OwnAttempt s c)
    (hs : lookup ReservationRow.attemptId c.attemptId s.reservations = none) :
    ¬ ∃ r ∈ chatLog s c.chat, r.attemptId = c.attemptId := by
  rw [← h.lookup_isSome,hs]
  nofun

/-- A call acts on the log of its own chat as the budget of that chat on its own. -/
theorem ChatBudget.reserve_logStep (h : OwnAttempt s c) :
    (b.allows s c, chatLog (b.reserveStep s c) c.chat) = logStep b (chatLog s c.chat) c := by
  unfold ChatBudget.allows ChatBudget.reserveStep logStep
  rw [show spent ReservationRow.reservedMs ReservationRow.units (c.nowMs - b.windowMs) c.nowMs
    (chatLog s c.chat) = _ from (sendBudgetSpent_eq s c.channel c.chatId c.nowMs b.windowMs).symm]
  have hr := b.request_reserved c s
  revert hr
  generalize b.request c s = result
  rintro (hs | ⟨hs,hl⟩ | ⟨hs,hl⟩)
  · rw [if_pos (h.lookup_isSome.mp hs)]
    rfl
  · rw [if_neg (h.unreserved hs),if_pos hl]
    rfl
  · have hc : (c.row.channel, c.row.chatId) = c.chat := rfl
    rw [if_neg (h.unreserved hs),if_neg (not_lt.mpr hl),chatLog_append,if_pos hc]
    rfl

theorem ChatBudget.chatLog_other (h : c.chat ≠ chat) : chatLog (b.reserveStep s c) chat = chatLog s chat := by
  unfold ChatBudget.reserveStep
  have hr := b.request_reserved c s
  revert hr
  generalize b.request c s = result
  rintro (_ | _ | _)
  · rfl
  · rfl
  · rw [chatLog_append,if_neg]
    exact h

/-- The log of a chat after a run is what the chat's own calls make of it. -/
theorem chatLog_run (ha : AttemptsApart cs) (hs : ∀ c ∈ cs, c.chat = chat → OwnAttempt s c) :
    chatLog (run b.reserveStep s cs) chat =
      (cs.filter fun c => c.chat = chat).foldl (fun log c => (logStep b log c).2) (chatLog s chat) := by
  induction cs generalizing s with
  | nil => rfl
  | cons c cs ih =>
    have ha' : AttemptsApart cs := fun x hx y hy =>
      ha x (List.mem_cons_of_mem _ hx) y (List.mem_cons_of_mem _ hy)
    rw [run_cons,ih ha' ?_]
    · by_cases hc : c.chat = chat
      · subst hc
        have hl := congrArg Prod.snd (ChatBudget.reserve_logStep (b := b) (hs c List.mem_cons_self rfl))
        rw [List.filter_cons_of_pos (by simp),List.foldl_cons,← hl]
      · rw [List.filter_cons_of_neg (by simpa using hc),ChatBudget.chatLog_other hc]
    · intro d hd hdc r hr hne
      rcases reservations_step hr with hr | rfl
      · exact hs d (List.mem_cons_of_mem _ hd) hdc r hr hne
      · exact ha c List.mem_cons_self d (List.mem_cons_of_mem _ hd) hne

theorem reservations_run
    (hr : r ∈ (run b.reserveStep s cs).reservations) : r ∈ s.reservations ∨ ∃ c ∈ cs, r = c.row := by
  induction cs generalizing s with
  | nil => exact .inl hr
  | cons c cs ih =>
    rcases ih hr with hr | ⟨d,hd,rfl⟩
    · rcases reservations_step hr with hr | rfl
      · exact .inl hr
      · exact .inr ⟨c,List.mem_cons_self,rfl⟩
    · exact .inr ⟨d,List.mem_cons_of_mem _ hd,rfl⟩

theorem ChatBudget.allows_run (b : ChatBudget) (hs : s.reservations = []) (ha : AttemptsApart (cs ++ [c])) :
    b.allows (run b.reserveStep s cs) c =
      (logStep b ((cs.filter fun d => d.chat = c.chat).foldl (fun log d => (logStep b log d).2) []) c).1 := by
  have hc := @List.mem_concat_self _ cs c
  have hempty : chatLog s c.chat = [] := by
    rw [chatLog,hs]
    rfl
  have hown : OwnAttempt (run b.reserveStep s cs) c := by
    intro r hr hne
    rcases reservations_run hr with hr | ⟨d,hd,rfl⟩
    · rw [hs] at hr
      cases hr
    · exact ha d (List.mem_append_left _ hd) c hc hne
  have hl := congrArg Prod.fst (reserve_logStep (b := b) hown)
  rw [chatLog_run (fun x hx y hy => ha x (List.mem_append_left _ hx) y (List.mem_append_left _ hy))
    fun d _ _ r hr => absurd (hs ▸ hr) List.not_mem_nil,hempty] at hl
  exact hl

/-- The sliding send budget. Calls of any chats, attempts and effects at times that never go
back reserve at most the limit in every window of every chat. An attempt that was granted
once is granted again for nothing. The answer to a call is the same with and without an
earlier call of another chat. -/
theorem send_budget_window (b : ChatBudget) (hl : 0 ≤ b.limit) (s : Store) (hs : s.reservations = []) :
    (∀ cs : List ReserveCall, cs.Pairwise (fun c d => c.nowMs ≤ d.nowMs) → ∀ channel chatId upTo,
      sendBudgetSpent (run b.reserveStep s cs) channel chatId upTo b.windowMs ≤ b.limit) ∧
    (∀ before c after d, b.allows (run b.reserveStep s before) c = true → d.attemptId = c.attemptId →
      let t := run b.reserveStep s (before ++ c :: after)
      b.reserveStep t d = t ∧ b.allows t d = true) ∧
    ∀ before c after d, c.chat ≠ d.chat → AttemptsApart (before ++ c :: after ++ [d]) →
      b.allows (run b.reserveStep s (before ++ c :: after)) d =
        b.allows (run b.reserveStep s (before ++ after)) d := by
  have hstart : s.Budgeted b := by
    refine ⟨?_,?_,fun chat => ?_⟩
    · rw [hs]
      exact List.Pairwise.nil
    · rw [hs]
      exact fun r hr => absurd hr List.not_mem_nil
    · rw [chatLog,hs]
      exact .nil
  refine ⟨fun cs ht channel chatId upTo => ?_,fun before c after d hc hd => ?_,fun before c after d hne ha => ?_⟩
  · refine (hstart.run ht fun r hr => ?_).spent_le hl channel chatId upTo
    rw [hs] at hr
    cases hr
  · obtain ⟨r,hr,hid⟩ := ChatBudget.reserved_of_allows hc
    refine ChatBudget.repeated ⟨r,?_,hid.trans hd.symm⟩
    rw [run_append]
    exact reservations_kept b after hr
  · have ha' : AttemptsApart (before ++ after ++ [d]) := by
      have hsub := (((List.Sublist.refl before).append (List.sublist_cons_self c after)).append
        (List.Sublist.refl [d])).subset
      exact fun x hx y hy => ha x (hsub hx) y (hsub hy)
    rw [b.allows_run hs ha,b.allows_run hs ha',List.filter_append,List.filter_append,
      List.filter_cons_of_neg (by simpa using hne)]

/-- One chat fills its window of two units; the other is not affected. -/
theorem send_budget_two_chats :
    let b : ChatBudget := { limit := 2, windowMs := 100 }
    let a : ReserveCall := ⟨"a1","whatsapp","chat-a","fx-a",2,10⟩
    let d : ReserveCall := ⟨"d1","whatsapp","chat-d","fx-d",1,20⟩
    (∀ channel chatId upTo,
      sendBudgetSpent (run b.reserveStep Store.empty [a, d]) channel chatId upTo b.windowMs ≤ b.limit) ∧
    b.reserveStep (run b.reserveStep Store.empty [a]) a = run b.reserveStep Store.empty [a] ∧
    b.allows (run b.reserveStep Store.empty [a]) d = b.allows Store.empty d := by
  intro b a d
  obtain ⟨h₁,h₂,h₃⟩ := send_budget_window b (by decide) Store.empty rfl
  refine ⟨h₁ [a, d] (by decide),(h₂ [] a [] a (by decide +kernel) rfl).1,h₃ [] a [] d (by decide) ?_⟩
  unfold AttemptsApart
  decide

def sendBudgetAttempts (s : Store) (channel chatId : String) (sinceMs : Int) : List (Int × Int) :=
  (((chatLog s (channel, chatId)).filter fun r => sinceMs < r.reservedMs).map
    fun r => (r.reservedMs, r.units)).insertionSort fun a b => a.1 ≤ b.1

def availableUnits (attempts : List (Int × Int)) (nowMs limit windowMs : Int) : Int :=
  max 0 (limit - spent Prod.fst Prod.snd (nowMs - windowMs) nowMs attempts)

def readyAfter (limit windowMs nowMs : Int) : Int → List (Int × Int) → Int
  | _, [] => nowMs + windowMs
  | sum, (at_, units) :: rest =>
    if limit ≤ sum + units then at_ + windowMs else readyAfter limit windowMs nowMs (sum + units) rest

def nextReadyMs (attempts : List (Int × Int)) (nowMs limit windowMs : Int) : Int :=
  let ordered := (attempts.filter fun a => nowMs - windowMs < a.1 && a.1 ≤ nowMs).insertionSort
    fun a b => a.1 < b.1 ∨ (a.1 = b.1 ∧ a.2 ≤ b.2)
  if 0 < availableUnits ordered nowMs limit windowMs then nowMs
  else readyAfter limit windowMs nowMs 0 ordered

structure BudgetDecision where
  allowed : Bool
  readyAtMs : Int := 0
  reason : String := ""

namespace ChatBudget

def available (b : ChatBudget) (s : Store) (channel chatId : String) (nowMs : Int) : Int :=
  availableUnits (sendBudgetAttempts s channel chatId (nowMs - b.windowMs)) nowMs b.limit b.windowMs

def reserve (b : ChatBudget) (c : ReserveCall) : StoreM BudgetDecision := do
  let allowed ← b.request { c with units := max 1 c.units }
  let s ← Txn.read
  return if allowed then { allowed := true } else
    { allowed := false
      readyAtMs := nextReadyMs (sendBudgetAttempts s c.channel c.chatId (c.nowMs - b.windowMs)) c.nowMs
        b.limit b.windowMs
      reason := "budget_exhausted" }

end ChatBudget

theorem spent_sendBudgetAttempts (s : Store) (channel chatId : String) (nowMs windowMs : Int) :
    spent Prod.fst Prod.snd (nowMs - windowMs) nowMs
        (sendBudgetAttempts s channel chatId (nowMs - windowMs)) =
      sendBudgetSpent s channel chatId nowMs windowMs := by
  rw [sendBudgetSpent_eq]
  unfold spent sendBudgetAttempts
  have hp := List.perm_insertionSort (fun a b : Int × Int => a.1 ≤ b.1)
    (((chatLog s (channel, chatId)).filter fun r => nowMs - windowMs < r.reservedMs).map
      fun r => (r.reservedMs, r.units))
  rw [((hp.filter _).map Prod.snd).sum_eq,List.filter_map,List.map_map,List.filter_filter]
  congr 2
  refine List.filter_congr fun r _ => ?_
  simp only [Function.comp_apply]
  rw [Bool.and_right_comm,Bool.and_self]

/-- In every state of a run in time order the units still available are the rest of the
limit, and a new attempt is granted exactly when it asks for no more than that. -/
theorem available_units_exact (hl : 0 ≤ b.limit) (h : s.Budgeted b) (channel chatId : String) (nowMs : Int) :
    b.available s channel chatId nowMs = b.limit - sendBudgetSpent s channel chatId nowMs b.windowMs ∧
    ∀ c : ReserveCall, c.channel = channel → c.chatId = chatId → c.nowMs = nowMs →
      lookup ReservationRow.attemptId c.attemptId s.reservations = none →
      (b.allows s c = true ↔ max 1 c.units ≤ b.available s channel chatId nowMs) := by
  have hle := h.spent_le hl channel chatId nowMs
  have hav : b.available s channel chatId nowMs =
      b.limit - sendBudgetSpent s channel chatId nowMs b.windowMs := by
    unfold ChatBudget.available availableUnits
    rw [spent_sendBudgetAttempts]
    exact max_eq_right (by omega)
  refine ⟨hav,?_⟩
  rintro c rfl rfl rfl hn
  rw [hav]
  unfold ChatBudget.allows
  have hr := b.request_reserved c s
  revert hr
  generalize b.request c s = result
  rintro (hs | ⟨-,hx⟩ | ⟨-,hx⟩)
  · rw [hn] at hs
    cases hs
  · exact ⟨nofun,fun hm => by omega⟩
  · exact ⟨fun _ => by omega,fun _ => rfl⟩

/-- After reservations of three and one units one of five is left: an attempt is granted one and
refused two, and once the window has passed the first reservation its units are back. -/
theorem available_units_after_reservations :
    let b : ChatBudget := ⟨5, 60⟩
    let s := run b.reserveStep Store.empty
      [⟨"a1","whatsapp","chat","fx-1",3,10⟩, ⟨"d1","whatsapp","other","fx-2",5,20⟩, ⟨"a2","whatsapp","chat","fx-3",1,30⟩]
    (b.available s "whatsapp" "chat" 40 = 1 ∧ b.available s "whatsapp" "chat" 75 = 4) ∧
      (b.allows s ⟨"a3","whatsapp","chat","fx-4",1,40⟩ = true ∧ ¬ b.allows s ⟨"a3","whatsapp","chat","fx-4",2,40⟩ = true) := by
  intro b s
  have hstart : Store.empty.Budgeted b := ⟨.nil,fun _ h => absurd h List.not_mem_nil,fun _ => .nil⟩
  have hs : s.Budgeted b := hstart.run (by decide) fun _ h => absurd h List.not_mem_nil
  obtain ⟨h40,hnew⟩ := available_units_exact (by decide) hs "whatsapp" "chat" 40
  have hleft : b.available s "whatsapp" "chat" 40 = 1 := h40.trans (by decide +kernel)
  refine ⟨⟨hleft,(available_units_exact (by decide) hs "whatsapp" "chat" 75).1.trans (by decide +kernel)⟩,?_,?_⟩
  · refine (hnew ⟨"a3","whatsapp","chat","fx-4",1,40⟩ rfl rfl rfl (by decide +kernel)).mpr ?_
    rw [hleft]
    decide
  · intro h
    have hle := (hnew ⟨"a3","whatsapp","chat","fx-4",2,40⟩ rfl rfl rfl (by decide +kernel)).mp h
    rw [hleft] at hle
    exact absurd hle (by decide)

end Yeoman.Processing
