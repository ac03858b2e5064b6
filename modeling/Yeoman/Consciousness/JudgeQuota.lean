import Yeoman.Library.Runs
import Yeoman.Library.SlidingWindow
import Yeoman.Processing.Authority

/-! The cost quota of the judge: attempts are charged before the provider call, against an
hourly limit of the chat with slots protected for continuations, and with a gap between
opportunities. -/
namespace Yeoman.Consciousness
open Library Table Txn Runs
open Processing (Error valueError stripText)
open Library.SlidingWindow (Charged spent)

structure JudgeAttemptRow where
  (attemptId opportunityId : String)
  evaluationIndex : Nat
  (channel chatId : String)
  (createdAtMs hourlyLimit : Int)
  continuationCandidate : Bool
  continuationReserve : Int

abbrev JudgeM := Txn (List JudgeAttemptRow) Error

structure JudgeQuota where
  (hourlyLimit minGapMs continuationReserve : Int)

structure JudgeCall where
  (attemptId opportunityId channel chatId : String)
  nowMs : Int
  continuationCandidate : Bool

def hourMs : Int := 3600000

def evaluationIndex (attempt : String) : Nat :=
  let digits := (attempt.toList.reverse.takeWhile (· ≠ ':')).reverse
  if ':' ∈ attempt.toList ∧ digits ≠ [] ∧ digits.all Char.isDigit then
    digits.foldl (fun n d => 10 * n + (d.toNat - '0'.toNat)) 0
  else 0

example : evaluationIndex "opp:a:12" = 12 ∧ evaluationIndex "opp:x1" = 0 := by decide

def JudgeCall.attempt (c : JudgeCall) : String := stripText c.attemptId

def JudgeCall.chat (c : JudgeCall) : String × String := (c.channel, c.chatId)

def JudgeAttemptRow.chat (r : JudgeAttemptRow) : String × String := (r.channel, r.chatId)

namespace JudgeQuota
variable (q : JudgeQuota)

def reserve : Int := max 0 (min q.continuationReserve q.hourlyLimit)

def row (c : JudgeCall) : JudgeAttemptRow :=
  { attemptId := c.attempt, opportunityId := c.opportunityId, evaluationIndex := evaluationIndex c.attempt,
    channel := c.channel, chatId := c.chatId, createdAtMs := c.nowMs, hourlyLimit := q.hourlyLimit,
    continuationCandidate := c.continuationCandidate, continuationReserve := q.reserve }

def total (rows : List JudgeAttemptRow) (c : JudgeCall) : Int :=
  rows.countP fun r => r.channel = c.channel && r.chatId = c.chatId && c.nowMs - hourMs < r.createdAtMs

def tooSoon (rows : List JudgeAttemptRow) (c : JudgeCall) : Bool :=
  0 < q.minGapMs && !(rows.any fun r => r.opportunityId = c.opportunityId) &&
    match maxBy JudgeAttemptRow.createdAtMs
        (rows.filter fun r => r.channel = c.channel && r.chatId = c.chatId) with
    | some last => c.nowMs - last.createdAtMs < q.minGapMs
    | none => false

def reserveJudgeAttempt (c : JudgeCall) : JudgeM Bool := do
  require (c.attempt ≠ "") (valueError "attempt_id is required")
  atomically do
    let rows ← Txn.read
    if rows.any fun r => r.attemptId = c.attempt then return false
    else if q.hourlyLimit ≤ 0 then return false
    else if q.hourlyLimit ≤ total rows c then return false
    -- Background initiation may not consume the protected continuation slots.
    else if !c.continuationCandidate ∧ max 0 (q.hourlyLimit - q.reserve) ≤ total rows c then return false
    else if q.tooSoon rows c then return false
    else do
      Txn.modify fun rows => rows ++ [q.row c]
      return true

def grants (rows : List JudgeAttemptRow) (c : JudgeCall) : Bool :=
  (q.reserveJudgeAttempt c rows).1.toOption = some true

def judgeStep (rows : List JudgeAttemptRow) (c : JudgeCall) : List JudgeAttemptRow :=
  (q.reserveJudgeAttempt c rows).2

end JudgeQuota

/-- What a granted call found in the table. -/
structure JudgeQuota.Fits (q : JudgeQuota) (rows : List JudgeAttemptRow) (c : JudgeCall) : Prop where
  fresh : ∀ r ∈ rows, r.attemptId ≠ c.attempt
  total_lt : total rows c < q.hourlyLimit
  open_slot : c.continuationCandidate = false → total rows c < max 0 (q.hourlyLimit - q.reserve)
  gap : q.tooSoon rows c = false
variable {log : List JudgeCall} {c : JudgeCall} (q : JudgeQuota)

theorem JudgeQuota.reserve_cases {rows : List JudgeAttemptRow} :
    (q.grants rows c = false ∧ q.judgeStep rows c = rows) ∨
    (q.grants rows c = true ∧ q.judgeStep rows c = rows ++ [q.row c] ∧ q.Fits rows c) := by
  unfold grants judgeStep reserveJudgeAttempt
  by_cases ha : c.attempt ≠ ""
  · rw [require_bind_of_pos ha,Returns.atomically_apply (.bind .read fun _ => .ite .pure
      (.ite .pure (.ite .pure (.ite .pure (.ite .pure (.bind_pure (.modify))))))),
      read_bind_apply]
    split
    · exact .inl ⟨rfl,rfl⟩
    next hid =>
      split
      · exact .inl ⟨rfl,rfl⟩
      · split
        · exact .inl ⟨rfl,rfl⟩
        next ht =>
          split
          · exact .inl ⟨rfl,rfl⟩
          next hs =>
            split_ifs with hg
            · exact .inl ⟨rfl,rfl⟩
            · refine .inr ⟨rfl,rfl,?_,?_,?_,?_⟩
              · simpa using hid
              · omega
              · intro hc
                simp only [hc,Bool.not_false,true_and] at hs
                omega
              · simpa using hg
  · rw [require_bind_of_neg ha]
    exact .inl ⟨rfl,rfl⟩

structure JudgeWorld where
  rows : List JudgeAttemptRow
  granted : List JudgeCall

namespace JudgeWorld

def empty : JudgeWorld := ⟨[],[]⟩

def step (q : JudgeQuota) (w : JudgeWorld) (c : JudgeCall) : JudgeWorld :=
  ⟨q.judgeStep w.rows c,if q.grants w.rows c then w.granted ++ [c] else w.granted⟩

end JudgeWorld

def ofChat (chat : String × String) (log : List JudgeCall) : List JudgeCall := log.filter fun c => c.chat = chat

def inHour (p : JudgeCall → Bool) (chat : String × String) (upTo : Int) (log : List JudgeCall) : Nat :=
  (ofChat chat log).countP fun c => p c && (upTo - hourMs < c.nowMs && c.nowMs ≤ upTo)

def ChargedTo (p : JudgeCall → Bool) (limit : Int) (log : List JudgeCall) : Prop :=
  ∀ chat, Charged JudgeCall.nowMs (fun c => if p c then 1 else 0) limit hourMs (ofChat chat log)

section
variable {p : JudgeCall → Bool} {limit : Int} {log : List JudgeCall}

theorem ChargedTo.inHour_le (h : ChargedTo p limit log) (hl : 0 ≤ limit)
    (ht : log.Pairwise fun c d => c.nowMs ≤ d.nowMs) (chat : String × String) (upTo : Int) :
    inHour p chat upTo log ≤ limit := by
  rw [inHour,← SlidingWindow.spent_indicator]
  refine (h chat).spent_le hl (fun c _ => ?_) (ht.filter _)
  split <;> decide

theorem ChargedTo.concat (h : ChargedTo p limit log) (hl : 0 ≤ limit) (ht : log.Pairwise fun c d => c.nowMs ≤ d.nowMs)
    (hc : p c = true → inHour p c.chat c.nowMs log < limit) : ChargedTo p limit (log ++ [c]) := by
  intro chat
  rw [ofChat,List.filter_append,List.filter_singleton]
  by_cases hch : c.chat = chat
  · rw [hch] at hc
    rw [decide_eq_true hch,cond_true]
    refine (h chat).concat ?_
    rw [SlidingWindow.spent_indicator]
    have hle := h.inHour_le hl ht chat c.nowMs
    by_cases hp : p c = true
    · rw [if_pos hp]
      exact hc hp
    · rw [if_neg hp,add_zero]
      exact hle
  · rw [decide_eq_false hch,cond_false,List.append_nil]
    exact h chat

end

theorem inHour_le_total (p : JudgeCall → Bool) (log : List JudgeCall) (c : JudgeCall) :
    inHour p c.chat c.nowMs log ≤ JudgeQuota.total (log.map q.row) c := by
  unfold inHour ofChat JudgeQuota.total
  rw [List.countP_map,List.countP_filter,Int.ofNat_le]
  refine List.countP_mono_left fun d _ hd => ?_
  simp only [JudgeCall.chat,Prod.mk.injEq,Bool.and_eq_true,decide_eq_true_eq] at hd
  simp [JudgeQuota.row,hd]

def Spaced (gap : Int) (log : List JudgeCall) : Prop :=
  ∀ before c after, log = before ++ c :: after → (∀ b ∈ before, b.opportunityId ≠ c.opportunityId) →
    ∀ b ∈ before, b.chat = c.chat → gap ≤ c.nowMs - b.nowMs

theorem Spaced.concat {gap : Int} (h : Spaced gap log)
    (hc : (∀ b ∈ log, b.opportunityId ≠ c.opportunityId) → ∀ b ∈ log, b.chat = c.chat →
      gap ≤ c.nowMs - b.nowMs) : Spaced gap (log ++ [c]) := by
  intro before d after he
  rcases List.eq_nil_or_concat after with rfl | ⟨after,x,rfl⟩
  · obtain ⟨rfl,hd⟩ := List.append_inj' he rfl
    cases hd
    exact hc
  · rw [List.concat_eq_append,← List.cons_append,← List.append_assoc] at he
    exact h before d after (List.append_inj' he rfl).1

theorem JudgeQuota.gap_of_not_tooSoon {q : JudgeQuota}
    (h : q.tooSoon (log.map q.row) c = false) (ht : ∀ b ∈ log, b.nowMs ≤ c.nowMs)
    (hn : ∀ b ∈ log, b.opportunityId ≠ c.opportunityId) {b : JudgeCall} (hb : b ∈ log)
    (hc : b.chat = c.chat) : q.minGapMs ≤ c.nowMs - b.nowMs := by
  by_cases hg : 0 < q.minGapMs
  · have hany : ((log.map q.row).any fun r => r.opportunityId = c.opportunityId) = false := by
      rw [List.any_map,List.any_eq_false]
      exact fun b hb he => hn b hb (of_decide_eq_true he)
    have hm : q.row b ∈ (log.map q.row).filter fun r => r.channel = c.channel && r.chatId = c.chatId := by
      simp only [JudgeCall.chat,Prod.mk.injEq] at hc
      exact List.mem_filter.mpr ⟨List.mem_map_of_mem hb,by simp [JudgeQuota.row,hc]⟩
    rw [tooSoon,hany,decide_eq_true hg] at h
    cases hl : maxBy JudgeAttemptRow.createdAtMs
        ((log.map q.row).filter fun r => r.channel = c.channel && r.chatId = c.chatId) with
    | none =>
      rw [maxBy_eq_none.mp hl] at hm
      cases hm
    | some last =>
      have hle : (q.row b).createdAtMs ≤ last.createdAtMs := le_of_maxBy hl hm
      rw [hl] at h
      simp only [Bool.not_false,Bool.true_and,decide_eq_false_iff_not] at h
      change b.nowMs ≤ last.createdAtMs at hle
      omega
  · have := ht b hb
    omega

structure JudgeWorld.Kept (q : JudgeQuota) (w : JudgeWorld) : Prop where
  rows : w.rows = w.granted.map q.row
  ordered : w.granted.Pairwise fun c d => c.nowMs ≤ d.nowMs
  ids : (w.granted.map JudgeCall.attempt).Nodup
  all : ChargedTo (fun _ => true) q.hourlyLimit w.granted
  background : ChargedTo (fun c => !c.continuationCandidate) (q.hourlyLimit - q.continuationReserve) w.granted
  spaced : Spaced q.minGapMs w.granted

namespace JudgeWorld
variable {q : JudgeQuota} {w : JudgeWorld}

theorem kept_empty : empty.Kept q where
  rows := rfl
  ordered := .nil
  ids := List.nodup_nil
  all _ := .nil
  background _ := .nil
  spaced := fun before c after h => absurd h (by simp [empty])

theorem Kept.step (h₀ : 0 ≤ q.continuationReserve) (h₁ : q.continuationReserve ≤ q.hourlyLimit)
    (h : w.Kept q) (ht : ∀ b ∈ w.granted, b.nowMs ≤ c.nowMs) : (w.step q c).Kept q := by
  unfold JudgeWorld.step
  rcases q.reserve_cases with ⟨hg,hs⟩ | ⟨hg,hs,hf⟩
  · rw [hs,hg]
    exact h
  · rw [hs,hg,if_pos rfl]
    rw [h.rows] at hf
    have hr : q.reserve = q.continuationReserve := by
      rw [JudgeQuota.reserve,min_eq_left h₁,max_eq_right h₀]
    refine ⟨?_,?_,?_,?_,?_,?_⟩
    · rw [List.map_append,h.rows]
      rfl
    · refine List.pairwise_append.mpr ⟨h.ordered,List.pairwise_singleton _ _,fun b hb d hd => ?_⟩
      rw [List.mem_singleton.mp hd]
      exact ht b hb
    · rw [List.map_append]
      refine List.nodup_append.mpr ⟨h.ids,List.nodup_singleton _,fun a ha b hb => ?_⟩
      obtain ⟨d,hd,rfl⟩ := List.mem_map.mp ha
      rw [List.mem_singleton.mp hb]
      exact hf.fresh (q.row d) (List.mem_map_of_mem hd)
    · refine h.all.concat (h₀.trans h₁) h.ordered fun _ => ?_
      exact lt_of_le_of_lt (inHour_le_total q _ _ c) hf.total_lt
    · refine h.background.concat (by omega) h.ordered fun hc => ?_
      have hopen := hf.open_slot (by simpa using hc)
      have hle := inHour_le_total q (fun c => !c.continuationCandidate) w.granted c
      omega
    · exact h.spaced.concat fun hn b hb hch => JudgeQuota.gap_of_not_tooSoon hf.gap ht hn hb hch

theorem mem_granted_step {d : JudgeCall} (hd : d ∈ (w.step q c).granted) : d ∈ w.granted ∨ d = c := by
  unfold step at hd
  split at hd
  · exact (List.mem_append.mp hd).imp_right List.mem_singleton.mp
  · exact .inl hd

theorem Kept.run (h₀ : 0 ≤ q.continuationReserve) (h₁ : q.continuationReserve ≤ q.hourlyLimit)
    (h : w.Kept q) {cs : List JudgeCall} (hc : cs.Pairwise fun c d => c.nowMs ≤ d.nowMs)
    (ht : ∀ b ∈ w.granted, ∀ c ∈ cs, b.nowMs ≤ c.nowMs) : (run (JudgeWorld.step q) w cs).Kept q := by
  induction cs generalizing w with
  | nil => exact h
  | cons c cs ih =>
    obtain ⟨hcc,hcs⟩ := List.pairwise_cons.mp hc
    refine ih (h.step h₀ h₁ fun b hb => ht b hb c List.mem_cons_self) hcs fun b hb d hd => ?_
    rcases mem_granted_step hb with hb | rfl
    · exact ht b hb d (List.mem_cons_of_mem _ hd)
    · exact hcc d hd

end JudgeWorld

/-- In every hour a chat is granted no more than the limit, and without continuations no more
than what the reserve leaves; the first attempt of an opportunity comes a gap after every
earlier one of its chat, and no attempt is granted twice. -/
theorem judge_quota_kept (q : JudgeQuota) (h₀ : 0 ≤ q.continuationReserve)
    (h₁ : q.continuationReserve ≤ q.hourlyLimit) (cs : List JudgeCall)
    (hc : cs.Pairwise fun c d => c.nowMs ≤ d.nowMs) :
    let granted := (run (JudgeWorld.step q) .empty cs).granted
    (∀ chat upTo, inHour (fun _ => true) chat upTo granted ≤ q.hourlyLimit ∧
      inHour (fun c => !c.continuationCandidate) chat upTo granted ≤ q.hourlyLimit - q.continuationReserve) ∧
    Spaced q.minGapMs granted ∧ (granted.map JudgeCall.attempt).Nodup := by
  intro granted
  have h : (run (JudgeWorld.step q) .empty cs).Kept q :=
    JudgeWorld.kept_empty.run h₀ h₁ hc fun b hb => absurd hb List.not_mem_nil
  refine ⟨fun chat upTo => ⟨?_,?_⟩,h.spaced,h.ids⟩
  · exact h.all.inHour_le (h₀.trans h₁) h.ordered chat upTo
  · exact h.background.inHour_le (by omega) h.ordered chat upTo

def judgedHour : JudgeQuota := ⟨4,1000,1⟩

def reconsidered : List JudgeCall :=
  [⟨"a:0","a","whatsapp","group",0,false⟩, ⟨"b:0","b","whatsapp","group",1000,false⟩,
   ⟨"a:1","a","whatsapp","group",1001,false⟩, ⟨"c:0","c","whatsapp","group",1500,false⟩]

theorem judgedHour_kept :
    Spaced judgedHour.minGapMs (run (JudgeWorld.step judgedHour) .empty reconsidered).granted ∧
    (run (JudgeWorld.step judgedHour) .empty reconsidered).granted.length = 3 :=
  ⟨(judge_quota_kept judgedHour (by decide) (by decide) reconsidered (by decide)).2.1,by decide +kernel⟩

/-- A chain that was admitted needs no new gap: its second attempt is granted a millisecond
after that of another opportunity. -/
theorem reconsideration_without_gap :
    reconsidered.Pairwise (fun c d => c.nowMs ≤ d.nowMs) ∧
    ∃ c ∈ (run (JudgeWorld.step judgedHour) .empty reconsidered).granted,
    ∃ d ∈ (run (JudgeWorld.step judgedHour) .empty reconsidered).granted,
      c.chat = d.chat ∧ c.opportunityId ≠ d.opportunityId ∧ c.nowMs ≤ d.nowMs ∧
      d.nowMs - c.nowMs < judgedHour.minGapMs := by
  decide +kernel

end Yeoman.Consciousness
