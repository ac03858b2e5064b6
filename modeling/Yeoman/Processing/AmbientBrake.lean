import Mathlib.Data.List.Sort
import Yeoman.Library.Runs

/-! The ambient brake of the gate: how often an unaddressed message may reach the judge, and
which calls about one chat reach the brake of another. -/
namespace Yeoman.Processing
open Library Runs

structure AmbientSettings where
  minSecondsBetweenAnswers : Int := 300
  minMessagesSinceAnswer : Int := 6

structure AmbientWindow where
  messages : Nat
  last : Int

def AmbientWindow.count (w : AmbientWindow) : AmbientWindow := ⟨w.messages + 1,w.last⟩

structure AmbientState where
  windows : String → Option AmbientWindow
  /-- `_ambient_pending`, in insertion order. -/
  pending : List (String × Int)

structure AmbientChat where
  (channel chatId : String)
deriving DecidableEq

def AmbientChat.key (c : AmbientChat) : String := c.channel ++ ":" ++ c.chatId

namespace AmbientState

def empty : AmbientState := ⟨fun _ => none,[]⟩

def window (g : AmbientState) (key : String) : AmbientWindow := (g.windows key).getD ⟨0,0⟩

def setWindow (g : AmbientState) (key : String) (w : AmbientWindow) : AmbientState :=
  { g with windows := fun k => if k = key then some w else g.windows k }

def noteAmbientMessage (g : AmbientState) (chat : AmbientChat) : AmbientState :=
  g.setWindow chat.key (g.window chat.key).count

def ambientBrakeAllows (settings : AmbientSettings) (g : AmbientState) (chat : AmbientChat) (now : Int) :
    (Bool × String) × AmbientState :=
  let w := g.window chat.key
  let g := g.setWindow chat.key w
  let elapsedMs := if now < w.last then 0 else now - w.last
  if w.last ≠ 0 ∧ settings.minSecondsBetweenAnswers ≠ 0 ∧
      elapsedMs < 1000 * settings.minSecondsBetweenAnswers then
    ((false, "waiting:" ++ toString ((1000 * settings.minSecondsBetweenAnswers - elapsedMs) / 1000) ++ "s"), g)
  else if (w.messages : Int) < settings.minMessagesSinceAnswer then
    ((false, "quiet:" ++ toString w.messages ++ "/" ++ toString settings.minMessagesSinceAnswer), g)
  else ((true, "due"), g)

def marked (pending : List (String × Int)) (eventId : String) (now : Int) : List (String × Int) :=
  if pending.any fun p => p.1 = eventId then
    pending.map fun p => if p.1 = eventId then (p.1, now) else p
  else pending ++ [(eventId, now)]

def pruned (pending : List (String × Int)) : List (String × Int) :=
  let oldest := ((pending.insertionSort fun p q => p.2 ≤ q.2).take 128).map Prod.fst
  pending.filter fun p => ! oldest.contains p.1

def markAmbientPending (g : AmbientState) (eventId : String) (now : Int) : AmbientState :=
  let pending := marked g.pending eventId now
  { g with pending := if 512 < pending.length then pruned pending else pending }

def isAmbientPending (g : AmbientState) (eventId : String) : Bool :=
  g.pending.any fun p => p.1 = eventId

def resetAmbientWindow (g : AmbientState) (moment : Int) : AmbientState :=
  { g with windows := fun k => (g.windows k).map fun _ => ⟨0,moment⟩ }

def noteAmbientAnswer (g : AmbientState) (eventId : String) (moment : Int) : AmbientState :=
  resetAmbientWindow { g with pending := g.pending.filter fun p => p.1 ≠ eventId } moment

def noteAmbientDeclined (g : AmbientState) (_eventId : String) (moment : Int) : AmbientState :=
  g.resetAmbientWindow moment

def noteAmbientReacted (g : AmbientState) (_eventId : String) (moment : Int) : AmbientState :=
  g.resetAmbientWindow moment

end AmbientState

/-- A message that the thread engine files as plain ambient, with what the gate has found
out about it and about its chat. -/
structure AmbientMessage where
  chat : AmbientChat
  eventId : String
  /-- The participation lane owns the chat. -/
  stoodDown : Bool
  /-- The chat is released for ambient answers. -/
  released : Bool
  /-- The configured reply action is `silence`. -/
  silence : Bool
  /-- The text names the bot. -/
  named : Bool

def AmbientMessage.counted (m : AmbientMessage) : Bool := ! m.stoodDown && m.released && ! m.silence

namespace AmbientState

def admitAmbient (settings : AmbientSettings) (g : AmbientState) (m : AmbientMessage) (now : Int) :
    Bool × AmbientState :=
  if m.stoodDown then (false, g.markAmbientPending m.eventId now)
  else if m.released then
    if m.silence then (false, g)
    else
      let g := g.noteAmbientMessage m.chat
      if m.named then (true, g.markAmbientPending m.eventId now)
      else
        let ((allowed, _), g) := ambientBrakeAllows settings g m.chat now
        (allowed, g.markAmbientPending m.eventId now)
  else (false, g)

def admitsNext (settings : AmbientSettings) (g : AmbientState) (chat : AmbientChat) (now : Int) : Bool :=
  (ambientBrakeAllows settings (g.noteAmbientMessage chat) chat now).1.1

end AmbientState

/-- What the gate is told. The chat of an event is known to the caller only: the gate itself
sees the event id. -/
inductive AmbientAction where
  | message (m : AmbientMessage) (now : Int)
  | answer (chat : AmbientChat) (eventId : String) (moment : Int)
  | declined (chat : AmbientChat) (eventId : String) (moment : Int)
  | reacted (chat : AmbientChat) (eventId : String) (moment : Int)

namespace AmbientAction

def chat : AmbientAction → AmbientChat
  | .message m _ => m.chat
  | .answer chat _ _ => chat
  | .declined chat _ _ => chat
  | .reacted chat _ _ => chat

end AmbientAction

def AmbientState.step (settings : AmbientSettings) (g : AmbientState) : AmbientAction → AmbientState
  | .message m now => (g.admitAmbient settings m now).2
  | .answer _ eventId moment => g.noteAmbientAnswer eventId moment
  | .declined _ eventId moment => g.noteAmbientDeclined eventId moment
  | .reacted _ eventId moment => g.noteAmbientReacted eventId moment

section
variable {settings : AmbientSettings} {g : AmbientState} {chat : AmbientChat} {now : Int}

@[simp] theorem AmbientState.window_setWindow {k key : String} {w : AmbientWindow} :
    (g.setWindow key w).window k = if k = key then w else g.window k := by
  unfold AmbientState.window AmbientState.setWindow
  dsimp only
  split <;> rfl

def AmbientWindow.Admits (settings : AmbientSettings) (w : AmbientWindow) (now : Int) : Prop :=
  (w.last = 0 ∨ settings.minSecondsBetweenAnswers ≤ 0 ∨
    w.last + 1000 * settings.minSecondsBetweenAnswers ≤ now) ∧
  settings.minMessagesSinceAnswer ≤ w.messages + 1

theorem AmbientState.admitsNext_iff :
    g.admitsNext settings chat now = true ↔ (g.window chat.key).Admits settings now := by
  generalize hw : g.window chat.key = w
  have hn : (g.noteAmbientMessage chat).window chat.key = ⟨w.messages + 1,w.last⟩ := by
    rw [noteAmbientMessage,window_setWindow,if_pos rfl,hw]
    rfl
  unfold admitsNext ambientBrakeAllows AmbientWindow.Admits
  rw [hn]
  dsimp only
  generalize he : (if now < w.last then 0 else now - w.last) = elapsedMs
  have hms : 0 ≤ elapsedMs ∧ now - w.last ≤ elapsedMs ∧ (elapsedMs = 0 ∨ elapsedMs = now - w.last) := by
    split at he <;> omega
  split
  · exact iff_of_false Bool.false_ne_true (by omega)
  · split
    · exact iff_of_false Bool.false_ne_true (by omega)
    · exact iff_of_true rfl (by omega)

/-- Two windows that the brake treats alike at every moment. -/
theorem AmbientWindow.admits_congr_iff {w w' : AmbientWindow} :
    (∀ now, w'.Admits settings now ↔ w.Admits settings now) ↔
      (w.messages + 1 < settings.minMessagesSinceAnswer ∧ w'.messages + 1 < settings.minMessagesSinceAnswer) ∨
      (settings.minMessagesSinceAnswer ≤ w.messages + 1 ∧ settings.minMessagesSinceAnswer ≤ w'.messages + 1 ∧
        (settings.minSecondsBetweenAnswers ≤ 0 ∨ w'.last = w.last)) := by
  unfold AmbientWindow.Admits
  constructor
  · intro h
    -- Each window is closed at its own last answer and open when its silence is over.
    have h₁ := h (w.last + 1000 * settings.minSecondsBetweenAnswers)
    have h₂ := h (w'.last + 1000 * settings.minSecondsBetweenAnswers)
    have h₃ := h w.last
    have h₄ := h w'.last
    grind
  · intro h now
    grind

@[simp] theorem AmbientState.window_markAmbientPending (g : AmbientState) (eventId : String) (now : Int)
    (k : String) : (g.markAmbientPending eventId now).window k = g.window k := rfl

/-- The brake only reads; the window it may create is the one it would read anyway. -/
@[simp] theorem AmbientState.window_ambientBrakeAllows (settings : AmbientSettings) (g : AmbientState)
    (chat : AmbientChat) (now : Int) (k : String) :
    (ambientBrakeAllows settings g chat now).2.window k = g.window k := by
  have h : (ambientBrakeAllows settings g chat now).2 = g.setWindow chat.key (g.window chat.key) := by
    unfold ambientBrakeAllows
    dsimp only
    generalize (if now < (g.window chat.key).last then 0 else now - (g.window chat.key).last) = elapsedMs
    split
    · rfl
    · split <;> rfl
  rw [h,window_setWindow]
  split_ifs with hk
  · rw [hk]
  · rfl

theorem AmbientState.window_admitAmbient {m : AmbientMessage} {k : String} :
    (g.admitAmbient settings m now).2.window k =
      if m.counted = true ∧ k = m.chat.key then (g.window m.chat.key).count else g.window k := by
  unfold admitAmbient AmbientMessage.counted
  cases m.stoodDown with
  | true => simp
  | false =>
    cases m.released with
    | false => simp
    | true =>
      cases m.silence with
      | true => simp
      | false => cases m.named <;> simp [noteAmbientMessage]

end

/-- A message of one chat is not counted for another, unless their keys are the same and
the count is the one that lets the next message pass. -/
def AmbientMessage.Undisturbing (settings : AmbientSettings) (g : AmbientState) (m : AmbientMessage)
    (chat : AmbientChat) : Prop :=
  m.counted = false ∨ m.chat.key ≠ chat.key ∨
    settings.minMessagesSinceAnswer ≠ (g.window chat.key).messages + 2

/-- A window a reset does not matter for: there is none yet, or the next message is braked
anyway, or every message passes and the silence ends when it did before. -/
def AmbientState.ResetProof (settings : AmbientSettings) (g : AmbientState) (chat : AmbientChat)
    (moment : Int) : Prop :=
  ∀ w, g.windows chat.key = some w →
    w.messages + 1 < settings.minMessagesSinceAnswer ∨
    (settings.minMessagesSinceAnswer ≤ 1 ∧ (settings.minSecondsBetweenAnswers ≤ 0 ∨ w.last = moment))

def AmbientAction.Undisturbing (settings : AmbientSettings) (g : AmbientState) (chat : AmbientChat) :
    AmbientAction → Prop
  | .message m _ => m.Undisturbing settings g chat
  | .answer _ _ moment | .declined _ _ moment | .reacted _ _ moment => g.ResetProof settings chat moment
variable {settings : AmbientSettings} {chat : AmbientChat}

theorem AmbientState.admitsNext_congr_iff {g g' : AmbientState} :
    (∀ now, g'.admitsNext settings chat now = g.admitsNext settings chat now) ↔
      ∀ now, (g'.window chat.key).Admits settings now ↔ (g.window chat.key).Admits settings now :=
  forall_congr' fun now => by rw [Bool.eq_iff_iff,admitsNext_iff,admitsNext_iff]
variable {moment : Int}

theorem AmbientState.undisturbed_of_reset {g g' : AmbientState}
    (h : g'.windows chat.key = (g.windows chat.key).map fun _ => ⟨0,moment⟩) :
    (∀ now, g'.admitsNext settings chat now = g.admitsNext settings chat now) ↔
      g.ResetProof settings chat moment := by
  rw [admitsNext_congr_iff,ResetProof,window,window,h]
  cases g.windows chat.key with
  | none => exact iff_of_true (fun _ => Iff.rfl) nofun
  | some w =>
    rw [AmbientWindow.admits_congr_iff]
    simp only [Option.map_some,Option.getD_some,Option.some.injEq,forall_eq']
    omega

theorem AmbientState.undisturbed_of_admission (g : AmbientState) {m : AmbientMessage} :
    (∀ now, (g.admitAmbient settings m moment).2.admitsNext settings chat now =
        g.admitsNext settings chat now) ↔ m.Undisturbing settings g chat := by
  rw [admitsNext_congr_iff,AmbientMessage.Undisturbing,window_admitAmbient]
  cases hc : m.counted with
  | false => simp
  | true =>
    by_cases hk : chat.key = m.chat.key
    · rw [AmbientWindow.admits_congr_iff,hk]
      simp only [AmbientWindow.count,and_self,if_true,or_true,and_true,Bool.true_eq_false,ne_eq,
        not_true,false_or]
      omega
    · simp [hk,Ne.symm hk]

/-- A call of the gate leaves the brake of a chat as it is exactly when it is undisturbing. -/
theorem ambient_brake_isolated_iff (settings : AmbientSettings) (as : List AmbientAction)
    (a : AmbientAction) (chat : AmbientChat) :
    let g := run (AmbientState.step settings) .empty as
    (∀ now, (g.step settings a).admitsNext settings chat now = g.admitsNext settings chat now) ↔
      a.Undisturbing settings g chat := by
  intro g
  cases a with
  | message m now => exact g.undisturbed_of_admission
  | answer | declined | reacted => exact AmbientState.undisturbed_of_reset rfl

def quietChat : AmbientChat := ⟨"whatsapp","group-b"⟩

def ambientMessage (chat : AmbientChat) (eventId : String) : AmbientMessage :=
  ⟨chat,eventId,false,true,false,false⟩

def chatter : List AmbientAction :=
  [.message (ambientMessage quietChat "b1") 1000, .message (ambientMessage quietChat "b2") 2000,
   .message (ambientMessage quietChat "b3") 3000, .message (ambientMessage quietChat "b4") 4000,
   .message (ambientMessage quietChat "b5") 5000,
   .message (ambientMessage ⟨"whatsapp","group-a"⟩ "a1") 6000]

/-- The sixth message of a chat would pass, and no longer does once the judge has declined
an event of another chat. -/
theorem verdict_brakes_other_chat :
    (AmbientAction.declined ⟨"whatsapp","group-a"⟩ "a1" 7000).chat ≠ quietChat ∧
    (run (AmbientState.step {}) .empty chatter).admitsNext {} quietChat 8000 = true ∧
    (AmbientState.step {} (run (AmbientState.step {}) .empty chatter)
      (.declined ⟨"whatsapp","group-a"⟩ "a1" 7000)).admitsNext {} quietChat 8000 = false := by
  decide +kernel

end Yeoman.Processing
