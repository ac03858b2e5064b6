import Yeoman.Bridge.OutboxSteps
import Yeoman.Processing.Authority

/-! Reactions on their way into the outbox: the signal a provider event stands for, the key under
which a repeated signal is dropped, and the identity under which the outbox keeps it. The emoji is
part of the first but not of the second. -/
namespace Yeoman.Bridge
open Library Table Runs
open Json (trim)

structure ReactionEvent where
  (remoteJid id : String)
  participant : String := ""
  fromMe : Bool := false
  reactionRemoteJid : String := ""
  text : String

structure ReactionSignal where
  (chatJid targetMessageId senderId emoji : String)
deriving DecidableEq

def normalizeJid (jidRaw : String) : String :=
  let trimmed := (trim jidRaw).toList
  let left := (trimmed.takeWhile (· ≠ '@')).takeWhile (· ≠ ':')
  let right := ((trimmed.dropWhile (· ≠ '@')).drop 1).takeWhile (· ≠ '@')
  String.ofList (if right = [] then left else left ++ '@' :: right)

def endsWith (ending s : String) : Bool := ending.toList.isSuffixOf s.toList

def orText (a b : String) : String := if a = "" then b else a

def ReactionEvent.senderJid (selfJids : List String) (chatJid : String) (event : ReactionEvent) : String :=
  let participant := trim event.participant
  if participant ≠ "" then participant
  else if event.fromMe then (selfJids.find? (endsWith "@s.whatsapp.net")).getD ""
  else if endsWith "@g.us" chatJid then ""
  else trim (orText event.reactionRemoteJid chatJid)

def ReactionEvent.signal (selfJids : List String) (event : ReactionEvent) : Option ReactionSignal :=
  let chatJid := normalizeJid event.remoteJid
  let targetMessageId := trim event.id
  if chatJid = "" ∨ targetMessageId = "" then none
  else
    let senderJid := event.senderJid selfJids chatJid
    some
      { chatJid := chatJid
        targetMessageId := targetMessageId
        senderId := orText (normalizeJid senderJid) senderJid
        emoji := trim event.text }

def isUnreserved (c : Char) : Bool := c.isAlphanum || "-_.!~*\x27()".toList.contains c

def percentEncode (c : Char) : List Char :=
  (Sha256.encode (String.ofList [c])).flatMap fun b =>
    ['%', (Nat.digitChar (b / 16)).toUpper, (Nat.digitChar (b % 16)).toUpper]

def encodeURIComponent (s : String) : String :=
  String.ofList (s.toList.flatMap fun c => if isUnreserved c then [c] else percentEncode c)

/-- The account of a bridge. With a blank one the events would have no provider identity, but random ids. -/
structure Account where
  id : String
  named : trim id ≠ ""

def Account.default : Account := ⟨"default",by decide⟩

def providerEventKey (parts : List String) : String := "whatsapp:" ++ String.intercalate ":" (parts.map encodeURIComponent)

def providerEventId (eventKey : String) : String := "wa_" ++ String.ofList ((Sha256.hexdigest eventKey).toList.take 32)

theorem append_ne_empty {s t : String} (h : s ≠ "") : s ++ t ≠ "" := by
  intro he
  rw [String.append_eq_empty_iff] at he
  exact h he.1

theorem provider_identified {parts : List String} :
    providerEventId (providerEventKey parts) ≠ "" ∧ providerEventKey parts ≠ "" :=
  ⟨append_ne_empty (by decide),append_ne_empty (by decide)⟩

namespace ReactionSignal

def actor (s : ReactionSignal) : String × String × String := (s.chatJid, s.targetMessageId, s.senderId)

/-- The identity `emitSignal` is called with. -/
def dedupeIdentity (s : ReactionSignal) : String := s.targetMessageId ++ ":" ++ s.senderId ++ ":" ++ s.emoji

def payload (s : ReactionSignal) : Dict :=
  ((((Dict.empty.setStr "chatJid" s.chatJid).setStr "targetMessageId" s.targetMessageId).setStr "senderId"
    s.senderId).setStr "emoji" s.emoji).setBool "removed" (s.emoji = "")

def eventKey (s : ReactionSignal) (account : Account) : String :=
  providerEventKey [trim account.id, trim s.chatJid, ReplayableEventType.reaction.name, trim s.targetMessageId,
    trim s.senderId]

def event (s : ReactionSignal) (account : Account) (nowMs : Int) : ReplayableBridgeEvent where
  type := .reaction
  ts := nowMs
  accountId := account.id
  payload := s.payload
  eventId := providerEventId (s.eventKey account)
  eventKey := s.eventKey account
  observedAt := nowMs
  identified := provider_identified

end ReactionSignal

def inboundDedupeTtlMs : Int := 20 * 60000

def inboundDedupeMax : Nat := 5000

def inboundDedupeCleanupIntervalMs : Int := 30000

structure RecentInbound where
  seen : List (String × Int)
  nextCleanupAt : Int

namespace RecentInbound

def cleanup (nowMs : Int) (r : RecentInbound) : RecentInbound :=
  if nowMs < r.nextCleanupAt ∧ r.seen.length ≤ inboundDedupeMax then r
  else
    let live := r.seen.filter fun x => nowMs < x.2
    let oldest := (live.insertionSort fun x y => x.2 ≤ y.2).take (live.length - inboundDedupeMax)
    ⟨live.filter fun x => x.1 ∉ oldest.map Prod.fst,nowMs + inboundDedupeCleanupIntervalMs⟩

def has (key : String) (nowMs : Int) (r : RecentInbound) : Bool :=
  (r.seen.lookup key).any fun expiresAt => decide (nowMs < expiresAt)

def mark (key : String) (nowMs : Int) (r : RecentInbound) : RecentInbound :=
  let r := r.cleanup nowMs
  { r with seen := upsert Prod.fst (key, nowMs + inboundDedupeTtlMs) r.seen }

def delete (key : String) (r : RecentInbound) : RecentInbound := { r with seen := remove Prod.fst key r.seen }

end RecentInbound

def Outbox.perform (call : OutboxAction) (o : Outbox) : Outbox :=
  run Outbox.step o [call, .beginBatch, .runWrite true, .runWrite true, .runWrite true, .barrier true]

structure SignalIntake where
  account : Account
  outbox : Outbox
  recent : RecentInbound
  accepting : Bool
  answers : List (ReactionSignal × Outcome)

inductive SignalAction where
  | react (event : ReactionEvent) (nowMs : Int)
  | ack (eventId : String)

namespace SignalIntake
variable (sha1 : String → String) (selfJids : List String)

def dedupeKey (s : ReactionSignal) : String :=
  sha1 ("signal:" ++ ReplayableEventType.reaction.name ++ ":" ++ s.dedupeIdentity)

def admits (i : SignalIntake) (s : ReactionSignal) (nowMs : Int) : Bool :=
  i.accepting && !(i.recent.cleanup nowMs).has (dedupeKey sha1 s) nowMs

def emitSignal (s : ReactionSignal) (nowMs : Int) (i : SignalIntake) : SignalIntake :=
  if i.accepting = false then i
  else
    let recent := i.recent.cleanup nowMs
    if recent.has (dedupeKey sha1 s) nowMs then { i with recent := recent }
    else
      let outbox := i.outbox.perform (.append (s.event i.account nowMs))
      let outcome := (outbox.outcomes.getLast?.map Prod.snd).getD (.failed .io)
      let stored := outcome.eventId?.isSome
      { i with
        outbox := outbox
        recent := if stored then recent.mark (dedupeKey sha1 s) nowMs else recent.delete (dedupeKey sha1 s)
        accepting := stored
        answers := i.answers ++ [(s, outcome)] }

def step (i : SignalIntake) : SignalAction → SignalIntake
  | .react event nowMs => (event.signal selfJids).elim i fun s => i.emitSignal sha1 s nowMs
  | .ack eventId => { i with outbox := i.outbox.perform (.ack eventId) }

end SignalIntake

def ReplayableBridgeEvent.emoji? (e : ReplayableBridgeEvent) : Option String :=
  match e.payload.get "emoji" with
  | .str s => some s
  | _ => none

namespace ReactionSignal
variable {s s' : ReactionSignal} {account : Account}

theorem emoji?_event {nowMs : Int} : (s.event account nowMs).emoji? = some s.emoji := by
  have hget : (s.event account nowMs).payload.get "emoji" = .str s.emoji := rfl
  rw [ReplayableBridgeEvent.emoji?,hget]

theorem comparison_event (s : ReactionSignal) (account : Account) (nowMs : Int) :
    (s.event account nowMs).comparison = .obj [("version", .int protocolVersion), ("type", .str "reaction"),
      ("accountId", .str account.id), ("eventId", .str (providerEventId (s.eventKey account))),
      ("eventKey", .str (s.eventKey account)),
      ("payload", Json.sortKeys s.payload.toJson)] := by
  rfl

theorem comparison_wellFormed (s : ReactionSignal) (account : Account) (nowMs : Int) :
    (s.event account nowMs).comparison.WellFormed := by
  have hkeys : ["version", "type", "accountId", "eventId", "eventKey", "payload"].Nodup := by decide
  exact ⟨hkeys,trivial,trivial,trivial,trivial,trivial,Json.sortKeys_wellFormed s.payload.wellFormed,trivial⟩

theorem same_iff (h : s.actor = s'.actor) {t t' : Int} :
    sameReplayableEvent (s.event account t) (s'.event account t') = true ↔ s.emoji = s'.emoji := by
  constructor
  · intro hsame
    have hrender : Json.render (s.event account t).comparison = Json.render (s'.event account t').comparison := by
      simpa [sameReplayableEvent] using hsame
    have hload := Json.loads_render _ (s.comparison_wellFormed account t)
    rw [hrender,Json.loads_render _ (s'.comparison_wellFormed account t'),comparison_event,comparison_event] at hload
    have hpayload : Json.sortKeys s'.payload.toJson = Json.sortKeys s.payload.toJson := by
      exact Option.some.inj (congrArg (List.lookup "payload") (Json.obj.inj (Option.some.inj hload)))
    have hsorted : s'.payload.sorted = s.payload.sorted := by
      exact Dict.ext (Json.obj.inj hpayload)
    have hemoji := congrArg (Dict.get "emoji") hsorted
    rw [Dict.get_sorted,Dict.get_sorted] at hemoji
    exact (Json.str.inj hemoji).symm
  · intro he
    obtain ⟨ht,hs⟩ := Prod.mk.inj h
    have hsame : s = s' := by
      cases s
      cases s'
      simp_all
    simp [hsame,sameReplayableEvent,ReactionSignal.comparison_event]

end ReactionSignal

namespace Outbox
variable {o : Outbox}

/-- An open outbox between two groups of writes. -/
structure Idle (o : Outbox) : Prop where
  sound : o.Sound
  opened : o.opening = .opened
  batch : o.batch = []
  writes : o.writes = []
  settled : o.settled = []

def begun (o : Outbox) (operation : Operation) : Outbox :=
  { o with calls := o.calls + 1, writes := [], batch := [⟨o.calls,operation⟩] }

theorem Idle.begins (h : o.Idle) (operation : Operation) : (o.call operation).beginBatch = o.begun operation := by
  have hcall : o.call operation = { o with calls := o.calls + 1, writes := [⟨o.calls,operation⟩] } := by
    rw [call,h.opened,h.writes]
    rfl
  rw [hcall]
  rw [beginBatch,if_pos ⟨h.opened,h.batch,h.settled⟩]
  rfl
variable {outcome : Outcome} {e : ReplayableBridgeEvent} {w : Write}

theorem Idle.runs_append (h : o.Idle) (e : ReplayableBridgeEvent) :
    (o.begun (.append e)).runWrite true = (o.begun (.append e)).startAppend true o.calls e := by
  have hs : (o.begun (.append e)).staging = none := (h.sound.between_groups h.batch h.opened).1
  rw [runWrite,hs]
  rfl

theorem perform_ended (call : OutboxAction) {operation : Operation} (h : o.Idle) (hc : o.step call = o.call operation)
    (b : Outbox) (he : (((o.begun operation).runWrite true).runWrite true).runWrite true = b.ended w [] outcome)
    (hb : b.opening = .opened ∧ b.writes = [] ∧ b.settled = []) :
    (o.perform call).Idle ∧ (o.perform call).outcomes = b.outcomes ++ [(w.ticket, outcome)] ∧
      (o.perform call).entries = b.entries := by
  have hsound : (o.begun operation).Sound := h.begins operation ▸ (h.sound.call).beginBatch
  have hthree : (b.ended w [] outcome).Sound :=
    he ▸ ((hsound.step (a := .runWrite true) rfl).step (a := .runWrite true) rfl).step (a := .runWrite true) rfl
  have hrun : o.perform call = (b.ended w [] outcome).barrier true := by
    rw [← he,← h.begins,← hc]
    rfl
  have hout : ((b.ended w [] outcome).barrier true).outcomes = b.outcomes ++ [(w.ticket, outcome)] := by
    rw [barrier,ended,if_pos rfl,hb.2.2]
    rfl
  rw [hrun]
  exact ⟨⟨hthree.barrier,hb.1,rfl,hb.2.1,rfl⟩,hout,rfl⟩

theorem perform_new (h : o.Idle) (hsmall : e.serializedBytes ≤ maxBridgeFrameBytes) (hnew : o.find e.eventId = none) :
    (o.perform (.append e)).Idle ∧
      (o.perform (.append e)).outcomes = o.outcomes ++ [(o.calls, .stored o.nextSequence e)] ∧
      (o.perform (.append e)).entries = o.entries ++ [⟨o.nextSequence,fileNameFor o.nextSequence e,e⟩] := by
  have hcreate : (o.begun (.append e)).runWrite true =
      { o.begun (.append e) with
        disk := o.disk.create (temporaryName o.nextSequence e o.calls)
        staging := some .created } := by
    have hfind : (o.begun (.append e)).find e.eventId = none := hnew
    rw [h.runs_append,startAppend,if_neg (Nat.not_lt.mpr hsmall),hfind]
    rfl
  refine perform_ended (.append e) h rfl { (o.begun (.append e)).remember (fileNameFor o.nextSequence e) e with
    disk := ((o.disk.create (temporaryName o.nextSequence e o.calls)).write (temporaryName o.nextSequence e o.calls) e).rename
      (temporaryName o.nextSequence e o.calls) (fileNameFor o.nextSequence e)
    written := o.written ++ [(o.nextSequence, e)] } (w := ⟨o.calls,.append e⟩) ?_ ⟨h.opened,rfl,h.settled⟩
  rw [hcreate]
  rfl

theorem startAppend_known {rest : List Write} {x : OutboxEntry}
    (hb : o.batch = w :: rest) (hx : o.find e.eventId = some x) :
    o.startAppend true w.ticket e = o.ended w rest (if maxBridgeFrameBytes < e.serializedBytes then .failed .tooLarge
      else if sameReplayableEvent x.event e then .stored x.sequence x.event else .failed .conflicting) := by
  unfold startAppend
  split
  · exact settle_eq hb
  · rw [hx]
    dsimp only
    split
    · exact settle_eq hb
    · exact settle_eq hb

/-- An append on an idle outbox is answered exactly if the event fits and what the outbox holds
under its id is the same event. -/
theorem perform_append (h : o.Idle) :
    (o.perform (.append e)).Idle ∧ (∀ x ∈ (o.perform (.append e)).entries, x ∈ o.entries ∨ x.event = e) ∧
      ∃ outcome, (o.perform (.append e)).outcomes = o.outcomes ++ [(o.calls, outcome)] ∧
        (outcome.eventId?.isSome = true ↔ e.serializedBytes ≤ maxBridgeFrameBytes ∧
          ∀ x ∈ o.entries, x.eventId = e.eventId → sameReplayableEvent x.event e = true) := by
  have hrun := h.runs_append e
  have hend (outcome : Outcome) (he : (o.begun (.append e)).runWrite true =
      (o.begun (.append e)).ended ⟨o.calls,.append e⟩ [] outcome) := perform_ended (.append e) h rfl (o.begun (.append e))
    (by rw [he,runWrite_idle rfl,runWrite_idle rfl]) ⟨h.opened,rfl,h.settled⟩
  cases hx : o.find e.eventId with
  | some x =>
    have hknown : (o.begun (.append e)).find e.eventId = some x := hx
    obtain ⟨hm,hid⟩ := lookup_some hx
    obtain ⟨hidle,hout,hentries⟩ := hend _ (hrun.trans (startAppend_known (w := ⟨o.calls,.append e⟩) rfl hknown))
    refine ⟨hidle,fun y hy => .inl (hentries ▸ hy),_,hout,?_⟩
    have hall : (∀ y ∈ o.entries, y.eventId = e.eventId → sameReplayableEvent y.event e = true) ↔
        sameReplayableEvent x.event e = true := by
      constructor
      · exact fun hall => hall x hm hid
      · intro hsame y hy hyid
        rw [h.sound.distinct.eq_of_mem hy hm (hyid.trans hid.symm)]
        exact hsame
    rw [hall]
    by_cases hsize : maxBridgeFrameBytes < e.serializedBytes
    · simp [hsize,Outcome.eventId?]
    · have hle := Nat.le_of_not_lt hsize
      by_cases hsame : sameReplayableEvent x.event e = true
      · simp [hsize,hle,hsame,Outcome.eventId?]
      · simp [hsize,hsame,Outcome.eventId?]
  | none =>
    have hnone : ∀ x ∈ o.entries, x.eventId = e.eventId → sameReplayableEvent x.event e = true :=
      fun x hm hid => absurd hid (lookup_none.mp hx x hm)
    by_cases hsize : maxBridgeFrameBytes < e.serializedBytes
    · have hlarge : (o.begun (.append e)).startAppend true o.calls e =
          (o.begun (.append e)).ended ⟨o.calls,.append e⟩ [] (.failed .tooLarge) := by
        rw [startAppend,if_pos hsize]
        exact settle_eq rfl
      obtain ⟨hidle,hout,hentries⟩ := hend _ (hrun.trans hlarge)
      refine ⟨hidle,fun y hy => .inl (hentries ▸ hy),_,hout,?_⟩
      simp [hsize,Outcome.eventId?]
    · obtain ⟨hidle,hout,hentries⟩ := perform_new h (Nat.le_of_not_lt hsize) hx
      refine ⟨hidle,fun y hy => ?_,_,hout,?_⟩
      · rw [hentries] at hy
        rcases mem_concat.mp hy with hy | hy
        · exact .inl hy
        · exact .inr (by rw [hy])
      · exact iff_of_true rfl ⟨Nat.le_of_not_lt hsize,hnone⟩

theorem perform_ack (h : o.Idle) {eventId : String} :
    (o.perform (.ack eventId)).Idle ∧ ∀ x ∈ (o.perform (.ack eventId)).entries, x ∈ o.entries := by
  have hrun : (o.begun (.ack eventId)).runWrite true = (o.begun (.ack eventId)).runAck true eventId := rfl
  cases hx : o.find eventId with
  | none =>
    have hend : (o.begun (.ack eventId)).runWrite true =
        (o.begun (.ack eventId)).ended ⟨o.calls,.ack eventId⟩ [] (.acknowledged false) := by
      rw [hrun,runAck,show (o.begun (.ack eventId)).find eventId = none from hx]
      rfl
    obtain ⟨hidle,-,hentries⟩ := perform_ended (.ack eventId) h rfl (o.begun (.ack eventId))
      (by rw [hend,runWrite_idle rfl,runWrite_idle rfl]) ⟨h.opened,rfl,h.settled⟩
    exact ⟨hidle,fun x hm => hentries ▸ hm⟩
  | some x =>
    let b : Outbox := { o.begun (.ack eventId) with
      disk := o.disk.unlink [x.fileName]
      entries := remove OutboxEntry.eventId eventId o.entries }
    have hend : (o.begun (.ack eventId)).runWrite true = b.ended ⟨o.calls,.ack eventId⟩ [] (.acknowledged true) := by
      rw [hrun,runAck,show (o.begun (.ack eventId)).find eventId = some x from hx]
      rfl
    obtain ⟨hidle,-,hentries⟩ := perform_ended (.ack eventId) h rfl b
      (by rw [hend,runWrite_idle rfl,runWrite_idle rfl]) ⟨h.opened,rfl,h.settled⟩
    exact ⟨hidle,fun y hy => (mem_remove.mp (hentries ▸ hy)).1⟩

end Outbox

namespace SignalIntake
variable {sha1 : String → String} {selfJids : List String} {actor : String × String × String} {i : SignalIntake}

def Reacted (actor : String × String × String) (i : SignalIntake) : Prop :=
  ∀ s : ReactionSignal, s.actor = actor → ∀ x ∈ i.outbox.entries, x.eventId = providerEventId (s.eventKey i.account) →
    ∃ (s' : ReactionSignal) (t : Int), s'.actor = actor ∧ x.event = s'.event i.account t

/-- An admitted signal finds no unacknowledged reaction of its actor with another emoji, and it
fits into a frame. -/
def Unopposed (sha1 : String → String) (selfJids : List String) (i : SignalIntake) : SignalAction → Prop
  | .react event nowMs => ∀ s ∈ event.signal selfJids, i.admits sha1 s nowMs = true →
    (s.event i.account nowMs).serializedBytes ≤ maxBridgeFrameBytes ∧
      ∀ x ∈ i.outbox.entries, x.eventId = providerEventId (s.eventKey i.account) → x.event.emoji? = some s.emoji
  | .ack _ => True

instance (i : SignalIntake) (a : SignalAction) : Decidable (Unopposed sha1 selfJids i a) :=
  match a with
  | .react event _ => inferInstanceAs (Decidable (∀ s ∈ event.signal selfJids, _ → _ ∧ _))
  | .ack _ => isTrue trivial

def AllStored (i : SignalIntake) : Prop := ∀ x ∈ i.answers, x.2.eventId?.isSome = true
variable {s : ReactionSignal}

theorem reacted_of_entries {i' : SignalIntake} (h : i.Reacted actor) (hacc : i'.account = i.account) (hs : s.actor = actor)
    {t : Int}
    (he : ∀ x ∈ i'.outbox.entries, x ∈ i.outbox.entries ∨ x.event = s.event i.account t) : i'.Reacted actor := by
  intro s' hs' x hx hid
  rw [hacc] at hid ⊢
  rcases he x hx with hx | hx
  · exact h s' hs' x hx hid
  · exact ⟨s,t,hs,hx⟩

variable {nowMs : Int}

/-- Against reactions of one actor the comparison of the outbox is a comparison of emojis. -/
theorem same_iff_emoji (h : i.Reacted actor) (hs : s.actor = actor) :
    (∀ x ∈ i.outbox.entries, x.eventId = (s.event i.account nowMs).eventId →
        sameReplayableEvent x.event (s.event i.account nowMs) = true) ↔
      ∀ x ∈ i.outbox.entries, x.eventId = providerEventId (s.eventKey i.account) → x.event.emoji? = some s.emoji := by
  refine forall₃_congr fun x hx hid => ?_
  obtain ⟨s',t,hs',he⟩ := h s hs x hx hid
  rw [he,ReactionSignal.same_iff (hs'.trans hs.symm),ReactionSignal.emoji?_event]
  exact ⟨fun h => congrArg some h,Option.some.inj⟩

/-- One signal: the intake goes on as it was, or an append is answered, which is with a stored
event exactly if nothing opposes it. -/
theorem emitSignal_spec (hi : i.outbox.Idle) (hr : i.Reacted actor) (hs : s.actor = actor) :
    (i.emitSignal sha1 s nowMs).outbox.Idle ∧ (i.emitSignal sha1 s nowMs).Reacted actor ∧
      ((i.emitSignal sha1 s nowMs).AllStored ↔ i.AllStored ∧ (i.admits sha1 s nowMs = true →
        (s.event i.account nowMs).serializedBytes ≤ maxBridgeFrameBytes ∧
          ∀ x ∈ i.outbox.entries, x.eventId = providerEventId (s.eventKey i.account) → x.event.emoji? = some s.emoji)) := by
  unfold emitSignal admits
  cases ha : i.accepting with
  | false =>
    exact ⟨hi,hr,by simp⟩
  | true =>
    rw [if_neg Bool.noConfusion]
    dsimp only
    split
    next hseen =>
      refine ⟨hi,hr,?_⟩
      simp only [AllStored,hseen,Bool.not_true,Bool.and_false,Bool.false_eq_true,false_implies,and_true]
    next hseen =>
      obtain ⟨hidle,hentries,outcome,hout,hstored⟩ := Outbox.perform_append hi
      refine ⟨hidle,reacted_of_entries hr rfl hs hentries,?_⟩
      rw [← same_iff_emoji hr hs,← hstored]
      simp [AllStored,hout,hseen,or_imp,forall_and]

theorem step_spec (hi : i.outbox.Idle) (hr : i.Reacted actor) {a : SignalAction}
    (ha : ∀ event nowMs, a = .react event nowMs → ∃ s, event.signal selfJids = some s ∧ s.actor = actor) :
    (i.step sha1 selfJids a).outbox.Idle ∧ (i.step sha1 selfJids a).Reacted actor ∧
      ((i.step sha1 selfJids a).AllStored ↔ i.AllStored ∧ Unopposed sha1 selfJids i a) := by
  cases a with
  | react event nowMs =>
    obtain ⟨s,hs,hactor⟩ := ha event nowMs rfl
    have hstep : i.step sha1 selfJids (.react event nowMs) = i.emitSignal sha1 s nowMs := by
      simp only [step,hs,Option.elim_some]
    rw [hstep]
    obtain ⟨hidle,hreacted,hiff⟩ := emitSignal_spec hi hr hactor
    refine ⟨hidle,hreacted,hiff.trans (and_congr_right fun _ => ?_)⟩
    simp only [Unopposed,hs,Option.mem_some_iff,forall_eq']
  | ack eventId =>
    obtain ⟨hidle,hentries⟩ := Outbox.perform_ack hi
    refine ⟨hidle,fun s hs x hx hid => hr s hs x (hentries x hx) hid,?_⟩
    exact ⟨fun h => ⟨h,trivial⟩,And.left⟩

/-- Reactions of one sender to one message, in any order with acknowledgements: all their appends
are answered with a stored event exactly if each signal that is not dropped as a repetition comes
when the outbox holds no reaction of that sender to that message with another emoji. -/
theorem reactions_stored_iff (sha1 : String → String) (selfJids : List String) (actor : String × String × String)
    (i : SignalIntake) (hi : i.outbox.Idle) (hr : i.Reacted actor) (hn : i.answers = []) (acts : List SignalAction)
    (ha : ∀ event nowMs, .react event nowMs ∈ acts → ∃ s, event.signal selfJids = some s ∧ s.actor = actor) :
    (run (step sha1 selfJids) i acts).AllStored ↔
      Along (step sha1 selfJids) (Unopposed sha1 selfJids) i acts := by
  have hstart : i.AllStored := by
    intro x hx
    rw [hn] at hx
    cases hx
  -- by induction over the actions, the answers so far being stored
  suffices hrun : (run (step sha1 selfJids) i acts).AllStored ↔
      i.AllStored ∧ Along (step sha1 selfJids) (Unopposed sha1 selfJids) i acts by
    rw [hrun]
    exact and_iff_right hstart
  clear hn hstart
  induction acts generalizing i with
  | nil => exact (and_iff_left trivial).symm
  | cons a acts ih =>
    obtain ⟨hidle,hreacted,hiff⟩ := @step_spec sha1 selfJids actor i hi hr a
      fun event nowMs he => ha event nowMs (he ▸ List.mem_cons_self)
    rw [run_cons,ih _ hidle hreacted fun event nowMs hm => ha event nowMs (List.mem_cons_of_mem a hm),hiff,
      and_assoc]
    rfl

/-- A thumb and, once that was acknowledged, a heart. -/
theorem acknowledged_reaction_replaced :
    let i : SignalIntake := ⟨.default,.after [.load none],⟨[],0⟩,true,[]⟩
    let react (text : String) : ReactionEvent := { remoteJid := "g@g.us", id := "m", participant := "p@lid", text := text }
    let thumb : ReactionSignal := ⟨"g@g.us","m","p@lid","👍"⟩
    (run (step id []) i [.react (react "👍") 0, .ack (providerEventId (thumb.eventKey .default)),
      .react (react "❤") 1]).AllStored := by
  intro i react thumb
  refine (reactions_stored_iff id [] thumb.actor i ⟨Outbox.sound_after (by decide),rfl,rfl,rfl,rfl⟩ ?_ rfl _ ?_).mpr ?_
  · intro s _ x hx
    exact absurd hx List.not_mem_nil
  · intro event nowMs hm
    simp only [List.mem_cons,SignalAction.react.injEq,reduceCtorEq,false_or,List.not_mem_nil,or_false] at hm
    rcases hm with ⟨rfl,rfl⟩ | ⟨rfl,rfl⟩
    · exact ⟨thumb,by decide +kernel,rfl⟩
    · exact ⟨⟨"g@g.us","m","p@lid","❤"⟩,by decide +kernel,rfl⟩
  · decide +kernel

/-- A thumb and then a heart on the same message, with nothing acknowledged in between: the second
signal is not a repetition, its append fails, and the intake stops. -/
theorem changed_reaction_stops_intake :
    let i : SignalIntake := ⟨.default,.after [.load none],⟨[],0⟩,true,[]⟩
    let react (text : String) : ReactionEvent := { remoteJid := "g@g.us", id := "m", participant := "p@lid", text := text }
    let i' := run (step id []) i [.react (react "👍") 0, .react (react "❤") 1]
    i'.answers.map (fun x => (x.1.emoji, x.2.eventId?.isSome)) = [("👍", true), ("❤", false)] ∧ i'.accepting = false := by
  decide +kernel

end SignalIntake
end Yeoman.Bridge
