import Yeoman.Consciousness.Opportunities

/-! The part of the speak-up ledger that says which material a lane has considered: a revision
and two watermarks per chat, a revision per registered source, the claims on sources, and the
dispositions of opportunities. Opening the ledger backfills the first two from the last two. -/
namespace Yeoman.Consciousness
open Library Table
open Processing (stripText)

structure ChatRevision where
  (channel chatId : String)
  revision : Nat := 0
  consideredRevision : Nat := 0
  shadowConsideredRevision : Nat := 0
  updatedAtMs : Int

namespace ChatRevision

def key (r : ChatRevision) : ChatKey := (r.channel, r.chatId)

def considered (r : ChatRevision) : Lane → Nat
  | .production => r.consideredRevision
  | .shadow => r.shadowConsideredRevision

def considerAtLeast (lane : Lane) (revision : Nat) (nowMs : Int) (r : ChatRevision) : ChatRevision :=
  match lane with
  | .production => { r with consideredRevision := max r.consideredRevision revision, updatedAtMs := nowMs }
  | .shadow => { r with shadowConsideredRevision := max r.shadowConsideredRevision revision, updatedAtMs := nowMs }

theorem considered_considerAtLeast {r : ChatRevision} {lane : Lane} {revision : Nat} {nowMs : Int} :
    (r.considerAtLeast lane revision nowMs).considered lane = max (r.considered lane) revision := by
  cases lane <;> rfl

theorem key_considerAtLeast (lane : Lane) (revision : Nat) (nowMs : Int) (r : ChatRevision) :
    (r.considerAtLeast lane revision nowMs).key = r.key := by
  cases lane <;> rfl

end ChatRevision

structure SourceRevision where
  (channel chatId sourceEventId : String)
  revision : Nat
  createdAtMs : Int

def SourceRevision.chat (r : SourceRevision) : ChatKey := (r.channel, r.chatId)

def SourceRevision.key (r : SourceRevision) : ChatKey × String := (r.chat, r.sourceEventId)

structure SourceClaim where
  (channel chatId claimKey owner lane : String)
  activationEpoch : Nat
  claimedAtMs : Int

def SourceClaim.chat (c : SourceClaim) : ChatKey := (c.channel, c.chatId)

def SourceClaim.key (c : SourceClaim) : ChatKey × String := (c.chat, c.claimKey)

structure OpportunityDisposition where
  (opportunityId channel chatId : String)
  observedRevision : Int
  lane : String
  sourceIds : List String
  createdAtMs : Int

def OpportunityDisposition.chat (d : OpportunityDisposition) : ChatKey := (d.channel, d.chatId)

structure MaterialLedger where
  chats : List ChatRevision
  sources : List SourceRevision
  claims : List SourceClaim
  dispositions : List OpportunityDisposition

def startsWith (start token : String) : Bool := start.toList.isPrefixOf token.toList

def sourceId? (value : String) : Option String :=
  let token := stripText value
  if token = "" ∨ startsWith "observed:" token then none else some token

def sourceIds (values : List String) : List String := (values.filterMap sourceId?).eraseDups

def claimKey (lane sourceEventId : String) : String :=
  if lane = "shadow" then "shadow:" ++ sourceEventId else sourceEventId

namespace MaterialLedger
variable (chat : ChatKey) (nowMs : Int)

def empty : MaterialLedger := ⟨[],[],[],[]⟩

def chatRow (l : MaterialLedger) : Option ChatRevision := lookup ChatRevision.key chat l.chats

def revision (l : MaterialLedger) : Nat := ((l.chatRow chat).map ChatRevision.revision).getD 0

def considered (l : MaterialLedger) (lane : Lane) : Nat := ((l.chatRow chat).map (·.considered lane)).getD 0

def registered (l : MaterialLedger) (sourceId : String) : Option Nat :=
  (lookup SourceRevision.key (chat, sourceId) l.sources).map SourceRevision.revision

def ensureChatRevisionRow (l : MaterialLedger) : MaterialLedger :=
  let row : ChatRevision := { channel := chat.1, chatId := chat.2, updatedAtMs := nowMs }
  { l with chats := insertIgnore ChatRevision.key row l.chats }

def updateChat (f : ChatRevision → ChatRevision) (l : MaterialLedger) : MaterialLedger :=
  { l with chats := updateWhere (fun r => r.key = chat) f l.chats }

def setRevisionAtLeast (revision : Nat) (l : MaterialLedger) : MaterialLedger :=
  (l.ensureChatRevisionRow chat nowMs).updateChat chat fun r =>
    { r with revision := max r.revision revision, updatedAtMs := nowMs }

def allocateSourceRevision (l : MaterialLedger) : Nat × MaterialLedger :=
  let l := l.ensureChatRevisionRow chat nowMs
  let revision := l.revision chat + 1
  (revision, l.updateChat chat fun r => { r with revision := revision, updatedAtMs := nowMs })

def insertSource (sourceId : String) (revision : Nat) (l : MaterialLedger) : MaterialLedger :=
  let row : SourceRevision :=
    { channel := chat.1, chatId := chat.2, sourceEventId := sourceId, revision := revision, createdAtMs := nowMs }
  { l with sources := insertIgnore SourceRevision.key row l.sources }

def markConsidered (observedRevision : Int) (lane : Lane) (l : MaterialLedger) : MaterialLedger :=
  if observedRevision ≤ 0 then l
  else (l.ensureChatRevisionRow chat nowMs).updateChat chat (.considerAtLeast lane observedRevision.toNat nowMs)

def ensureSourceRevision (l : MaterialLedger) (sourceId : String) : Nat × MaterialLedger :=
  match l.registered chat sourceId with
  | some revision => (revision, l)
  | none =>
    let (revision, l) := l.allocateSourceRevision chat nowMs
    (revision, l.insertSource chat nowMs sourceId revision)

def ensureSourceRevisions (values : List String) (l : MaterialLedger) : List (String × Nat) × MaterialLedger :=
  if chat.1 = "" ∨ chat.2 = "" ∨ sourceIds values = [] then ([], l)
  else
    (sourceIds values).foldl (fun (result, l) sourceId =>
      let (revision, l) := l.ensureSourceRevision chat nowMs sourceId
      (result ++ [(sourceId, revision)], l)) ([], l.ensureChatRevisionRow chat nowMs)

/-- The registered sources above the watermark of the lane, all of them or those that are named,
with the highest revision among them. -/
def materialForOpportunity (values : Option (List String)) (lane : Lane) (l : MaterialLedger) :
    List String × Nat :=
  if chat.1 = "" ∨ chat.2 = "" then ([], 0)
  else
    let considered := l.considered chat lane
    let rows := l.sources.filter fun r => r.chat = chat ∧ considered < r.revision ∧
      ∀ named ∈ values, r.sourceEventId ∈ sourceIds named
    let rows := orderBy (fun r => r.revision) SourceRevision.sourceEventId rows
    (rows.map SourceRevision.sourceEventId, (rows.map SourceRevision.revision).max?.getD considered)

def initializeMaterialBaseline (values : List String) (lane : Lane) (l : MaterialLedger) : Nat × MaterialLedger :=
  if chat.1 = "" ∨ chat.2 = "" then (0, l)
  else if (l.chatRow chat).isSome ∨ (∃ r ∈ l.sources, r.chat = chat) ∨ (∃ c ∈ l.claims, c.chat = chat) ∨
      (∃ d ∈ l.dispositions, d.chat = chat) then (l.considered chat lane, l)
  else
    let (highest, l) := (sourceIds values).foldl (fun (highest, l) sourceId =>
      let (revision, l) := allocateSourceRevision chat nowMs l
      (max highest revision, l.insertSource chat nowMs sourceId revision)) (0, l.ensureChatRevisionRow chat nowMs)
    (highest, (l.markConsidered chat nowMs highest .production).markConsidered chat nowMs highest .shadow)

def claimSource (sourceEventId : String) (activationEpoch : Nat) (lane owner : String) (l : MaterialLedger) :
    (Bool × String) × MaterialLedger :=
  match lookup SourceClaim.key (chat, claimKey lane sourceEventId) l.claims with
  | some c => ((false, c.owner), l)
  | none =>
    let row : SourceClaim :=
      { channel := chat.1, chatId := chat.2, claimKey := claimKey lane sourceEventId, owner := owner, lane := lane,
        activationEpoch := activationEpoch, claimedAtMs := nowMs }
    ((true, owner), { l with claims := l.claims ++ [row] })

def releaseSourceClaim (sourceEventId lane owner : String) (l : MaterialLedger) : Bool × MaterialLedger :=
  let kept := l.claims.filter fun c => ¬(c.key = (chat, claimKey lane sourceEventId) ∧ c.owner = owner)
  (kept.length < l.claims.length, { l with claims := kept })

def releaseSourceClaims (owner : Option String) (l : MaterialLedger) : MaterialLedger :=
  { l with claims := l.claims.filter fun c => ¬(c.chat = chat ∧ ∀ o ∈ owner, c.owner = o) }

def nextSourceRevision (l : MaterialLedger) : Nat × MaterialLedger := l.allocateSourceRevision chat nowMs

/-- Persist the disposition of one opportunity; a repeated one keeps its sources and its lane. -/
def recordDisposition (d : OpportunityDisposition) (l : MaterialLedger) : MaterialLedger :=
  match lookup OpportunityDisposition.opportunityId d.opportunityId l.dispositions with
  | none => { l with dispositions := l.dispositions ++ [d] }
  | some _ =>
    let again (r : OpportunityDisposition) : OpportunityDisposition :=
      { r with observedRevision := max r.observedRevision d.observedRevision }
    { l with dispositions := updateWhere (fun r => r.opportunityId = d.opportunityId) again l.dispositions }

section Rows
variable {chat k : ChatKey} {nowMs : Int}

theorem chatRow_updateChat {f : ChatRevision → ChatRevision} (hf : ∀ r, (f r).key = r.key) {l : MaterialLedger} :
    (l.updateChat chat f).chatRow k = if k = chat then (l.chatRow chat).map f else l.chatRow k := by
  unfold chatRow updateChat
  rw [lookup_updateWhere hf]
  split_ifs with hk
  · subst hk
    cases hr : lookup ChatRevision.key k l.chats with
    | none => rfl
    | some r => simp [(lookup_some hr).2]
  · cases hr : lookup ChatRevision.key k l.chats with
    | none => rfl
    | some r =>
      have hne : r.key ≠ chat := (lookup_some hr).2 ▸ hk
      simp [hne]
variable {l : MaterialLedger}

theorem chatRow_ensure :
    (l.ensureChatRevisionRow chat nowMs).chatRow k =
      if k = chat then some ((l.chatRow chat).getD { channel := chat.1, chatId := chat.2, updatedAtMs := nowMs })
      else l.chatRow k := by
  unfold chatRow ensureChatRevisionRow
  rw [lookup_insertIgnore]
  change (if k = chat then _ else _) = _
  split_ifs with hk
  · rw [hk]
  · rfl

theorem chatRow_amend {f : ChatRevision → ChatRevision} (hf : ∀ r, (f r).key = r.key) (l : MaterialLedger) :
    ((l.ensureChatRevisionRow chat nowMs).updateChat chat f).chatRow k =
      if k = chat then some (f ((l.chatRow chat).getD { channel := chat.1, chatId := chat.2, updatedAtMs := nowMs }))
      else l.chatRow k := by
  rw [chatRow_updateChat hf,chatRow_ensure,chatRow_ensure,if_pos rfl]
  split <;> rfl

theorem revision_ensure : (l.ensureChatRevisionRow chat nowMs).revision chat = l.revision chat := by
  unfold revision
  rw [chatRow_ensure,if_pos rfl]
  cases l.chatRow chat <;> rfl

end Rows
end MaterialLedger

def OpportunityDisposition.considersLane (d : OpportunityDisposition) : Lane :=
  if d.lane = "shadow" then .shadow else .production

/-- The lane and the source a claim stands for, or none if it names no source or another lane. -/
def SourceClaim.considers (c : SourceClaim) : Option (Lane × String) :=
  let token := stripText c.claimKey
  let lane := if c.lane = "" then "production" else c.lane
  if startsWith "shadow:" token then (sourceId? (String.ofList (token.toList.drop 7))).map (.shadow, ·)
  else
    match lane with
    | "production" => (sourceId? token).map (.production, ·)
    | "shadow" => (sourceId? token).map (.shadow, ·)
    | _ => none

inductive LegacyRow where
  | disposition (d : OpportunityDisposition)
  | claim (c : SourceClaim)

namespace MaterialLedger

def backfillSource (chat : ChatKey) (nowMs : Int) (observed : Nat) (l : MaterialLedger) (sourceId : String) :
    Nat × MaterialLedger :=
  match l.registered chat sourceId with
  | some revision => (revision, l)
  | none =>
    let (revision, l) := if 0 < observed then (observed, l) else l.allocateSourceRevision chat nowMs
    (revision, (l.setRevisionAtLeast chat nowMs revision).insertSource chat nowMs sourceId revision)

def backfillDisposition (nowMs : Int) (l : MaterialLedger) (d : OpportunityDisposition) : MaterialLedger :=
  let observed := d.observedRevision.toNat
  let (highest, l) := (sourceIds d.sourceIds).foldl (fun (highest, l) sourceId =>
    let (revision, l) := backfillSource d.chat nowMs observed l sourceId
    (max highest revision, l)) (observed, l)
  l.markConsidered d.chat nowMs highest d.considersLane

def backfillClaim (nowMs : Int) (l : MaterialLedger) (c : SourceClaim) : MaterialLedger :=
  match c.considers with
  | none => l
  | some (lane, sourceId) =>
    let (revision, l) := l.ensureSourceRevision c.chat nowMs sourceId
    l.markConsidered c.chat nowMs revision lane

def backfill (nowMs : Int) (l : MaterialLedger) : LegacyRow → MaterialLedger
  | .disposition d => l.backfillDisposition nowMs d
  | .claim c => l.backfillClaim nowMs c

def legacyRows (l : MaterialLedger) : List LegacyRow :=
  (orderBy OpportunityDisposition.createdAtMs OpportunityDisposition.opportunityId l.dispositions).map .disposition ++
    (orderBy SourceClaim.claimedAtMs SourceClaim.claimKey l.claims).map .claim

def reopen (nowMs : Int) (l : MaterialLedger) : MaterialLedger := l.legacyRows.foldl (backfill nowMs) l

end MaterialLedger

inductive MaterialCall where
  | ensureSourceRevisions (chat : ChatKey) (values : List String) (nowMs : Int)
  | markConsidered (chat : ChatKey) (observedRevision : Int) (lane : Lane) (nowMs : Int)
  | initializeMaterialBaseline (chat : ChatKey) (values : List String) (lane : Lane) (nowMs : Int)
  | claimSource (chat : ChatKey) (sourceEventId : String) (activationEpoch : Nat) (lane owner : String) (nowMs : Int)
  | releaseSourceClaim (chat : ChatKey) (sourceEventId lane owner : String)
  | releaseSourceClaims (chat : ChatKey) (owner : Option String)
  | nextSourceRevision (chat : ChatKey) (nowMs : Int)
  | recordDisposition (d : OpportunityDisposition)
  | reopen (nowMs : Int)

def MaterialLedger.exec (l : MaterialLedger) : MaterialCall → MaterialLedger
  | .ensureSourceRevisions chat values nowMs => (l.ensureSourceRevisions chat nowMs values).2
  | .markConsidered chat revision lane nowMs => l.markConsidered chat nowMs revision lane
  | .initializeMaterialBaseline chat values lane nowMs => (l.initializeMaterialBaseline chat nowMs values lane).2
  | .claimSource chat source epoch lane owner nowMs => (l.claimSource chat nowMs source epoch lane owner).2
  | .releaseSourceClaim chat source lane owner => (l.releaseSourceClaim chat source lane owner).2
  | .releaseSourceClaims chat owner => l.releaseSourceClaims chat owner
  | .nextSourceRevision chat nowMs => (l.nextSourceRevision chat nowMs).2
  | .recordDisposition d => l.recordDisposition d
  | .reopen nowMs => l.reopen nowMs

def MaterialLedger.after (calls : List MaterialCall) : MaterialLedger := Runs.run exec empty calls

end Yeoman.Consciousness
