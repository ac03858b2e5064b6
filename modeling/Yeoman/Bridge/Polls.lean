import Mathlib.Data.List.Dedup
import Mathlib.Data.List.Induction
import Yeoman.Library.Runs
import Yeoman.Processing.Authority

/-! The polls the bridge sent, and the votes on them. Only the current vote of each voter is
kept, under a tag of the voter, and delivery can reorder and repeat the votes. -/
namespace Yeoman.Bridge
open Library Table Runs
open Json (trim)

def pollReferenceTtlMs : Int := 48 * 60 * 60 * 1000

def maxPolls : Nat := 200

def maxVotersPerPoll : Nat := 2048

structure StoredVote where
  selected : List String
  atMs : Int
deriving DecidableEq

structure StoredPoll where
  (chatJid pollId secret : String)
  options : List String
  (createdAtMs expiresAtMs updatedAtMs : Int)
  votes : List (String × StoredVote)
deriving DecidableEq

structure PollVoteInput where
  (chatJid pollId : String)
  (encPayload encIv : List Nat)
  (voterJids creatorJids : List String)
  senderTimestampMs : Int

structure PollResults where
  options : List (String × Nat)
  totalVotes : Nat
  updatedAtMs : Int

/-- The provider's decryption, which raises unless creator and voter are the ones the vote was
signed for, and the keyed hash that tags a voter. -/
structure PollCrypto where
  decryptPollVote (encPayload encIv : List Nat) (pollCreatorJid pollMsgId pollEncKey voterJid : String) :
    Option (List String)
  hmac (key voter : String) : String

def StoredPoll.key (poll : StoredPoll) : String × String := (poll.chatJid, poll.pollId)

def optionHash (name : String) : String := Sha256.hexdigest name

def uniqueJids (values : List String) : List String := ((values.map trim).filter (· ≠ "")).eraseDups

/-- Polls in the order of a `Map`, never more than the bound and one per chat and poll id. -/
structure PollStore where
  polls : List StoredPoll
  keys : Table.Unique StoredPoll.key polls
  length_le : polls.length ≤ maxPolls

namespace PollStore

def empty : PollStore := ⟨[],List.nodup_nil,Nat.zero_le _⟩

def newest (polls : List StoredPoll) : List StoredPoll :=
  (polls.insertionSort fun a b => b.createdAtMs ≤ a.createdAtMs).take maxPolls

theorem newest_unique {polls : List StoredPoll} (h : Table.Unique StoredPoll.key polls) :
    Table.Unique StoredPoll.key (newest polls) := by
  refine List.Nodup.sublist (List.Sublist.map _ (List.take_sublist _ _)) ?_
  exact ((List.perm_insertionSort _ polls).map _).nodup_iff.mpr h

def persist (nowMs : Int) (polls : List StoredPoll) (h : Table.Unique StoredPoll.key polls) : PollStore where
  polls := newest (polls.filter fun poll => nowMs < poll.expiresAtMs)
  keys := newest_unique (h.filter)
  length_le := List.length_take_le _ _

variable (s : PollStore)

def find (chatJid pollId : String) : Option StoredPoll := lookup StoredPoll.key (chatJid, pollId) s.polls

def save (poll : StoredPoll) (nowMs : Int) : PollStore :=
  persist nowMs (upsert StoredPoll.key poll s.polls) (s.keys.upsert)

def delete (chatJid pollId : String) (nowMs : Int) : PollStore :=
  persist nowMs (remove StoredPoll.key (chatJid, pollId) s.polls) (s.keys.remove)

def remember (chatJid pollId secret : String) (options : List String) (nowMs : Int) : PollStore :=
  if chatJid = "" ∨ pollId = "" ∨ secret = "" then s
  else s.save
    { chatJid := chatJid, pollId := pollId, secret := secret, options := options, createdAtMs := nowMs,
      expiresAtMs := nowMs + pollReferenceTtlMs, updatedAtMs := nowMs, votes := [] } nowMs

def live (chatJid pollId : String) (nowMs : Int) : Option StoredPoll × PollStore :=
  match s.find chatJid pollId with
  | none => (none, s)
  | some poll => if poll.expiresAtMs ≤ nowMs then (none, s.delete chatJid pollId nowMs) else (some poll, s)

def forget (chatJid pollId : String) (nowMs : Int) : PollStore :=
  if (s.find chatJid pollId).isSome then s.delete chatJid pollId nowMs else s

end PollStore

def PollCrypto.decode (c : PollCrypto) (pollId secret : String) (vote : PollVoteInput) :
    Option (String × List String) :=
  (uniqueJids vote.creatorJids).findSome? fun creator =>
    (uniqueJids vote.voterJids).findSome? fun voter =>
      (c.decryptPollVote vote.encPayload vote.encIv creator pollId secret voter).map fun selected =>
        (voter, selected)

def StoredPoll.withVote (poll : StoredPoll) (tag : String) (selected : List String) (atMs nowMs : Int) :
    Option StoredPoll :=
  let previous := lookup Prod.fst tag poll.votes
  -- A later vote replaces an earlier one; delivery can reorder them.
  if previous.any fun vote => atMs < vote.2.atMs then none
  else if previous.isNone ∧ maxVotersPerPoll ≤ poll.votes.length then none
  else some
    { poll with
      votes :=
        if selected.isEmpty then remove Prod.fst tag poll.votes
        else upsert Prod.fst (tag, ⟨selected,atMs⟩) poll.votes
      updatedAtMs := nowMs }

def PollStore.recordVote (c : PollCrypto) (vote : PollVoteInput) (nowMs : Int) (s : PollStore) : Bool × PollStore :=
  match s.live vote.chatJid vote.pollId nowMs with
  | (none, s) => (false, s)
  | (some poll, s) =>
    match c.decode poll.pollId poll.secret vote with
    | none => (false, s)
    | some (voter, selected) =>
      match poll.withVote (c.hmac poll.secret voter) selected vote.senderTimestampMs nowMs with
      | none => (true, s)
      | some poll => (true, s.save poll nowMs)

def countChoice (hashes : List String) (counts : List Nat) (choice : String) : List Nat :=
  match hashes.findIdx? (· = choice) with
  | some index => counts.modify index (· + 1)
  | none => counts

def countVotes (hashes : List String) (votes : List (List String)) : List Nat :=
  votes.foldl (fun counts selected => selected.dedup.foldl (countChoice hashes) counts) (hashes.map fun _ => 0)

def StoredPoll.results (poll : StoredPoll) : PollResults :=
  let counts := countVotes (poll.options.map optionHash) (poll.votes.map fun vote => vote.2.selected)
  { options := poll.options.zip counts
    totalVotes := poll.votes.length
    updatedAtMs := poll.updatedAtMs }

def PollStore.results (chatJid pollId : String) (nowMs : Int) (s : PollStore) : Option PollResults × PollStore :=
  let (poll, s) := s.live chatJid pollId nowMs
  (poll.map StoredPoll.results, s)

def PollStore.deliver (c : PollCrypto) (s : PollStore) (votes : List (PollVoteInput × Int)) : PollStore :=
  run (fun s d => (s.recordVote c d.1 d.2).2) s votes

structure Ballot where
  voter : String
  selected : List String
  atMs : Int
deriving DecidableEq

def PollCrypto.ballots (c : PollCrypto) (poll : StoredPoll) (votes : List (PollVoteInput × Int)) : List Ballot :=
  votes.filterMap fun d =>
    if (d.1.chatJid, d.1.pollId) = poll.key then
      (c.decode poll.pollId poll.secret d.1).map fun v => ⟨v.1,v.2,d.1.senderTimestampMs⟩
    else none

def Ballot.Latest (b : Ballot) (bs : List Ballot) : Prop := ∀ b' ∈ bs, b'.voter = b.voter → b'.atMs ≤ b.atMs
deriving Decidable

def standing (bs : List Ballot) : List Ballot := bs.dedup.filter fun b => b.selected ≠ [] ∧ b.Latest bs

def Ballot.names (hashes : List String) (index : Nat) (b : Ballot) : Bool :=
  b.selected.any fun choice => hashes.findIdx? (· = choice) = some index

structure PollResults.Tallies (r : PollResults) (poll : StoredPoll) (bs : List Ballot) : Prop where
  total : r.totalVotes = (standing bs).length
  options : r.options = poll.options.zipIdx.map fun o =>
    (o.1, (standing bs).countP (Ballot.names (poll.options.map optionHash) o.2))

/-- Where the latest vote of a voter is a retraction, each of its selections is followed in the
delivery by a retraction that was sent later. -/
def RetractionsFollow (bs : List Ballot) : Prop :=
  ∀ before b after, bs = before ++ b :: after → b.selected ≠ [] →
    (∃ r ∈ bs, r.voter = b.voter ∧ r.selected = [] ∧ r.Latest bs) →
    ∃ r ∈ after, r.voter = b.voter ∧ r.selected = [] ∧ b.atMs < r.atMs

def TimesDistinct (bs : List Ballot) : Prop :=
  ∀ b ∈ bs, ∀ b' ∈ bs, b.voter = b'.voter → b.atMs = b'.atMs → b = b'
deriving Decidable

def voterStep (previous : Option StoredVote) (b : Ballot) : Option StoredVote :=
  if previous.any fun vote => b.atMs < vote.atMs then previous
  else if b.selected = [] then none
  else some ⟨b.selected,b.atMs⟩

def voterEntry (bs : List Ballot) : Option StoredVote := bs.foldl voterStep none

theorem voterEntry_concat (bs : List Ballot) (b : Ballot) : voterEntry (bs ++ [b]) = voterStep (voterEntry bs) b := by
  rw [voterEntry,List.foldl_append]
  rfl

theorem voterStep_cases (previous : Option StoredVote) (b : Ballot) :
    (∃ vote, previous = some vote ∧ b.atMs < vote.atMs ∧ voterStep previous b = some vote) ∨
    (∀ vote ∈ previous, vote.atMs ≤ b.atMs) ∧
      (b.selected = [] ∧ voterStep previous b = none ∨
        b.selected ≠ [] ∧ voterStep previous b = some ⟨b.selected,b.atMs⟩) := by
  unfold voterStep
  cases previous with
  | none =>
    refine .inr ⟨nofun,?_⟩
    by_cases hs : b.selected = [] <;> simp [hs]
  | some vote =>
    by_cases ht : b.atMs < vote.atMs
    · exact .inl ⟨vote,rfl,ht,by simp [ht]⟩
    · refine .inr ⟨?_,?_⟩
      · rintro _ ⟨⟩
        omega
      · by_cases hs : b.selected = [] <;> simp [hs,ht]

section OneVoter
variable {bs : List Ballot} {b : Ballot}

theorem selection_kept (before : List Ballot) (hs : b.selected ≠ []) (after : List Ballot) :
    (∃ r ∈ after, r.selected = [] ∧ b.atMs ≤ r.atMs) ∨
      ∃ vote, voterEntry (before ++ b :: after) = some vote ∧ b.atMs ≤ vote.atMs := by
  induction after using List.reverseRecOn with
  | nil =>
    rw [voterEntry_concat]
    rcases voterStep_cases (voterEntry before) b with ⟨vote,_,ht,he⟩ | ⟨_,⟨hn,_⟩ | ⟨_,he⟩⟩
    · exact .inr ⟨vote,he,ht.le⟩
    · exact absurd hn hs
    · exact .inr ⟨_,he,le_rfl⟩
  | append_singleton after x ih =>
    rw [← List.cons_append,← List.append_assoc,voterEntry_concat]
    rcases ih with ⟨r,hr,hrs,ht⟩ | ⟨vote,hv,ht⟩
    · exact .inl ⟨r,List.mem_append_left _ hr,hrs,ht⟩
    · rcases voterStep_cases (voterEntry (before ++ b :: after)) x with
        ⟨vote',hv',_,he⟩ | ⟨hle,⟨hn,_⟩ | ⟨_,he⟩⟩
      · rw [hv] at hv'
        cases hv'
        exact .inr ⟨vote,he,ht⟩
      · exact .inl ⟨x,by simp,hn,ht.trans (hle vote hv)⟩
      · exact .inr ⟨_,he,ht.trans (hle vote hv)⟩

theorem voterEntry_source {vote : StoredVote} (h : voterEntry bs = some vote) :
    ∃ before b after, bs = before ++ b :: after ∧ b.selected ≠ [] ∧ vote = ⟨b.selected,b.atMs⟩ ∧
      ∀ r ∈ after, r.selected = [] → r.atMs < vote.atMs := by
  induction bs using List.reverseRecOn with
  | nil => cases h
  | append_singleton bs x ih =>
    rw [voterEntry_concat] at h
    rcases voterStep_cases (voterEntry bs) x with ⟨vote',hv',ht,he⟩ | ⟨_,⟨_,he⟩ | ⟨hs,he⟩⟩ <;> rw [he] at h <;>
      cases h
    · obtain ⟨before,b,after,rfl,hs,rfl,hr⟩ := ih hv'
      refine ⟨before,b,after ++ [x],by simp,hs,rfl,fun r hm hrs => ?_⟩
      rcases mem_concat.mp hm with hm | rfl
      · exact hr r hm hrs
      · exact ht
    · exact ⟨bs,x,[],rfl,hs,rfl,nofun⟩

/-- Nothing is kept of a voter exactly when each selection is followed by a later retraction. -/
theorem voterEntry_eq_none_iff (hd : ∀ b ∈ bs, ∀ b' ∈ bs, b.atMs = b'.atMs → b = b') :
    voterEntry bs = none ↔ ∀ before b after, bs = before ++ b :: after → b.selected ≠ [] →
      ∃ r ∈ after, r.selected = [] ∧ b.atMs < r.atMs := by
  constructor
  · rintro h before b after rfl hs
    rcases selection_kept before hs after with ⟨r,hr,hrs,ht⟩ | ⟨vote,hv,_⟩
    · refine ⟨r,hr,hrs,lt_of_le_of_ne ht fun he => hs ?_⟩
      rw [hd b (by simp) r (by simp [hr]) he]
      exact hrs
    · rw [h] at hv
      cases hv
  · intro h
    cases hv : voterEntry bs with
    | none => rfl
    | some vote =>
      obtain ⟨before,b,after,hb,hs,rfl,hr⟩ := voterEntry_source hv
      obtain ⟨r,hm,hrs,ht⟩ := h before b after hb hs
      exact absurd (hr r hm hrs) (by simpa using ht.le)

theorem voterEntry_of_latest (hd : ∀ b ∈ bs, ∀ b' ∈ bs, b.atMs = b'.atMs → b = b') (hb : b ∈ bs)
    (hs : b.selected ≠ []) (hl : ∀ b' ∈ bs, b'.atMs ≤ b.atMs) : voterEntry bs = some ⟨b.selected,b.atMs⟩ := by
  obtain ⟨before,after,rfl⟩ := List.append_of_mem hb
  rcases selection_kept before hs after with ⟨r,hr,hrs,ht⟩ | ⟨vote,hv,ht⟩
  · have hm : r ∈ before ++ b :: after := by simp [hr]
    rw [hd b hb r hm (le_antisymm ht (hl r hm))] at hs
    exact absurd hrs hs
  · obtain ⟨before',b',after',hb',_,rfl,_⟩ := voterEntry_source hv
    have hm : b' ∈ before ++ b :: after := by
      rw [hb']
      simp
    rw [hv,hd b' hm b hb (le_antisymm (hl b' hm) ht)]

end OneVoter

def PollCrypto.castVote (c : PollCrypto) (secret : String) (votes : List (String × StoredVote)) (b : Ballot) :
    List (String × StoredVote) :=
  if (lookup Prod.fst (c.hmac secret b.voter) votes).any fun vote => b.atMs < vote.2.atMs then votes
  else if b.selected.isEmpty then remove Prod.fst (c.hmac secret b.voter) votes
  else upsert Prod.fst (c.hmac secret b.voter, ⟨b.selected,b.atMs⟩) votes

section Votes
variable {c : PollCrypto} {secret : String} {votes : List (String × StoredVote)} {bs : List Ballot}

def PollCrypto.castVotes (c : PollCrypto) (secret : String) (bs : List Ballot) : List (String × StoredVote) :=
  bs.foldl (c.castVote secret) []

theorem castVotes_concat {b : Ballot} :
    c.castVotes secret (bs ++ [b]) = c.castVote secret (c.castVotes secret bs) b := by
  rw [PollCrypto.castVotes,List.foldl_append]
  rfl

theorem castVotes_tags (c : PollCrypto) (secret : String) (bs : List Ballot) :
    Table.Unique Prod.fst (c.castVotes secret bs) ∧
      ∀ entry ∈ c.castVotes secret bs, ∃ b ∈ bs, entry.1 = c.hmac secret b.voter := by
  induction bs using List.reverseRecOn with
  | nil => exact ⟨List.nodup_nil,fun _ h => absurd h List.not_mem_nil⟩
  | append_singleton bs b ih =>
    obtain ⟨hu,hv⟩ := ih
    replace hv entry he := (hv entry he).imp fun _ => And.imp_left (List.mem_append_left [b])
    rw [castVotes_concat,PollCrypto.castVote]
    split_ifs
    · exact ⟨hu,hv⟩
    · exact ⟨hu.remove,fun entry he => hv entry (mem_remove.mp he).1⟩
    · refine ⟨hu.upsert,fun entry he => ?_⟩
      rcases mem_upsert he with rfl | ⟨he,_⟩
      · exact ⟨b,List.mem_concat_self,rfl⟩
      · exact hv entry he
variable {b : Ballot}

theorem lookup_castVote {tag : String} :
    (lookup Prod.fst tag (c.castVote secret votes b)).map Prod.snd =
      if c.hmac secret b.voter = tag then voterStep ((lookup Prod.fst tag votes).map Prod.snd) b
      else (lookup Prod.fst tag votes).map Prod.snd := by
  unfold PollCrypto.castVote voterStep
  by_cases ht : c.hmac secret b.voter = tag
  · rw [if_pos ht,ht,Option.any_map]
    split
    · rfl
    · by_cases hs : b.selected = []
      · simp [hs,lookup_remove]
      · simp [hs,lookup_upsert]
  · rw [if_neg ht]
    split
    · rfl
    · split
      · rw [lookup_remove,if_neg (Ne.symm ht)]
      · rw [lookup_upsert,if_neg ht]

/-- The entry under the tag of a voter is what its own votes leave. -/
theorem lookup_castVotes {voter : String} (hinj : ∀ b ∈ bs, c.hmac secret b.voter = c.hmac secret voter → b.voter = voter) :
    (lookup Prod.fst (c.hmac secret voter) (c.castVotes secret bs)).map Prod.snd =
      voterEntry (bs.filter fun b => b.voter = voter) := by
  induction bs using List.reverseRecOn with
  | nil => rfl
  | append_singleton bs b ih =>
    rw [castVotes_concat,lookup_castVote,ih fun b hb => hinj b (List.mem_append_left _ hb),List.filter_append,
      List.filter_singleton]
    by_cases hv : b.voter = voter
    · rw [hv,if_pos rfl,decide_eq_true rfl,cond_true,voterEntry_concat]
    · rw [if_neg fun ht => hv (hinj b (by simp) ht),decide_eq_false hv,cond_false,List.append_nil]

theorem castVotes_length_lt (hb : lookup Prod.fst (c.hmac secret b.voter) (c.castVotes secret bs) = none)
    (hcap : ((bs ++ [b]).map Ballot.voter).dedup.length ≤ maxVotersPerPoll) :
    (c.castVotes secret bs).length < maxVotersPerPoll := by
  have hsub : c.hmac secret b.voter :: (c.castVotes secret bs).map Prod.fst ⊆
      ((bs ++ [b]).map Ballot.voter).dedup.map (c.hmac secret) := by
    intro tag hm
    rcases List.mem_cons.mp hm with rfl | hm
    · exact List.mem_map_of_mem (List.mem_dedup.mpr (by simp))
    · obtain ⟨entry,he,rfl⟩ := List.mem_map.mp hm
      obtain ⟨b',hb',ht⟩ := (castVotes_tags c secret bs).2 _ he
      rw [ht]
      refine List.mem_map_of_mem (List.mem_dedup.mpr ?_)
      exact List.mem_map_of_mem (List.mem_append_left _ hb')
  have hnd : (c.hmac secret b.voter :: (c.castVotes secret bs).map Prod.fst).Nodup := by
    refine List.nodup_cons.mpr ⟨fun hm => ?_,(castVotes_tags c secret bs).1⟩
    obtain ⟨entry,he,ht⟩ := List.mem_map.mp hm
    exact lookup_none.mp hb entry he ht
  have hle := (List.subperm_of_subset hnd hsub).length_le
  simp only [List.length_cons,List.length_map] at hle hcap
  omega

end Votes

/-- A vote changes the votes of a poll as it would without the cap, and otherwise only the time. -/
theorem withVote_castVote {c : PollCrypto} {poll : StoredPoll} {b : Ballot} {nowMs : Int}
    (hcap : lookup Prod.fst (c.hmac poll.secret b.voter) poll.votes = none → poll.votes.length < maxVotersPerPoll) :
    (poll.withVote (c.hmac poll.secret b.voter) b.selected b.atMs nowMs = none ∧
        c.castVote poll.secret poll.votes b = poll.votes) ∨
      poll.withVote (c.hmac poll.secret b.voter) b.selected b.atMs nowMs =
        some { poll with votes := c.castVote poll.secret poll.votes b, updatedAtMs := nowMs } := by
  unfold StoredPoll.withVote PollCrypto.castVote
  dsimp only
  split
  · exact .inl ⟨rfl,rfl⟩
  · rw [if_neg fun h => ?_]
    · exact .inr rfl
    · have hlt := hcap (Option.isNone_iff_eq_none.mp h.1)
      omega

namespace PollStore
variable {poll : StoredPoll} {nowMs : Int} {s : PollStore} {c : PollCrypto} {vote : PollVoteInput}

theorem find_persist {polls : List StoredPoll} (h : Table.Unique StoredPoll.key polls) (hl : polls.length ≤ maxPolls)
    (hp : lookup StoredPoll.key poll.key polls = some poll)
    (hn : nowMs < poll.expiresAtMs) : (persist nowMs polls h).find poll.chatJid poll.pollId = some poll := by
  have hmem : poll ∈ newest (polls.filter fun poll => nowMs < poll.expiresAtMs) := by
    rw [newest,List.take_of_length_le]
    · rw [List.mem_insertionSort,List.mem_filter]
      exact ⟨(lookup_some hp).1,decide_eq_true hn⟩
    · rw [List.length_insertionSort]
      exact (List.length_filter_le _ _).trans hl
  exact (persist nowMs polls h).keys.lookup_of_mem hmem

theorem find_delete (hp : s.find poll.chatJid poll.pollId = some poll)
    (hn : nowMs < poll.expiresAtMs) {chatJid pollId : String} (hk : (chatJid, pollId) ≠ poll.key) :
    (s.delete chatJid pollId nowMs).find poll.chatJid poll.pollId = some poll := by
  refine find_persist _ (length_remove_le.trans s.length_le) ?_ hn
  rw [lookup_remove,if_neg (Ne.symm hk)]
  exact hp

theorem find_save {s : PollStore} {saved poll : StoredPoll} {nowMs : Int}
    (hs : (lookup StoredPoll.key saved.key s.polls).isSome)
    (hp : (if saved.key = poll.key then some saved else s.find poll.chatJid poll.pollId) = some poll)
    (hn : nowMs < poll.expiresAtMs) : (s.save saved nowMs).find poll.chatJid poll.pollId = some poll := by
  refine find_persist _ ?_ ?_ hn
  · rw [length_upsert,if_pos hs]
    exact s.length_le
  · rw [lookup_upsert]
    exact hp

theorem recordVote_of_live (hp : s.find vote.chatJid vote.pollId = some poll) (hn : nowMs < poll.expiresAtMs) :
    (s.recordVote c vote nowMs).2 =
      (((c.decode poll.pollId poll.secret vote).bind fun v =>
        poll.withVote (c.hmac poll.secret v.1) v.2 vote.senderTimestampMs nowMs).map (s.save · nowMs)).getD s := by
  unfold recordVote live
  rw [hp]
  dsimp only
  rw [if_neg hn.not_ge]
  dsimp only
  cases c.decode poll.pollId poll.secret vote with
  | none => rfl
  | some v =>
    dsimp only [Option.bind_some]
    cases poll.withVote (c.hmac poll.secret v.1) v.2 vote.senderTimestampMs nowMs <;> rfl

theorem withVote_key {saved : StoredPoll} {tag : String} {selected : List String} {atMs : Int}
    (h : poll.withVote tag selected atMs nowMs = some saved) : saved.key = poll.key := by
  unfold StoredPoll.withVote at h
  dsimp only at h
  split at h
  · cases h
  · split at h <;> cases h
    rfl

theorem recordVote_find_other (hp : s.find poll.chatJid poll.pollId = some poll) (hn : nowMs < poll.expiresAtMs)
    (hk : (vote.chatJid, vote.pollId) ≠ poll.key) :
    (s.recordVote c vote nowMs).2.find poll.chatJid poll.pollId = some poll := by
  cases hf : s.find vote.chatJid vote.pollId with
  | none =>
    unfold recordVote live
    rw [hf]
    exact hp
  | some other =>
    by_cases he : other.expiresAtMs ≤ nowMs
    · unfold recordVote live
      rw [hf]
      dsimp only
      rw [if_pos he]
      exact find_delete hp hn hk
    · rw [recordVote_of_live hf (not_le.mp he)]
      cases hw : (c.decode other.pollId other.secret vote).bind fun v =>
          other.withVote (c.hmac other.secret v.1) v.2 vote.senderTimestampMs nowMs with
      | none => exact hp
      | some saved =>
        obtain ⟨v,_,hw⟩ := Option.bind_eq_some_iff.mp hw
        have hsk : saved.key = (vote.chatJid, vote.pollId) := (withVote_key hw).trans (lookup_some hf).2
        refine find_save ?_ ?_ hn
        · rw [hsk]
          exact Option.isSome_of_eq_some hf
        · rw [if_neg fun h => hk (hsk.symm.trans h)]
          exact hp

theorem recordVote_find {c : PollCrypto} {s : PollStore} {poll : StoredPoll} {bs : List Ballot}
    (hp : s.find poll.chatJid poll.pollId = some poll) (hv : poll.votes = c.castVotes poll.secret bs)
    {d : PollVoteInput × Int} (hn : d.2 < poll.expiresAtMs)
    (hcap : ((bs ++ c.ballots poll [d]).map Ballot.voter).dedup.length ≤ maxVotersPerPoll) :
    ∃ updatedAtMs, (s.recordVote c d.1 d.2).2.find poll.chatJid poll.pollId =
      some { poll with votes := c.castVotes poll.secret (bs ++ c.ballots poll [d]), updatedAtMs := updatedAtMs } := by
  obtain ⟨vote,nowMs⟩ := d
  unfold PollCrypto.ballots at hcap ⊢
  rw [List.filterMap_cons,List.filterMap_nil] at hcap ⊢
  by_cases hk : (vote.chatJid, vote.pollId) = poll.key
  · obtain ⟨hc,hi⟩ := Prod.mk.inj hk
    rw [if_pos hk] at hcap ⊢
    rw [recordVote_of_live (by rwa [hc,hi]) hn]
    cases hd : c.decode poll.pollId poll.secret vote with
    | none =>
      refine ⟨poll.updatedAtMs,hp.trans ?_⟩
      simp only [Option.map_none,List.append_nil,← hv]
    | some v =>
      rw [hd] at hcap
      dsimp only [Option.map_some,Option.bind_some] at hcap ⊢
      rw [castVotes_concat,← hv]
      have hw := @withVote_castVote c poll ⟨v.1,v.2,vote.senderTimestampMs⟩ nowMs fun h => by
          rw [hv] at h ⊢
          exact castVotes_length_lt h hcap
      rcases hw with ⟨hw,hu⟩ | hw <;> rw [hw]
      · rw [hu]
        exact ⟨poll.updatedAtMs,hp⟩
      · refine ⟨nowMs,@find_save _ _ { poll with
          votes := c.castVote poll.secret poll.votes ⟨v.1,v.2,vote.senderTimestampMs⟩
          updatedAtMs := nowMs } _ ?_ (if_pos rfl) hn⟩
        exact Option.isSome_of_eq_some hp
  · refine ⟨poll.updatedAtMs,(recordVote_find_other hp hn hk).trans ?_⟩
    rw [if_neg hk,List.append_nil,← hv]

/-- After any deliveries a live poll holds the votes that its ballots leave. -/
theorem deliver_find
    (hp : s.find poll.chatJid poll.pollId = some poll) (hv : poll.votes = []) (ds : List (PollVoteInput × Int))
    (hn : ∀ d ∈ ds, d.2 < poll.expiresAtMs)
    (hcap : ((c.ballots poll ds).map Ballot.voter).dedup.length ≤ maxVotersPerPoll) :
    ∃ updatedAtMs, (s.deliver c ds).find poll.chatJid poll.pollId =
      some { poll with votes := c.castVotes poll.secret (c.ballots poll ds), updatedAtMs := updatedAtMs } := by
  induction ds using List.reverseRecOn with
  | nil =>
    refine ⟨poll.updatedAtMs,hp.trans ?_⟩
    rw [show c.castVotes poll.secret (c.ballots poll []) = poll.votes from hv.symm]
  | append_singleton ds d ih =>
    have hb : c.ballots poll (ds ++ [d]) = c.ballots poll ds ++ c.ballots poll [d] := List.filterMap_append
    rw [hb] at hcap ⊢
    obtain ⟨updatedAtMs,hf⟩ := ih (fun d hd => hn d (List.mem_append_left _ hd)) (by
      refine le_trans ?_ hcap
      refine (List.subperm_of_subset (List.nodup_dedup _) ?_).length_le
      intro voter hm
      rw [List.mem_dedup,List.map_append,List.mem_append]
      exact .inl (List.mem_dedup.mp hm))
    rw [deliver,run_append]
    exact @recordVote_find c _ { poll with
      votes := c.castVotes poll.secret (c.ballots poll ds)
      updatedAtMs := updatedAtMs } _ hf rfl d (hn d (by simp)) hcap

end PollStore

section Counts
variable (hashes : List String) {counts : List Nat} {choice : String} {index : Nat}

theorem countChoice_getElem? :
    (countChoice hashes counts choice)[index]? =
      counts[index]?.map (· + if hashes.findIdx? (· = choice) = some index then 1 else 0) := by
  unfold countChoice
  cases hf : hashes.findIdx? (· = choice) with
  | none => simp
  | some first =>
    by_cases hi : first = index <;> simp [hi]

theorem foldl_countChoice_getElem? {choices : List String} :
    (choices.foldl (countChoice hashes) counts)[index]? =
      counts[index]?.map (· + choices.countP fun choice => hashes.findIdx? (· = choice) = some index) := by
  induction choices generalizing counts with
  | nil => simp
  | cons choice choices ih =>
    rw [List.foldl_cons,ih,countChoice_getElem?,Option.map_map,List.countP_cons]
    refine congrArg (Option.map · counts[index]?) (funext fun n => ?_)
    simp only [Function.comp_apply,decide_eq_true_eq]
    omega

theorem findIdx?_choice_inj {choice' : String}
    (h : hashes.findIdx? (· = choice) = some index) (h' : hashes.findIdx? (· = choice') = some index) :
    choice = choice' := by
  obtain ⟨_,hc,_⟩ := List.findIdx?_eq_some_iff_getElem.mp h
  obtain ⟨_,hc',_⟩ := List.findIdx?_eq_some_iff_getElem.mp h'
  simp only [decide_eq_true_eq] at hc hc'
  exact hc.symm.trans hc'

theorem countP_dedup_choices {selected : List String} :
    selected.dedup.countP (fun choice => hashes.findIdx? (· = choice) = some index) =
      if selected.any fun choice => hashes.findIdx? (· = choice) = some index then 1 else 0 := by
  split_ifs with h
  · obtain ⟨choice,hm,hc⟩ := List.any_eq_true.mp h
    rw [decide_eq_true_eq] at hc
    have heq : ∀ other ∈ selected.dedup,
        (decide (hashes.findIdx? (· = other) = some index)) = (other == choice) := by
      intro other _
      by_cases he : other = choice
      · simp [he,hc]
      · rw [decide_eq_false fun ho => he (findIdx?_choice_inj hashes ho hc)]
        simp [he]
    rw [List.countP_congr fun other ho => by rw [heq other ho]]
    exact List.count_eq_one_of_mem (List.nodup_dedup _) (List.mem_dedup.mpr hm)
  · rw [List.countP_eq_zero]
    intro choice hm hc
    exact h (List.any_eq_true.mpr ⟨choice,List.mem_dedup.mp hm,hc⟩)

theorem countVotes_getElem? (votes : List (List String)) (index : Nat) :
    (countVotes hashes votes)[index]? = hashes[index]?.map fun _ =>
      votes.countP fun selected => selected.any fun choice => hashes.findIdx? (· = choice) = some index := by
  unfold countVotes
  generalize hc : (hashes.map fun _ => 0) = counts
  have hz : counts[index]? = hashes[index]?.map fun _ => 0 := by
    rw [← hc,List.getElem?_map]
  suffices h : ∀ counts : List Nat,
      (votes.foldl (fun counts selected => selected.dedup.foldl (countChoice hashes) counts) counts)[index]? =
        counts[index]?.map (· + votes.countP fun selected =>
          selected.any fun choice => hashes.findIdx? (· = choice) = some index) by
    rw [h,hz,Option.map_map]
    simp only [Function.comp_def,Nat.zero_add]
  induction votes with
  | nil => simp
  | cons selected votes ih =>
    intro counts
    rw [List.foldl_cons,ih,foldl_countChoice_getElem?,countP_dedup_choices,Option.map_map,List.countP_cons]
    refine congrArg (Option.map · counts[index]?) (funext fun n => ?_)
    simp only [Function.comp_apply]
    omega

end Counts

section Standing
variable {c : PollCrypto} {secret : String} {bs : List Ballot}

def PollCrypto.TagsDistinct (c : PollCrypto) (secret : String) (bs : List Ballot) : Prop :=
  ∀ b ∈ bs, ∀ b' ∈ bs, c.hmac secret b.voter = c.hmac secret b'.voter → b.voter = b'.voter
deriving Decidable

def PollCrypto.entry (c : PollCrypto) (secret : String) (b : Ballot) : String × StoredVote :=
  (c.hmac secret b.voter, ⟨b.selected,b.atMs⟩)
variable {b : Ballot}

theorem mem_standing : b ∈ standing bs ↔ b ∈ bs ∧ b.selected ≠ [] ∧ b.Latest bs := by
  simp [standing]

theorem exists_latest (hb : b ∈ bs) : ∃ m ∈ bs, m.voter = b.voter ∧ m.Latest bs := by
  cases hm : maxBy Ballot.atMs (bs.filter fun b' => b'.voter = b.voter) with
  | none =>
    have hb : b ∈ bs.filter fun b' => b'.voter = b.voter := by simpa using hb
    rw [maxBy_eq_none.mp hm] at hb
    cases hb
  | some m =>
    have hv := List.mem_filter.mp (mem_of_maxBy hm)
    simp only [decide_eq_true_eq] at hv
    refine ⟨m,hv.1,hv.2,fun b' hb' he => le_of_maxBy hm ?_⟩
    simpa using ⟨hb',he.trans hv.2⟩

theorem TimesDistinct.ofVoter (hd : TimesDistinct bs) {voter : String} :
    ∀ b ∈ bs.filter (fun b => b.voter = voter), ∀ b' ∈ bs.filter (fun b => b.voter = voter), b.atMs = b'.atMs →
      b = b' := by
  intro b hb b' hb' ht
  simp only [List.mem_filter,decide_eq_true_eq] at hb hb'
  exact hd b hb.1 b' hb'.1 (hb.2.trans hb'.2.symm) ht

theorem mem_castVotes (ht : c.TagsDistinct secret bs) (hb : b ∈ bs) {vote : StoredVote} :
    (c.hmac secret b.voter, vote) ∈ c.castVotes secret bs ↔
      voterEntry (bs.filter fun b' => b'.voter = b.voter) = some vote := by
  have hentry := @lookup_castVotes c secret bs b.voter fun b' hb' he => ht b' hb' b hb he
  rw [← hentry]
  constructor
  · intro hm
    rw [(castVotes_tags c secret bs).1.lookup_of_mem hm]
    rfl
  · intro hl
    obtain ⟨e,he,hv⟩ := Option.map_eq_some_iff.mp hl
    obtain ⟨hm,hk⟩ := lookup_some he
    rw [← hk,← hv]
    exact hm

theorem entry_of_standing (ht : c.TagsDistinct secret bs) (hd : TimesDistinct bs) (hb : b ∈ standing bs) :
    c.entry secret b ∈ c.castVotes secret bs := by
  obtain ⟨hm,hs,hl⟩ := mem_standing.mp hb
  refine (mem_castVotes ht hm).mpr (voterEntry_of_latest (hd.ofVoter) ?_ hs fun b' hb' => ?_)
  · simpa using hm
  · simp only [List.mem_filter,decide_eq_true_eq] at hb'
    exact hl b' hb'.1 hb'.2

theorem standing_entries_nodup (ht : c.TagsDistinct secret bs) (hd : TimesDistinct bs) :
    ((standing bs).map (c.entry secret)).Nodup := by
  refine List.Nodup.map_on (fun b hb b' hb' he => ?_) ((List.nodup_dedup bs).filter _)
  obtain ⟨hm,_,hl⟩ := mem_standing.mp hb
  obtain ⟨hm',_,hl'⟩ := mem_standing.mp hb'
  have hv := ht b hm b' hm' (congrArg Prod.fst he)
  exact hd b hm b' hm' hv (congrArg (fun e => e.2.atMs) he)

/-- Only votes that stand are kept exactly when the retractions follow the selections. -/
theorem castVotes_standing_iff (ht : c.TagsDistinct secret bs) (hd : TimesDistinct bs) :
    (∀ e ∈ c.castVotes secret bs, e ∈ (standing bs).map (c.entry secret)) ↔ RetractionsFollow bs := by
  constructor
  · rintro h before b after hb hs ⟨r,hr,hrv,hrs,hrl⟩
    have hm : b ∈ bs := by
      rw [hb]
      simp
    have hnone : voterEntry (bs.filter fun b' => b'.voter = b.voter) = none := by
      cases hv : voterEntry (bs.filter fun b' => b'.voter = b.voter) with
      | none => rfl
      | some vote =>
        obtain ⟨m,hms,he⟩ := List.mem_map.mp (h _ ((mem_castVotes ht hm).mpr hv))
        obtain ⟨hmm,hmsel,hml⟩ := mem_standing.mp hms
        have hmv : m.voter = r.voter := (ht m hmm b hm (congrArg Prod.fst he)).trans hrv.symm
        rw [hd m hmm r hr hmv (le_antisymm (hrl m hmm hmv) (hml r hr hmv.symm))] at hmsel
        exact absurd hrs hmsel
    rw [voterEntry_eq_none_iff (hd.ofVoter)] at hnone
    obtain ⟨r',hr',hrs',hlt⟩ := hnone (before.filter fun b' => b'.voter = b.voter) b
      (after.filter fun b' => b'.voter = b.voter) (by simp [hb,List.filter_append]) hs
    simp only [List.mem_filter,decide_eq_true_eq] at hr'
    exact ⟨r',hr'.1,hr'.2,hrs',hlt⟩
  · intro h e he
    obtain ⟨b,hb,hk⟩ := (castVotes_tags c secret bs).2 _ he
    obtain ⟨m,hm,hmv,hml⟩ := exists_latest hb
    have hv : voterEntry (bs.filter fun b' => b'.voter = m.voter) = some e.2 := by
      rw [hmv]
      refine (mem_castVotes ht hb).mp ?_
      rw [← hk]
      exact he
    have hms : m.selected ≠ [] := by
      intro hms
      -- A voter whose latest vote is a retraction has nothing kept.
      have hnone : voterEntry (bs.filter fun b' => b'.voter = m.voter) = none := by
        rw [voterEntry_eq_none_iff (hd.ofVoter)]
        intro before b after hsplit hs
        obtain ⟨l₁,l₂,rfl,rfl,hrest⟩ := List.filter_eq_append_iff.mp hsplit
        obtain ⟨l₃,l₄,rfl,_,hbv,rfl⟩ := List.filter_eq_cons_iff.mp hrest
        rw [decide_eq_true_eq] at hbv
        obtain ⟨r,hr,hrv,hrs,hlt⟩ := h (l₁ ++ l₃) b l₄ (by simp) hs ⟨m,hm,hbv.symm,hms,hml⟩
        refine ⟨r,?_,hrs,hlt⟩
        simpa using ⟨hr,hrv.trans hbv⟩
      rw [hnone] at hv
      cases hv
    have hstand : m ∈ standing bs := mem_standing.mpr ⟨hm,hms,hml⟩
    refine List.mem_map.mpr ⟨m,hstand,?_⟩
    have hkey : (c.entry secret m).1 = e.1 := by
      rw [hk,← hmv]
      rfl
    exact (castVotes_tags c secret bs).1.eq_of_mem (entry_of_standing ht hd hstand) he hkey

end Standing

theorem results_tallies_iff {c : PollCrypto} {poll : StoredPoll} {bs : List Ballot}
    (ht : c.TagsDistinct poll.secret bs) (hd : TimesDistinct bs) (updatedAtMs : Int) :
    ({ poll with votes := c.castVotes poll.secret bs, updatedAtMs := updatedAtMs } : StoredPoll).results.Tallies poll bs ↔
      RetractionsFollow bs := by
  rw [← castVotes_standing_iff ht hd]
  have hnd := standing_entries_nodup ht hd
  have hsub : (standing bs).map (c.entry poll.secret) ⊆ c.castVotes poll.secret bs := by
    intro e he
    obtain ⟨b,hb,rfl⟩ := List.mem_map.mp he
    exact entry_of_standing ht hd hb
  constructor
  · intro h e he
    have hlen : (c.castVotes poll.secret bs).length ≤ ((standing bs).map (c.entry poll.secret)).length := by
      rw [List.length_map]
      exact h.total.le
    exact ((List.subperm_of_subset hnd hsub).perm_of_length_le hlen).mem_iff.mpr he
  · intro h
    have hperm : (c.castVotes poll.secret bs).Perm ((standing bs).map (c.entry poll.secret)) :=
      (List.perm_ext_iff_of_nodup (List.Nodup.of_map _ (castVotes_tags c poll.secret bs).1) hnd).mpr
        fun e => ⟨h e,@hsub e⟩
    refine ⟨by simpa [StoredPoll.results] using hperm.length_eq,?_⟩
    refine List.ext_getElem? fun index => ?_
    have hcount := countVotes_getElem? (poll.options.map optionHash)
      ((c.castVotes poll.secret bs).map fun vote => vote.2.selected) index
    rw [List.countP_map,(hperm.countP_eq _),List.countP_map,List.getElem?_map] at hcount
    simp only [StoredPoll.results,List.getElem?_map,List.getElem?_zipIdx,List.zip,List.getElem?_zipWith,hcount,
      Nat.zero_add]
    cases poll.options[index]? <;> rfl

/-- In every order of delivery the results of a poll are the counts of the votes that stand,
exactly when the retractions of each voter follow the selections they retract. -/
theorem poll_tally_iff (c : PollCrypto) (s : PollStore) (poll : StoredPoll) (votes : List (PollVoteInput × Int))
    (nowMs : Int) (hp : s.find poll.chatJid poll.pollId = some poll) (hv : poll.votes = [])
    (hlive : ∀ d ∈ votes, d.2 < poll.expiresAtMs) (hnow : nowMs < poll.expiresAtMs)
    (hcap : ((c.ballots poll votes).map Ballot.voter).dedup.length ≤ maxVotersPerPoll)
    (htags : c.TagsDistinct poll.secret (c.ballots poll votes)) (htimes : TimesDistinct (c.ballots poll votes)) :
    (∃ r, ((s.deliver c votes).results poll.chatJid poll.pollId nowMs).1 = some r ∧
        r.Tallies poll (c.ballots poll votes)) ↔
      RetractionsFollow (c.ballots poll votes) := by
  obtain ⟨updatedAtMs,hf⟩ := PollStore.deliver_find hp hv votes hlive hcap
  rw [← results_tallies_iff htags htimes updatedAtMs]
  unfold PollStore.results PollStore.live
  rw [hf]
  dsimp only
  rw [if_neg hnow.not_ge]
  simp

def pollOptions : List String := ["Freitag", "Samstag"]

/-- A provider whose votes the one who sent them can read: the payload has the places of the chosen options. -/
def openCrypto : PollCrypto where
  decryptPollVote payload iv _ _ _ voterJid :=
    if iv = voterJid.toList.map Char.toNat then some ((payload.filterMap fun n => pollOptions[n]?).map optionHash) else none
  hmac key voter := key ++ voter

def sentPoll : StoredPoll where
  chatJid := "g"
  pollId := "P"
  secret := "key"
  options := pollOptions
  createdAtMs := 0
  expiresAtMs := pollReferenceTtlMs
  updatedAtMs := 0
  votes := []

def pollSent : PollStore := PollStore.empty.remember "g" "P" "key" pollOptions 0

def voteOf (voter : String) (options : List Nat) (senderTimestampMs : Int) : PollVoteInput × Int :=
  ({ chatJid := "g", pollId := "P", encPayload := options, encIv := voter.toList.map Char.toNat
     voterJids := ["ann", "bob"], creatorJids := ["me"], senderTimestampMs := senderTimestampMs }, 10)

/-- Ann's selection and its retraction, in the order they were sent, and Bob's selection between them. -/
def retracted : List (PollVoteInput × Int) := [voteOf "ann" [1] 1, voteOf "bob" [0] 1, voteOf "ann" [] 2]

theorem retracted_ballots : openCrypto.ballots sentPoll retracted =
    [⟨"ann",[optionHash "Samstag"],1⟩, ⟨"bob",[optionHash "Freitag"],1⟩, ⟨"ann",[],2⟩] := by
  decide +kernel

/-- Bob's vote stands and is counted, Ann's is not. -/
theorem retracted_tally : ∃ r, ((pollSent.deliver openCrypto retracted).results "g" "P" 20).1 = some r ∧
    r.Tallies sentPoll (openCrypto.ballots sentPoll retracted) := by
  refine (poll_tally_iff openCrypto pollSent sentPoll retracted 20 (by decide +kernel) rfl (by decide) (by decide)
    (by decide +kernel) ?_ ?_).mpr ?_ <;> rw [retracted_ballots]
  · decide +kernel
  · decide +kernel
  · intro before b after h hs hlast
    match before with
    | [] =>
      cases h
      exact ⟨_,List.mem_cons_of_mem _ List.mem_cons_self,rfl,rfl,by decide⟩
    | [_] =>
      -- Bob retracted nothing
      cases h
      obtain ⟨r,hr,hvoter,hempty,-⟩ := hlast
      simp only [List.mem_cons,List.not_mem_nil,or_false] at hr
      rcases hr with rfl | rfl | rfl
      · cases hempty
      · cases hempty
      · exact absurd hvoter (by decide)
    | [_, _] =>
      cases h
      exact absurd rfl hs
    | _ :: _ :: _ :: _ => simp at h

example : ((pollSent.deliver openCrypto retracted).results "g" "P" 20).1.map (fun r => (r.options, r.totalVotes)) =
    some ([("Freitag", 1), ("Samstag", 0)], 1) := by
  decide +kernel

/-- Delivered after its retraction, the selection counts again. -/
theorem retraction_forgotten :
    ((pollSent.deliver openCrypto retracted.reverse).results "g" "P" 20).1.map PollResults.totalVotes = some 2 ∧
      (standing (openCrypto.ballots sentPoll retracted.reverse)).map Ballot.voter = ["bob"] ∧
      TimesDistinct (openCrypto.ballots sentPoll retracted.reverse) := by
  decide +kernel

end Yeoman.Bridge
