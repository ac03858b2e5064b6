import Yeoman.Archive.Finality

/-! Whether a purge erases all that its disposition covers. The predicate is built from the parts
that the selector matches; the disposition adds the identities and correlations of every part that
the predicate matches. A part that is linked only to those is kept out from then on, but stays. -/
namespace Yeoman.Archive
open Library
open Library.Json (Members)

def Slot.parts (env : Env) (s : Slot) : List (Members × String) :=
  match s.record with
  | none => []
  | some r =>
    match segments? r with
    | none => [(r, s.text)]
    | some _ => (recordParts env r).map fun q => (q, Json.dumps (.obj q))

def Slot.goes (env : Env) (p : Predicate) (s : Slot) : Bool :=
  s.strict && s.record.any fun r => p.matchesRecord env r &&
    (recordParts env r).all fun q => p.matchesRecord env q || !(Json.get "payload" q).truthy

/-- The rewrite reaches the part: its line can be read strictly, and the line and the part match. -/
def Slot.takes (env : Env) (p : Predicate) (s : Slot) (q : Members) : Bool :=
  s.strict && s.record.any (p.matchesRecord env) && p.matchesRecord env q

namespace Root

def parts (env : Env) (a : Root) (channel : String) : List (Members × String) :=
  (a.slots channel).flatMap (Slot.parts env)

def Complete (env : Env) (a : Root) (channel : String) : Prop :=
  ∀ audit ∈ a.audits.getLast?, ∀ q ∈ a.parts env channel, audit.disposes env q.1 q.2 = false
deriving Decidable

section
variable (env : Env) (a : Root) (p : Predicate)

def sharesIdentity (q : Members) : Bool :=
  meets (recordIdentities q) p.identities ||
    (a.selectedParts env p.channel p).any fun e => meets (recordIdentities q) (recordIdentities e)

def sharesCorrelation (q : Members) : Bool :=
  meets (recordCorrelations q) p.correlations ||
    (a.selectedParts env p.channel p).any fun e => meets (recordCorrelations q) (recordCorrelations e)

/-- The part lies in the chat and time of the purge. A description or transcript made later still
belongs to the message it was made of. -/
def inScope (q : Members) : Bool :=
  p.channel = textOf (Json.get "channel" q) &&
    (match p.chatId with
      | some chat => chat = textOf (Json.get "chat_id" q)
      | none => p.selector.nativeId.isNone || textOf (Json.get "chat_id" q) = "") &&
    p.selector.beforeMs.all fun before => recordCaptureMs env q < before ||
      (isText "media_description" (Json.get "kind" q) || isText "media_transcript" (Json.get "kind" q)) &&
        a.sharesIdentity env p q

def linked (q : Members) (line : String) : Bool :=
  p.selector.nativeId.isNone || a.sharesIdentity env p q || a.sharesCorrelation env p q ||
    (a.slots p.channel).any fun s => s.record.any (p.matchesRecord env) && env.digest s.text = env.digest line

/-- Erasure is closed: of every line that does not go as a whole, the parts in scope that are linked
to an erased part are taken themselves. -/
def Closed : Prop :=
  ∀ s ∈ a.slots p.channel, s.goes env p = true ∨
    ∀ q ∈ s.parts env, a.inScope env p q.1 = true → a.linked env p q.1 q.2 = true → s.takes env p q.1 = true
deriving Decidable

end

end Root
variable {xs : List String}

theorem meets_append {ys zs : List String} : meets xs (ys ++ zs) = (meets xs ys || meets xs zs) := by
  unfold meets
  rw [Bool.eq_iff_iff]
  simp only [List.any_eq_true,Bool.or_eq_true,List.contains_iff_mem,List.mem_append,and_or_left,exists_or]

theorem meets_flatMap {rs : List Members} {f : Members → List String} :
    meets xs (rs.flatMap f) = rs.any fun r => meets xs (f r) := by
  induction rs with
  | nil => simp [meets]
  | cons r rs ih => rw [List.flatMap_cons,meets_append,ih,List.any_cons]

section
variable {env : Env} {p : Predicate} {s : Slot} {r : Members}

theorem parts_tombstone {text : String} {strict : Bool} :
    Slot.parts env ⟨text,some tombstone,strict⟩ = [(tombstone, text)] := rfl
variable {xs : List Json} {q : Members × String}

theorem mem_parts_segments (hr : s.record = some r) (hs : segments? r = some xs) :
    q ∈ s.parts env ↔ ∃ x ∈ xs, isPart x = true ∧ q = (partOf env r x, Json.dumps (.obj (partOf env r x))) := by
  unfold Slot.parts recordParts
  rw [hr]
  dsimp only
  rw [hs]
  simp only [List.mem_map,List.mem_filter]
  constructor
  · rintro ⟨-,⟨x,hx,rfl⟩,rfl⟩
    exact ⟨x,hx.1,hx.2,rfl⟩
  · rintro ⟨x,hx,hp,rfl⟩
    exact ⟨_,⟨x,⟨hx,hp⟩,rfl⟩,rfl⟩

theorem payload_partOf {x : Json} : Json.get "payload" (partOf env r x) = x := rfl

theorem goes_segments (hr : s.record = some r) (hs : segments? r = some xs) (ht : s.strict = true)
    (hm : p.matchesRecord env r = true) : s.goes env p = !survives (p.keptSegments env r xs) := by
  unfold Slot.goes survives Predicate.keptSegments recordParts
  rw [ht,hr,Option.any_some,hm,hs,Bool.true_and,Bool.true_and,List.all_map,List.any_map,List.all_filter,
    List.not_any_eq_all_not]
  refine List.all_congr rfl fun x => ?_
  simp only [Function.comp_apply,payload_partOf]
  cases hp : isPart x with
  | false => simp [hp]
  | true =>
    cases hx : p.matchesRecord env (partOf env r x) with
    | true => simp [isPart_tombstone]
    | false => simp [hp]

theorem mem_parts_rewriteSlot (hq : textOf (Json.get "channel" q.1) ≠ "") :
    q ∈ (rewriteSlot env p s).parts env ↔ q ∈ s.parts env ∧ s.goes env p = false ∧ s.takes env p q.1 = false := by
  have hne : ∀ text : String, q ≠ (tombstone, text) := by
    rintro text rfl
    exact hq rfl
  cases hr : s.record with
  | none =>
    have hnone : s.parts env = [] := by rw [Slot.parts,hr]
    have hsame : rewriteSlot env p s = s := by rw [rewriteSlot,hr]
    rw [hsame,hnone]
    simp
  | some r =>
    cases hm : s.strict && p.matchesRecord env r with
    | false =>
      have hsame : rewriteSlot env p s = s := by
        rw [rewriteSlot,hr]
        exact if_neg (by rw [hm]; exact Bool.false_ne_true)
      have hgoes : s.goes env p = false := by
        rw [Slot.goes,hr,Option.any_some,← Bool.and_assoc,hm,Bool.false_and]
      have htakes : s.takes env p q.1 = false := by rw [Slot.takes,hr,Option.any_some,hm,Bool.false_and]
      rw [hsame,hgoes,htakes]
      simp
    | true =>
      rw [Bool.and_eq_true] at hm
      obtain ⟨ht,hmr⟩ := hm
      have hnew : rewriteSlot env p s = ⟨Json.dumps (.obj (replacement env p r)),some (replacement env p r),true⟩ := by
        rw [rewriteSlot,hr]
        exact if_pos (by rw [ht,hmr]; rfl)
      have htakes : s.takes env p q.1 = p.matchesRecord env q.1 := by
        rw [Slot.takes,hr,Option.any_some,ht,hmr,Bool.true_and,Bool.true_and]
      rw [hnew,htakes]
      cases hs : segments? r with
      | none =>
        have hgoes : s.goes env p = true := by
          unfold Slot.goes recordParts
          rw [ht,hr,Option.any_some,hmr,hs]
          simp [hmr]
        have hgone : replacement env p r = tombstone := by rw [replacement,hs]
        rw [hgone,parts_tombstone,hgoes,List.mem_singleton]
        exact ⟨fun h => absurd h (hne _),fun h => absurd h.2.1 (by decide)⟩
      | some xs =>
        have hgoes := goes_segments hr hs ht hmr
        have hrep : replacement env p r = replaceSegments env r (p.keptSegments env r xs) := by rw [replacement,hs]
        cases hk : survives (p.keptSegments env r xs) with
        | false =>
          have hgone : replacement env p r = tombstone := by
            rw [hrep]
            exact if_neg (by rw [hk]; exact Bool.false_ne_true)
          rw [hgone,parts_tombstone,hgoes,hk,List.mem_singleton]
          exact ⟨fun h => absurd h (hne _),fun h => absurd h.2.1 (by decide)⟩
        | true =>
          rw [mem_parts_segments (s := ⟨_,some (replacement env p r),true⟩) rfl
            (by rw [hrep]; exact segments?_replaceSegments env r hk),mem_parts_segments hr hs,hgoes,hk,hrep]
          simp only [partOf_replaceSegments env r hk]
          constructor
          · rintro ⟨x,hx,hp,rfl⟩
            obtain ⟨hxs,hmx⟩ := mem_keptSegments hx hp
            exact ⟨⟨x,hxs,hp,rfl⟩,rfl,hmx⟩
          · rintro ⟨⟨x,hx,hp,rfl⟩,-,hmx⟩
            refine ⟨x,List.mem_map.mpr ⟨x,hx,if_neg ?_⟩,hp,rfl⟩
            rw [hp,Bool.true_and]
            exact (by rw [hmx]; exact Bool.false_ne_true)

end

theorem safeChannel_ne_empty {text channel : String} (h : safeChannel text = .ok channel) : channel ≠ "" := by
  unfold safeChannel at h
  dsimp only at h
  split at h
  · cases h
  next hne =>
    intro he
    exact hne (String.ofList_eq_empty_iff.mp ((Except.ok.inj h).trans he))

namespace Root
variable {env : Env} {a b : Root} {sel : PurgeSelector} {now : Int} {p : Predicate}

theorem disposes_auditOf {q : Members} {line : String} :
    (a.auditOf env p.channel p).disposes env q line = (a.inScope env p q && a.linked env p q line) := by
  have hid : meets (recordIdentities q) (a.auditOf env p.channel p).disposition.messageIdentities =
      a.sharesIdentity env p q := by
    unfold auditOf sharesIdentity
    rw [meets_append,meets_flatMap]
  have hcorr : meets (recordCorrelations q) (a.auditOf env p.channel p).disposition.correlationIds =
      a.sharesCorrelation env p q := by
    unfold auditOf sharesCorrelation
    rw [meets_append,meets_flatMap]
  have hhash : (a.auditOf env p.channel p).removedSha256.contains (env.digest line) =
      (a.slots p.channel).any fun s => s.record.any (p.matchesRecord env) && env.digest s.text = env.digest line := by
    rw [auditOf,Bool.eq_iff_iff]
    simp only [List.contains_iff_mem,List.mem_map,List.mem_filter,List.any_eq_true,Bool.and_eq_true,
      decide_eq_true_eq,and_assoc]
  have hscope : (a.auditOf env p.channel p).disposition.covers env q = a.inScope env p q := by
    unfold Disposition.covers derivedFromDisposed inScope
    rw [hid]
    cases hn : p.selector.nativeId <;> cases hc : p.chatId <;> cases hb : p.selector.beforeMs <;>
      simp [auditOf,hn,hc,hb]
  have hchat : decide ((a.auditOf env p.channel p).disposition.scope = .chat) = p.selector.nativeId.isNone := by
    cases hn : p.selector.nativeId <;> simp [auditOf,hn]
  unfold Audit.disposes linked
  rw [hscope,hid,hcorr,hhash,hchat]
  cases a.inScope env p q
  · rfl
  · simp only [Bool.true_and,Bool.or_assoc,Bool.or_comm,Bool.or_left_comm]

/-- A purge leaves no part that its own disposition covers exactly when erasure is closed in the
archive it finds, under the predicate that is built there for the selector. -/
theorem purge_complete_iff (env : Env) (a b : Root) (sel : PurgeSelector) (now : Int) (channel : String) (p q : Predicate)
    (hchannel : safeChannel sel.channel = .ok channel) (hp : a.buildPredicate env channel (effective sel now) = .ok p)
    (h : a.purge env sel now = .ok (q, b)) : b.Complete env channel ↔ a.Closed env p := by
  obtain ⟨channel',hc,-,hbuild,rfl⟩ := purge_ok h
  obtain rfl := Except.ok.inj (hchannel.symm.trans hc)
  obtain rfl := Except.ok.inj (hp.symm.trans hbuild)
  obtain rfl := (buildPredicate_built hbuild).ofChannel
  have hscope : ∀ q, a.inScope env p q = true → textOf (Json.get "channel" q) ≠ "" := by
    intro q hq
    rw [inScope,Bool.and_eq_true,Bool.and_eq_true,decide_eq_true_eq] at hq
    rw [← hq.1.1]
    exact safeChannel_ne_empty hc
  constructor
  · intro hcomplete s hs
    cases hg : s.goes env p with
    | true => exact .inl rfl
    | false =>
      refine .inr fun q hq hin hlink => ?_
      by_contra htakes
      have hleft := (mem_parts_rewriteSlot (hscope q.1 hin)).mpr ⟨hq,hg,Bool.eq_false_iff.mpr htakes⟩
      have hdis := hcomplete _ (by rw [List.getLast?_append,List.getLast?_singleton]; rfl) q
        (List.mem_flatMap.mpr ⟨_,by rw [slots_rewrite]; exact List.mem_map_of_mem hs,hleft⟩)
      rw [disposes_auditOf,hin,hlink] at hdis
      cases hdis
  · intro hclosed audit haudit q hq
    rw [List.getLast?_append,List.getLast?_singleton] at haudit
    cases haudit
    by_contra hdis
    rw [disposes_auditOf,Bool.not_eq_false,Bool.and_eq_true] at hdis
    obtain ⟨hin,hlink⟩ := hdis
    obtain ⟨s',hs',hq⟩ := List.mem_flatMap.mp hq
    rw [slots_rewrite] at hs'
    obtain ⟨s,hs,rfl⟩ := List.mem_map.mp hs'
    obtain ⟨hq,hgoes,htakes⟩ := (mem_parts_rewriteSlot (hscope q.1 hin)).mp hq
    rcases hclosed s hs with hg | hall
    · rw [hgoes] at hg
      cases hg
    · rw [hall q hq hin hlink] at htakes
      cases htakes

def request (chat correlation : String) : Members :=
  [("channel", .str "whatsapp"), ("chat_id", .str chat), ("correlation_id", .str correlation), ("received_ms", .int 1)]

def result (chat correlation id : String) : Members :=
  [("channel", .str "whatsapp"), ("chat_id", .str chat), ("native_id", .str id),
    ("correlation_id", .str correlation), ("received_ms", .int 2)]

/-- The purge of a message that was sent by one request erases both. -/
theorem sent_message_purged_whole :
    let a := History.archived [request "c" "k", result "c" "k" "m", History.message "c" "n" 3]
    let sel : PurgeSelector := ⟨"whatsapp",some "c",some "m",none⟩
    ∃ p b, a.purge History.plainEnv sel 9 = .ok (p, b) ∧ a.Closed History.plainEnv p ∧
      b.Complete History.plainEnv "whatsapp" := by
  refine ⟨_,_,rfl,by decide +kernel,?_⟩
  exact (purge_complete_iff History.plainEnv (History.archived [request "c" "k", result "c" "k" "m", History.message "c" "n" 3])
    _ ⟨"whatsapp",some "c",some "m",none⟩ 9 "whatsapp" _ _ (by decide +kernel) rfl rfl).mpr (by decide +kernel)

/-- One request was sent as two messages, and the second is also archived as the channel echoed it.
Purging the first message erases the request and both results, declares both messages erased, and
leaves the echo of the second. -/
theorem echo_of_erased_message_stays :
    let a := History.archived [request "c" "k", result "c" "k" "m", result "c" "k" "n", History.message "c" "n" 3]
    let sel : PurgeSelector := ⟨"whatsapp",some "c",some "m",none⟩
    sel.valid = true ∧ ∃ p b, a.purge History.plainEnv sel 9 = .ok (p, b) ∧ ¬ b.Complete History.plainEnv p.channel := by
  refine ⟨by decide +kernel,_,_,rfl,?_⟩
  decide +kernel

end Root

end Yeoman.Archive
