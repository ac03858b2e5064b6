import Yeoman.Archive.PurgeSteps

/-! A purge keeps every slot, erases the matching segments and nothing else, finds nothing more
when it is repeated, and what it erased is kept out from then on. A selector whose chat is the empty
text escapes the check that a message belongs to one chat, and none of this holds for it. -/
namespace Yeoman.Archive
open Library Runs
open Library.Json (Members)

namespace Root
variable {env : Env} {a : Root} {channel : String} {sel : PurgeSelector} {p : Predicate}

theorem slots_rewrite {files : List ArchiveFile} {audits : List Audit} :
    slots ⟨files.map (rewriteFile env channel p),audits⟩ channel =
      (slots ⟨files,audits⟩ channel).map (rewriteSlot env p) := by
  unfold slots
  induction files with
  | nil => rfl
  | cons f files ih =>
    have hd : inChannel channel (rewriteFile env channel p f) = inChannel channel f := by
      unfold rewriteFile
      split_ifs <;> rfl
    simp only [List.map_cons,List.filter_cons,hd]
    cases hf : inChannel channel f with
    | false => simpa using ih
    | true =>
      have hl : (rewriteFile env channel p f).lines = f.lines.map (rewriteSlot env p) := by
        rw [rewriteFile,if_pos hf]
      simp only [if_true,List.flatMap_cons,List.map_append,hl]
      rw [← ih]

structure Built (env : Env) (a : Root) (channel : String) (sel : PurgeSelector) (p : Predicate) : Prop where
  ofSelector : p.selector = sel
  ofChannel : p.channel = channel
  chatId : p.chatId = (given sel.chatId).orElse fun _ =>
    if a.chats env channel sel = [] then none else some (env.pick (a.chats env channel sel))
  identities : p.identities = (given sel.nativeId).toList ++ (a.matched env channel sel).flatMap recordIdentities
  correlations : p.correlations = (a.matched env channel sel).flatMap recordCorrelations
  refs : p.erasedSourceRefs =
    (a.files.filter (inChannel channel)).flatMap (fileRefs env { p with erasedSourceRefs := [] })
  resolved : sel.nativeId.isSome = true → sel.chatId = none → ∃ chat, a.chats env channel sel = [chat]

theorem buildPredicate_built (h : a.buildPredicate env channel sel = .ok p) : Built env a channel sel p := by
  unfold buildPredicate at h
  dsimp only at h
  split at h
  · cases h
  split at h
  · cases h
  rename_i h2
  cases h
  refine ⟨rfl,rfl,rfl,rfl,rfl,rfl,fun hn hc => ?_⟩
  simp only [hn,hc,Option.isNone_none,Bool.true_and,Bool.or_eq_true,decide_eq_true_eq,not_or,not_not] at h2
  exact List.length_eq_one_iff.mp h2.1

def Named (sel : PurgeSelector) : Prop := sel.chatId ≠ some ""
deriving Decidable

theorem given_eq_none {s : Option String} (h : given s = none) (hs : s ≠ some "") : s = none := by
  cases s with
  | none => rfl
  | some t =>
    have ht : t ≠ "" := fun ht => hs (ht ▸ rfl)
    rw [given,Option.filter_some,if_pos (by simpa using ht)] at h
    cases h

theorem Built.chat (h : Built env a channel sel p) (hn : Named sel)
    (hv : (given sel.chatId).isSome = true ∨ (given sel.nativeId).isSome = true) :
    ∃ chat, p.chatId = some chat ∧ (given sel.chatId = some chat ∨ sel.chatId = none ∧ a.chats env channel sel = [chat]) := by
  cases hc : given sel.chatId with
  | some chat => exact ⟨chat,by rw [h.chatId,hc]; rfl,.inl rfl⟩
  | none =>
    have hnone := given_eq_none hc hn
    have hnative : sel.nativeId.isSome = true := by
      rcases hv with hv | hv
      · rw [hc] at hv
        cases hv
      · cases hs : sel.nativeId with
        | none => rw [hs] at hv; cases hv
        | some id => rfl
    obtain ⟨chat,hchat⟩ := h.resolved hnative hnone
    refine ⟨chat,?_,.inr ⟨hnone,hchat⟩⟩
    have hpick := env.pick_mem (a.chats env channel sel) (by rw [hchat]; exact List.cons_ne_nil _ _)
    rw [hchat,List.mem_singleton] at hpick
    rw [h.chatId,hc,hchat]
    simp [hpick]

def Strict (a : Root) (channel : String) : Prop := ∀ s ∈ a.slots channel, s.record.isSome = true → s.strict = true
deriving Decidable

theorem mem_matched_rewrite (hstrict : a.Strict channel) {audits : List Audit} {q : Members}
    (hq : q ∈ matched env ⟨a.files.map (rewriteFile env channel p),audits⟩ channel sel) :
    q ∈ a.matched env channel sel := by
  unfold matched records at hq ⊢
  rw [slots_rewrite] at hq
  simp only [List.mem_filter,List.mem_flatMap,List.mem_filterMap,List.mem_map] at hq ⊢
  obtain ⟨⟨r',⟨s',⟨s,hs,rfl⟩,hr'⟩,hpart⟩,hm⟩ := hq
  refine ⟨?_,hm⟩
  rcases rewriteSlot_record (hstrict s hs) hr' with ⟨hr,-⟩ | ⟨r,hr,rfl⟩
  · exact ⟨r',⟨s,hs,hr⟩,hpart⟩
  · rcases mem_recordParts_replacement hpart with ht | ⟨hpart,-⟩
    · unfold PurgeSelector.matchesRecord PurgeSelector.selects at hm
      simp [ht] at hm
    · exact ⟨r,⟨s,hs,hr⟩,hpart⟩
variable {q : Predicate} {audits : List Audit} {chat : String} {xs : List Json} {x : Json}

theorem Built.within (h : Built env a channel sel p) (hn : Named sel)
    (hv : (given sel.chatId).isSome = true ∨ (given sel.nativeId).isSome = true) (hstrict : a.Strict channel)
    (h' : Built env ⟨a.files.map (rewriteFile env channel p),audits⟩ channel sel q) : q.Within p := by
  refine ⟨h'.ofSelector.trans h.ofSelector.symm,h'.ofChannel.trans h.ofChannel.symm,?_,fun x hx => ?_,fun x hx => ?_⟩
  · obtain ⟨chat,hp,hsrc⟩ := h.chat hn hv
    obtain ⟨chat',hq,hsrc'⟩ := h'.chat hn hv
    rw [hp,hq]
    rcases hsrc with hg | ⟨hnone,hone⟩
    · rcases hsrc' with hg' | ⟨hnone',-⟩
      · rw [hg] at hg'
        exact hg'.symm
      · rw [hnone'] at hg
        cases hg
    · rcases hsrc' with hg' | ⟨-,hone'⟩
      · rw [hnone] at hg'
        cases hg'
      · -- The chat found now comes from a part that was matched before.
        have hmem : chat' ∈ chats env ⟨a.files.map (rewriteFile env channel p),audits⟩ channel sel := by
          rw [hone']
          exact List.mem_singleton_self _
        unfold chats at hmem hone
        rw [List.mem_eraseDups,List.mem_map] at hmem
        obtain ⟨r,hr,rfl⟩ := hmem
        have hold : textOf (Json.get "chat_id" r) ∈
            ((a.matched env channel sel).map fun r => textOf (Json.get "chat_id" r)).eraseDups := by
          rw [List.mem_eraseDups]
          exact List.mem_map.mpr ⟨r,mem_matched_rewrite hstrict hr,rfl⟩
        rw [hone,List.mem_singleton] at hold
        rw [hold]
  · rw [h'.identities,List.mem_append] at hx
    rw [h.identities,List.mem_append]
    refine hx.imp id fun hx => ?_
    obtain ⟨r,hr,hx⟩ := List.mem_flatMap.mp hx
    exact List.mem_flatMap.mpr ⟨r,mem_matched_rewrite hstrict hr,hx⟩
  · rw [h'.correlations] at hx
    rw [h.correlations]
    obtain ⟨r,hr,hx⟩ := List.mem_flatMap.mp hx
    exact List.mem_flatMap.mpr ⟨r,mem_matched_rewrite hstrict hr,hx⟩

theorem rewriteFile_within (hw : q.Within p) (hstrict : a.Strict channel)
    (h' : Built env ⟨a.files.map (rewriteFile env channel p),audits⟩ channel sel q) :
    (a.files.map (rewriteFile env channel p)).map (rewriteFile env channel q) = a.files.map (rewriteFile env channel p) := by
  have hslot : ∀ s' ∈ slots ⟨a.files.map (rewriteFile env channel p),audits⟩ channel, ∀ r', s'.record = some r' →
      isContactId r' = false → Predicate.matchesRecord env q r' = false := by
    intro s' hs' r' hr' hc
    rw [slots_rewrite] at hs'
    obtain ⟨s,hs,rfl⟩ := List.mem_map.mp hs'
    exact hw.not_matchesRecord_rewrite (hstrict s hs) hr' hc
  -- No record matches but contact ids, so there is no ref for these to follow.
  have hrefs : q.erasedSourceRefs = [] := by
    rw [h'.refs,List.flatMap_eq_nil_iff]
    intro f hf
    rw [fileRefs,List.flatMap_eq_nil_iff]
    rintro ⟨s',i⟩ hs'
    have hmem : s' ∈ slots ⟨a.files.map (rewriteFile env channel p),audits⟩ channel :=
      List.mem_flatMap.mpr ⟨f,hf,(List.mem_zipIdx' hs').2 ▸ List.getElem_mem _⟩
    cases hr : s'.record with
    | none => rfl
    | some r' =>
      cases hc : isContactId r' with
      | true => simp [erasedRefs,hc]
      | false =>
        have hm : Predicate.matchesRecord env { q with erasedSourceRefs := [] } r' = false := by
          have hno := hslot s' hmem r' hr hc
          unfold Predicate.matchesRecord at hno ⊢
          rw [hc,if_neg Bool.false_ne_true] at hno ⊢
          exact hno
        simp [erasedRefs,hm]
  have hnone : ∀ s' ∈ slots ⟨a.files.map (rewriteFile env channel p),audits⟩ channel, rewriteSlot env q s' = s' := by
    intro s' hs'
    rcases rewriteSlot_cases with ⟨he,-⟩ | ⟨r',hr',hm,-⟩
    · exact he
    · cases hc : isContactId r' with
      | false =>
        rw [hslot s' hs' r' hr' hc] at hm
        cases hm
      | true =>
        unfold Predicate.matchesRecord at hm
        split_ifs at hm with ht
        rw [hrefs] at hm
        simp [meets] at hm
  refine (List.map_congr_left fun f hf => ?_).trans (List.map_id _)
  unfold rewriteFile
  split_ifs with hin
  · have hlines : f.lines.map (rewriteSlot env q) = f.lines :=
      (List.map_congr_left fun s' hs' =>
        hnone s' (List.mem_flatMap.mpr ⟨f,List.mem_filter.mpr ⟨hf,hin⟩,hs'⟩)).trans (List.map_id _)
    rw [hlines]
    rfl
  · rfl

variable {r : Members}

/-- The disposition of a purge covers what its predicate matches, whatever line it comes in. -/
theorem disposes_of_matchesPlain (h : Built env a channel sel p) (hchat : p.chatId = some chat)
    (hm : p.matchesPlain env r = true) (line : String) : (a.auditOf env channel p).disposes env r line = true := by
  rw [Predicate.matchesPlain,Predicate.inChat,hchat,h.ofChannel] at hm
  simp only [Bool.and_eq_true,Option.all_some,decide_eq_true_eq] at hm
  obtain ⟨⟨⟨hch,hc⟩,hbefore⟩,hnative⟩ := hm
  have hids : ∀ x ∈ p.identities, x ∈ (a.auditOf env channel p).disposition.messageIdentities := fun x hx =>
    List.mem_append_left _ hx
  have hcors : ∀ x ∈ p.correlations, x ∈ (a.auditOf env channel p).disposition.correlationIds := fun x hx =>
    List.mem_append_left _ hx
  have htext : channel = textOf (Json.get "channel" r) := by
    cases hv : Json.get "channel" r with
    | str t =>
      rw [hv] at hch
      have ht : t = channel := by simpa [isText] using hch
      subst ht
      by_cases he : t = "" <;> simp [textOf,Json.truthy,Json.toStr,he]
    | _ => rw [hv] at hch; cases hch
  have hcovers : (a.auditOf env channel p).disposition.covers env r = true := by
    unfold Disposition.covers
    simp only [Bool.and_eq_true,decide_eq_true_eq]
    refine ⟨⟨htext,?_⟩,?_⟩
    · rw [show (a.auditOf env channel p).disposition.chatId = some chat from hchat]
      exact decide_eq_true hc.symm
    · rw [show (a.auditOf env channel p).disposition.beforeMs = p.selector.beforeMs from rfl]
      cases hb : p.selector.beforeMs with
      | none => rfl
      | some before =>
        rw [hb] at hbefore
        simp only [Option.all_some,Bool.or_eq_true] at hbefore ⊢
        exact hbefore.imp id (derivedFromDisposed_mono hids)
  rw [Audit.disposes,hcovers,Bool.true_and]
  cases hn : p.selector.nativeId with
  | none =>
    have hscope : (a.auditOf env channel p).disposition.scope = .chat := by
      change (if p.selector.nativeId.isSome = true then Scope.message else Scope.chat) = .chat
      rw [hn]
      rfl
    simp [hscope]
  | some id =>
    rw [hn] at hnative
    simp only [Bool.or_eq_true] at hnative ⊢
    rcases hnative with hi | hi
    · exact .inl (.inr (meets_mono hids hi))
    · exact .inr (meets_mono hcors hi)

def Flat (r : Members) : Prop :=
  ∀ xs, segments? r = some xs → ∀ x ∈ xs, ∀ kvs, members? x = some kvs → items? (Json.get "segments" kvs) = none

instance (r : Members) : Decidable (Flat r) :=
  decidable_of_iff ((segments? r).all (fun xs => xs.all fun x =>
      (members? x).all fun kvs => (items? (Json.get "segments" kvs)).isNone) = true)
    (by simp only [Flat,Option.all_eq_true,List.all_eq_true,Option.isNone_iff_eq_none])

theorem leaves_flat (hf : Flat r) (hs : segments? r = some xs) (hx : x ∈ xs)
    (hp : isPart x = true) : leaves x = [x] := by
  cases x with
  | obj kvs => rw [leaves,leavesMembers_eq,hf xs hs _ hx kvs rfl]; rfl
  | _ => simp [isPart,members?] at hp

theorem recordIdentities_partOf {kvs : Members} (hn : items? (Json.get "segments" kvs) = none) :
    recordIdentities (partOf env r (.obj kvs)) = (identitiesOf ["messageId"] kvs).filter (· ≠ "") := by
  have hnone : textOf .null = "" := rfl
  have hmedia : (textOf (Json.get "kind" (partOf env r (.obj kvs))) = "media") = False := by
    rw [get_kind_partOf,hnone]
    simp
  have hnative : Json.get "native" (partOf env r (.obj kvs)) = .null := rfl
  have hid : Json.get "native_id" (partOf env r (.obj kvs)) = .null := rfl
  have hmid : Json.get "native_message_id" (partOf env r (.obj kvs)) = .null := rfl
  have horiginal : Json.get "original" (partOf env r (.obj kvs)) = .null := rfl
  have hprov : Json.get "provenance" (partOf env r (.obj kvs)) = .null := rfl
  rw [recordIdentities,isContactId_partOf,hnative,horiginal,get_payload_partOf]
  simp only [members?,identitiesOf,hid,hmid,hprov,hnone,hmedia,isText,payloadIdentities,hn,Option.getD_none,
    List.map_cons,List.map_nil,List.flatMap_nil,Option.elim,Bool.or_false,decide_false,Bool.and_false]
  simp

theorem identities_partOf (hf : Flat r) (hs : segments? r = some xs)
    (hx : x ∈ xs) (hp : isPart x = true) {id : String} (hid : id ∈ recordIdentities (partOf env r x)) :
    id ∈ recordIdentities r := by
  cases x with
  | obj kvs =>
    rw [recordIdentities_partOf (hf xs hs _ hx kvs rfl),List.mem_filter] at hid
    obtain ⟨payload,hpay,hitems⟩ := Option.bind_eq_some_iff.mp hs
    have hmem : id ∈ payloadIdentities payload := by
      refine List.mem_append_right _ (List.mem_flatMap.mpr ⟨.obj kvs,?_,hid.1⟩)
      rw [hitems]
      exact hx
    rw [recordIdentities,List.mem_filter,hpay]
    refine ⟨?_,hid.2⟩
    simp only [Option.elim_some,List.mem_append]
    exact .inl (.inl (.inl (.inr hmem)))
  | _ => simp [isPart,members?] at hp

theorem disposes_of_segment (h : Built env a channel sel p) (hchat : p.chatId = some chat)
    (hf : Flat r) (hs : segments? r = some xs) (hx : x ∈ xs)
    (hp : isPart x = true) (hm : p.matchesPlain env (partOf env r x) = true) {line : String} :
    (a.auditOf env channel p).disposes env r line = true := by
  have hd := disposes_of_matchesPlain h hchat hm line
  unfold Audit.disposes Disposition.covers at hd ⊢
  simp only [Bool.and_eq_true,Bool.or_eq_true] at hd ⊢
  obtain ⟨⟨hscope,hbefore⟩,hwhy⟩ := hd
  refine ⟨⟨hscope,?_⟩,?_⟩
  · cases hb : (a.auditOf env channel p).disposition.beforeMs with
    | none => rfl
    | some before =>
      rw [hb] at hbefore
      simp only [Bool.or_eq_true] at hbefore ⊢
      exact hbefore.imp id fun h => by cases h
  · rcases hwhy with (hwhy | hwhy) | hwhy
    · exact .inl (.inl hwhy)
    · exact .inl (.inr (meets_left (fun id hid => identities_partOf hf hs hx hp hid) hwhy))
    · cases hwhy

end Root

structure Erased where
  record : Members
  segment : Option Json

structure History where
  root : Root
  erased : List Erased := []

inductive Deed where
  | purge (sel : PurgeSelector) (now : Int)
  | append (directory name : String) (record : Members)
  | importRow (directory name : String) (record : Members) (text : String)

def Slot.loses (env : Env) (p : Predicate) (s : Slot) : List Erased :=
  match s.record with
  | none => []
  | some r =>
    if s.strict && p.matchesRecord env r && !isContactId r then
      match segments? r with
      | none => [⟨r,none⟩]
      | some xs => (xs.filter fun x => isPart x && p.matchesRecord env (partOf env r x)).map fun x => ⟨r,some x⟩
    else []

namespace History

def step (env : Env) (h : History) : Deed → History
  | .purge sel now =>
    match h.root.purge env sel now with
    | .error _ => h
    | .ok (p, root) => ⟨root,h.erased ++ (h.root.slots p.channel).flatMap (Slot.loses env p)⟩
  | .append directory name r => { h with root := h.root.append env directory name r }
  | .importRow directory name r text =>
    if (captureMs? env r).isNone then h
    else { h with root := h.root.put directory name (h.root.importRender env r text) }

end History

/-- A segment without which nothing is left of its batch: it matches, it was erased before or is empty,
or it is no object. -/
def Spent (env : Env) (p : Predicate) (r : Members) (x : Json) : Prop :=
  p.matchesRecord env (partOf env r x) = true ∨ isTombstone x = true ∨ x.truthy = false ∨ members? x = none

/-- The record with its matching segments erased and the others in place. Where all of them are spent,
the whole record is erased. -/
def Erases (env : Env) (p : Predicate) (r r' : Members) : Prop :=
  match segments? r with
  | none => r' = tombstone
  | some xs =>
    (r' = tombstone ∧ ∀ x ∈ xs, Spent env p r x) ∨
      ∃ ys, segments? r' = some ys ∧ List.Forall₂ (fun x y =>
        ((isPart x && p.matchesRecord env (partOf env r x)) = true → y = .obj tombstone) ∧
          ((isPart x && p.matchesRecord env (partOf env r x)) = false → y = x)) xs ys

/-- A slot after the purge: the same line if no part of it matches, otherwise what is left of it. -/
def SlotKept (env : Env) (p : Predicate) (s s' : Slot) : Prop :=
  (s.record.any (p.matchesRecord env) = false → s' = s) ∧
    ∀ r, s.record = some r → p.matchesRecord env r = true →
      ∃ r', s'.record = some r' ∧ s'.text = Json.dumps (.obj r') ∧ Erases env p r r'

def FileKept (env : Env) (p : Predicate) (f f' : ArchiveFile) : Prop :=
  f'.directory = f.directory ∧ f'.name = f.name ∧
    if Root.inChannel p.channel f then List.Forall₂ (SlotKept env p) f.lines f'.lines else f'.lines = f.lines

namespace Root

def PurgeKeeps (env : Env) (a : Root) (sel : PurgeSelector) (now : Int) : Prop :=
  ∀ p b, a.purge env sel now = .ok (p, b) →
    List.Forall₂ (FileKept env p) a.files b.files ∧
      ∀ p' c, b.purge env sel now = .ok (p', c) → c.files = b.files

def Withheld (env : Env) (a : Root) (e : Erased) : Prop :=
  (∀ directory name, a.append env directory name e.record = a) ∧
    ∀ text, match e.segment with
      | none => (a.importRender env e.record text).record = some tombstone
      | some x => ∀ ys, (a.importRender env e.record text).record.bind segments? = some ys → x ∉ ys

end Root

/-- The selector names its chat by a text or not at all, every line of the channel is valid UTF-8,
and no segment has segments of its own. -/
def Deed.Plain (h : History) : Deed → Prop
  | .purge sel _ => Root.Named sel ∧ ∀ channel ∈ (safeChannel sel.channel).toOption,
      h.root.Strict channel ∧ ∀ r ∈ h.root.records channel, Root.Flat r
  | _ => True

instance (h : History) (deed : Deed) : Decidable (deed.Plain h) :=
  match deed with
  | .purge sel _ => inferInstanceAs (Decidable (Root.Named sel ∧ ∀ channel ∈ (safeChannel sel.channel).toOption,
      h.root.Strict channel ∧ ∀ r ∈ h.root.records channel, Root.Flat r))
  | .append .. | .importRow .. => inferInstanceAs (Decidable True)

/-- What holds of every deed of a history: a purge keeps the slots and is idempotent, and afterwards
everything that was ever erased stays out. -/
def Deed.Lasting (env : Env) (h : History) (deed : Deed) : Prop :=
  (match deed with
    | .purge sel now => h.root.PurgeKeeps env sel now
    | _ => True) ∧
    ∀ e ∈ (h.step env deed).erased, (h.step env deed).root.Withheld env e

section
variable {env : Env} {p : Predicate}

theorem erases_replacement {r : Members} : Erases env p r (replacement env p r) := by
  unfold Erases replacement
  cases hs : segments? r with
  | none => rfl
  | some xs =>
    by_cases hk : survives (p.keptSegments env r xs) = true
    · refine .inr ⟨p.keptSegments env r xs,segments?_replaceSegments env r hk,?_⟩
      rw [Predicate.keptSegments,List.forall₂_map_right_iff]
      exact List.forall₂_same.mpr fun x _ => ⟨fun hm => if_pos hm,fun hm => if_neg (by rw [hm]; exact Bool.false_ne_true)⟩
    · refine .inl ⟨if_neg hk,fun x hx => ?_⟩
      by_contra hspent
      rw [Spent,not_or,not_or,not_or,Bool.not_eq_true,Bool.not_eq_true,Bool.not_eq_false] at hspent
      obtain ⟨hm,ht,htruthy,hmembers⟩ := hspent
      have hp : isPart x = true := by
        rw [isPart,Option.isSome_iff_ne_none.mpr hmembers,ht]
        rfl
      refine hk (List.any_eq_true.mpr ⟨x,?_,by rw [hp,htruthy]; rfl⟩)
      exact List.mem_map.mpr ⟨x,hx,if_neg (by rw [hp,hm]; exact Bool.false_ne_true)⟩

theorem slotKept_rewrite {s : Slot} (hs : s.record.isSome = true → s.strict = true) :
    SlotKept env p s (rewriteSlot env p s) := by
  rcases rewriteSlot_cases with ⟨he,hno⟩ | ⟨r,hr,hm,he⟩
  · refine ⟨fun _ => he,fun r hr hm => ?_⟩
    rw [hno r hr (hs (by rw [hr]; rfl))] at hm
    cases hm
  · refine ⟨fun hno => ?_,fun r' hr' hm' => ?_⟩
    · rw [hr,Option.any_some,hm] at hno
      cases hno
    · rw [hr] at hr'
      cases hr'
      rw [he]
      exact ⟨_,rfl,rfl,erases_replacement⟩

end

namespace Root
variable {env : Env} {a b : Root} {sel : PurgeSelector} {now : Int} {p : Predicate}

theorem purge_ok (h : a.purge env sel now = .ok (p, b)) : ∃ channel, safeChannel sel.channel = .ok channel ∧
    ((given sel.chatId).isSome = true ∨ (given sel.nativeId).isSome = true) ∧
    a.buildPredicate env channel (effective sel now) = .ok p ∧
    b = ⟨a.files.map (rewriteFile env channel p),a.audits ++ [a.auditOf env channel p]⟩ := by
  unfold purge at h
  cases hv : sel.valid with
  | false => rw [hv] at h; cases h
  | true =>
    rw [hv,Bool.not_true,if_neg Bool.false_ne_true] at h
    rw [PurgeSelector.valid,Bool.and_eq_true,Bool.or_eq_true] at hv
    cases hc : safeChannel sel.channel with
    | error r => rw [hc] at h; cases h
    | ok channel =>
      rw [hc] at h
      dsimp only at h
      split at h
      · cases h
      cases hb : a.buildPredicate env channel (effective sel now) with
      | error r => rw [hb] at h; cases h
      | ok p' =>
        rw [hb] at h
        dsimp only at h
        split at h
        · cases h
        cases h
        exact ⟨channel,rfl,hv.2,hb,rfl⟩

theorem effective_ids (sel : PurgeSelector) (now : Int) :
    (effective sel now).chatId = sel.chatId ∧ (effective sel now).nativeId = sel.nativeId := by
  unfold effective
  split_ifs <;> exact ⟨rfl,rfl⟩

theorem purgeKeeps (hn : Named sel) (hs : ∀ channel, safeChannel sel.channel = .ok channel → a.Strict channel) :
    a.PurgeKeeps env sel now := by
  intro p b hpurge
  obtain ⟨channel,hc,hv,hbuild,rfl⟩ := purge_ok hpurge
  have hbuilt := buildPredicate_built hbuild
  have hids := effective_ids sel now
  have hn' : Named (effective sel now) := by rw [Named,hids.1]; exact hn
  have hv' : (given (effective sel now).chatId).isSome = true ∨ (given (effective sel now).nativeId).isSome = true := by
    rw [hids.1,hids.2]
    exact hv
  have hstrict := hs channel hc
  constructor
  · rw [List.forall₂_map_right_iff]
    refine List.forall₂_same.mpr fun f hf => ?_
    unfold FileKept rewriteFile
    rw [hbuilt.ofChannel]
    split_ifs with hin
    · refine ⟨rfl,rfl,?_⟩
      rw [List.forall₂_map_right_iff]
      exact List.forall₂_same.mpr fun s hmem => slotKept_rewrite
        (hstrict s (List.mem_flatMap.mpr ⟨f,List.mem_filter.mpr ⟨hf,hin⟩,hmem⟩))
    · exact ⟨rfl,rfl,rfl⟩
  · intro p' c hagain
    obtain ⟨channel',hc',-,hbuild',rfl⟩ := purge_ok hagain
    rw [hc] at hc'
    cases hc'
    have hbuilt' := buildPredicate_built hbuild'
    exact rewriteFile_within (hbuilt.within hn' hv' hstrict hbuilt') hstrict hbuilt'

def Disposes (env : Env) (audits : List Audit) (e : Erased) : Prop :=
  (∀ line, recordIsDisposed env audits e.record line = true) ∧
    match e.segment with
    | none => segments? e.record = none
    | some x => isPart x = true ∧ (∃ xs, segments? e.record = some xs ∧ x ∈ xs) ∧
        ∀ line, recordIsDisposed env audits (partOf env e.record x) line = true

theorem recordIsDisposed_mono {audits more : List Audit} (h : ∀ x ∈ audits, x ∈ more) {r : Members} {line : String}
    (hd : recordIsDisposed env audits r line = true) : recordIsDisposed env more r line = true := by
  unfold recordIsDisposed at hd ⊢
  rw [List.any_eq_true] at hd ⊢
  obtain ⟨x,hx,hd⟩ := hd
  exact ⟨x,h x hx,hd⟩
variable {e : Erased}

theorem Disposes.mono {audits more : List Audit} (hd : Disposes env audits e)
    (h : ∀ x ∈ audits, x ∈ more) : Disposes env more e := by
  refine ⟨fun line => recordIsDisposed_mono h (hd.1 line),?_⟩
  have hseg := hd.2
  cases hs : e.segment with
  | none => rw [hs] at hseg; exact hseg
  | some x =>
    rw [hs] at hseg
    exact ⟨hseg.1,hseg.2.1,fun line => recordIsDisposed_mono h (hseg.2.2 line)⟩

theorem Disposes.withheld (hd : Disposes env a.audits e) : a.Withheld env e := by
  obtain ⟨hrec,hseg⟩ := hd
  refine ⟨fun directory name => if_pos (by rw [hrec,Bool.or_true]),fun text => ?_⟩
  cases hs : e.segment with
  | none =>
    rw [hs] at hseg
    rw [importRender,hseg,if_pos (hrec text)]
  | some x =>
    rw [hs] at hseg
    obtain ⟨hp,⟨xs,hxs,hx⟩,hpart⟩ := hseg
    have hdis : (isPart x && recordIsDisposed env a.audits (partOf env e.record x)
        (Json.dumps (.obj (partOf env e.record x)))) = true := by
      rw [hp,hpart]
      rfl
    rw [importRender,hxs]
    dsimp only
    rw [if_pos (List.any_eq_true.mpr ⟨x,hx,hdis⟩)]
    intro ys hys hmem
    rw [Option.bind_some] at hys
    unfold replaceSegments at hys
    split_ifs at hys with hk
    · have := segments?_replaceSegments env e.record hk
      rw [replaceSegments,if_pos hk,hys] at this
      rw [Option.some.inj this] at hmem
      obtain ⟨y,-,hy⟩ := List.mem_map.mp hmem
      split_ifs at hy with hyd
      · rw [← hy,isPart_tombstone] at hp
        cases hp
      · subst hy
        exact hyd hdis
    · cases hys

theorem loses_disposes {channel : String} (hbuilt : Built env a channel sel p) {chat : String} (hchat : p.chatId = some chat)
    (hflat : ∀ r ∈ a.records channel, Flat r) {s : Slot} (hs : s ∈ a.slots channel)
    (he : e ∈ s.loses env p) : Disposes env (a.audits ++ [a.auditOf env channel p]) e := by
  have hlast : ∀ {r : Members} {line : String}, (a.auditOf env channel p).disposes env r line = true →
      recordIsDisposed env (a.audits ++ [a.auditOf env channel p]) r line = true := fun h =>
    List.any_eq_true.mpr ⟨_,List.mem_concat_self,h⟩
  unfold Slot.loses at he
  cases hr : s.record with
  | none => rw [hr] at he; cases he
  | some r =>
    have hf := hflat r (List.mem_filterMap.mpr ⟨s,hs,hr⟩)
    rw [hr] at he
    dsimp only at he
    split_ifs at he with hm
    · simp only [Bool.and_eq_true,Bool.not_eq_true'] at hm
      obtain ⟨⟨-,hm⟩,hc⟩ := hm
      cases hseg : segments? r with
      | none =>
        rw [hseg,List.mem_singleton] at he
        subst he
        have ht : isTombstone (.obj r) = false := by
          by_contra ht
          rw [Bool.not_eq_false] at ht
          rw [Predicate.matchesRecord_tombstone ht] at hm
          cases hm
        rw [Predicate.matchesRecord_plain ht hc hseg] at hm
        exact ⟨fun line => hlast (disposes_of_matchesPlain hbuilt hchat hm line),hseg⟩
      | some xs =>
        rw [hseg] at he
        obtain ⟨x,hx,rfl⟩ := List.mem_map.mp he
        rw [List.mem_filter,Bool.and_eq_true] at hx
        obtain ⟨hx,hp,hmx⟩ := hx
        rw [Predicate.matchesRecord_partOf hp,leaves_flat hf hseg hx hp,List.any_cons,List.any_nil,Bool.or_false] at hmx
        exact ⟨fun line => hlast (disposes_of_segment hbuilt hchat hf hseg hx hp hmx),hp,⟨xs,hseg,hx⟩,
          fun line => hlast (disposes_of_matchesPlain hbuilt hchat hmx line)⟩
    · cases he

end Root

namespace History
variable {env : Env} {h : History}

theorem audits_append {a : Root} {directory name : String} {r : Members} :
    (a.append env directory name r).audits = a.audits := by
  unfold Root.append
  split_ifs <;> rfl

def Barred (env : Env) (h : History) : Prop := ∀ e ∈ h.erased, Root.Disposes env h.root.audits e

theorem Barred.step (hb : h.Barred env) {deed : Deed} (hp : deed.Plain h) : (h.step env deed).Barred env := by
  cases deed with
  | purge sel now =>
    unfold History.step
    dsimp only
    cases hpurge : h.root.purge env sel now with
    | error r => exact hb
    | ok pr =>
      obtain ⟨p,b⟩ := pr
      obtain ⟨channel,hc,hv,hbuild,rfl⟩ := Root.purge_ok hpurge
      have hbuilt := Root.buildPredicate_built hbuild
      have hids := Root.effective_ids sel now
      obtain ⟨chat,hchat,-⟩ := hbuilt.chat (by rw [Root.Named,hids.1]; exact hp.1) (by rw [hids.1,hids.2]; exact hv)
      intro e he
      rcases List.mem_append.mp he with he | he
      · exact (hb e he).mono fun x hx => List.mem_append_left _ hx
      · rw [hbuilt.ofChannel] at he
        obtain ⟨s,hs,he⟩ := List.mem_flatMap.mp he
        exact Root.loses_disposes hbuilt hchat (hp.2 channel (by rw [hc]; rfl)).2 hs he
  | append directory name r =>
    intro e he
    exact (hb e he).mono fun x hx => by
      change x ∈ (h.root.append env directory name r).audits
      rw [audits_append]
      exact hx
  | importRow directory name r text =>
    unfold History.step
    dsimp only
    split_ifs <;> exact hb

/-- Over every history whose purges are plain: slots keep their number and place, lines without a
matching part their text, matching segments are erased and the others kept, a repeated purge changes
nothing, and what was erased never comes back. -/
theorem purge_keeps_slots_and_is_final (env : Env) (a : Root) (deeds : List Deed)
    (hp : Along (step env) (fun h deed => deed.Plain h) ⟨a,[]⟩ deeds) :
    Along (step env) (fun h deed => deed.Lasting env h) ⟨a,[]⟩ deeds := by
  refine Along.imp (I := Barred env) (fun h deed hb hd => hb.step hd) (fun h deed hb hd => ⟨?_,fun e he => ?_⟩)
    (fun e he => by cases he) hp
  · cases deed with
    | purge sel now => exact Root.purgeKeeps hd.1 fun channel hc => (hd.2 channel (by rw [hc]; rfl)).1
    | append | importRow => trivial
  · exact (hb.step hd e he).withheld

/-- Clockless surroundings: no text is a time, a line is its own hash, the first chat is handed out. -/
def plainEnv : Env where
  iso _ := none
  digest := id
  pick xs := xs.headD ""
  pick_mem xs h := by
    cases xs with
    | nil => exact absurd rfl h
    | cons x xs => exact List.mem_cons_self

def message (chat id : String) (ms : Int) : Members :=
  [("channel", .str "whatsapp"), ("chat_id", .str chat), ("native_id", .str id), ("received_ms", .int ms)]

def pair (chat id id' : String) (ms : Int) : Members :=
  [("channel", .str "whatsapp"), ("chat_id", .str chat), ("received_ms", .int ms),
    ("payload", .obj [("segments", .arr [.obj [("messageId", .str id)], .obj [("messageId", .str id')]])])]

def archived (records : List Members) : Root :=
  ⟨[⟨"whatsapp","2026-10.jsonl",records.map fun r => ⟨Json.dumps (.obj r),some r,true⟩⟩],[]⟩

/-- A message is purged from its own line and from a batch, and neither the writer nor an import
brings it back. -/
theorem purged_message_stays_out :
    let a := archived [message "c" "m" 1, pair "c" "n" "m" 2, message "c" "n" 3]
    let deeds := [Deed.purge ⟨"whatsapp",none,some "m",none⟩ 9, .append "whatsapp" "2026-10.jsonl" (message "c" "m" 1),
      .importRow "whatsapp" "2026-10.jsonl" (pair "c" "n" "m" 2) (Json.dumps (.obj (pair "c" "n" "m" 2)))]
    Along (step plainEnv) (fun h deed => deed.Plain h) ⟨a,[]⟩ deeds ∧
      Along (step plainEnv) (fun h deed => deed.Lasting plainEnv h) ⟨a,[]⟩ deeds ∧
      ((run (step plainEnv) ⟨a,[]⟩ deeds).root.slots "whatsapp").map
          (fun s => (s.record.map fun r => (recordParts plainEnv r).flatMap recordIdentities)) =
        [some [], some ["n"], some ["n"], some ["n"]] := by
  refine ⟨by decide +kernel,purge_keeps_slots_and_is_final plainEnv _ _ (by decide +kernel),by decide +kernel⟩

/-- A selector with an empty chat: the message id occurs in two chats, the first purge erases it in
one of them, and the same purge again erases it in the other. -/
theorem empty_chat_purges_again :
    let sel : PurgeSelector := ⟨"whatsapp",some "",some "m",none⟩
    sel.valid = true ∧ ¬ (Deed.purge sel 9).Lasting plainEnv ⟨archived [message "c" "m" 1, message "d" "m" 2],[]⟩ := by
  refine ⟨by decide +kernel,fun h => ?_⟩
  have hagain := (h.1 _ _ rfl).2 _ _ rfl
  have htexts := congrArg (fun files => files.map fun f => f.lines.map Slot.text) hagain
  exact absurd htexts (by decide +kernel)

end History

end Yeoman.Archive
