import Yeoman.Archive.Purge
import Yeoman.Library.JsonDict

/-! What one purge does to a slot, and how the predicate it built relates to the disposition it
recorded and to the predicate that a second purge would build. -/
namespace Yeoman.Archive
open Library
open Library.Json (Members)

section Parts
variable (env : Env) (r : Members) (segment : Json)

@[simp] theorem get_channel_partOf : Json.get "channel" (partOf env r segment) = Json.get "channel" r := rfl

@[simp] theorem get_chatId_partOf : Json.get "chat_id" (partOf env r segment) = Json.get "chat_id" r := rfl

@[simp] theorem get_payload_partOf : Json.get "payload" (partOf env r segment) = segment := rfl

@[simp] theorem get_kind_partOf : Json.get "kind" (partOf env r segment) = .null := rfl

@[simp] theorem recordCaptureMs_partOf : recordCaptureMs env (partOf env r segment) = recordCaptureMs env r := rfl

@[simp] theorem partOf_partOf (leaf : Json) : partOf env (partOf env r segment) leaf = partOf env r leaf := rfl

theorem isContactId_partOf : isContactId (partOf env r segment) = false := rfl

theorem not_isTombstone_partOf : isTombstone (.obj (partOf env r segment)) = false := by
  simp [isTombstone,Json.eq,tombstone,partOf]

end Parts

theorem leavesMembers_eq {kvs : Members} : leavesMembers kvs = (items? (Json.get "segments" kvs)).map leavesItems := by
  induction kvs with
  | nil => rfl
  | cons kv kvs ih =>
    obtain ⟨k,v⟩ := kv
    have hget : Json.get "segments" ((k, v) :: kvs) = if k = "segments" then v else Json.get "segments" kvs := by
      unfold Json.get
      rw [Json.lookup_cons_ite]
      by_cases hk : k = "segments"
      · simp [hk]
      · simp [hk,Ne.symm hk]
    rw [hget]
    cases v <;> simp only [leavesMembers] <;> split_ifs <;> first | exact ih | rfl

theorem leavesItems_eq {xs : List Json} : leavesItems xs = (xs.filter fun x => !isTombstone x).flatMap leaves := by
  induction xs with
  | nil => rfl
  | cons x xs ih =>
    rw [leavesItems,ih]
    cases h : isTombstone x <;> simp [h]

variable {xs : List Json} {env : Env} {p : Predicate} {r : Members}

theorem mem_leavesItems {leaf : Json} : leaf ∈ leavesItems xs ↔ ∃ x ∈ xs, isPart x = true ∧ leaf ∈ leaves x := by
  rw [leavesItems_eq,List.mem_flatMap]
  constructor
  · rintro ⟨x,hx,hl⟩
    rw [List.mem_filter] at hx
    refine ⟨x,hx.1,?_,hl⟩
    cases x with
    | obj kvs => exact hx.2
    | _ => simp [leaves] at hl
  · rintro ⟨x,hx,hp,hl⟩
    refine ⟨x,List.mem_filter.mpr ⟨hx,?_⟩,hl⟩
    exact (Bool.and_eq_true _ _ ▸ hp : _ ∧ _).2

namespace Predicate
variable {env : Env} {p : Predicate}

theorem matchesRecord_partOf {x : Json} (hx : isPart x = true) :
    p.matchesRecord env (partOf env r x) = (leaves x).any fun leaf => p.matchesPlain env (partOf env r leaf) := by
  unfold matchesRecord
  rw [not_isTombstone_partOf,isContactId_partOf,if_neg Bool.false_ne_true,if_neg Bool.false_ne_true]
  cases x with
  | obj kvs =>
    have hs : segments? (partOf env r (.obj kvs)) = items? (Json.get "segments" kvs) := rfl
    rw [hs,leaves,leavesMembers_eq]
    cases items? (Json.get "segments" kvs) with
    | none | some => simp
  | _ => simp [isPart,members?] at hx
variable {r : Members}

theorem matchesRecord_segments (ht : isTombstone (.obj r) = false)
    (hc : isContactId r = false) (hs : segments? r = some xs) :
    p.matchesRecord env r = true ↔ ∃ x ∈ xs, isPart x = true ∧ p.matchesRecord env (partOf env r x) = true := by
  have hany : p.matchesRecord env r = (leavesItems xs).any fun leaf => p.matchesPlain env (partOf env r leaf) := by
    rw [matchesRecord,ht,hc,hs,if_neg Bool.false_ne_true,if_neg Bool.false_ne_true]
  simp only [hany,List.any_eq_true,mem_leavesItems]
  constructor
  · rintro ⟨leaf,⟨x,hx,hp,hl⟩,hm⟩
    refine ⟨x,hx,hp,?_⟩
    rw [matchesRecord_partOf hp,List.any_eq_true]
    exact ⟨leaf,hl,hm⟩
  · rintro ⟨x,hx,hp,hm⟩
    rw [matchesRecord_partOf hp,List.any_eq_true] at hm
    obtain ⟨leaf,hl,hm⟩ := hm
    exact ⟨leaf,⟨x,hx,hp,hl⟩,hm⟩

theorem matchesRecord_plain (ht : isTombstone (.obj r) = false) (hc : isContactId r = false)
    (hs : segments? r = none) : p.matchesRecord env r = p.matchesPlain env r := by
  rw [matchesRecord,ht,hc,hs,if_neg Bool.false_ne_true,if_neg Bool.false_ne_true]

theorem matchesRecord_tombstone (ht : isTombstone (.obj r) = true) : p.matchesRecord env r = false := by
  rw [matchesRecord,if_pos ht]

end Predicate
variable {s : Slot}

theorem get_retain {keys : List String} {k : String} :
    Json.get k (retain keys r) = if k ∈ keys then Json.get k r else .null := by
  induction keys with
  | nil => rfl
  | cons key keys ih =>
    unfold retain at ih ⊢
    rw [List.filterMap_cons]
    cases hl : r.lookup key with
    | none =>
      simp only [Option.map_none,List.mem_cons]
      rw [ih]
      by_cases hk : k = key
      · subst hk
        simp [Json.get,hl]
      · simp [hk]
    | some v =>
      simp only [Option.map_some,List.mem_cons]
      by_cases hk : k = key
      · subst hk
        simp [Json.get,hl]
      · have hcons : Json.get k ((key, v) :: keys.filterMap fun key => (r.lookup key).map (key, ·)) =
            Json.get k (keys.filterMap fun key => (r.lookup key).map (key, ·)) := by
          unfold Json.get
          rw [Json.lookup_cons_ite,if_neg hk]
        rw [hcons,ih]
        simp [hk]

section Replacing
variable (env : Env) (r : Members) {kept : List Json}

theorem get_replaceSegments (hk : survives kept = true) {k : String} :
    Json.get k (replaceSegments env r kept) = if k = "payload" then
        .obj (cleanPayload ((members? (Json.get "payload" r)).getD []) kept)
      else if k = "received_ms" then .int (recordCaptureMs env r)
      else if k ∈ envelopeKeys then Json.get k r else .null := by
  rw [replaceSegments,if_pos hk]
  rw [Json.get,Json.lookup_set]
  split_ifs with h1 h2 h3
  · rfl
  · rw [Json.lookup_set,if_pos h2]
    rfl
  · rw [Json.lookup_set,if_neg h2]
    exact get_retain.trans (if_pos h3)
  · rw [Json.lookup_set,if_neg h2]
    exact get_retain.trans (if_neg h3)

theorem segments?_replaceSegments (hk : survives kept = true) : segments? (replaceSegments env r kept) = some kept := by
  rw [segments?,get_replaceSegments env r hk,if_pos rfl]
  rfl

theorem recordCaptureMs_replaceSegments (hk : survives kept = true) :
    recordCaptureMs env (replaceSegments env r kept) = recordCaptureMs env r := by
  have hget : Json.get "received_ms" (replaceSegments env r kept) = .int (recordCaptureMs env r) := by
    rw [get_replaceSegments env r hk]
    rfl
  generalize recordCaptureMs env r = ms at hget ⊢
  unfold recordCaptureMs captureMs? firstTime
  rw [List.find?_cons,hget]
  simp only [isNull,Bool.not_false,Option.map_some]
  rw [hget]
  rfl

theorem partOf_replaceSegments (hk : survives kept = true) {x : Json} :
    partOf env (replaceSegments env r kept) x = partOf env r x := by
  rw [partOf,recordCaptureMs_replaceSegments env r hk,get_replaceSegments env r hk,get_replaceSegments env r hk]
  rfl

end Replacing

theorem isPart_tombstone : isPart (.obj tombstone) = false := by decide

theorem recordParts_tombstone : recordParts env tombstone = [tombstone] := rfl

theorem rewriteSlot_cases :
    (rewriteSlot env p s = s ∧ ∀ r, s.record = some r → s.strict = true → p.matchesRecord env r = false) ∨
      ∃ r, s.record = some r ∧ p.matchesRecord env r = true ∧
        rewriteSlot env p s = ⟨Json.dumps (.obj (replacement env p r)),some (replacement env p r),true⟩ := by
  unfold rewriteSlot
  cases hr : s.record with
  | none => exact .inl ⟨rfl,fun r h => by cases h⟩
  | some r =>
    dsimp only
    split_ifs with hm
    · exact .inr ⟨r,rfl,(Bool.and_eq_true _ _ ▸ hm : _ ∧ _).2,rfl⟩
    · refine .inl ⟨rfl,fun r' hr' hs => ?_⟩
      cases hr'
      simpa [hs] using hm

theorem rewriteSlot_record (hs : s.record.isSome = true → s.strict = true)
    {r' : Members} (h : (rewriteSlot env p s).record = some r') :
    (s.record = some r' ∧ p.matchesRecord env r' = false) ∨ ∃ r, s.record = some r ∧ r' = replacement env p r := by
  rcases rewriteSlot_cases with ⟨he,hm⟩ | ⟨r,hr,-,he⟩
  · rw [he] at h
    exact .inl ⟨h,hm r' h (hs (by rw [h]; rfl))⟩
  · rw [he] at h
    exact .inr ⟨r,hr,(Option.some.inj h).symm⟩

theorem mem_keptSegments {x : Json}
    (hx : x ∈ p.keptSegments env r xs) (hp : isPart x = true) : x ∈ xs ∧ p.matchesRecord env (partOf env r x) = false := by
  obtain ⟨y,hy,rfl⟩ := List.mem_map.mp hx
  split_ifs at hp ⊢ with hm
  · rw [isPart_tombstone] at hp
    cases hp
  · rw [hp,Bool.true_and,Bool.not_eq_true] at hm
    exact ⟨hy,hm⟩

/-- A replacement is the tombstone, or a batch of the parts that did not match. -/
theorem replacement_cases :
    replacement env p r = tombstone ∨ ∃ xs, segments? r = some xs ∧ survives (p.keptSegments env r xs) = true ∧
      replacement env p r = replaceSegments env r (p.keptSegments env r xs) := by
  unfold replacement
  cases hs : segments? r with
  | none => exact .inl rfl
  | some xs =>
    by_cases hk : survives (p.keptSegments env r xs) = true
    · exact .inr ⟨xs,rfl,hk,rfl⟩
    · exact .inl (if_neg hk)

theorem mem_recordParts_replacement {q : Members} (hq : q ∈ recordParts env (replacement env p r)) :
    isTombstone (.obj q) = true ∨ q ∈ recordParts env r ∧ p.matchesRecord env q = false := by
  rcases replacement_cases with he | ⟨xs,hs,hk,he⟩
  · rw [he,recordParts_tombstone,List.mem_singleton] at hq
    subst hq
    exact .inl (by decide)
  · rw [he] at hq
    unfold recordParts at hq ⊢
    rw [segments?_replaceSegments env r hk] at hq
    rw [hs]
    simp only [List.mem_map,List.mem_filter,partOf_replaceSegments env r hk] at hq
    obtain ⟨x,⟨hx,hp⟩,rfl⟩ := hq
    obtain ⟨hx,hm⟩ := mem_keptSegments hx hp
    exact .inr ⟨List.mem_map.mpr ⟨x,List.mem_filter.mpr ⟨hx,hp⟩,rfl⟩,hm⟩

theorem meets_mono {xs ys zs : List String} (h : ∀ y ∈ ys, y ∈ zs) (hm : meets xs ys = true) : meets xs zs = true := by
  simp only [meets,List.any_eq_true,List.contains_iff_mem] at hm ⊢
  obtain ⟨x,hx,hy⟩ := hm
  exact ⟨x,hx,h x hy⟩

theorem meets_left {xs ys zs : List String} (h : ∀ x ∈ xs, x ∈ ys) (hm : meets xs zs = true) : meets ys zs = true := by
  simp only [meets,List.any_eq_true] at hm ⊢
  obtain ⟨x,hx,hy⟩ := hm
  exact ⟨x,h x hx,hy⟩

theorem derivedFromDisposed_mono {xs ys : List String} (h : ∀ x ∈ xs, x ∈ ys)
    (hd : derivedFromDisposed r xs = true) : derivedFromDisposed r ys = true := by
  unfold derivedFromDisposed at hd ⊢
  rw [Bool.and_eq_true] at hd ⊢
  exact ⟨hd.1,meets_mono h hd.2⟩

namespace Predicate

/-- The predicate `q` has the scope of `p` and no identity or correlation beside those of `p`. -/
structure Within (q p : Predicate) : Prop where
  selector : q.selector = p.selector
  channel : q.channel = p.channel
  chatId : q.chatId = p.chatId
  identities : ∀ x ∈ q.identities, x ∈ p.identities
  correlations : ∀ x ∈ q.correlations, x ∈ p.correlations

variable {env : Env} {p q : Predicate} {r : Members}

theorem Within.matchesPlain (h : q.Within p) (hm : q.matchesPlain env r = true) : p.matchesPlain env r = true := by
  unfold Predicate.matchesPlain Predicate.inChat at hm ⊢
  rw [h.selector,h.channel,h.chatId] at hm
  simp only [Bool.and_eq_true] at hm ⊢
  obtain ⟨⟨⟨hch,hchat⟩,hbefore⟩,hnative⟩ := hm
  refine ⟨⟨⟨hch,hchat⟩,?_⟩,?_⟩
  · cases hb : p.selector.beforeMs with
    | none => rfl
    | some before =>
      rw [hb] at hbefore
      simp only [Option.all_some,Bool.or_eq_true] at hbefore ⊢
      exact hbefore.imp id (derivedFromDisposed_mono h.identities)
  · cases hn : p.selector.nativeId with
    | none =>
      rw [hn] at hnative
      exact hnative
    | some id =>
      rw [hn] at hnative
      simp only [Bool.or_eq_true] at hnative ⊢
      exact hnative.imp (meets_mono h.identities) (meets_mono h.correlations)

theorem Within.matchesRecord (h : q.Within p) (hc : isContactId r = false)
    (hm : q.matchesRecord env r = true) : p.matchesRecord env r = true := by
  unfold Predicate.matchesRecord at hm ⊢
  cases ht : isTombstone (.obj r) with
  | true => rw [ht] at hm; exact hm
  | false =>
    rw [ht,hc,if_neg Bool.false_ne_true,if_neg Bool.false_ne_true] at hm
    rw [hc,if_neg Bool.false_ne_true,if_neg Bool.false_ne_true]
    cases hs : segments? r with
    | none =>
      rw [hs] at hm
      exact h.matchesPlain hm
    | some xs =>
      rw [hs] at hm
      simp only [List.any_eq_true] at hm ⊢
      obtain ⟨leaf,hl,hm⟩ := hm
      exact ⟨leaf,hl,h.matchesPlain hm⟩

/-- What a narrower predicate finds in a slot that was rewritten: nothing but contact ids. -/
theorem Within.not_matchesRecord_rewrite (h : q.Within p)
    (hs : s.record.isSome = true → s.strict = true) {r' : Members} (hr : (rewriteSlot env p s).record = some r')
    (hc : isContactId r' = false) : q.matchesRecord env r' = false := by
  rcases rewriteSlot_record hs hr with ⟨-,hm⟩ | ⟨r,-,rfl⟩
  · rw [← Bool.not_eq_true] at hm ⊢
    exact fun hq => hm (h.matchesRecord hc hq)
  · rcases replacement_cases with he | ⟨xs,hseg,hk,he⟩
    · rw [he]
      exact matchesRecord_tombstone (by decide)
    · cases ht : isTombstone (.obj (replacement env p r)) with
      | true => exact matchesRecord_tombstone ht
      | false =>
        rw [← Bool.not_eq_true]
        rw [he] at ht hc ⊢
        rw [matchesRecord_segments ht hc (segments?_replaceSegments env r hk)]
        rintro ⟨x,hx,hp,hm⟩
        rw [partOf_replaceSegments env r hk] at hm
        have hno := (mem_keptSegments hx hp).2
        rw [h.matchesRecord (isContactId_partOf env r x) hm] at hno
        cases hno

end Predicate

end Yeoman.Archive
