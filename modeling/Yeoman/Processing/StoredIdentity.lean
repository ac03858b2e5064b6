import Yeoman.Processing.Payload

/-! What a stored effect reads back as, and when its recomputed hashes still
identify the effect that was enqueued. -/
namespace Yeoman.Processing
open Library

namespace EffectPayload

def stored : EffectPayload → EffectPayload
  | text body replyTo => .text body (nonempty replyTo)
  | media items caption => .media items (nonempty caption)
  | forward chat message => .forward chat message
  | reaction message emoji participant reason =>
    .reaction message emoji (nonempty participant) (nonempty reason)
  | delete message => .delete message
  | externalAction action arguments => .externalAction action arguments.sorted

/-- The optional fields that are written for any value, the empty text included,
hold no empty text. -/
def OptionalsNonempty : EffectPayload → Prop
  | text _ replyTo => replyTo ≠ some ""
  | media _ caption => caption ≠ some ""
  | _ => True

end EffectPayload

namespace EffectTarget

def stored (t : EffectTarget) : EffectTarget :=
  { t with threadId := nonempty t.threadId, messageId := nonempty t.messageId }

def OptionalsNonempty (t : EffectTarget) : Prop := t.threadId ≠ some "" ∧ t.messageId ≠ some ""

end EffectTarget
variable (d : Dict) (key : String) (v : Option String) (t : EffectTarget) (p : EffectPayload) (action : String)
  (arguments : Dict) (s : String)

theorem orElse_str : ((Json.str s).orElse (.str "")).toStr = s := by
  by_cases h : s = ""
  · subst h
    rfl
  · simp [Json.orElse,Json.truthy,Json.toStr,h]

private theorem optStr_str : (Json.str s).optStr = nonempty (some s) := by
  by_cases h : s = ""
  · subst h
    rfl
  · simp [Json.optStr,Json.toStr,nonempty,Option.filter,h]

private theorem sortItems_strings (xs : List String) :
    Json.sortItems (xs.map Json.str) = xs.map Json.str := by
  induction xs with
  | nil => rfl
  | cons x xs ih => simp only [List.map_cons,Json.sortItems,Json.sortKeys,ih]

theorem loadMapping_canonical : loadMapping (canonicalJson d.toJson) = .ok d.sorted := by
  unfold loadMapping canonicalJson
  rw [Dict.loads?_dumps]

theorem sorted_get (v : Json) (h : Json.get key d.members = v) : d.sorted.get key = Json.sortKeys v := by
  rw [Dict.get_sorted]
  exact congrArg Json.sortKeys h

theorem sorted_strField (h : Json.get key d.members = .str s) : strField key d.sorted = s := by
  rw [strField,sorted_get d key _ h]
  exact orElse_str s

private theorem sorted_optStr (h : Json.get key d.members = (v.map Json.str).getD .null) :
    (d.sorted.get key).optStr = nonempty v := by
  rw [sorted_get d key _ h]
  cases v with
  | none => rfl
  | some s => exact optStr_str s

private theorem payloadKind_sorted {k : String} (h : Json.get "kind" d.members = .str k) :
    payloadKind d.sorted = .str k := by
  rw [payloadKind,sorted_get d _ _ h]
  rfl

private theorem text_decodes {body : String} {replyTo : Option String} :
    payloadFromMapping (EffectPayload.text body replyTo).toDict.sorted =
      .ok (.text body (nonempty replyTo)) := by
  let d := (EffectPayload.text body replyTo).toDict
  have hk : payloadKind d.sorted = .str "text" := payloadKind_sorted d rfl
  have hb : strField "text" d.sorted = body := sorted_strField d _ _ rfl
  have ha : d.sorted.get "replyTo" = .null := sorted_get d _ .null (by cases replyTo <;> rfl)
  have hr : ((d.sorted.get "reply_to").orElse .null).optStr = nonempty replyTo := by
    cases replyTo with
    | none => rw [sorted_get d _ .null rfl]; rfl
    | some r =>
      rw [sorted_get d _ (.str r) rfl]
      by_cases he : r = ""
      · subst he
        rfl
      · simp [Json.sortKeys,Json.orElse,Json.truthy,he,optStr_str]
  rw [payloadFromMapping,hk]
  simp only [textFromMapping]
  rw [hb,ha,hr]

private theorem media_decodes {items : List String} {caption : Option String} :
    payloadFromMapping (EffectPayload.media items caption).toDict.sorted =
      .ok (.media items (nonempty caption)) := by
  let d := (EffectPayload.media items caption).toDict
  have hk : payloadKind d.sorted = .str "media" := payloadKind_sorted d rfl
  have hm : d.sorted.get "media" = .arr (items.map .str) := by
    rw [sorted_get d _ (.arr (items.map .str)) rfl,Json.sortKeys,sortItems_strings]
  have hp : d.sorted.get "media_paths" = .null := sorted_get d _ .null (by cases caption <;> rfl)
  have hc : (d.sorted.get "caption").optStr = nonempty caption :=
    sorted_optStr d _ caption (by cases caption <;> rfl)
  rw [payloadFromMapping,hk]
  simp only [mediaFromMapping]
  rw [hm,hp,hc]
  cases items with
  | nil => rfl
  | cons i is => simp [Json.orElse,Json.truthy,mediaItems,Json.toStr,Function.comp_def]

private theorem truthyMember_eq : truthyMember key v = optMember key (nonempty v) := by
  cases v with
  | none => rfl
  | some s => by_cases h : s = "" <;> simp [truthyMember,nonempty,optMember,Option.filter,h]

private theorem reaction_get {message emoji : String} {participant reason : Option String} :
    Json.get "participant_jid" (EffectPayload.reaction message emoji participant reason).members =
      ((nonempty participant).map Json.str).getD .null ∧
    Json.get "reason" (EffectPayload.reaction message emoji participant reason).members =
      ((nonempty reason).map Json.str).getD .null := by
  simp only [EffectPayload.members,truthyMember_eq]
  constructor
  · cases nonempty participant <;> cases nonempty reason <;> rfl
  · cases nonempty participant <;> cases nonempty reason <;> rfl

private theorem nonempty_idem : nonempty (nonempty v) = nonempty v := by
  cases v with
  | none => rfl
  | some s => by_cases h : s = "" <;> simp [nonempty,Option.filter,h]

private theorem reaction_decodes {message emoji : String} {participant reason : Option String} :
    payloadFromMapping (EffectPayload.reaction message emoji participant reason).toDict.sorted =
      .ok (.reaction message emoji (nonempty participant) (nonempty reason)) := by
  let d := (EffectPayload.reaction message emoji participant reason).toDict
  obtain ⟨hp,hr⟩ := reaction_get
  have hk : payloadKind d.sorted = .str "reaction" := payloadKind_sorted d rfl
  have hm : strField "message_id" d.sorted = message := sorted_strField d _ _ rfl
  have he : strField "emoji" d.sorted = emoji := sorted_strField d _ _ rfl
  rw [payloadFromMapping,hk]
  simp only
  rw [hm,he,sorted_optStr d _ _ hp,sorted_optStr d _ _ hr,nonempty_idem,nonempty_idem]

private theorem externalAction_decodes :
    payloadFromMapping (EffectPayload.externalAction action arguments).toDict.sorted =
      .ok (.externalAction action arguments.sorted) := by
  let d := (EffectPayload.externalAction action arguments).toDict
  have hk : payloadKind d.sorted = .str "external_action" := payloadKind_sorted d rfl
  have hb : strField "action" d.sorted = action := sorted_strField d _ _ rfl
  have ha : d.sorted.get "arguments" = arguments.sorted.toJson := by
    rw [sorted_get d _ arguments.toJson rfl,Dict.toJson_sorted]
  rw [payloadFromMapping,hk]
  simp only [externalActionFromMapping]
  rw [hb,Dict.getDict?_of_get ha]
  split_ifs with hf
  · rfl
  · have he : arguments.sorted = Dict.empty := by
      rw [ha] at hf
      apply Dict.ext
      simpa [Dict.toJson,Json.truthy,Dict.empty] using hf
    rw [he]

theorem decodePayload_canonical : decodePayload (canonicalJson p.toDict.toJson) = .ok p.stored := by
  rw [decodePayload,loadMapping_canonical]
  change payloadFromMapping p.toDict.sorted = _
  cases p with
  | text body replyTo => exact text_decodes
  | media items caption => exact media_decodes
  | forward chat message =>
    let d := (EffectPayload.forward chat message).toDict
    rw [payloadFromMapping,payloadKind_sorted d rfl]
    simp only
    rw [sorted_strField d _ chat rfl,sorted_strField d _ message rfl]
    rfl
  | reaction message emoji participant reason => exact reaction_decodes
  | delete message =>
    let d := (EffectPayload.delete message).toDict
    rw [payloadFromMapping,payloadKind_sorted d rfl]
    simp only
    rw [sorted_strField d _ message rfl]
    rfl
  | externalAction action arguments => exact externalAction_decodes action arguments

private theorem target_get :
    Json.get "thread_id" t.toDict.members = (t.threadId.map Json.str).getD .null ∧
    Json.get "message_id" t.toDict.members = (t.messageId.map Json.str).getD .null := by
  obtain ⟨channel,chat,thread,message,_,_⟩ := t
  constructor
  · cases thread <;> cases message <;> rfl
  · cases thread <;> cases message <;> rfl

theorem decodeTarget_canonical : decodeTarget (canonicalJson t.toDict.toJson) = .ok (some t.stored) := by
  let d := t.toDict
  have hc : strField "channel" d.sorted = t.channel := sorted_strField d _ _ rfl
  have hi : strField "chat_id" d.sorted = t.chatId := sorted_strField d _ _ rfl
  have ht : (d.sorted.get "thread_id").optStr = nonempty t.threadId :=
    sorted_optStr d _ _ (target_get t).1
  have hm : (d.sorted.get "message_id").optStr = nonempty t.messageId :=
    sorted_optStr d _ _ (target_get t).2
  have hl : d.sorted.members ≠ [] := by
    intro he
    have hg := sorted_get d "channel" (.str t.channel) rfl
    rw [Dict.get,he] at hg
    cases hg
  have hn : canonicalJson d.toJson ≠ "" := by
    intro he
    have hd := Dict.loads?_dumps d
    rw [show Json.dumps d.toJson = "" from he] at hd
    cases hd
  have hf : EffectTarget.fromMapping d.sorted = .ok t.stored := by
    unfold EffectTarget.fromMapping EffectTarget.build
    rw [hc,hi,ht,hm,dif_pos ⟨t.channel_ne,t.chatId_ne⟩]
    rfl
  rw [decodeTarget,if_neg hn,loadMapping_canonical]
  simp only [bind,Except.bind,pure,Except.pure,List.isEmpty_iff,hl,if_false,hf,d]

private theorem nonempty_eq {v : Option String} (h : v ≠ some "") : nonempty v = v := by
  cases v with
  | none => rfl
  | some s =>
    have hs : s ≠ "" := fun he => h (congrArg some he)
    simp [nonempty,Option.filter,hs]

private theorem sorted_ne {d e : Dict} (hd : Json.get key d.members = .str "")
    (he : Json.get key e.members = .null) : e.sorted ≠ d.sorted := by
  intro h
  have hs := sorted_get d key _ hd
  rw [← h,sorted_get e key _ he] at hs
  cases hs

private theorem externalAction_sorted :
    (EffectPayload.externalAction action arguments.sorted).toDict.sorted =
      (EffectPayload.externalAction action arguments).toDict.sorted := by
  have hj : (EffectPayload.externalAction action arguments.sorted).toDict.sorted.toJson =
      (EffectPayload.externalAction action arguments).toDict.sorted.toJson := by
    rw [Dict.toJson_sorted,Dict.toJson_sorted]
    simp only [Dict.toJson,EffectPayload.toDict,EffectPayload.members]
    change Json.sortKeys (.obj [_, _, ("arguments", arguments.sorted.toJson)]) =
      Json.sortKeys (.obj [_, _, ("arguments", arguments.toJson)])
    rw [Dict.toJson_sorted]
    simp only [Json.sortKeys,Json.sortMembers,Json.sortKeys_idem]
  exact Dict.ext (Json.obj.inj hj)

/-- The canonical text of the payload read back is the text that was written
exactly when no always-written optional field is empty. -/
theorem payload_text_iff :
    canonicalJson p.stored.toDict.toJson = canonicalJson p.toDict.toJson ↔ p.OptionalsNonempty := by
  unfold canonicalJson
  rw [Dict.dumps_eq_iff]
  cases p with
  | text body replyTo =>
    constructor
    · rintro h rfl
      exact sorted_ne "reply_to" rfl rfl h
    · intro h
      rw [EffectPayload.stored,nonempty_eq h]
  | media items caption =>
    constructor
    · rintro h rfl
      exact sorted_ne "caption" rfl rfl h
    · intro h
      rw [EffectPayload.stored,nonempty_eq h]
  | forward | delete => exact iff_of_true rfl trivial
  | reaction message emoji participant reason =>
    refine iff_of_true ?_ trivial
    congr 1
    apply Dict.ext
    simp only [EffectPayload.stored,EffectPayload.toDict,EffectPayload.members,truthyMember_eq,
      nonempty_idem]
  | externalAction action arguments => exact iff_of_true (externalAction_sorted action arguments) trivial

theorem target_text_iff :
    canonicalJson t.stored.toDict.toJson = canonicalJson t.toDict.toJson ↔ t.OptionalsNonempty := by
  unfold canonicalJson
  rw [Dict.dumps_eq_iff]
  constructor
  · intro h
    constructor
    · intro ht
      refine sorted_ne "thread_id" ?_ ?_ h
      · rw [(target_get t).1,ht]
        rfl
      · rw [(target_get t.stored).1,EffectTarget.stored,ht]
        rfl
    · intro hm
      refine sorted_ne "message_id" ?_ ?_ h
      · rw [(target_get t).2,hm]
        rfl
      · rw [(target_get t.stored).2,EffectTarget.stored,hm]
        rfl
  · rintro ⟨ht,hm⟩
    simp only [EffectTarget.stored,nonempty_eq ht,nonempty_eq hm]

/-- A written effect is read back in every case, and the recomputed hashes are
those of enqueue time exactly when no always-written optional field holds the
empty text, up to a collision of the digest on the two texts. -/
theorem stored_hashes_iff (p : EffectPayload) (t : EffectTarget) :
    ∃ p' t', decodePayload (canonicalJson p.toDict.toJson) = .ok p' ∧
      decodeTarget (canonicalJson t.toDict.toJson) = .ok (some t') ∧
      (p'.payloadHash = p.payloadHash ↔ p.OptionalsNonempty ∨
        Sha256.Collision (canonicalJson p'.toDict.toJson) (canonicalJson p.toDict.toJson)) ∧
      (t'.targetHash = t.targetHash ↔ t.OptionalsNonempty ∨
        Sha256.Collision (canonicalJson t'.toDict.toJson) (canonicalJson t.toDict.toJson)) := by
  refine ⟨p.stored,t.stored,decodePayload_canonical p,decodeTarget_canonical t,?_,?_⟩
  · rw [← payload_text_iff]
    exact Sha256.hexdigest_eq_iff
  · rw [← target_text_iff]
    exact Sha256.hexdigest_eq_iff

/-- A reply to the empty id is hashed with the field and read back without it. -/
theorem empty_reply_changes_hash :
    ∃ p', decodePayload (canonicalJson (EffectPayload.text "hi" (some "")).toDict.toJson) = .ok p' ∧
      p'.payloadHash ≠ (EffectPayload.text "hi" (some "")).payloadHash := by
  refine ⟨.text "hi" none,decodePayload_canonical _,?_⟩
  decide +kernel

end Yeoman.Processing
