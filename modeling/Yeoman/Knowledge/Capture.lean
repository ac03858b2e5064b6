import Mathlib.Data.Finset.Basic

/-! Capturing a statement: its sources are verified, the audience comes from their archived evidence
alone, and the stored row says who may read it. -/
namespace Yeoman.Knowledge

inductive ErrorCode where
  | unauthorized
  | deniedUnknownBasis
  | sourceRevoked
  | invalidInput
deriving DecidableEq

structure KnowledgeError where
  code : ErrorCode
  message : String
deriving DecidableEq

structure SourceRef where
  eventId : String
  revision : Int
  (channel chatId authorPrincipal : String)
  occurredAtMs : Int
deriving DecidableEq

def SourceRef.key (s : SourceRef) : String × Int := (s.eventId, s.revision)

inductive AudienceStatus where
  | known
  | authorOnly
  | unknown

/-- Who may read one archived source revision. -/
structure EvidenceAudience where
  status : AudienceStatus
  members : Finset String := ∅
  snapshotId : Option String := none
  allowed : Finset String := ∅
  explicit : Bool := false

inductive Visibility where
  | authorOnly
  | principals
  | chatShared
deriving DecidableEq

inductive GroupRule where
  | authorOnly
  | explicitPrincipals
  | chatMembersAtSource

inductive LinkRole where
  | speaker
  | other
deriving DecidableEq

structure PersonLinkCandidate where
  personId : String
  role : LinkRole
  source : SourceRef
  transport : Bool

structure StatementCandidate where
  (content extractorVersion : String)
  sources : List SourceRef
  people : List PersonLinkCandidate := []
  sources_ne : sources ≠ []

def StatementCandidate.primary (c : StatementCandidate) : SourceRef := c.sources.head c.sources_ne

structure TrustedCaptureContext where
  authorized : Bool
  authorizedSources : List SourceRef

structure DedupeKey where
  source : SourceRef
  (content extractorVersion : String)
  audience : Finset String
  visibility : Visibility

structure Owners where
  requireCapture : TrustedCaptureContext → Except KnowledgeError Unit
  verifySource : SourceRef → Bool
  verifySourceRef : String → Int → Option SourceRef
  sourceRevoked : SourceRef → Bool
  evidenceAudience : SourceRef → Option EvidenceAudience
  sourcePerson : SourceRef → Option String
  knownPerson : String → Bool
  canonicalId : String → String
  existing : DedupeKey → Option String

/-- What `_resolve_audience` returns. -/
structure Resolution where
  audience : Finset String
  visibility : Visibility
  groupRule : GroupRule
  snapshotId : Option String
  allowed : Finset String

/-- The stored statement as far as readers are concerned: the row and its audience rows. -/
structure StoredStatement where
  visibility : Visibility
  groupRule : GroupRule
  authorPrincipal : String
  snapshotId : Option String
  (audience allowed : Finset String)

inductive Captured where
  | existing (statementId : String)
  | stored (statement : StoredStatement)

def deniedUnknownBasis (message : String) : KnowledgeError := ⟨.deniedUnknownBasis,message⟩

def StoredStatement.effectiveReadPrincipals (s : StoredStatement) : Finset String :=
  if s.visibility = .authorOnly then {s.authorPrincipal} else s.audience

namespace Owners

def verifySources (o : Owners) (context : TrustedCaptureContext) : List SourceRef → Except KnowledgeError Unit
  | [] => .ok ()
  | s :: rest =>
    if !o.verifySource s then .error (deniedUnknownBasis s!"source {s.eventId}@{s.revision} is not proven")
    else if o.verifySourceRef s.eventId s.revision ≠ some s then
      .error (deniedUnknownBasis s!"source provenance mismatch for {s.eventId}@{s.revision}")
    else if !context.authorizedSources.isEmpty && !(context.authorizedSources.map SourceRef.key).contains s.key then
      .error ⟨.unauthorized,s!"source {s.eventId}@{s.revision} is not authorized"⟩
    else if o.sourceRevoked s then .error ⟨.sourceRevoked,s!"source {s.eventId}@{s.revision} is revoked"⟩
    else o.verifySources context rest

def resolveAudienceFrom (o : Owners) (audiences : List (Finset String)) (snapshotId : Option String)
    (explicit : Finset String) : List SourceRef → Except KnowledgeError Resolution
  | [] =>
    let effective := audiences.tail.foldl (· ∩ ·) (audiences.headD ∅)
    if effective = ∅ then .error (deniedUnknownBasis "sources have no common audience")
    else if explicit ≠ ∅ then .ok ⟨effective,.principals,.explicitPrincipals,snapshotId,explicit⟩
    else .ok ⟨effective,.chatShared,.chatMembersAtSource,snapshotId,explicit⟩
  | s :: rest =>
    match o.evidenceAudience s with
    | none => .error (deniedUnknownBasis s!"no proven audience for source {s.eventId}")
    | some r =>
      match r.status with
      | .unknown => .error (deniedUnknownBasis s!"no proven audience for source {s.eventId}")
      -- returns at once, whatever the sources behind this one say
      | .authorOnly => .ok ⟨∅,.authorOnly,.authorOnly,r.snapshotId,∅⟩
      | .known =>
        if r.members = ∅ then .error (deniedUnknownBasis s!"empty proven audience for source {s.eventId}")
        else o.resolveAudienceFrom (audiences ++ [r.members]) ((snapshotId.filter (· ≠ "")).or r.snapshotId)
          (if r.explicit then explicit ∪ r.allowed else explicit) rest

def resolveAudience (o : Owners) : List SourceRef → Except KnowledgeError Resolution :=
  o.resolveAudienceFrom [] none ∅

def validateLink (o : Owners) (c : StatementCandidate) (link : PersonLinkCandidate) : Except KnowledgeError Unit :=
  if !(c.sources.map SourceRef.key).contains link.source.key then
    .error ⟨.invalidInput,"person link references a source that is not part of the statement"⟩
  else if !o.knownPerson link.personId then
    .error ⟨.invalidInput,s!"person link references an unknown person: {link.personId}"⟩
  else if link.role = .speaker ∧ link.transport ∧
      (o.sourcePerson c.primary).map o.canonicalId ≠ some (o.canonicalId link.personId) then
    .error ⟨.unauthorized,"transport speaker must be the author of the source"⟩
  else .ok ()

def validatePeople (o : Owners) (c : StatementCandidate) : Except KnowledgeError Unit :=
  forM c.people (o.validateLink c)

def dedupeKey (c : StatementCandidate) (r : Resolution) : DedupeKey :=
  ⟨c.primary,c.content,c.extractorVersion,if r.visibility = .authorOnly then ∅ else r.audience,r.visibility⟩

def persist (o : Owners) (c : StatementCandidate) (r : Resolution) : Except KnowledgeError Captured :=
  match o.existing (dedupeKey c r) with
  | some statementId => .ok (.existing statementId)
  | none => do
    o.validatePeople c
    return .stored ⟨r.visibility,r.groupRule,c.primary.authorPrincipal,r.snapshotId,
      (dedupeKey c r).audience,if r.visibility = .authorOnly then ∅ else r.allowed⟩

def capture (o : Owners) (context : TrustedCaptureContext) (c : StatementCandidate) :
    Except KnowledgeError Captured := do
  o.requireCapture context
  if !context.authorized then throw ⟨.unauthorized,"capture is not authorized"⟩
  o.verifySources context c.sources
  let r ← o.resolveAudience c.sources
  o.persist c r

def provenAudience (o : Owners) (s : SourceRef) : Option (Finset String) :=
  (o.evidenceAudience s).bind fun r =>
    match r.status with
    | .unknown => none
    | .authorOnly => some {s.authorPrincipal}
    | .known => some r.members

def AuthorOnly (o : Owners) (s : SourceRef) : Prop :=
  ∃ r, o.evidenceAudience s = some r ∧ r.status = .authorOnly

/-- The loop goes on behind the source. -/
def Shared (o : Owners) (s : SourceRef) : Prop :=
  ∃ r, o.evidenceAudience s = some r ∧ r.status = .known ∧ r.members ≠ ∅

def Fresh (o : Owners) (c : StatementCandidate) : Prop :=
  o.existing ⟨c.primary,c.content,c.extractorVersion,∅,.authorOnly⟩ = none ∧ o.validatePeople c = .ok ()

variable {o : Owners} {c : StatementCandidate} {r : Resolution} {pre post : List SourceRef} {s p : SourceRef}

theorem Shared.provenAudience (h : o.Shared p) : ∃ a, o.provenAudience p = some a := by
  obtain ⟨r,hr,hk,-⟩ := h
  exact ⟨r.members,by simp [Owners.provenAudience,hr,hk]⟩

theorem AuthorOnly.provenAudience (h : o.AuthorOnly s) : o.provenAudience s = some {s.authorPrincipal} := by
  obtain ⟨r,hr,ha⟩ := h
  simp [Owners.provenAudience,hr,ha]

theorem foldl_inter_subset (xs : List (Finset String)) (a : Finset String) :
    xs.foldl (· ∩ ·) a ⊆ a ∧ ∀ x ∈ xs, xs.foldl (· ∩ ·) a ⊆ x := by
  induction xs generalizing a with
  | nil => simp
  | cons x xs ih =>
    obtain ⟨hx,hxs⟩ := ih (a ∩ x)
    simp only [List.foldl_cons,List.mem_cons,forall_eq_or_imp]
    exact ⟨hx.trans Finset.inter_subset_left,hx.trans Finset.inter_subset_right,hxs⟩

theorem resolveAudienceFrom_authorOnly (hpre : ∀ p ∈ pre, o.Shared p) (hs : o.AuthorOnly s)
    (audiences : List (Finset String)) (snapshotId : Option String) (explicit : Finset String) :
    ∃ r, o.resolveAudienceFrom audiences snapshotId explicit (pre ++ s :: post) = .ok r ∧
      r.visibility = .authorOnly := by
  induction pre generalizing audiences snapshotId explicit with
  | nil =>
    obtain ⟨r,hr,ha⟩ := hs
    simp [resolveAudienceFrom,hr,ha]
  | cons p pre ih =>
    obtain ⟨r,hr,hk,hm⟩ := hpre p List.mem_cons_self
    simpa [resolveAudienceFrom,hr,hk,hm] using ih (fun q hq => hpre q (List.mem_cons_of_mem p hq)) _ _ _

theorem resolveAudience_authorOnly {sources : List SourceRef} (hsplit : sources = pre ++ s :: post)
    (hpre : ∀ p ∈ pre, o.Shared p) (hs : o.AuthorOnly s) :
    ∃ r, o.resolveAudience sources = .ok r ∧ r.visibility = .authorOnly := by
  rw [hsplit]
  exact resolveAudienceFrom_authorOnly hpre hs [] none ∅

/-- The ways the loop ends: closed on a source or at its end, at the first author-only source, or
with the common audience of sources that are all shared. -/
theorem resolveAudienceFrom_cases (sources : List SourceRef) (audiences : List (Finset String))
    (snapshotId : Option String) (explicit : Finset String) :
    (∃ m, o.resolveAudienceFrom audiences snapshotId explicit sources = .error (deniedUnknownBasis m)) ∨
    (∃ pre s post, sources = pre ++ s :: post ∧ (∀ p ∈ pre, o.Shared p) ∧ o.AuthorOnly s) ∨
    (∃ r, o.resolveAudienceFrom audiences snapshotId explicit sources = .ok r ∧ r.visibility ≠ .authorOnly ∧
      (∀ a ∈ audiences, r.audience ⊆ a) ∧
      ∀ p ∈ sources, ∃ a, o.provenAudience p = some a ∧ r.audience ⊆ a) := by
  induction sources generalizing audiences snapshotId explicit with
  | nil =>
    have hall : ∀ a ∈ audiences, audiences.tail.foldl (· ∩ ·) (audiences.headD ∅) ⊆ a := by
      cases audiences with
      | nil => simp
      | cons a as => simpa using foldl_inter_subset as a
    unfold resolveAudienceFrom
    dsimp only
    split
    · exact .inl ⟨_,rfl⟩
    · split
      · exact .inr (.inr ⟨_,rfl,nofun,hall,nofun⟩)
      · exact .inr (.inr ⟨_,rfl,nofun,hall,nofun⟩)
  | cons p sources ih =>
    cases hp : o.evidenceAudience p with
    | none => exact .inl ⟨_,by simp [resolveAudienceFrom,hp]; rfl⟩
    | some r =>
      cases hk : r.status with
      | unknown => exact .inl ⟨_,by simp [resolveAudienceFrom,hp,hk]; rfl⟩
      | authorOnly => exact .inr (.inl ⟨[],p,sources,rfl,nofun,r,hp,hk⟩)
      | known =>
        by_cases hm : r.members = ∅
        · exact .inl ⟨_,by simp [resolveAudienceFrom,hp,hk,hm]; rfl⟩
        · have hshared : o.Shared p := ⟨r,hp,hk,hm⟩
          have hproven : o.provenAudience p = some r.members := by simp [provenAudience,hp,hk]
          have hstep : o.resolveAudienceFrom audiences snapshotId explicit (p :: sources) =
              o.resolveAudienceFrom (audiences ++ [r.members]) ((snapshotId.filter (· ≠ "")).or r.snapshotId)
                (if r.explicit then explicit ∪ r.allowed else explicit) sources := by
            simp [resolveAudienceFrom,hp,hk,hm]
          rw [hstep]
          rcases ih (audiences ++ [r.members]) ((snapshotId.filter (· ≠ "")).or r.snapshotId)
            (if r.explicit then explicit ∪ r.allowed else explicit) with hd | ⟨pre,s,post,rfl,hpre,hs⟩ | ⟨q,hq,hv,ha,hs⟩
          · exact .inl hd
          · exact .inr (.inl ⟨p :: pre,s,post,rfl,by simpa using ⟨hshared,hpre⟩,hs⟩)
          · refine .inr (.inr ⟨q,hq,hv,fun a h => ha a (List.mem_append_left _ h),?_⟩)
            simpa [hproven] using ⟨ha r.members (by simp),hs⟩

variable {st : StoredStatement} (m : String)

theorem validatePeople_ne_denied : o.validatePeople c ≠ .error (deniedUnknownBasis m) := by
  unfold validatePeople
  induction c.people with
  | nil => simp [pure,Except.pure]
  | cons link links ih =>
    intro h
    cases hl : o.validateLink c link with
    | ok _ => exact ih (by simpa [hl,bind,Except.bind] using h)
    | error e =>
      have he : e = deniedUnknownBasis m := by simpa [hl,bind,Except.bind] using h
      subst he
      unfold validateLink at hl
      repeat' split at hl
      all_goals simp [deniedUnknownBasis] at hl

theorem persist_ne_denied : o.persist c r ≠ .error (deniedUnknownBasis m) := by
  intro h
  unfold persist at h
  split at h
  · cases h
  · cases hp : o.validatePeople c with
    | ok _ => simp [hp,bind,Except.bind,pure,Except.pure] at h
    | error e => exact validatePeople_ne_denied m (hp.trans (by simpa [hp,bind,Except.bind] using h))

theorem effectiveReadPrincipals_of_persist (h : o.persist c r = .ok (.stored st)) :
    st.effectiveReadPrincipals = if r.visibility = .authorOnly then {c.primary.authorPrincipal} else r.audience := by
  unfold persist at h
  split at h
  · cases h
  · cases hp : o.validatePeople c with
    | error e => simp [hp,bind,Except.bind] at h
    | ok _ =>
      simp only [hp,bind,Except.bind,pure,Except.pure,Except.ok.injEq,Captured.stored.injEq] at h
      subst h
      by_cases hv : r.visibility = .authorOnly <;> simp [StoredStatement.effectiveReadPrincipals,dedupeKey,hv]

theorem persist_fresh (hf : o.Fresh c) (hv : r.visibility = .authorOnly) : ∃ st, o.persist c r = .ok (.stored st) := by
  have he : o.existing (dedupeKey c r) = none := by simpa [dedupeKey,hv] using hf.1
  simp [persist,he,hf.2,bind,Except.bind,pure,Except.pure]

theorem fresh_of_persist (h : o.persist c r = .ok (.stored st)) (hv : r.visibility = .authorOnly) : o.Fresh c := by
  unfold persist at h
  split at h
  · cases h
  next he =>
    refine ⟨by simpa [dedupeKey,hv] using he,?_⟩
    cases hp : o.validatePeople c with
    | ok _ => rfl
    | error e => simp [hp,bind,Except.bind] at h

/-- For verified sources the readers of a new statement are among those every source proves, and an
unknown audience closes the capture, exactly if at the first author-only source behind shared ones no later
source has an unknown audience and, where the statement is new, every source is for the primary author. -/
theorem capture_keeps_audience_iff (o : Owners) (context : TrustedCaptureContext) (c : StatementCandidate)
    (hreq : o.requireCapture context = .ok ()) (hauth : context.authorized = true)
    (hsources : o.verifySources context c.sources = .ok ()) :
    ((∀ st, o.capture context c = .ok (.stored st) → ∀ p ∈ c.sources, ∀ a, o.provenAudience p = some a →
        st.effectiveReadPrincipals ⊆ a) ∧
      ∀ p ∈ c.sources, o.provenAudience p = none → ∃ m, o.capture context c = .error (deniedUnknownBasis m)) ↔
    ∀ pre s post, c.sources = pre ++ s :: post → (∀ p ∈ pre, o.Shared p) → o.AuthorOnly s →
      (∀ p ∈ post, o.provenAudience p ≠ none) ∧
      (o.Fresh c → ∀ p ∈ c.sources, ∀ a, o.provenAudience p = some a → c.primary.authorPrincipal ∈ a) := by
  have hcapture : o.capture context c = (o.resolveAudience c.sources).bind (o.persist c) := by
    simp [capture,hreq,hauth,hsources,bind,Except.bind]
  rw [hcapture]
  constructor
  · rintro ⟨hstored,hunknown⟩ pre s post hsplit hpre hs
    obtain ⟨r,hr,hv⟩ := resolveAudience_authorOnly hsplit hpre hs
    rw [hr] at hstored hunknown
    refine ⟨fun p hp hnone => ?_,fun hf p hp a ha => ?_⟩
    · obtain ⟨m,hm⟩ := hunknown p (by simp [hsplit,hp]) hnone
      exact persist_ne_denied m hm
    · obtain ⟨st,hst⟩ := persist_fresh hf hv
      have hsub := hstored st hst p hp a ha
      rw [effectiveReadPrincipals_of_persist hst,if_pos hv] at hsub
      exact Finset.singleton_subset_iff.mp hsub
  · intro hsafe
    rcases resolveAudienceFrom_cases c.sources [] none ∅ with ⟨m,hm⟩ | ⟨pre,s,post,hsplit,hpre,hs⟩ | ⟨r,hr,hv,-,hall⟩
    · have hm : o.resolveAudience c.sources = .error (deniedUnknownBasis m) := hm
      simp [hm,Except.bind]
    · obtain ⟨hpost,hauthor⟩ := hsafe pre s post hsplit hpre hs
      obtain ⟨r,hr,hv⟩ := resolveAudience_authorOnly hsplit hpre hs
      rw [hr]
      refine ⟨fun st hst p hp a ha => ?_,fun p hp hnone => ?_⟩
      · rw [effectiveReadPrincipals_of_persist hst,if_pos hv,Finset.singleton_subset_iff]
        exact hauthor (fresh_of_persist hst hv) p hp a ha
      · -- the unknown source would stand before, at or behind the author-only one
        rw [hsplit,List.mem_append,List.mem_cons] at hp
        rcases hp with hp | rfl | hp
        · obtain ⟨a,ha⟩ := (hpre p hp).provenAudience
          exact absurd (hnone.symm.trans ha) nofun
        · exact absurd (hnone.symm.trans hs.provenAudience) nofun
        · exact absurd hnone (hpost p hp)
    · have hr : o.resolveAudience c.sources = .ok r := hr
      rw [hr]
      refine ⟨fun st hst p hp a ha => ?_,fun p hp hnone => ?_⟩
      · obtain ⟨b,hb,hsub⟩ := hall p hp
        rw [effectiveReadPrincipals_of_persist hst,if_neg hv]
        exact Option.some.inj (hb.symm.trans ha) ▸ hsub
      · obtain ⟨b,hb,-⟩ := hall p hp
        exact absurd (hnone.symm.trans hb) nofun

end Owners

def twoMessages (first second : EvidenceAudience) : Owners where
  requireCapture := fun _ => .ok ()
  verifySource := fun _ => true
  verifySourceRef := fun event revision => some ⟨event,revision,"whatsapp","group",if event = "m1" then "anna" else "bert",1⟩
  sourceRevoked := fun _ => false
  evidenceAudience := fun s => some (if s.eventId = "m1" then first else second)
  sourcePerson := fun _ => none
  knownPerson := fun _ => true
  canonicalId := id
  existing := fun _ => none

def jointStatement : StatementCandidate where
  content := "they meet on friday"
  extractorVersion := "v1"
  sources := [⟨"m1",1,"whatsapp","group","anna",1⟩, ⟨"m2",1,"whatsapp","group","bert",1⟩]
  sources_ne := by simp

/-- What only bert may read becomes readable for anna and not for bert, and behind an author-only
source an unknown audience is never looked at. -/
theorem author_only_source_hides_the_others :
    (∃ st, (twoMessages ⟨.known,{"anna", "bert"},none,∅,false⟩ ⟨.authorOnly,∅,none,∅,false⟩).capture
        ⟨true,[]⟩ jointStatement = .ok (.stored st) ∧ ¬ st.effectiveReadPrincipals ⊆ {"bert"}) ∧
    ∃ st, (twoMessages ⟨.authorOnly,∅,none,∅,false⟩ ⟨.unknown,∅,none,∅,false⟩).capture
        ⟨true,[]⟩ jointStatement = .ok (.stored st) :=
  ⟨⟨_,rfl,by decide⟩,_,rfl⟩

def sharedMessages : Owners :=
  twoMessages ⟨.known,{"anna", "bert"},none,∅,false⟩ ⟨.known,{"bert"},none,∅,false⟩

/-- They meet the condition, and the statement is for bert alone. -/
theorem shared_messages_keep_audience :
    (∃ st, sharedMessages.capture ⟨true,[]⟩ jointStatement = .ok (.stored st) ∧ st.effectiveReadPrincipals = {"bert"}) ∧
    ∀ st, sharedMessages.capture ⟨true,[]⟩ jointStatement = .ok (.stored st) → ∀ p ∈ jointStatement.sources, ∀ a,
      sharedMessages.provenAudience p = some a → st.effectiveReadPrincipals ⊆ a :=
  ⟨⟨_,rfl,by decide⟩,((Owners.capture_keeps_audience_iff _ _ _ rfl rfl (by decide)).mpr fun pre s post _ _ ⟨r,hr,ha⟩ => by
    have hr := Option.some.inj hr
    split at hr <;> · subst hr; cases ha).1⟩

end Yeoman.Knowledge
