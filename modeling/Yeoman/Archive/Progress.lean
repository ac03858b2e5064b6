import Yeoman.Archive.Retention

/-! Whether a line can hold up the archive. Lines that can be published and whose files are open
drain as soon as the file operations succeed again. A line for a sealed month at the head of the
spool, or one that cannot be encoded at the head of the memory queue, stops everything behind it. -/
namespace Yeoman.Archive
open Library

namespace RawArchive

/-- A part of the writer seals nothing and puts only lines with the property into the queues. -/
structure Confined (P : Line → Prop) (a b : RawArchive) : Prop where
  sealed : b.sealed = a.sealed
  queued : (∀ x ∈ a.spool ++ a.pending, P x) → ∀ x ∈ b.spool ++ b.pending, P x

namespace Confined
variable {P : Line → Prop} {a b c : RawArchive}

theorem trans (h : Confined P a b) (h' : Confined P b c) : Confined P a c :=
  ⟨h'.sealed.trans h.sealed,fun hx => h'.queued (h.queued hx)⟩

theorem of_subset (hs : b.sealed = a.sealed)
    (h : ∀ x, x ∈ b.spool ++ b.pending → x ∈ a.spool ++ a.pending) : Confined P a b :=
  ⟨hs,fun hx x hmem => hx x (h x hmem)⟩

theorem of_queues (hs : b.sealed = a.sealed) (hsp : b.spool = a.spool) (hp : b.pending = a.pending) :
    Confined P a b :=
  of_subset hs fun x hx => by rwa [hsp,hp] at hx

theorem of_added {q : Line} (hq : P q) (hs : b.sealed = a.sealed)
    (h : ∀ x, x ∈ b.spool ++ b.pending → x ∈ a.spool ++ a.pending ∨ x = q) : Confined P a b := by
  refine ⟨hs,fun hx x hmem => ?_⟩
  rcases h x hmem with hmem | rfl
  · exact hx x hmem
  · exact hq

theorem op : Confined P a a.op.2 := of_queues rfl rfl rfl

theorem publishStatusLocked : Confined P a a.publishStatusLocked := by
  refine of_queues ?_ publishStatusLocked_queues.1 publishStatusLocked_queues.2
  unfold RawArchive.publishStatusLocked
  dsimp only
  split_ifs <;> rfl

theorem appendArchiveLine (a : RawArchive) (q : Line) : Confined P a (a.appendArchiveLine q).2 := by
  refine of_queues ?_ appendArchiveLine_queues.1 appendArchiveLine_queues.2
  have hc := appendArchiveLine_cases a q
  generalize a.appendArchiveLine q = r at hc
  obtain ⟨r,b⟩ := r
  cases hc <;> rfl

theorem drainItems (items : List Line) (a : RawArchive) : Confined P a (drainItems items a).2 := by
  have hfirst : ∀ b : RawArchive, Confined P b b.unlinkFirst ∧ Confined P b b.quarantineFirst := by
    intro b
    have hsub : ∀ x, x ∈ b.spool.tail ++ b.pending → x ∈ b.spool ++ b.pending := fun x hx =>
      (List.mem_append.mp hx).elim (fun hx => List.mem_append_left _ (List.mem_of_mem_tail hx))
        (List.mem_append_right _)
    exact ⟨of_subset rfl hsub,of_subset rfl hsub⟩
  induction items generalizing a with
  | nil => exact of_queues rfl rfl rfl
  | cons q items ih =>
    have hguard : Confined P a (if q.media then a.op.2.op else (0, a.op.2)).2 := by
      split_ifs
      · exact op.trans op
      · exact op
    simp only [RawArchive.drainItems]
    generalize (if q.media then a.op.2.op else (0, a.op.2)) = g at hguard ⊢
    obtain ⟨n,b⟩ := g
    have happ := hguard.trans (appendArchiveLine b q)
    split_ifs
    · exact op
    · exact hguard
    · generalize b.appendArchiveLine q = t at happ ⊢
      obtain ⟨r,c⟩ := t
      rcases r with r | r
      · cases r with
        | osError | overflowError | capacityError => exact happ
        | valueError =>
          dsimp only
          split_ifs
          · exact happ.trans op
          · exact ((happ.trans op).trans (hfirst _).2).trans (ih _)
      · dsimp only
        split_ifs
        · exact happ.trans op
        · exact ((happ.trans op).trans (hfirst _).1).trans (ih _)
variable (waiting : List Line)

theorem drainPending (a : RawArchive) (hp : a.pending = waiting) : Confined P a (drainPending waiting a).2 := by
  induction waiting generalizing a with
  | nil => exact of_queues rfl rfl rfl
  | cons q rest ih =>
    have happ := appendArchiveLine (P := P) a q
    have hq := (appendArchiveLine_queues (a := a) (q := q)).2
    simp only [RawArchive.drainPending]
    generalize a.appendArchiveLine q = t at happ hq ⊢
    obtain ⟨r,b⟩ := t
    rcases r with r | r
    · cases r <;> exact happ
    · have hdrop : Confined P b { b with pending := rest } := of_subset rfl fun x hx => by
        rw [show b.pending = q :: rest from hq.trans hp]
        exact (List.mem_append.mp hx).elim (List.mem_append_left _) fun hx =>
          List.mem_append_right _ (List.mem_cons_of_mem _ hx)
      exact (happ.trans hdrop).trans (ih _ rfl)

theorem drainLocked : Confined P a a.drainLocked.2 := by
  have hscan : Confined P a a.spooledFiles.2 := of_queues rfl rfl rfl
  have hitems := hscan.trans (drainItems a.spooledFiles.1 a.spooledFiles.2)
  unfold RawArchive.drainLocked
  dsimp only
  generalize RawArchive.drainItems a.spooledFiles.1 a.spooledFiles.2 = t at hitems ⊢
  obtain ⟨r,b⟩ := t
  rcases r with r | ⟨moved,ended⟩
  · exact hitems
  · cases ended with
    | false => exact hitems
    | true =>
      have hpend := hitems.trans (drainPending b.pending b rfl)
      dsimp only
      generalize RawArchive.drainPending b.pending b = t at hpend ⊢
      obtain ⟨r,c⟩ := t
      cases r with
      | error r => exact hpend
      | ok more => exact hpend.trans (of_queues rfl rfl rfl)

variable {q : Line}

theorem spoolLineLocked (hq : P q) : Confined P a (a.spoolLineLocked q).2 := by
  have hc := spoolLineLocked_cases a q
  generalize a.spoolLineLocked q = t at hc
  obtain ⟨ok,b⟩ := t
  cases hc with
  | failed ops => exact of_queues rfl rfl rfl
  | made ops =>
    refine of_added hq rfl fun x hx => ?_
    simp only [List.mem_append,List.mem_singleton] at hx ⊢
    tauto

theorem rememberLocked (hq : P q) : Confined P a (a.rememberLocked q).2 := by
  unfold RawArchive.rememberLocked
  split_ifs
  · exact (of_queues rfl rfl rfl : Confined P a { a with capacityBlocked := true }).trans publishStatusLocked
  · refine of_added hq rfl fun x hx => ?_
    simp only [List.mem_append,List.mem_singleton] at hx ⊢
    tauto

theorem spoolPending (a : RawArchive) (hp : a.pending = waiting) : Confined P a (spoolPending waiting a) := by
  induction waiting generalizing a with
  | nil => exact of_queues rfl rfl rfl
  | cons q rest ih =>
    have hc := spoolLineLocked_cases a q
    simp only [RawArchive.spoolPending]
    generalize a.spoolLineLocked q = t at hc ⊢
    obtain ⟨ok,b⟩ := t
    have hmem : q ∈ a.pending := hp ▸ List.mem_cons_self
    cases hc with
    | failed ops => exact of_queues rfl rfl rfl
    | made ops =>
      cases ok with
      | true =>
        have hmove : Confined P a { a.withOps ops with spool := a.spool ++ [q], pending := rest } :=
          of_subset rfl fun x hx => by
            rw [hp]
            simpa [or_assoc] using hx
        exact hmove.trans (ih _ rfl)
      | false =>
        refine of_subset rfl fun x hx => ?_
        simp only [List.mem_append,List.mem_singleton] at hx ⊢
        rcases hx with (hx | rfl) | hx
        · exact .inl hx
        · exact .inr hmem
        · exact .inr hx
variable {retain reportSpooled : Bool}

theorem spoolOrRemember (hq : P q) : Confined P a (a.spoolOrRemember q retain).2 := by
  have hs := spoolLineLocked (a := a) hq
  unfold RawArchive.spoolOrRemember
  generalize a.spoolLineLocked q = t at hs ⊢
  obtain ⟨ok,b⟩ := t
  cases ok with
  | true => exact hs
  | false =>
    split_ifs
    · exact hs.trans (rememberLocked hq)
    · exact hs

theorem deferLocked (hq : P q) (retain : Bool) : Confined P a (a.deferLocked q retain).2 := by
  have hmove : Confined P a (RawArchive.spoolPending a.pending a).unblock :=
    (spoolPending a.pending a rfl).trans (of_queues rfl rfl rfl)
  unfold RawArchive.deferLocked
  dsimp only
  split_ifs
  · exact hmove.trans (rememberLocked hq)
  · exact hmove
  · exact hmove.trans (spoolOrRemember hq)
  · exact spoolOrRemember hq

theorem deferAndPublish (hq : P q) : Confined P a (a.deferAndPublish q retain reportSpooled).2 := by
  have hd := deferLocked (a := a) hq retain
  unfold RawArchive.deferAndPublish
  generalize a.deferLocked q retain = t at hd ⊢
  obtain ⟨r,b⟩ := t
  cases r with
  | error r => exact hd
  | ok spooled => exact hd.trans publishStatusLocked

theorem commitLine (hq : P q) (retain reportSpooled : Bool) :
    Confined P a (a.commitLine q retain reportSpooled).2 := by
  have hdrain := drainLocked (P := P) (a := a)
  unfold RawArchive.commitLine
  generalize a.drainLocked = t at hdrain ⊢
  obtain ⟨r,b⟩ := t
  cases r with
  | error r => exact hdrain
  | ok moved =>
    have hback : Confined P b b.hasBacklogLocked.2 := by
      unfold hasBacklogLocked
      split_ifs <;> exact of_queues rfl rfl rfl
    dsimp only at hdrain ⊢
    generalize b.hasBacklogLocked = t at hback ⊢
    obtain ⟨backlog,c⟩ := t
    have hc := hdrain.trans hback
    have happ := hc.trans (appendArchiveLine c q)
    split_ifs
    · exact hc.trans (deferAndPublish hq)
    · generalize c.appendArchiveLine q = t at happ ⊢
      obtain ⟨r,d⟩ := t
      rcases r with r | r
      · cases r with
        | osError => exact happ.trans (deferAndPublish hq)
        | valueError | overflowError | capacityError => exact happ
      · exact happ.trans publishStatusLocked

theorem submit (hq : P q) : Confined P a (a.submit q retain reportSpooled).2 := by
  have hc := commitLine (a := a) hq retain reportSpooled
  unfold RawArchive.submit
  generalize a.commitLine q retain reportSpooled = t at hc ⊢
  obtain ⟨r,b⟩ := t
  cases r with
  | error r => exact hc
  | ok result => exact hc.trans (of_queues rfl rfl rfl)

end Confined

end RawArchive

def Line.Open (sealed : Destination → Bool) (q : Line) : Prop :=
  q.publishable = true ∧ ∀ d, q.path = .ok d → sealed d = false

def RawEvent.Open (event : RawEvent) (sealed : Destination → Bool) (now : Int) : Prop :=
  event.Publishable now ∧ ∀ channel m, safeChannel event.channel = .ok channel →
    monthOf (event.receivedMs.getD now) = .ok m → sealed (.month channel m) = false

def Call.Open (sealed : Destination → Bool) (now : Int) : Call → Prop
  | .append event | .appendDurable event | .appendWithMedia event _ _ | .appendDurableWithMedia event _ _ =>
    event.Open sealed now
  | .appendMediaDescription record | .appendMediaTranscript record => publishableText record.text = true

/-- No call brings a line that cannot be published or whose month is sealed, and no month is sealed
while one of its lines waits. -/
def Action.Unsealed (a : RawArchive) : Action → Prop
  | .call c now _ => c.Open a.sealed now
  | .verifyArchive now scanned => a.writerHasBacklog scanned = true ∨
      ∀ q ∈ a.spool ++ a.pending, ∀ d m, q.path = .ok d → monthOf now = .ok m → a.closes m d = false
  | .drainSpool _ | .purge _ => True

namespace RawArchive
variable {a : RawArchive}

structure Draining (a : RawArchive) : Prop where
  derived : ∀ file, a.sealed (.derived file) = false
  queued : ∀ x ∈ a.spool ++ a.pending, x.Open a.sealed

theorem Draining.of_confined {b : RawArchive} (h : a.Draining) (hc : Confined (Line.Open a.sealed) a b) :
    b.Draining :=
  ⟨fun file => hc.sealed ▸ h.derived file,fun x hx => hc.sealed ▸ hc.queued h.queued x hx⟩

variable {event : RawEvent} {now : Int} {media : Option Media}

theorem RawEvent.Open.line {sealed : Destination → Bool} (h : event.Open sealed now)
    {channel : String} (hc : safeChannel event.channel = .ok channel) {call : Nat} {stored : Bool} :
    Line.Open sealed ⟨call,channel,event.receivedMs.getD now,event.render (event.receivedMs.getD now) media,none,stored⟩ := by
  have hmonth := h.1.1
  unfold Line.Open Line.publishable Line.path
  cases hm : monthOf (event.receivedMs.getD now) with
  | error r => rw [hm] at hmonth; cases hmonth
  | ok m =>
    refine ⟨h.1.2 media,fun d hd => ?_⟩
    cases hd
    exact h.2 channel m hc hm

variable {c : Call} {q : Line}

theorem Draining.open_of_makes (h : a.Draining) (hc : c.Open a.sealed now) {calls : Nat} (hq : c.Makes calls now q) :
    q.Open a.sealed := by
  have hevent {event : RawEvent} (ho : event.Open a.sealed now) (hq : event.Makes calls now q) : q.Open a.sealed := by
    obtain ⟨channel,media,stored,hch,rfl⟩ := hq
    exact RawEvent.Open.line ho hch
  cases c with
  | append | appendDurable | appendWithMedia | appendDurableWithMedia => exact hevent hc hq
  | appendMediaDescription | appendMediaTranscript =>
    obtain ⟨channel,generatedMs,file,rfl⟩ := hq
    refine ⟨(Bool.true_and _).trans hc,fun d hd => ?_⟩
    cases hd
    exact h.derived file

theorem perform_confined (h : a.Draining) (hc : c.Open a.sealed now) (faults : Faults) :
    Confined (Line.Open a.sealed) a (a.perform c now faults).2 := by
  have hp := perform_performed a c now faults
  generalize a.perform c now faults = t at hp ⊢
  have hops (ops : List Nat) : Confined (Line.Open a.sealed) a (withOps { a with faults := faults } ops) :=
    .of_queues rfl rfl rfl
  cases hp with
  | raised => exact hops _
  | submitted _ _ hq => exact (hops _).trans (.submit (h.open_of_makes hc hq))

theorem drainSpool_confined {P : Line → Prop} : Confined P a a.drainSpool.2 := by
  have hdrain := Confined.drainLocked (P := P) (a := a)
  unfold drainSpool
  generalize a.drainLocked = t at hdrain ⊢
  obtain ⟨r,b⟩ := t
  cases r with
  | error r => exact hdrain
  | ok moved => exact hdrain.trans .publishStatusLocked

theorem Draining.step (h : a.Draining) {act : Action} (hu : act.Unsealed a) : (a.step act).Draining := by
  cases act with
  | call c now faults =>
    have hb := h.of_confined (perform_confined h hu faults)
    exact { hb with }
  | drainSpool faults =>
    have hf : Confined (Line.Open a.sealed) a { a with faults := faults } := .of_queues rfl rfl rfl
    exact h.of_confined (hf.trans drainSpool_confined)
  | purge disposes => exact { h with }
  | verifyArchive now scanned =>
    change Draining (a.verifyArchive now scanned)
    unfold verifyArchive
    cases hm : monthOf now with
    | error r => exact h
    | ok current =>
      split_ifs with hb
      · exact h
      · refine ⟨fun file => ?_,fun x hx => ⟨(h.queued x hx).1,fun d hd => ?_⟩⟩
        · change (a.sealed (.derived file) || false) = false
          rw [h.derived file]
          rfl
        · change (a.sealed d || a.closes current d) = false
          rcases hu with hu | hu
          · exact absurd hu hb
          · rw [(h.queued x hx).2 d hd,hu x hx d current hd hm]
            rfl

/-- Every file operation to come succeeds. -/
def Clear (a : RawArchive) : Prop := a.faults = {}

theorem Clear.op (h : a.Clear) : a.op = (0, a) := by
  obtain ⟨files,sealed,spool,corrupt,pending,capacityBlocked,status,disposed,calls,answers,faults⟩ := a
  cases h
  rfl

theorem Clear.spooledFiles (h : a.Clear) : a.spooledFiles = (a.spool, a) := by
  obtain ⟨files,sealed,spool,corrupt,pending,capacityBlocked,status,disposed,calls,answers,faults⟩ := a
  cases h
  rfl

theorem Clear.appendArchiveLine (h : a.Clear) (hq : q.Open a.sealed) :
    ∃ appended b, a.appendArchiveLine q = (.ok appended, b) ∧ b.Clear ∧ b.sealed = a.sealed ∧
      b.spool = a.spool ∧ b.pending = a.pending := by
  obtain ⟨hp,hopen⟩ := hq
  unfold Line.publishable publishableText at hp
  unfold RawArchive.appendArchiveLine
  cases hd : q.path with
  | error r => rw [hd] at hp; simp [Except.isOk,Except.toBool] at hp
  | ok d =>
    cases he : encode q.text with
    | none => rw [he] at hp; simp at hp
    | some bytes =>
      have hnl : ¬(q.text.contains 10 || q.text.contains 13) = true := by
        intro hnl
        rw [hnl] at hp
        simp at hp
      have hsealed : ¬a.sealed d = true := by rw [hopen d hd]; exact Bool.false_ne_true
      simp only [h.op,if_neg hnl,ne_eq,not_true_eq_false,if_false,if_neg hsealed,if_true]
      split_ifs
      · exact ⟨false,a,rfl,h,rfl,rfl,rfl⟩
      · exact ⟨true,_,rfl,h,rfl,rfl,rfl⟩

theorem Clear.drainItems (items : List Line) (a : RawArchive) (h : a.Clear) (hs : a.spool = items)
    (ho : ∀ x ∈ items, x.Open a.sealed) :
    ∃ b, drainItems items a = (.ok (items.length, true), b) ∧ b.Clear ∧ b.sealed = a.sealed ∧
      b.spool = [] ∧ b.pending = a.pending := by
  induction items generalizing a with
  | nil => exact ⟨a,rfl,h,rfl,hs,rfl⟩
  | cons q items ih =>
    obtain ⟨appended,b,hb,hclear,hseal,hsp,hpe⟩ := h.appendArchiveLine (ho q List.mem_cons_self)
    obtain ⟨c,hc,hcc,hcs,hcsp,hcp⟩ := ih b.unlinkFirst hclear (by
      change b.spool.tail = items
      rw [hsp,hs]
      rfl) fun x hx => by
        change x.Open b.sealed
        rw [hseal]
        exact ho x (List.mem_cons_of_mem _ hx)
    refine ⟨c,?_,hcc,hcs.trans hseal,hcsp,hcp.trans hpe⟩
    simp only [RawArchive.drainItems,h.op,ite_self,hb,hclear.op,hc,ne_eq,not_true_eq_false,if_false]
    rfl

theorem Clear.drainPending (waiting : List Line) (a : RawArchive) (h : a.Clear) (hp : a.pending = waiting)
    (ho : ∀ x ∈ waiting, x.Open a.sealed) :
    ∃ b, drainPending waiting a = (.ok waiting.length, b) ∧ b.Clear ∧ b.sealed = a.sealed ∧
      b.spool = a.spool ∧ b.pending = [] := by
  induction waiting generalizing a with
  | nil => exact ⟨a,rfl,h,rfl,rfl,hp⟩
  | cons q rest ih =>
    obtain ⟨appended,b,hb,hclear,hseal,hsp,hpe⟩ := h.appendArchiveLine (ho q List.mem_cons_self)
    obtain ⟨c,hc,hcc,hcs,hcsp,hcp⟩ := ih { b with pending := rest } hclear rfl fun x hx => by
      rw [hseal]
      exact ho x (List.mem_cons_of_mem _ hx)
    refine ⟨c,?_,hcc,hcs.trans hseal,hcsp.trans hsp,hcp⟩
    simp only [RawArchive.drainPending,hb,hc]
    rfl

theorem Clear.drainLocked (h : a.Clear) (hd : a.Draining) :
    ∃ b, a.drainLocked = (.ok (a.spool.length + a.pending.length), b) ∧ b.Clear ∧ b.sealed = a.sealed ∧
      b.spool = [] ∧ b.pending = [] := by
  obtain ⟨b,hb,hclear,hseal,hsp,hpe⟩ := Clear.drainItems a.spool a h rfl fun x hx =>
    hd.queued x (List.mem_append_left _ hx)
  obtain ⟨c,hc,hcc,hcs,hcsp,hcp⟩ := Clear.drainPending b.pending b hclear rfl fun x hx => by
    rw [hseal]
    exact hd.queued x (List.mem_append_right _ (hpe ▸ hx))
  rw [hpe] at hc
  refine ⟨c.unblock,?_,hcc,hcs.trans hseal,hcsp.trans hsp,hcp⟩
  rw [RawArchive.drainLocked,h.spooledFiles]
  simp only [hb,hpe,hc]

theorem Clear.submit (h : a.Clear) (hd : a.Draining) (hq : q.Open a.sealed) {retain reportSpooled : Bool} :
    (a.submit q retain reportSpooled).1 = .ok true ∧
      (a.submit q retain reportSpooled).2.spool = [] ∧ (a.submit q retain reportSpooled).2.pending = [] := by
  obtain ⟨b,hb,hclear,hseal,hsp,hpe⟩ := h.drainLocked hd
  obtain ⟨appended,c,hc,hcc,-,hcsp,hcp⟩ := hclear.appendArchiveLine (hseal ▸ hq)
  have hback : b.hasBacklogLocked = (false, b) := by
    rw [hasBacklogLocked,if_neg (by simpa using hpe),hclear.spooledFiles,hsp]
    rfl
  have hq' := publishStatusLocked_queues (a := c)
  unfold RawArchive.submit commitLine
  rw [hb]
  dsimp only
  rw [hback]
  rw [if_neg Bool.false_ne_true,hc]
  exact ⟨rfl,hq'.1.trans (hcsp.trans hsp),hq'.2.trans (hcp.trans hpe)⟩

theorem perform_clear (hd : a.Draining) (ho : c.Open a.sealed now) (hw : c.wellFormed = true) :
    (a.perform c now {}).1 = .ok true ∧ (a.perform c now {}).2.spool = [] ∧ (a.perform c now {}).2.pending = [] := by
  have hp := perform_performed a c now {}
  generalize a.perform c now {} = t at hp ⊢
  cases hp with
  | raised hraised => cases hraised.symm.trans hw
  | submitted _ hops hq =>
    cases List.suffix_nil.mp hops
    have hclear : Clear { a with faults := {} } := rfl
    exact hclear.submit { hd with } (hd.open_of_makes ho hq)

/-- After a run whose lines could all be published and whose months were open for them, one drain
without failures empties both queues, and every further append is answered true. -/
theorem no_line_blocks (acts : List Action) (h : Runs.Along step (fun a act => act.Unsealed a) {} acts) :
    let a := after acts
    let drained := drainSpool { a with faults := {} }
    drained.1 = .ok (a.spool.length + a.pending.length) ∧ drained.2.spool = [] ∧ drained.2.pending = [] ∧
      ∀ c now, c.Open a.sealed now → c.wellFormed = true →
        (a.perform c now {}).1 = .ok true ∧ (a.perform c now {}).2.spool = [] ∧ (a.perform c now {}).2.pending = [] := by
  have hd : (after acts).Draining :=
    h.invariant (I := Draining) (fun _ _ hd hu => hd.step hu) ⟨fun _ => rfl,fun _ hx => by cases hx⟩
  obtain ⟨b,hb,-,-,hsp,hpe⟩ := Clear.drainLocked (a := { after acts with faults := {} }) rfl { hd with }
  have hq := publishStatusLocked_queues (a := b)
  refine ⟨?_,?_,?_,fun c now ho hw => perform_clear hd ho hw⟩ <;> simp only [drainSpool,hb]
  · exact hq.1.trans hsp
  · exact hq.2.trans hpe

def november : Int := 1793491200000

def novemberEvent : RawEvent := { plainEvent with receivedMs := some november }

theorem novemberEvent_publishable : novemberEvent.Publishable now :=
  ⟨by change (monthOf november).isOk = true; decide +kernel,(plainEvent_publishable : plainEvent.Publishable now).2⟩

/-- Two lines wait in the spool and a third behind them in memory; one drain brings all three home, and
the next append is answered true. -/
theorem spooled_line_drains :
    let a := after [.call (.append plainEvent) november ⟨[],[1]⟩, .call (.append novemberEvent) november ⟨[],[1]⟩,
      .call (.append plainEvent) november ⟨[],[1, 1]⟩]
    a.spool.map Line.call = [0, 1] ∧ a.pending.map Line.call = [2] ∧
      (drainSpool { a with faults := {} }).2.spool = [] ∧ (drainSpool { a with faults := {} }).2.pending = [] ∧
      (a.perform (.append novemberEvent) november {}).1 = .ok true := by
  have h := no_line_blocks [.call (.append plainEvent) november ⟨[],[1]⟩, .call (.append novemberEvent) november ⟨[],[1]⟩,
    .call (.append plainEvent) november ⟨[],[1, 1]⟩]
    ⟨⟨plainEvent_publishable,fun _ _ _ _ => rfl⟩,⟨novemberEvent_publishable,fun _ _ _ _ => rfl⟩,
      ⟨plainEvent_publishable,fun _ _ _ _ => rfl⟩,trivial⟩
  exact ⟨by decide +kernel,by decide +kernel,h.2.1,h.2.2.1,
    (h.2.2.2 (.append novemberEvent) november ⟨novemberEvent_publishable,fun _ _ _ _ => rfl⟩ (by decide +kernel)).1⟩

def surrogateEvent : RawEvent := { plainEvent with render := fun _ _ => [0xD800] }

/-- A late event of a sealed month stays at the head of the spool, with the next month's event
behind it, however often the spool is drained. A record that cannot be encoded, once it is in
memory, makes every append raise. -/
theorem late_or_unencodable_line_blocks :
    let b := after [.call (.append plainEvent) november {}, .verifyArchive november true,
      .call (.append plainEvent) november {}, .call (.append novemberEvent) november {}, .drainSpool {}]
    let c := after [.call (.append surrogateEvent) november ⟨[],[1, 1]⟩]
    (b.spool.map Line.call = [1, 2] ∧ b.step (.drainSpool {}) = b) ∧
      c.pending.map Line.call = [0] ∧ (c.perform (.append novemberEvent) november {}).1 = .error .valueError := by
  refine ⟨⟨by decide +kernel,rfl⟩,by decide +kernel,by decide +kernel⟩

end RawArchive

end Yeoman.Archive
