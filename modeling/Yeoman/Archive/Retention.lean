import Yeoman.Archive.WriterSteps

/-! No line that the writer accepted is lost, and the lines of a file stand in the order of their
calls, as long as the writer sees its spool. A scan of the spool that fails without an error lets
younger lines pass the spooled ones. -/
namespace Yeoman.Archive
open Library FirstArrival Runs

namespace RawArchive
variable {calls : Nat} {a : RawArchive} (waiting : List Line)

theorem guard_advanced (h : a.InFifo calls) (media : Bool) :
    Advanced calls a (if media then a.op else (0, a)).2 ∧ (if media then a.op else (0, a)).2.spool = a.spool := by
  cases media with
  | false => exact ⟨.withOps h a.faults.ops,rfl⟩
  | true => exact ⟨.op h,rfl⟩

theorem appendFirst_attempted {q : Line} {rest : List Line} (h : a.InFifo calls)
    (hwait : a.spool ++ a.pending = q :: rest) :
    Attempted calls a q (a.appendArchiveLine q).1 (a.appendArchiveLine q).2 := by
  have hfifo : Fifo calls a.files (a.spool ++ a.pending) := h
  have hmem : q ∈ a.spool ++ a.pending := hwait ▸ List.mem_cons_self
  refine appendArchiveLine_attempted h (hfifo.below q hmem) (hfifo.publishable q hmem) ?_ (hfifo.admits q hmem)
  rw [hwait] at hfifo ⊢
  exact hfifo.head_le

theorem drainItems_advanced (items : List Line) (a : RawArchive) (hs : a.spool = items) (h : a.InFifo calls) :
    Advanced calls a (drainItems items a).2 ∧
      ∀ moved, (drainItems items a).1 = .ok (moved, true) → (drainItems items a).2.spool = [] := by
  induction items generalizing a with
  | nil => exact ⟨.withOps h a.faults.ops,fun _ _ => hs⟩
  | cons q items ih =>
    have hread := Advanced.op h
    have hguard := guard_advanced hread.fifo q.media
    have hspool : (if q.media then a.op.2.op else (0, a.op.2)).2.spool = q :: items := hguard.2.trans hs
    have hguard := hread.trans hguard.1
    simp only [drainItems]
    generalize (if q.media then a.op.2.op else (0, a.op.2)) = g at hguard hspool ⊢
    obtain ⟨n,b⟩ := g
    have happ := appendFirst_attempted hguard.fifo (show b.spool ++ b.pending = q :: (items ++ b.pending) by
      rw [hspool]
      rfl)
    generalize b.appendArchiveLine q = t at happ ⊢
    obtain ⟨r,c⟩ := t
    split_ifs
    · exact ⟨hread,fun _ h => by cases h⟩
    · exact ⟨hguard,fun _ h => by cases h⟩
    · have happ' := hguard.trans happ.advanced
      cases r with
      | error r =>
        cases happ.refused r rfl
        exact ⟨happ',fun _ h => by cases h⟩
      | ok r =>
        have hunlink := happ'.trans (Advanced.op happ'.fifo)
        dsimp only
        split_ifs
        · exact ⟨hunlink,fun _ h => by cases h⟩
        · have hc : c.op.2.spool = q :: items := happ.spool.trans hspool
          have hdrop : Advanced calls c.op.2 c.op.2.unlinkFirst := by
            refine Advanced.drop (s := c.op.2.spool.tail) (p := c.op.2.pending) hunlink.fifo (happ.settled r rfl)
              (t := items ++ c.op.2.pending) ?_ ?_ <;> rw [hc] <;> rfl
          have hrest := ih c.op.2.unlinkFirst (by change c.op.2.spool.tail = items; rw [hc]; rfl) hdrop.fifo
          refine ⟨(hunlink.trans hdrop).trans hrest.1,fun moved hm => ?_⟩
          generalize drainItems items c.op.2.unlinkFirst = u at hrest hm ⊢
          obtain ⟨u,e⟩ := u
          cases u with
          | error r => cases hm
          | ok u =>
            obtain ⟨m,ended⟩ := u
            cases hm
            exact hrest.2 m rfl

theorem drainPending_advanced (a : RawArchive) (hs : a.spool = []) (hp : a.pending = waiting)
    (h : a.InFifo calls) : Advanced calls a (drainPending waiting a).2 := by
  induction waiting generalizing a with
  | nil => exact .withOps h a.faults.ops
  | cons q rest ih =>
    have happ := appendFirst_attempted h (show a.spool ++ a.pending = q :: rest by rw [hs,hp]; rfl)
    simp only [drainPending]
    generalize a.appendArchiveLine q = t at happ ⊢
    obtain ⟨r,b⟩ := t
    cases r with
    | error r =>
      cases happ.refused r rfl
      exact happ.advanced
    | ok r =>
      have hs' : b.spool = [] := happ.spool.trans hs
      have hdrop : Advanced calls b { b with pending := rest } :=
        Advanced.drop (s := b.spool) happ.advanced.fifo (happ.settled r rfl) (show b.spool ++ b.pending = q :: rest by
          rw [hs',happ.pending,hp]
          rfl) (show b.spool ++ rest = rest by rw [hs']; rfl)
      exact (happ.advanced.trans hdrop).trans (ih _ hs' rfl hdrop.fifo)

def Sees (a : RawArchive) : Prop := ∀ ok ∈ a.faults.scans, ok = true

theorem Advanced.sees {b : RawArchive} (h : Advanced calls a b) (hs : a.Sees) : b.Sees :=
  fun ok hok => hs ok (h.scans ok hok)

theorem Sees.spooledFiles (h : a.Sees) : a.spooledFiles.1 = a.spool := by
  have hhead : a.faults.scans.headD true = true := by
    cases hc : a.faults.scans with
    | nil => rfl
    | cons ok rest => exact h ok (by rw [hc]; exact List.mem_cons_self)
  exact if_pos hhead

theorem drainLocked_advanced (hsee : a.Sees) (h : a.InFifo calls) : Advanced calls a a.drainLocked.2 := by
  have hscan := Advanced.spooledFiles h
  have hitems := drainItems_advanced a.spooledFiles.1 a.spooledFiles.2 hsee.spooledFiles.symm hscan.fifo
  have hadv := hscan.trans hitems.1
  unfold drainLocked
  dsimp only
  generalize drainItems a.spooledFiles.1 a.spooledFiles.2 = t at hitems hadv ⊢
  obtain ⟨r,b⟩ := t
  rcases r with r | ⟨moved,ended⟩
  · exact hadv
  · cases ended with
    | false => exact hadv
    | true =>
      have hpend := hadv.trans (drainPending_advanced b.pending b (hitems.2 moved rfl) rfl hadv.fifo)
      dsimp only
      generalize drainPending b.pending b = t at hpend ⊢
      obtain ⟨r,c⟩ := t
      cases r with
      | error r => exact hpend
      | ok more => exact hpend.trans (.unblock hpend.fifo)

inductive Spooled (a : RawArchive) (q : Line) : Bool → RawArchive → Prop
  | failed (ops : List Nat) : Spooled a q false (a.withOps ops)
  | made (ops : List Nat) (ok : Bool) : Spooled a q ok { a.withOps ops with spool := a.spool ++ [q] }

theorem spoolLineLocked_cases (a : RawArchive) (q : Line) :
    Spooled a q (a.spoolLineLocked q).1 (a.spoolLineLocked q).2 := by
  unfold spoolLineLocked
  dsimp only
  by_cases h : a.op.1 = 1
  · rw [if_pos h,h]
    exact .failed _
  · rw [if_neg h]
    exact .made _ _

theorem Advanced.of_queues {s p : List Line}
    (hf : Fifo calls a.files (s ++ p)) (hm : ∀ x, x ∈ a.spool ++ a.pending → x ∈ s ++ p) :
    Advanced calls a { a with spool := s, pending := p } where
  disposed := rfl
  number := rfl
  answers := rfl
  scans _ hok := hok
  fifo := hf
  settled _ hx := hx
  keeps x hx := hx.imp id fun hx => List.mem_append.mp (hm x (List.mem_append.mpr hx))

theorem spoolPending_advanced (a : RawArchive) (hp : a.pending = waiting) (h : a.InFifo calls) :
    Advanced calls a (spoolPending waiting a) := by
  induction waiting generalizing a with
  | nil => exact .withOps h a.faults.ops
  | cons q rest ih =>
    have hf : Fifo calls a.files (a.spool ++ q :: rest) := hp ▸ (h : Fifo calls a.files (a.spool ++ a.pending))
    have hc := spoolLineLocked_cases a q
    simp only [spoolPending]
    generalize a.spoolLineLocked q = t at hc ⊢
    obtain ⟨ok,b⟩ := t
    cases hc with
    | failed ops => exact .withOps h ops
    | made ops =>
      have hops := Advanced.withOps h ops
      cases ok with
      | true =>
        have hmove : Advanced calls (a.withOps ops) { a.withOps ops with spool := a.spool ++ [q], pending := rest } :=
          .of_queues (by rw [List.append_assoc]; exact hf) fun x hx => by
            rw [List.append_assoc]
            exact (hp ▸ hx : x ∈ a.spool ++ q :: rest)
        exact (hops.trans hmove).trans (ih _ rfl hmove.fifo)
      | false =>
        refine hops.trans (.of_queues (p := a.pending) ?_ fun x hx => ?_)
        · rw [hp]
          exact hf.twice
        · rw [List.append_assoc]
          exact (List.mem_append.mp hx).elim (List.mem_append_left _) fun hx =>
            List.mem_append_right _ (List.mem_append_right _ hx)

section
variable {a : RawArchive} {q : Line}

structure Deferred (a : RawArchive) (q : Line) (retain : Bool) (r : Except Raised Bool) (b : RawArchive) : Prop where
  advanced : Advanced (q.call + 1) a b
  spooled : r = .ok true → q ∈ b.spool
  kept : r = .ok false → retain = true → q ∈ b.pending

theorem remember_deferred (h : a.InFifo (q.call + 1)) (hp : q.publishable = true) (retain : Bool) :
    Deferred a q retain ((a.rememberLocked q).1.map fun _ => false) (a.rememberLocked q).2 := by
  unfold rememberLocked
  split_ifs
  · have hb : Advanced (q.call + 1) a { a with capacityBlocked := true } := .of_bookkeeping h fun _ hok => hok
    exact ⟨hb.trans (.publishStatusLocked hb.fifo),fun h => (by cases h),fun h => by cases h⟩
  · have hf := Fifo.concat h (fun x hx => Nat.le_of_lt_succ (h.below x hx)) (Nat.lt_succ_self _) hp
      fun d _ => h.admits_last
    refine ⟨.of_queues (s := a.spool) (by rw [← List.append_assoc]; exact hf) fun x hx => ?_,fun h => (by cases h),
      fun _ _ => List.mem_append_right _ List.mem_cons_self⟩
    rw [← List.append_assoc]
    exact List.mem_append_left _ hx

theorem spoolOrRemember_deferred (h : a.InFifo (q.call + 1)) (hp : q.publishable = true) (hn : a.pending = [])
    (retain : Bool) : Deferred a q retain (a.spoolOrRemember q retain).1 (a.spoolOrRemember q retain).2 := by
  have hc := spoolLineLocked_cases a q
  unfold spoolOrRemember
  generalize a.spoolLineLocked q = t at hc ⊢
  obtain ⟨ok,b⟩ := t
  have hs : Advanced (q.call + 1) a b ∧ (ok = true → q ∈ b.spool) := by
    cases hc with
    | failed ops => exact ⟨.withOps h ops,fun h => by cases h⟩
    | made ops =>
      have hf := Fifo.concat h (fun x hx => Nat.le_of_lt_succ (h.below x hx)) (Nat.lt_succ_self _) hp
        fun d _ => h.admits_last
      refine ⟨(Advanced.withOps h ops).trans (.of_queues (p := a.pending) ?_ fun x hx => ?_),fun _ =>
        List.mem_append_right _ List.mem_cons_self⟩
      · rw [hn,List.append_nil] at hf ⊢
        exact hf
      · exact (List.mem_append.mp hx).elim (fun hx => List.mem_append_left _ (List.mem_append_left _ hx))
          (List.mem_append_right _)
  cases ok with
  | true => exact ⟨hs.1,fun _ => hs.2 rfl,fun h => by cases h⟩
  | false =>
    cases retain with
    | true =>
      have hd := remember_deferred hs.1.fifo hp true
      exact ⟨hs.1.trans hd.advanced,hd.spooled,hd.kept⟩
    | false => exact ⟨hs.1,fun h => (by cases h),fun _ h => by cases h⟩

theorem deferLocked_deferred (h : a.InFifo (q.call + 1)) (hp : q.publishable = true) (retain : Bool) :
    Deferred a q retain (a.deferLocked q retain).1 (a.deferLocked q retain).2 := by
  have hmove := spoolPending_advanced a.pending a rfl h
  have hmove := hmove.trans (.unblock hmove.fifo)
  unfold deferLocked
  dsimp only
  split_ifs with hn hr hb
  · have hd := remember_deferred hmove.fifo hp retain
    exact ⟨hmove.trans hd.advanced,hd.spooled,hd.kept⟩
  · exact ⟨hmove,fun h => (by cases h),fun _ h => absurd h hr⟩
  · have hd := spoolOrRemember_deferred hmove.fifo hp (by simpa using hb) false
    exact ⟨hmove.trans hd.advanced,hd.spooled,fun _ h => absurd h hr⟩
  · exact spoolOrRemember_deferred h hp (by simpa using hn) retain

theorem publishStatusLocked_queues : a.publishStatusLocked.spool = a.spool ∧ a.publishStatusLocked.pending = a.pending := by
  unfold publishStatusLocked
  dsimp only
  split_ifs <;> exact ⟨rfl,rfl⟩

structure Committed (a : RawArchive) (q : Line) (retain reportSpooled : Bool) (r : Except Raised Bool) (b : RawArchive) :
    Prop where
  advanced : Advanced (q.call + 1) a b
  kept : ∀ result, r = .ok result → result = true ∨ retain = true → b.Keeps q
  truthful : r = .ok true → b.Settled q ∨ reportSpooled = true ∧ q ∈ b.spool

theorem deferAndPublish_committed (h : a.InFifo (q.call + 1)) (hp : q.publishable = true) (retain reportSpooled : Bool) :
    Committed a q retain reportSpooled (a.deferAndPublish q retain reportSpooled).1
      (a.deferAndPublish q retain reportSpooled).2 := by
  have hd := deferLocked_deferred h hp retain
  unfold deferAndPublish
  generalize a.deferLocked q retain = t at hd ⊢
  obtain ⟨r,b⟩ := t
  cases r with
  | error r => exact ⟨hd.advanced,fun _ h => (by cases h),fun h => by cases h⟩
  | ok spooled =>
    have hq := publishStatusLocked_queues (a := b)
    refine ⟨hd.advanced.trans (.publishStatusLocked hd.advanced.fifo),fun result hr hw => ?_,fun hr => ?_⟩
    · cases spooled with
      | true => exact .inr (.inl (hq.1 ▸ hd.spooled rfl))
      | false =>
        have hretain : retain = true := by
          rcases hw with rfl | hw
          · have hr : (reportSpooled && false) = true := Except.ok.inj hr
            rw [Bool.and_false] at hr
            cases hr
          · exact hw
        exact .inr (.inr (hq.2 ▸ hd.kept rfl hretain))
    · have hr : (reportSpooled && spooled) = true := Except.ok.inj hr
      rw [Bool.and_eq_true] at hr
      obtain ⟨hrep,rfl⟩ := hr
      exact .inr ⟨hrep,hq.1 ▸ hd.spooled rfl⟩

theorem Advanced.succ {b : RawArchive} (h : Advanced calls a b) : Advanced (calls + 1) a b :=
  { h with fifo := h.fifo.succ }

theorem hasBacklogLocked_advanced (hsee : a.Sees) (h : a.InFifo calls) :
    Advanced calls a a.hasBacklogLocked.2 ∧
      (a.hasBacklogLocked.1 = false → a.hasBacklogLocked.2.spool ++ a.hasBacklogLocked.2.pending = []) := by
  unfold hasBacklogLocked
  split_ifs with hn
  · exact ⟨.withOps h a.faults.ops,fun h => by cases h⟩
  · refine ⟨.spooledFiles h,fun hb => ?_⟩
    have hs : a.spool = [] := by simpa [hsee.spooledFiles] using hb
    have hp : a.pending = [] := by simpa using hn
    change a.spool ++ a.pending = []
    rw [hs,hp]
    rfl

theorem commitLine_committed (hsee : a.Sees) (h : a.InFifo q.call) (hp : q.publishable = true)
    (retain reportSpooled : Bool) :
    Committed a q retain reportSpooled (a.commitLine q retain reportSpooled).1 (a.commitLine q retain reportSpooled).2 := by
  have hdrain := drainLocked_advanced hsee h
  unfold commitLine
  generalize a.drainLocked = t at hdrain ⊢
  obtain ⟨r,b⟩ := t
  cases r with
  | error r => exact ⟨hdrain.succ,fun _ h => (by cases h),fun h => by cases h⟩
  | ok moved =>
    have hback := hasBacklogLocked_advanced (hdrain.sees hsee) hdrain.fifo
    dsimp only at hdrain hback ⊢
    generalize b.hasBacklogLocked = t at hback ⊢
    obtain ⟨backlog,c⟩ := t
    have hc := (hdrain.trans hback.1).succ
    cases backlog with
    | true =>
      have hd := deferAndPublish_committed hc.fifo hp retain reportSpooled
      exact ⟨hc.trans hd.advanced,hd.kept,hd.truthful⟩
    | false =>
      have hfree : c.spool ++ c.pending = [] := hback.2 rfl
      have happ := appendArchiveLine_attempted hc.fifo (Nat.lt_succ_self _) hp
        (fun x hx => absurd hx (by rw [hfree]; exact List.not_mem_nil)) fun d _ => hc.fifo.admits_last
      generalize c.appendArchiveLine q = t at happ ⊢
      obtain ⟨r,d⟩ := t
      have hd := hc.trans happ.advanced
      cases r with
      | ok appended =>
        have hset := (Advanced.publishStatusLocked hd.fifo).settled q (happ.settled appended rfl)
        exact ⟨hd.trans (.publishStatusLocked hd.fifo),fun _ _ _ => .inl hset,fun _ => .inl hset⟩
      | error r =>
        cases happ.refused r rfl
        have hp := deferAndPublish_committed hd.fifo hp retain reportSpooled
        exact ⟨hd.trans hp.advanced,hp.kept,hp.truthful⟩

end

def Holds (a : RawArchive) (x : Line) : Prop :=
  (∃ d, x.path = .ok d ∧ (a.files d).Holds x) ∨ x ∈ a.spool ∨ x ∈ a.pending

structure Sound (a : RawArchive) : Prop where
  fifo : a.InFifo a.calls
  kept : ∀ ans ∈ a.answers, ans.accepted = true → a.Keeps ans.line

end RawArchive

def RawEvent.Publishable (event : RawEvent) (now : Int) : Prop :=
  (monthOf (event.receivedMs.getD now)).isOk = true ∧
    ∀ media, publishableText (event.render (event.receivedMs.getD now) media) = true

def Call.Publishable (now : Int) : Call → Prop
  | .append event | .appendDurable event | .appendWithMedia event _ _ | .appendDurableWithMedia event _ _ =>
    event.Publishable now
  | .appendMediaDescription record | .appendMediaTranscript record => publishableText record.text = true

/-- The channel has a name, a generated record a time that is a number, and storing the media does
not raise. -/
def Call.wellFormed : Call → Bool
  | .append event | .appendDurable event => (safeChannel event.channel).isOk
  | .appendWithMedia event _ stored | .appendDurableWithMedia event _ stored =>
    (safeChannel event.channel).isOk && stored.isOk
  | .appendMediaDescription record | .appendMediaTranscript record =>
    (safeChannel record.channel).isOk && record.generatedMs.isOk

/-- What the record of an event may become: the time is its own or the clock's, and the media may
turn out not to be stored. -/
def RawEvent.Makes (event : RawEvent) (calls : Nat) (now : Int) (q : Line) : Prop :=
  ∃ channel media stored, safeChannel event.channel = .ok channel ∧
    q = ⟨calls,channel,event.receivedMs.getD now,event.render (event.receivedMs.getD now) media,none,stored⟩

def Call.Makes (calls : Nat) (now : Int) (q : Line) : Call → Prop
  | .append event | .appendDurable event | .appendWithMedia event _ _ | .appendDurableWithMedia event _ _ =>
    event.Makes calls now q
  | .appendMediaDescription record | .appendMediaTranscript record =>
    ∃ channel generatedMs file, q = ⟨calls,channel,generatedMs,record.text,some file,record.media⟩

theorem Call.Makes.line {c : Call} {calls : Nat} {now : Int} {q : Line} (h : c.Makes calls now q) :
    q.call = calls ∧ (c.Publishable now → q.publishable = true) := by
  have hevent {event : RawEvent} (h : event.Makes calls now q) :
      q.call = calls ∧ (event.Publishable now → q.publishable = true) := by
    obtain ⟨channel,media,stored,-,rfl⟩ := h
    refine ⟨rfl,fun hp => ?_⟩
    have hmonth := hp.1
    unfold Line.publishable Line.path
    cases hc : monthOf (event.receivedMs.getD now) with
    | error r => rw [hc] at hmonth; cases hmonth
    | ok m => exact hp.2 media
  cases c with
  | append | appendDurable | appendWithMedia | appendDurableWithMedia => exact hevent h
  | appendMediaDescription | appendMediaTranscript =>
    obtain ⟨channel,generatedMs,file,rfl⟩ := h
    exact ⟨rfl,fun hp => (Bool.true_and _).trans hp⟩

def Action.Unobstructed : Action → Prop
  | .call c now faults => (∀ ok ∈ faults.scans, ok = true) ∧ c.Publishable now
  | .drainSpool faults => ∀ ok ∈ faults.scans, ok = true
  | .purge _ | .verifyArchive _ _ => True

namespace RawArchive
variable {calls : Nat} {a b : RawArchive}

/-- A call or another action keeps the order and every line; if it adds an answer, the line stands as
the answer says. -/
structure Called (calls : Nat) (a b : RawArchive) : Prop where
  fifo : b.InFifo calls
  keeps : ∀ x, a.Keeps x → b.Keeps x
  answers : b.answers = a.answers ∨ ∃ ans, b.answers = a.answers ++ [ans] ∧
    (ans.accepted = true → b.Keeps ans.line) ∧
    (ans.result = true → b.Settled ans.line ∨ ans.reportSpooled = true ∧ ans.line ∈ b.spool)

theorem Called.of_advanced (h : Advanced calls a b) : Called calls a b := ⟨h.fifo,h.keeps,.inl h.answers⟩

theorem Called.after {c : RawArchive} (h : Advanced a.calls a b) (hc : Called calls b c) : Called calls a c :=
  ⟨hc.fifo,fun x hx => hc.keeps x (h.keeps x hx),h.answers ▸ hc.answers⟩

theorem submit_called {q : Line} (hsee : a.Sees) (h : a.InFifo a.calls) (hq : q.call = a.calls)
    (hp : q.publishable = true) {retain reportSpooled : Bool} :
    (a.submit q retain reportSpooled).2.calls = a.calls ∧ Called (a.calls + 1) a (a.submit q retain reportSpooled).2 := by
  have hc := commitLine_committed hsee (hq ▸ h) hp retain reportSpooled
  unfold submit
  generalize a.commitLine q retain reportSpooled = t at hc ⊢
  obtain ⟨r,b⟩ := t
  have hadv : Advanced (a.calls + 1) a b := hq ▸ hc.advanced
  cases r with
  | error r => exact ⟨hadv.number,.of_advanced hadv⟩
  | ok result =>
    refine ⟨hadv.number,hadv.fifo,hadv.keeps,
      .inr ⟨⟨q,retain,reportSpooled,result⟩,congrArg (· ++ _) hadv.answers,fun ha => ?_,fun hr => ?_⟩⟩
    · exact hc.kept result rfl ((Bool.or_eq_true _ _).mp ha)
    · cases hr
      exact hc.truthful rfl

variable {now : Int} {faults : Faults} {act : Action}

inductive Performed (a : RawArchive) (c : Call) (now : Int) : Except Raised Bool × RawArchive → Prop
  | raised {r : Raised} {ops : List Nat} (hw : c.wellFormed = false) : Performed a c now (.error r, a.withOps ops)
  | submitted {q : Line} (ops : List Nat) {retain reportSpooled : Bool} (hops : ops <:+ a.faults.ops)
      (hq : c.Makes a.calls now q) : Performed a c now ((a.withOps ops).submit q retain reportSpooled)

theorem settleMedia_ops (a : RawArchive) (lease : Bool) (media : Option Media) :
    ∃ ops, ops <:+ a.faults.ops ∧ (a.settleMedia lease media).2 = a.withOps ops := by
  have htaken : ∃ ops, ops <:+ a.faults.ops ∧ (if lease then (0, a) else a.op).2 = a.withOps ops := by
    cases lease with
    | true => exact ⟨_,List.suffix_refl _,rfl⟩
    | false => exact ⟨_,List.tail_suffix _,rfl⟩
  unfold settleMedia
  generalize (if lease then (0, a) else a.op) = taken at htaken ⊢
  obtain ⟨failed,b⟩ := taken
  obtain ⟨ops,hops,rfl⟩ := htaken
  dsimp only
  split_ifs
  · exact ⟨_,List.suffix_refl _,rfl⟩
  · exact ⟨ops,hops,rfl⟩
  · exact ⟨ops.tail,(List.tail_suffix _).trans hops,rfl⟩
  · exact ⟨ops.tail,(List.tail_suffix _).trans hops,rfl⟩

theorem appendLocked_performed {c : Call} (event : RawEvent) {ops : List Nat} (hops : ops <:+ a.faults.ops)
    (hw : c.wellFormed = true → (safeChannel event.channel).isOk = true)
    (hq : ∀ q, event.Makes a.calls now q → c.Makes a.calls now q) (lease durableOnly : Bool) :
    Performed a c now ((a.withOps ops).appendLocked event lease durableOnly now) := by
  obtain ⟨rest,hrest,(hm : _ = a.withOps rest)⟩ := settleMedia_ops (a.withOps ops) lease event.media
  unfold appendLocked
  generalize (a.withOps ops).settleMedia lease event.media = t at hm ⊢
  obtain ⟨media,b⟩ := t
  cases hm
  cases hc : safeChannel event.channel with
  | error r => exact .raised (Bool.eq_false_iff.mpr fun h => by cases hc ▸ hw h)
  | ok channel =>
    refine Performed.submitted rest (hrest.trans hops) (hq _ ?_)
    exact ⟨channel,media,_,hc,rfl⟩

theorem appendWithMediaLocked_performed {c : Call} (event : RawEvent) (kind : String) (stored : Except Raised Media)
    (hw : c.wellFormed = ((safeChannel event.channel).isOk && stored.isOk))
    (hq : ∀ q, event.Makes a.calls now q → c.Makes a.calls now q) (durableOnly : Bool) :
    Performed a c now (a.appendWithMediaLocked event kind stored durableOnly now) := by
  have hok (h : c.wellFormed = true) := (Bool.and_eq_true _ _ ▸ hw ▸ h).1
  have happend (media : Option Media) := appendLocked_performed
    { event with receivedMs := some (event.receivedMs.getD now), media := media } (List.tail_suffix a.faults.ops) hok hq
  unfold appendWithMediaLocked
  dsimp only
  split_ifs
  · exact happend _ false durableOnly
  · cases stored with
    | error r => exact .raised (hw.trans (Bool.and_false _))
    | ok media => exact happend _ true durableOnly

theorem appendDerived_performed {c : Call} (record : GeneratedRecord) (file : Derived) (reportDurability : Bool)
    (hw : c.wellFormed = ((safeChannel record.channel).isOk && record.generatedMs.isOk))
    (hq : ∀ channel generatedMs, c.Makes a.calls now ⟨a.calls,channel,generatedMs,record.text,some file,record.media⟩) :
    Performed a c now (a.appendDerived record file reportDurability now) := by
  unfold appendDerived
  cases hc : safeChannel record.channel with
  | error r => exact (.raised (by rw [hw,hc]; rfl) : Performed a c now (_, a.withOps a.faults.ops))
  | ok channel =>
    cases hg : record.generatedMs with
    | error r => exact (.raised (by rw [hw,hc,hg]; rfl) : Performed a c now (_, a.withOps a.faults.ops))
    | ok generatedMs =>
      exact Performed.submitted a.faults.ops (List.suffix_refl _) (hq channel (generatedMs.getD now))

theorem perform_performed (a : RawArchive) (c : Call) (now : Int) (faults : Faults) :
    Performed { a with faults := faults } c now (a.perform c now faults) := by
  have happend := @appendLocked_performed { a with faults := faults } now c
  have hmedia := @appendWithMediaLocked_performed { a with faults := faults } now c
  have hderived := @appendDerived_performed { a with faults := faults } now c
  cases c with
  | append event => exact happend event (List.suffix_refl faults.ops) id (fun _ => id) false false
  | appendDurable event => exact happend event (List.suffix_refl faults.ops) id (fun _ => id) false true
  | appendWithMedia event kind stored => exact hmedia event kind stored rfl (fun _ => id) false
  | appendDurableWithMedia event kind stored => exact hmedia event kind stored rfl (fun _ => id) true
  | appendMediaDescription record =>
    exact hderived record .mediaDescriptions false rfl fun channel generatedMs => ⟨channel,generatedMs,_,rfl⟩
  | appendMediaTranscript record =>
    exact hderived record .mediaTranscripts true rfl fun channel generatedMs => ⟨channel,generatedMs,_,rfl⟩

theorem perform_called {c : Call} (h : a.InFifo a.calls) (hu : Action.Unobstructed (.call c now faults)) :
    (a.perform c now faults).2.calls = a.calls ∧
      Called (a.calls + 1) { a with faults := faults } (a.perform c now faults).2 := by
  have hp := perform_performed a c now faults
  generalize a.perform c now faults = t at hp ⊢
  have hsee : Sees { a with faults := faults } := hu.1
  have hops := Advanced.withOps (a := { a with faults := faults }) h
  cases hp with
  | raised => exact ⟨rfl,.of_advanced (hops _).succ⟩
  | submitted ops _ hq =>
    exact And.imp_right (.after (hops ops)) (submit_called ((hops ops).sees hsee) (hops ops).fifo hq.line.1 (hq.line.2 hu.2))

theorem drainSpool_advanced (hsee : a.Sees) (h : a.InFifo calls) : Advanced calls a a.drainSpool.2 := by
  have hdrain := drainLocked_advanced hsee h
  unfold drainSpool
  generalize a.drainLocked = t at hdrain ⊢
  obtain ⟨r,b⟩ := t
  cases r with
  | error r => exact hdrain
  | ok moved => exact hdrain.trans (.publishStatusLocked hdrain.fifo)

theorem step_called (hs : a.InFifo a.calls) (hu : act.Unobstructed) : Called (a.step act).calls a (a.step act) := by
  have hrefl : Called a.calls a a := .of_advanced (.withOps hs a.faults.ops)
  cases act with
  | call c now faults =>
    obtain ⟨hnum,hc⟩ := perform_called hs hu
    refine ⟨?_,hc.keeps,hc.answers⟩
    change (a.perform c now faults).2.InFifo ((a.perform c now faults).2.calls + 1)
    exact hnum ▸ hc.fifo
  | drainSpool faults =>
    have h := drainSpool_advanced (a := { a with faults := faults }) hu hs
    exact ⟨h.number ▸ h.fifo,h.keeps,.inl h.answers⟩
  | purge disposes =>
    refine ⟨hs,fun x hx => ?_,.inl rfl⟩
    rcases hx with (hd | hf) | hq
    · exact .inl (.inl ((Bool.or_eq_true _ _).mpr (.inl hd)))
    · exact .inl (.inr hf)
    · exact .inr hq
  | verifyArchive now scanned =>
    change Called (a.verifyArchive now scanned).calls a (a.verifyArchive now scanned)
    unfold verifyArchive
    split
    · exact hrefl
    · split_ifs
      · exact hrefl
      · exact { hrefl with }

theorem Sound.step (hs : a.Sound) (hu : act.Unobstructed) : (a.step act).Sound := by
  have h := step_called hs.fifo hu
  have hold : ∀ ans ∈ a.answers, ans.accepted = true → (a.step act).Keeps ans.line :=
    fun ans hans hacc => h.keeps _ (hs.kept ans hans hacc)
  refine ⟨h.fifo,?_⟩
  rcases h.answers with he | ⟨new,he,hkept,-⟩ <;> rw [he]
  · exact hold
  · exact Table.forall_mem_concat hold hkept

theorem Fifo.first_lt {files : Destination → LineFile} {backlog : List Line} (h : Fifo calls files backlog)
    {d : Destination} {x y : Line} {m n : Nat} (hx : (files d).first x = some m) (hy : (files d).first y = some n)
    (hlt : x.call < y.call) : m < n := by
  obtain ⟨rest,hrest⟩ := (files d).lines_append
  have ho : InOrder Entry.line Line.call Entry.whole (files d).lines := InOrder.of_append (hrest ▸ h.inOrder d)
  exact ho.first_lt hx hy hlt

/-- After an action every accepted line that no disposition keeps out is in its file, in the spool
or in memory, the first complete copies in a file stand in the order of the calls, and a call that
answered true has its line in its file or, where that is enough, in the spool. -/
def Faithful (a : RawArchive) (act : Action) : Prop :=
  let b := a.step act
  (∀ ans ∈ b.answers, ans.accepted = true → b.disposed ans.line = false → b.Holds ans.line) ∧
    (∀ d x y m n, (b.files d).first x = some m → (b.files d).first y = some n → x.call < y.call → m < n) ∧
    ∀ ans ∈ b.answers.drop a.answers.length, ans.result = true → b.disposed ans.line = false →
      (∃ d, ans.line.path = .ok d ∧ (b.files d).Holds ans.line) ∨ ans.reportSpooled = true ∧ ans.line ∈ b.spool

theorem Keeps.holds {x : Line} (h : a.Keeps x) (hd : a.disposed x = false) : a.Holds x := by
  rcases h with (h | h) | h
  · rw [hd] at h
    cases h
  · exact .inl h
  · exact .inr h

theorem Sound.faithful (hs : a.Sound) (hu : act.Unobstructed) : a.Faithful act := by
  have hs' := hs.step hu
  refine ⟨fun ans hans hacc hd => (hs'.kept ans hans hacc).holds hd,
    fun d x y m n hx hy hlt => Fifo.first_lt hs'.fifo hx hy hlt,fun ans hans hr hd => ?_⟩
  rcases (step_called hs.fifo hu).answers with h | ⟨new,h,-,ht⟩
  · rw [h,List.drop_length] at hans
    cases hans
  · rw [h,List.drop_left,List.mem_singleton] at hans
    subst hans
    rcases ht hr with (hdis | hf) | hsp
    · rw [hd] at hdis
      cases hdis
    · exact .inl hf
    · exact .inr hsp

theorem sound_init : Sound {} where
  fifo := ⟨List.Pairwise.nil,fun _ h => (by cases h),fun _ h => (by cases h),fun _ _ h => (by cases h),
    fun _ => InOrder.nil,fun _ h => by cases h⟩
  kept _ h := by cases h

/-- Retention and order over every run of the writer whose scans of the spool succeed and whose
records can be lines. -/
theorem accepted_lines_kept_in_order (acts : List Action) (h : ∀ act ∈ acts, act.Unobstructed) :
    Along step Faithful {} acts := by
  suffices hall : ∀ a : RawArchive, a.Sound → Along step Faithful a acts from hall {} sound_init
  induction acts with
  | nil => exact fun _ _ => trivial
  | cons act acts ih =>
    intro a hs
    have hu := h act List.mem_cons_self
    exact ⟨hs.faithful hu,ih (fun x hx => h x (List.mem_cons_of_mem _ hx)) _ (hs.step hu)⟩

def plainEvent : RawEvent := ⟨"whatsapp",some 1790812800000,none,fun _ _ => [123, 125]⟩

def plainFile : Destination := .month "whatsapp" ⟨2026,10⟩

def plainLine (call : Nat) : Line := ⟨call,"whatsapp",1790812800000,[123, 125],none,false⟩

theorem plainEvent_publishable : plainEvent.Publishable now :=
  ⟨by change (monthOf 1790812800000).isOk = true; decide +kernel,fun _ => by
    change publishableText [123, 125] = true
    decide⟩

/-- The first append fails and spools its line, the second finds it and brings both home. -/
theorem spooled_line_kept_in_order :
    Along step Faithful {}
      [.call (.append plainEvent) 0 ⟨[],[1]⟩, .call (.appendDurable plainEvent) 0 ⟨[true, true, true],[]⟩] := by
  refine accepted_lines_kept_in_order _ fun act hact => ?_
  rcases List.mem_cons.mp hact with rfl | hact
  · exact ⟨fun _ h => (by cases h),plainEvent_publishable⟩
  · rw [List.mem_singleton.mp hact]
    exact ⟨fun _ h => (by simpa using h),plainEvent_publishable⟩

/-- The first line waits in the spool when the second call cannot scan it. The second line goes
straight to the file and the first one follows with the third call. -/
theorem unseen_spool_is_overtaken :
    let b := after [.call (.append plainEvent) 0 ⟨[],[1]⟩, .call (.append plainEvent) 0 ⟨[false, false],[]⟩,
      .call (.append plainEvent) 0 ⟨[],[]⟩]
    (b.files plainFile).first (plainLine 1) = some 0 ∧ (b.files plainFile).first (plainLine 0) = some 1 ∧
      b.answers.map (fun ans => (ans.line.call, ans.result)) = [(0, false), (1, true), (2, true)] := by
  decide +kernel

end RawArchive

end Yeoman.Archive
