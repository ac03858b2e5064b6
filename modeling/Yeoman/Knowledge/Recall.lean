import Mathlib.Algebra.Order.Field.Rat
import Mathlib.Data.Prod.Lex
import Mathlib.Data.String.Basic
import Yeoman.Knowledge.Capture
import Yeoman.Knowledge.Statements
import Yeoman.Library.JsonText
import Yeoman.Library.Ranking
import Yeoman.Library.Sha256

/-! Reading statements: the pages of the administrative list, and recall for a reader. -/
namespace Yeoman.Knowledge
open Library

structure ListedRow where
  (statementId workspaceId status : String)
  createdMs : Int

def newestFirst (r : ListedRow) : (Int ×ₗ String)ᵒᵈ := OrderDual.toDual (toLex (r.createdMs, r.statementId))

structure ListFilter where
  statuses : List String := []
  beforeMs : Option Int := none

inductive Param where
  | text (value : String)
  | int (value : Int)
deriving DecidableEq

/-- A cursor around its first colon; the offset is missing if the text there is no integer. -/
structure ListCursor where
  digest : String
  offset : Option Int
deriving DecidableEq

def ListFilter.selects (f : ListFilter) (workspaceId : String) (r : ListedRow) : Bool :=
  r.workspaceId = workspaceId && (f.statuses.isEmpty || r.status ∈ f.statuses) &&
    f.beforeMs.all fun before => r.createdMs < before

def ListFilter.params (f : ListFilter) (workspaceId : String) : List Param :=
  .text workspaceId :: ((ranked id f.statuses.eraseDups).map Param.text ++ (f.beforeMs.map Param.int).toList)

def Param.toJson : Param → Json
  | text value => .str value
  | int value => .int value

/-- `ensure_ascii` on a rendered text: four hexadecimal digits for each UTF-16 unit of other characters. -/
def asciiEscape (c : Char) : List Char :=
  let unit (n : Nat) := ['\\', 'u'] ++ ([12, 8, 4, 0].map fun k => Json.hexChar ((n >>> k) % 16))
  if ' ' ≤ c ∧ c ≤ '~' then [c]
  else if c.toNat < 0x10000 then unit c.toNat
  else unit (0xd800 + (c.toNat - 0x10000) / 0x400) ++ unit (0xdc00 + (c.toNat - 0x10000) % 0x400)

def cursorDigest (params : List Param) (offset : Int) : String :=
  let payload := Json.render (.obj [("p", .arr (params.map Param.toJson)), ("o", .int offset)])
  String.ofList ((Sha256.hexdigest (String.ofList (payload.flatMap asciiEscape))).toList.take 16)

section Paging
variable (workspaceId : String) (table : List ListedRow)

def encodeCursor (params : List Param) (offset : Int) : ListCursor := ⟨cursorDigest params offset,some offset⟩

def decodeCursor (cursor : ListCursor) (params : List Param) : Except String Int :=
  match cursor.offset with
  | none => .error "malformed cursor"
  | some offset =>
    if (cursorDigest params offset).toList.isPrefixOf cursor.digest.toList then .ok offset
    else .error "cursor does not belong to this filter"

def listStatementIds (f : ListFilter) (limit : Nat) (cursor : Option ListCursor) :
    Except String (List String × Option ListCursor) := do
  if limit < 1 ∨ 100 < limit then throw "page limit must be within 1..100"
  let params := f.params workspaceId
  let offset ← match cursor with
    | none => pure 0
    | some cursor => decodeCursor cursor params
  let rows := (ranked newestFirst (table.filter (f.selects workspaceId))).take (limit + 1)
  let ids := rows.map ListedRow.statementId
  if limit < ids.length then return (ids.take limit, some (encodeCursor params (offset + limit)))
  return (ids, none)

def follow (list : Option ListCursor → Except String (List String × Option ListCursor)) :
    Nat → Option ListCursor → Option (List String)
  | 0, _ => none
  | fuel + 1, cursor =>
    match list cursor with
    | .ok (ids, none) => some ids
    | .ok (ids, some next) => (follow list fuel (some next)).map (ids ++ ·)
    | .error _ => none

variable {workspaceId table} {f : ListFilter} {limit : Nat}

theorem follow_eq_none {list : Option ListCursor → Except String (List String × Option ListCursor)}
    (h : ∀ cursor ids, list cursor ≠ .ok (ids, none)) (fuel : Nat) (cursor : Option ListCursor) :
    follow list fuel cursor = none := by
  induction fuel generalizing cursor with
  | zero => rfl
  | succ fuel ih =>
    unfold follow
    split
    next ids hl =>
      exact absurd hl (h cursor ids)
    · simp [ih]
    · rfl

theorem listStatementIds_endless (h : limit < (table.filter (f.selects workspaceId)).length)
    (cursor : Option ListCursor) (ids : List String) :
    listStatementIds workspaceId table f limit cursor ≠ .ok (ids, none) := by
  have hlen : (((ranked newestFirst (table.filter (f.selects workspaceId))).take (limit + 1)).map
      ListedRow.statementId).length = limit + 1 := by
    simpa [(ranked_perm _ _).length_eq,Nat.succ_le_iff] using h
  intro hl
  unfold listStatementIds at hl
  simp only [hlen,Nat.lt_succ_self,if_true,bind,Except.bind,pure,Except.pure] at hl
  repeat' split at hl
  all_goals simp at hl

theorem listStatementIds_all (hl : 1 ≤ limit) (hu : limit ≤ 100)
    (h : (table.filter (f.selects workspaceId)).length ≤ limit) :
    listStatementIds workspaceId table f limit none =
      .ok ((ranked newestFirst (table.filter (f.selects workspaceId))).map ListedRow.statementId, none) := by
  have hlen := (ranked_perm newestFirst (table.filter (f.selects workspaceId))).length_eq
  have htake := List.take_of_length_le (show _ ≤ limit + 1 by omega : (ranked newestFirst
    (table.filter (f.selects workspaceId))).length ≤ limit + 1)
  have hfits : ¬ limit < (table.filter (f.selects workspaceId)).length := by omega
  simp only [listStatementIds,show ¬ (limit < 1 ∨ 100 < limit) by omega,if_false,bind,Except.bind,pure,
    Except.pure,htake,List.length_map,hlen,hfits]

theorem length_cursorDigest {params : List Param} {offset : Int} : (cursorDigest params offset).toList.length = 16 := by
  simp [cursorDigest,Sha256.hexdigest_length]

theorem decodeCursor_encodeCursor {params own : List Param} {offset : Int} :
    decodeCursor (encodeCursor params offset) own =
      if cursorDigest own offset = cursorDigest params offset then .ok offset
      else .error "cursor does not belong to this filter" := by
  unfold decodeCursor encodeCursor
  dsimp only
  refine if_congr ?_ rfl rfl
  rw [List.isPrefixOf_iff_prefix]
  constructor
  · intro h
    exact String.toList_inj.mp (h.eq_of_length (length_cursorDigest.trans length_cursorDigest.symm))
  · intro h
    rw [h]

/-- A cursor of another filter is rejected exactly if the two digests differ. -/
theorem listStatementIds_foreign (hl : 1 ≤ limit) (hu : limit ≤ 100) (params : List Param) (offset : Int) :
    (∃ e, listStatementIds workspaceId table f limit (some (encodeCursor params offset)) = .error e) ↔
      cursorDigest (f.params workspaceId) offset ≠ cursorDigest params offset := by
  have hrange : ¬ (limit < 1 ∨ 100 < limit) := by omega
  simp only [listStatementIds,hrange,if_false,decodeCursor_encodeCursor,bind,Except.bind,pure,Except.pure]
  by_cases hd : cursorDigest (f.params workspaceId) offset = cursorDigest params offset
  · refine iff_of_false ?_ (not_not.mpr hd)
    rintro ⟨e,he⟩
    rw [if_pos hd] at he
    dsimp only at he
    split_ifs at he
  · rw [if_neg hd]
    exact iff_of_true ⟨_,rfl⟩ hd

/-- Following the pages enumerates the matching statements, newest first, exactly if a single page
holds them all; and the cursors of other filters are rejected exactly if no digest collides. -/
theorem paging_enumerates_iff (workspaceId : String) (table : List ListedRow) (f : ListFilter) (limit : Nat)
    (hlow : 1 ≤ limit) (hhigh : limit ≤ 100) :
    ((∃ fuel ids, ∃ rows : List ListedRow, follow (listStatementIds workspaceId table f limit) fuel none = some ids ∧
        rows.Perm (table.filter (f.selects workspaceId)) ∧
        (rows.Pairwise fun a b => newestFirst a ≤ newestFirst b) ∧ ids = rows.map ListedRow.statementId) ↔
      (table.filter (f.selects workspaceId)).length ≤ limit) ∧
    ((∀ g : ListFilter, g.params workspaceId ≠ f.params workspaceId → ∀ offset, ∃ e,
        listStatementIds workspaceId table f limit (some (encodeCursor (g.params workspaceId) offset)) = .error e) ↔
      ∀ g : ListFilter, g.params workspaceId ≠ f.params workspaceId → ∀ offset,
        cursorDigest (f.params workspaceId) offset ≠ cursorDigest (g.params workspaceId) offset) := by
  refine ⟨⟨?_,fun h => ?_⟩,forall₃_congr fun g _ offset => listStatementIds_foreign hlow hhigh _ offset⟩
  · rintro ⟨fuel,ids,rows,hf,-⟩
    by_contra hlt
    rw [follow_eq_none (listStatementIds_endless (Nat.lt_of_not_le hlt))] at hf
    cases hf
  · refine ⟨1,_,_,?_,ranked_perm newestFirst _,ranked_sorted newestFirst _,rfl⟩
    simp [follow,listStatementIds_all hlow hhigh h]

end Paging

def twoStatements : List ListedRow := [⟨"s1","w","assertion",1⟩, ⟨"s2","w","assertion",2⟩]

/-- With two statements and pages of one, every page is the first one. -/
theorem second_page_repeats_the_first :
    let cursor := encodeCursor (ListFilter.params {} "w")
    listStatementIds "w" twoStatements {} 1 none = .ok (["s2"], some (cursor 1)) ∧
      listStatementIds "w" twoStatements {} 1 (some (cursor 1)) = .ok (["s2"], some (cursor 2)) := by
  decide +kernel

/-- Two statements on a page of two are enumerated, and a cursor of another filter is rejected there. -/
theorem one_page_enumerates :
    (∃ fuel ids, ∃ rows : List ListedRow, follow (listStatementIds "w" twoStatements {} 2) fuel none = some ids ∧
      rows.Perm (twoStatements.filter (ListFilter.selects {} "w")) ∧
      (rows.Pairwise fun a b => newestFirst a ≤ newestFirst b) ∧ ids = rows.map ListedRow.statementId) ∧
    listStatementIds "w" twoStatements {} 2
        (some (encodeCursor (ListFilter.params { statuses := ["assertion"] } "w") 1)) =
      .error "cursor does not belong to this filter" :=
  ⟨(paging_enumerates_iff "w" twoStatements {} 2 (by decide) (by decide)).1.mpr (by decide +kernel),by decide +kernel⟩

structure HistoryScope where
  verifySource : SourceRef → Bool
  permitsPrincipal : SourceRef → String → Bool

/-- A reader that is not the owner: the decision, the SQL gate with the person filter, and the sources. -/
structure Reader where
  allowed : Bool
  recipients : List String
  gate : ListedRow → Bool
  scope : Option HistoryScope
  sourcesOf : String → List (SourceRef × SourceStatus)

/-- A query; `bm25` is missing if the full-text search raised, and the overlap of tokens scores then. -/
structure RecallQuery where
  limit : Nat
  (requireMatch blank : Bool)
  bm25 : Option (String → Option ℚ)
  overlap : String → ℚ

def Reader.historySourcesPermit (r : Reader) (statementId : String) : Bool :=
  r.scope.all fun scope => !(r.sourcesOf statementId).isEmpty && (r.sourcesOf statementId).all fun (source, status) =>
    status = .active && scope.verifySource source &&
      (source.channel ≠ "whatsapp" || r.recipients.all (scope.permitsPrincipal source))

def RecallQuery.score (q : RecallQuery) (statementId : String) : ℚ :=
  match q.bm25 with
  | some bm25 => (bm25 statementId).elim 0 fun raw => 1 / (1 + max 0 raw)
  | none => q.overlap statementId

def RecallQuery.rank (q : RecallQuery) (statementIds : List String) : List String :=
  if q.blank then if q.requireMatch then [] else statementIds
  else
    let ordered := ranked (fun id => toLex (-q.score id, id)) statementIds
    if q.requireMatch then ordered.filter (0 < q.score ·) else ordered

def Reader.candidates (r : Reader) (q : RecallQuery) (table : List ListedRow) : List String :=
  if !r.allowed then []
  else
    let rows := (ranked newestFirst (table.filter r.gate)).take (q.limit * 8)
    (q.rank ((rows.map ListedRow.statementId).filter r.historySourcesPermit)).take q.limit

def Reader.permitted (r : Reader) (q : RecallQuery) (bm25 : String → Option ℚ) (rows : List ListedRow) : List String :=
  (rows.map ListedRow.statementId).filter fun id => r.historySourcesPermit id && (!q.requireMatch || (bm25 id).isSome)

def relevance (bm25 : String → Option ℚ) (id : String) : Nat ×ₗ ℚ ×ₗ String :=
  toLex (if (bm25 id).isSome then 0 else 1, toLex ((bm25 id).getD 0, id))

def matchesFirst (bm25 : String → Option ℚ) (id : String) : Nat ×ₗ String :=
  toLex (if (bm25 id).isSome then 0 else 1, id)

section Recall
variable {r : Reader} {q : RecallQuery} {bm25 : String → Option ℚ} {table : List ListedRow}

theorem matchesFirst_injective : Function.Injective (matchesFirst bm25) :=
  fun _ _ h => congrArg Prod.snd (toLex.injective h)

theorem score_eq (hq : q.bm25 = some bm25) (hneg : ∀ id raw, bm25 id = some raw → raw ≤ 0) {id : String} :
    q.score id = if (bm25 id).isSome then 1 else 0 := by
  rw [RecallQuery.score,hq]
  cases h : bm25 id with
  | none => simp [h]
  | some raw => simp [h,hneg id raw h]

/-- Numbers that are never positive all make the same score: what is left is the order of the ids. -/
theorem ranked_score (hq : q.bm25 = some bm25) (hneg : ∀ id raw, bm25 id = some raw → raw ≤ 0) {ids : List String} :
    ranked (fun id => toLex (-q.score id, id)) ids = ranked (matchesFirst bm25) ids := by
  refine (ranked_unique matchesFirst_injective (ranked_perm _ ids) ((ranked_sorted _ ids).imp fun {a b} h => ?_)).symm
  simp only [score_eq hq hneg,matchesFirst,Prod.Lex.toLex_le_toLex] at h ⊢
  have hpos : ¬ (1 : ℚ) < 0 := by decide
  cases ha : bm25 a <;> cases hb : bm25 b <;> simp_all

theorem candidates_eq (hallowed : r.allowed = true) (hblank : q.blank = false) (hq : q.bm25 = some bm25)
    (hneg : ∀ id raw, bm25 id = some raw → raw ≤ 0) :
    r.candidates q table = (ranked (matchesFirst bm25) (r.permitted q bm25
      ((ranked newestFirst (table.filter r.gate)).take (q.limit * 8)))).take q.limit := by
  have hscore : (fun id => decide (0 < q.score id)) = fun id => (bm25 id).isSome := by
    funext id
    rw [score_eq hq hneg]
    cases bm25 id <;> simp
  unfold Reader.candidates Reader.permitted RecallQuery.rank
  rw [hallowed,hblank]
  simp only [ranked_score hq hneg,hscore]
  cases q.requireMatch <;> simp [filter_ranked matchesFirst_injective,List.filter_filter,Bool.and_comm]

/-- A non-owner's query returns the most relevant permitted statements exactly if they are all among the
permitted ones of the newest `8 * limit` rows and come first there when matches are taken by id. -/
theorem recall_returns_best_iff (r : Reader) (q : RecallQuery) (bm25 : String → Option ℚ) (table : List ListedRow)
    (hids : (table.map ListedRow.statementId).Nodup) (hallowed : r.allowed = true) (hblank : q.blank = false)
    (hq : q.bm25 = some bm25) (hneg : ∀ id raw, bm25 id = some raw → raw ≤ 0) :
    let best := (ranked (relevance bm25) (r.permitted q bm25 (table.filter r.gate))).take q.limit
    let newest := r.permitted q bm25 ((ranked newestFirst (table.filter r.gate)).take (q.limit * 8))
    r.candidates q table = best ↔
      best ⊆ newest ∧ (best.Pairwise fun a b => matchesFirst bm25 a ≤ matchesFirst bm25 b) ∧
        ∀ a ∈ best, ∀ b ∈ newest, b ∉ best → matchesFirst bm25 a ≤ matchesFirst bm25 b := by
  intro best newest
  have hgate : ((table.filter r.gate).map ListedRow.statementId).Nodup := hids.sublist (List.filter_sublist.map _)
  have hall : (r.permitted q bm25 (table.filter r.gate)).Nodup := hgate.filter _
  have hnewest : newest.Nodup := by
    refine List.Nodup.filter _ ?_
    exact (((ranked_perm newestFirst _).map _).nodup_iff.mpr hgate).sublist ((List.take_sublist _ _).map _)
  rw [candidates_eq hallowed hblank hq hneg]
  refine take_ranked_eq_iff matchesFirst_injective hnewest
    (((ranked_perm _ _).nodup_iff.mpr hall).sublist (List.take_sublist _ _)) (List.length_take_le _ _) fun hlt => ?_
  -- fewer than the limit: these are all that is permitted
  have hwhole : best = ranked (relevance bm25) (r.permitted q bm25 (table.filter r.gate)) := by
    refine List.take_of_length_le ?_
    by_contra hlong
    simp only [best,List.length_take] at hlt
    omega
  intro id hid
  rw [hwhole,mem_ranked]
  simp only [Reader.permitted,List.mem_filter,List.mem_map] at hid ⊢
  obtain ⟨⟨row,hrow,rfl⟩,hp⟩ := hid
  exact ⟨⟨row,List.mem_filter.mp (mem_ranked.mp (List.mem_of_mem_take hrow)),rfl⟩,hp⟩

end Recall

def openReader : Reader := ⟨true,[],fun _ => true,none,fun _ => []⟩

def oneMatch (bm25 : String → Option ℚ) : RecallQuery := ⟨1,false,false,some bm25,fun _ => 0⟩

/-- The only match is not found behind eight newer rows, and of two matches the smaller id wins. -/
theorem recall_misses_best_match :
    openReader.candidates (oneMatch fun id => if id = "s0" then some (-1) else none)
        (["s0", "s1", "s2", "s3", "s4", "s5", "s6", "s7", "s8"].zipIdx.map fun (id, i) => ⟨id,"w","assertion",i⟩) =
      ["s1"] ∧
    openReader.candidates (oneMatch fun id => if id = "s1" then some (-5) else some (-1))
        (["s0", "s1"].zipIdx.map fun (id, i) => ⟨id,"w","assertion",i⟩) = ["s0"] := by
  decide +kernel

def groupReader : Reader where
  allowed := true
  recipients := ["whatsapp:ana", "whatsapp:ben"]
  gate r := r.status ≠ "revoked"
  scope := some ⟨fun source => source.revision = 1,fun source principal => source.authorPrincipal = "whatsapp:eve" →
    principal = "whatsapp:ana"⟩
  sourcesOf id :=
    if id = "s4" then [(⟨"e4",1,"whatsapp","g","whatsapp:eve",4⟩, .active)]
    else [(⟨id,if id ∈ ["s0", "s1", "s2", "s6"] then 1 else 2,"whatsapp","g","whatsapp:ana",0⟩, .active)]

def groupTable : List ListedRow :=
  [⟨"s0","w","assertion",0⟩, ⟨"s1","w","assertion",21⟩, ⟨"s2","w","assertion",22⟩, ⟨"s3","w","revoked",23⟩,
    ⟨"s4","w","assertion",24⟩, ⟨"s5","w","assertion",25⟩, ⟨"s6","w","confirmed",26⟩] ++
  (List.range 12).map fun i => ⟨"t" ++ toString i,"w","assertion",i + 1⟩

def groupMatches (id : String) : Option ℚ :=
  if id = "s1" then some (-5) else if id = "s2" then some (-3) else if id ∈ ["s3", "s4", "s5"] then some (-9) else none

/-- The two best matches are returned; better ones are revoked, not meant for all recipients or not
verified, and what does not match is newer, or too old to be looked at. -/
theorem recall_finds_permitted_matches :
    let q : RecallQuery := ⟨2,false,false,some groupMatches,fun _ => 0⟩
    groupReader.candidates q groupTable = (ranked (relevance groupMatches)
        (groupReader.permitted q groupMatches (groupTable.filter groupReader.gate))).take 2 ∧
      groupReader.candidates q groupTable = ["s1", "s2"] ∧
      groupReader.permitted q groupMatches (groupTable.filter groupReader.gate) = ["s0", "s1", "s2", "s6"] := by
  intro q
  have hneg : ∀ id raw, groupMatches id = some raw → raw ≤ 0 := by
    intro id raw h
    unfold groupMatches at h
    split_ifs at h <;> cases h <;> decide
  exact ⟨(recall_returns_best_iff groupReader q groupMatches groupTable (by decide +kernel) rfl rfl rfl hneg).mpr
    (by decide +kernel),by decide +kernel,by decide +kernel⟩

end Yeoman.Knowledge
