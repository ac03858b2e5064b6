import Mathlib.Data.List.TakeWhile
import Yeoman.Library.JsonText

/-! Reading the text of a value returns the value. Sorting the keys first is
idempotent, so the canonical text of what was read back is the text itself. -/
namespace Yeoman.Library.Json

private theorem hex4_control : ∀ n < 32, hex4 '0' '0' (hexChar (n / 16)) (hexChar (n % 16)) = some n := by
  decide
variable {r : List Char} {n : Nat} {k : String}

variable {c : Char}

private theorem unescape_letter {e : Char} (h : escapeLetter c = some e) :
    e ≠ 'u' ∧ unescape e = some c := by
  unfold escapeLetter at h
  split_ifs at h <;> cases h <;> subst c <;> decide

theorem scanString_escapeChar : scanString (escapeChar c ++ r) = push c (scanString r) := by
  unfold escapeChar
  cases he : escapeLetter c with
  | some e =>
    obtain ⟨hu,hd⟩ := unescape_letter he
    rw [scanString.eq_def]
    simp [hu,hd]
  | none =>
    have hq : c ≠ '"' := by rintro rfl; cases he
    have hb : c ≠ '\\' := by rintro rfl; cases he
    dsimp only
    split_ifs with hc
    · have hn : c.toNat < 0xd800 ∨ 0xe000 ≤ c.toNat := .inl (by omega)
      rw [scanString.eq_def]
      simp [hex4_control c.toNat hc,hn,Char.ofNat_toNat]
    · rw [scanString.eq_def]
      simp [hq,hb,hc]

theorem scanString_body (cs r : List Char) :
    scanString (cs.flatMap escapeChar ++ '"' :: r) = some (cs, r) := by
  induction cs with
  | nil =>
    rw [List.flatMap_nil, List.nil_append, scanString.eq_def]
    simp
  | cons c cs ih =>
    rw [List.flatMap_cons, List.append_assoc, scanString_escapeChar, ih]
    rfl

private theorem renderString_append (s : String) (r : List Char) :
    renderString s ++ r = '"' :: (s.toList.flatMap escapeChar ++ '"' :: r) := by
  simp [renderString]

def Stops (r : List Char) : Prop := ∀ c ∈ r.head?, isNumberChar c = false

theorem Stops.nil : Stops [] := by simp [Stops]

theorem Stops.cons {r : List Char} (h : isNumberChar c = false) : Stops (c :: r) := by
  simpa [Stops] using h
variable {cs : List Char} {v : Json} {lvs : Members} (f : FloatLit) (i : Int) (key : String) (value : Json)

private theorem digit_isNumberChar (h : c.isDigit = true) : isNumberChar c = true := by
  simp [isNumberChar, h]

private theorem toDigits_head (h : 0 < n) : ∃ c cs, Nat.toDigits 10 n = c :: cs ∧ c ≠ '0' := by
  induction n using Nat.strong_induction_on with
  | _ n ih =>
    by_cases hn : n < 10
    · refine ⟨n.digitChar,[],Nat.toDigits_of_lt_base hn,?_⟩
      have hd : ∀ m < 10, 0 < m → m.digitChar ≠ '0' := by decide
      exact hd n hn h
    · obtain ⟨c,cs,he,hc⟩ := ih (n / 10) (by omega) (by omega)
      refine ⟨c,cs ++ [(n % 10).digitChar],?_,hc⟩
      rw [Nat.toDigits_of_base_le (by omega) (by omega), he]
      rfl

private theorem isWholeText_toDigits (n : Nat) : isWholeText (Nat.toDigits 10 n) = true := by
  have hd (c) (hc : c ∈ Nat.toDigits 10 n) : c.isDigit = true :=
    Nat.isDigit_of_mem_toDigits (by omega) (by omega) hc
  by_cases hn : n = 0
  · subst n
    decide
  · obtain ⟨c,cs,he,hc⟩ := toDigits_head (Nat.pos_of_ne_zero hn)
    rw [he] at hd ⊢
    have hcd := hd c List.mem_cons_self
    have hall : cs.all Char.isDigit = true :=
      List.all_eq_true.mpr fun d hm => hd d (List.mem_cons_of_mem c hm)
    unfold isWholeText
    split
    · contradiction
    · rfl
    next heq =>
      cases heq
      simp [hc, hcd, hall]

private theorem whole_digits (h : isWholeText cs = true) : ∀ c ∈ cs, c.isDigit = true := by
  unfold isWholeText at h
  split at h
  · simp at h
  · intro c hc
    rw [List.mem_singleton.mp hc]
    decide
  · simp only [Bool.and_eq_true, List.all_eq_true] at h
    intro c hc
    rcases List.mem_cons.mp hc with rfl | hc
    · exact h.1.2
    · exact h.2 c hc

private theorem digit_ne {d : Char} (h : c.isDigit = true) (hd : d.isDigit = false) : c ≠ d := by
  rintro rfl
  rw [h] at hd
  cases hd

private theorem whole_not_float {body : List Char} (hw : isWholeText body = true)
    (hb : (if cs.head? = some '-' then cs.tail else cs) = body) : isFloatText cs = false := by
  have hne (c) (hc : c ∈ body) (d : Char) (hd : d.isDigit = false) := digit_ne (whole_digits hw c hc) hd
  have hexp (c) (hc : c ∈ body) : (c != 'e' && c != 'E') = true := by simp [hne c hc 'e',hne c hc 'E']
  have h1 : body.takeWhile (fun c => c != 'e' && c != 'E') = body := List.takeWhile_eq_self_iff.mpr hexp
  have h2 : body.dropWhile (fun c => c != 'e' && c != 'E') = [] := List.dropWhile_eq_nil_iff.mpr hexp
  have h3 : body.dropWhile (· != '.') = [] := List.dropWhile_eq_nil_iff.mpr fun c hc => by simp [hne c hc '.']
  simp [isFloatText,hb,h1,h2,h3]

private theorem not_whole_minus (h : cs.head? = some '-') : isWholeText cs = false :=
  Bool.eq_false_iff.mpr fun hw => digit_ne (whole_digits hw '-' (List.mem_of_mem_head? h)) rfl rfl

private structure Numeral (v : Json) (cs : List Char) : Prop where
  ne_nil : cs ≠ []
  chars : ∀ c ∈ cs, isNumberChar c = true
  value : classifyNumber cs = some v

private theorem float_numeral : Numeral (.float f) f.text := by
  have hf := f.shape
  have h1 : isWholeText f.text = false := by
    by_cases hm : f.text.head? = some '-'
    · exact not_whole_minus hm
    · refine Bool.eq_false_iff.mpr fun h => ?_
      rw [whole_not_float h (if_neg hm)] at hf
      cases hf
  have h2 : ¬ (f.text.head? = some '-' ∧ isWholeText f.text.tail = true) := by
    rintro ⟨hh,hw⟩
    rw [whole_not_float hw (if_pos hh)] at hf
    cases hf
  refine ⟨fun h => ?_,?_,by rw [classifyNumber,h1,if_neg (by simp),if_neg h2,dif_pos hf]⟩
  · rw [h] at hf
    revert hf
    decide
  · simp only [isFloatText,Bool.and_eq_true,List.all_eq_true] at hf
    exact hf.1.1.1.1

private theorem int_numeral : Numeral (.int i) (renderInt i) := by
  have hw := isWholeText_toDigits i.natAbs
  have hd : ∀ c ∈ Nat.toDigits 10 i.natAbs, isNumberChar c = true := fun c hc =>
    digit_isNumberChar (whole_digits hw c hc)
  unfold renderInt
  split_ifs with hi
  · refine ⟨List.cons_ne_nil _ _,List.forall_mem_cons.mpr ⟨rfl,hd⟩,?_⟩
    rw [classifyNumber,not_whole_minus rfl,if_neg (by simp),if_pos ⟨rfl,hw⟩,List.tail_cons,
      Nat.ofDigitChars_ten_toDigits]
    congr 2
    omega
  · refine ⟨Nat.toDigits_ne_nil,hd,?_⟩
    rw [classifyNumber,if_pos hw,Nat.ofDigitChars_ten_toDigits]
    congr 2
    omega

private theorem intText_ne_empty : toString i ≠ "" := by
  cases i with
  | ofNat n => exact Nat.repr_ne_empty
  | negSucc n =>
    change "-" ++ Nat.repr (n + 1) ≠ ""
    simp

theorem toStr_ne_empty (h : v.truthy = true) : v.toStr ≠ "" := by
  cases v with
  | null => cases h
  | bool b => cases b <;> decide
  | int i => exact intText_ne_empty i
  | float f => exact fun he => (float_numeral f).ne_nil (String.ofList_eq_empty_iff.mp he)
  | str s =>
    change s ≠ ""
    simpa [truthy] using h
  | arr | obj => simp [toStr, repr]

def opens (c : Char) : Bool :=
  !(c == ' ' || c == '\t' || c == '\n' || c == '\r' || c == ',' || c == ']' || c == '\x7d')

private theorem number_opens (h : isNumberChar c = true) : opens c = true := by
  cases ho : opens c with
  | true => rfl
  | false =>
    simp only [opens, Bool.not_eq_false', Bool.or_eq_true, beq_iff_eq] at ho
    rcases ho with (((((rfl | rfl) | rfl) | rfl) | rfl) | rfl) | rfl <;> revert h <;> decide

theorem render_opens (v : Json) : ∃ c cs, render v = c :: cs ∧ opens c = true := by
  have hn (v : Json) (cs : List Char) (h : Numeral v cs) : ∃ d ds, cs = d :: ds ∧ opens d = true := by
    obtain ⟨d,ds,rfl⟩ := List.exists_cons_of_ne_nil h.ne_nil
    exact ⟨d,ds,rfl,number_opens (h.chars d List.mem_cons_self)⟩
  cases v with
  | null | str | arr | obj => exact ⟨_,_,rfl,rfl⟩
  | bool b => cases b <;> exact ⟨_,_,rfl,rfl⟩
  | int i => exact hn _ _ (int_numeral i)
  | float f => exact hn _ _ (float_numeral f)

theorem skipSpace_opens (cs : List Char) (h : opens c = true) :
    skipSpace (c :: cs) = c :: cs := by
  rw [skipSpace, List.dropWhile_cons_of_neg]
  simp only [opens, Bool.not_eq_true', Bool.or_eq_false_iff] at h
  simp [h]

private theorem skipSpace_render (v : Json) (r : List Char) :
    skipSpace (render v ++ r) = render v ++ r := by
  obtain ⟨c,cs,he,ho⟩ := render_opens v
  rw [he]
  exact skipSpace_opens _ ho

theorem set_absent {kvs : Members} (h : key ∉ kvs.map Prod.fst) : set key value kvs = kvs ++ [(key, value)] := by
  induction kvs with
  | nil => rfl
  | cons kv kvs ih =>
    simp only [List.map_cons, List.mem_cons, not_or] at h
    rw [set, if_neg (Ne.symm h.1), ih h.2]
    rfl

theorem ofPairs_of_nodup {kvs : Members} (h : (kvs.map Prod.fst).Nodup) : ofPairs kvs = kvs := by
  have hf (acc rest : Members) (hn : ((acc ++ rest).map Prod.fst).Nodup) :
      rest.foldl (fun kvs kv => set kv.1 kv.2 kvs) acc = acc ++ rest := by
    induction rest generalizing acc with
    | nil => simp
    | cons kv rest ih =>
      have hk : kv.1 ∉ acc.map Prod.fst := by
        rw [List.map_append, List.map_cons] at hn
        intro hm
        exact (List.disjoint_of_nodup_append hn) hm List.mem_cons_self
      rw [List.foldl_cons, set_absent _ _ hk, ih]
      · simp
      · simpa using hn
  exact hf [] kvs h

private theorem Numeral.scanValue (h : Numeral v cs) (hr : Stops r) : scanValue (n + 1) (cs ++ r) = some (v, r) := by
  have hrest : r.takeWhile isNumberChar = [] ∧ r.dropWhile isNumberChar = r := by
    cases r with
    | nil => exact ⟨rfl,rfl⟩
    | cons c r => simp [hr c (by simp)]
  have hscan : scanNumber (cs ++ r) = some (v, r) := by
    simp [scanNumber,List.takeWhile_append_of_pos h.chars,List.dropWhile_append_of_pos h.chars,hrest,h.value]
  obtain ⟨c,ds,rfl⟩ := List.exists_cons_of_ne_nil h.ne_nil
  have hc := h.chars c List.mem_cons_self
  have hx : ∀ d : Char, isNumberChar d = false → c ≠ d := by
    rintro d hd rfl
    rw [hc] at hd
    cases hd
  rw [Json.scanValue,List.cons_append,skipSpace_opens _ (number_opens hc)]
  have hw (m : Nat) (x : Char) (xs : List Char) (hd : isNumberChar x = false) : (c :: (ds ++ r)).take (m + 1) ≠ x :: xs :=
    fun he => hx x hd (List.cons.inj he).1
  simp only [hx '"' rfl,hx '[' rfl,hx '\x7b' rfl,if_false,hw 3 'n' _ rfl,hw 3 't' _ rfl,hw 4 'f' _ rfl]
  exact hscan

private theorem head_render_items (x : Json) (xs : List Json) (r : List Char) :
    ∃ c cs, renderItems (x :: xs) ++ r = c :: cs ∧ opens c = true := by
  obtain ⟨c,cs,he,ho⟩ := render_opens x
  cases xs with
  | nil => exact ⟨c,cs ++ r,by simp [renderItems,he],ho⟩
  | cons y ys => exact ⟨c,cs ++ ',' :: renderItems (y :: ys) ++ r,by simp [renderItems,he],ho⟩

private theorem head_render_members (k : String) (v : Json) (kvs : Members) (r : List Char) :
    ∃ cs, renderMembers ((k, v) :: kvs) ++ r = '"' :: cs := by
  cases kvs with
  | nil | cons => exact ⟨_,by rw [renderMembers,renderString]; rfl⟩

mutual

/-- Reading the text of a value consumes exactly that text. -/
theorem scanValue_render (v : Json) (hw : v.WellFormed) (n : Nat) (r : List Char)
    (hn : (render v).length ≤ n) (hr : Stops r) : scanValue n (render v ++ r) = some (v, r) := by
  match n, v with
  | 0, v =>
    obtain ⟨c,cs,he,-⟩ := render_opens v
    simp [he] at hn
  | n + 1, .null =>
    rw [scanValue,skipSpace_render]
    simp [render]
  | n + 1, .bool true =>
    rw [scanValue,skipSpace_render]
    simp [render]
  | n + 1, .bool false =>
    rw [scanValue,skipSpace_render]
    simp [render]
  | n + 1, .int i => exact (int_numeral i).scanValue hr
  | n + 1, .float f => exact (float_numeral f).scanValue hr
  | n + 1, .str s =>
    rw [scanValue,skipSpace_render,render,renderString_append]
    simp [scanString_body]
  | n + 1, .arr [] =>
    rw [scanValue,skipSpace_render]
    simp [render,renderItems,skipSpace]
  | n + 1, .arr (x :: xs) =>
    simp only [render,List.length_cons,List.length_append,List.length_nil] at hn
    have hi := scanItems_render x xs hw n r (by omega)
    obtain ⟨c,cs,he,ho⟩ := head_render_items x xs (']' :: r)
    have hh : (skipSpace (renderItems (x :: xs) ++ ']' :: r)).head? ≠ some ']' := by
      rw [he,skipSpace_opens cs ho]
      rintro ⟨⟩
      cases ho
    rw [scanValue,skipSpace_render,render]
    simp [hh,hi]
  | n + 1, .obj [] =>
    rw [scanValue,skipSpace_render]
    simp [render,renderMembers,skipSpace]
  | n + 1, .obj ((k, w) :: kvs) =>
    simp only [render,List.length_cons,List.length_append,List.length_nil] at hn
    have hi := scanMembers_render k w kvs hw.2 n r (by omega)
    obtain ⟨cs,he⟩ := head_render_members k w kvs ('\x7d' :: r)
    have hh : (skipSpace (renderMembers ((k, w) :: kvs) ++ '\x7d' :: r)).head? ≠ some '\x7d' := by
      rw [he,skipSpace_opens cs (by decide)]
      simp
    rw [scanValue,skipSpace_render,render]
    simp [hh,hi,ofPairs_of_nodup hw.1]

theorem scanItems_render (x : Json) (xs : List Json) (hw : WellFormedItems (x :: xs)) (n : Nat)
    (r : List Char) (hn : (renderItems (x :: xs)).length < n) :
    scanItems n (renderItems (x :: xs) ++ ']' :: r) = some (x :: xs, r) := by
  match n, xs with
  | 0, _ => cases hn
  | n + 1, [] =>
    have hv := scanValue_render x hw.1 n (']' :: r) (Nat.le_of_lt_succ hn) (Stops.cons (by decide))
    rw [scanItems,renderItems,hv]
    simp [skipSpace]
  | n + 1, y :: ys =>
    rw [renderItems,List.length_append,List.length_cons] at hn
    have hv := scanValue_render x hw.1 n (',' :: (renderItems (y :: ys) ++ ']' :: r)) (by omega) (Stops.cons (by decide))
    have hi := scanItems_render y ys hw.2 n r (by omega)
    rw [scanItems,renderItems,List.append_assoc,List.cons_append,hv]
    simp [skipSpace,hi]

theorem scanMembers_render (k : String) (v : Json) (kvs : List (String × Json))
    (hw : WellFormedMembers ((k, v) :: kvs)) (n : Nat) (r : List Char)
    (hn : (renderMembers ((k, v) :: kvs)).length < n) :
    scanMembers n (renderMembers ((k, v) :: kvs) ++ '\x7d' :: r) = some ((k, v) :: kvs, r) := by
  match n, kvs with
  | 0, _ => cases hn
  | n + 1, [] =>
    simp only [renderMembers,List.length_append,List.length_cons] at hn
    have hv := scanValue_render v hw.1 n ('\x7d' :: r) (by omega) (Stops.cons (by decide))
    rw [scanMembers,renderMembers,List.append_assoc,renderString_append]
    simp [skipSpace,scanString_body,hv]
  | n + 1, (k', v') :: kvs =>
    rw [renderMembers] at hn
    simp only [List.length_append,List.length_cons] at hn
    have hv := scanValue_render v hw.1 n (',' :: (renderMembers ((k', v') :: kvs) ++ '\x7d' :: r)) (by omega)
      (Stops.cons (by decide))
    have hi := scanMembers_render k' v' kvs hw.2 n r (by omega)
    rw [scanMembers,renderMembers,List.append_assoc,renderString_append]
    simp [skipSpace,scanString_body,hv,hi]

end

theorem loads_render (v : Json) (hw : v.WellFormed) : loads (String.ofList (render v)) = some v := by
  have h := scanValue_render v hw ((render v).length + 1) [] (Nat.le_succ _) Stops.nil
  rw [List.append_nil] at h
  simp [loads,h,skipSpace]

private theorem sortMembers_eq_map (kvs : Members) : sortMembers kvs = kvs.map fun kv => (kv.1, sortKeys kv.2) := by
  induction kvs with
  | nil => rfl
  | cons kv kvs ih =>
    rw [sortMembers,ih]
    rfl

private theorem sortMembers_keys (kvs : Members) : (sortMembers kvs).map Prod.fst = kvs.map Prod.fst := by
  rw [sortMembers_eq_map,List.map_map]
  rfl

private theorem sorted_keys_perm {kvs : Members} :
    (((sortMembers kvs).insertionSort keyLe).map Prod.fst).Perm (kvs.map Prod.fst) := by
  rw [← sortMembers_keys kvs]
  exact (List.perm_insertionSort keyLe _).map Prod.fst

theorem wellFormedMembers_iff (kvs : Members) :
    WellFormedMembers kvs ↔ ∀ kv ∈ kvs, kv.2.WellFormed := by
  induction kvs with
  | nil => simp [WellFormedMembers]
  | cons kv kvs ih =>
    simp [WellFormedMembers,ih]

variable {kvs : Members}

mutual

theorem sortKeys_wellFormed {v : Json} (hw : v.WellFormed) : (sortKeys v).WellFormed := by
  cases v with
  | arr xs => exact sortItems_wellFormed hw
  | obj kvs =>
    refine ⟨(sorted_keys_perm).nodup_iff.mpr hw.1,?_⟩
    have hm := sortMembers_wellFormed hw.2
    rw [wellFormedMembers_iff] at hm ⊢
    exact fun kv hk => hm kv ((List.mem_insertionSort keyLe).mp hk)
  | null | bool | int | float | str => trivial

theorem sortItems_wellFormed {xs : List Json} (hw : WellFormedItems xs) : WellFormedItems (sortItems xs) := by
  match xs with
  | [] => trivial
  | x :: xs => exact ⟨sortKeys_wellFormed hw.1,sortItems_wellFormed hw.2⟩

theorem sortMembers_wellFormed {kvs : List (String × Json)} (hw : WellFormedMembers kvs) :
    WellFormedMembers (sortMembers kvs) := by
  match kvs with
  | [] => trivial
  | (k, v) :: kvs => exact ⟨sortKeys_wellFormed hw.1,sortMembers_wellFormed hw.2⟩

end

theorem loads_dumps (v : Json) (hw : v.WellFormed) : loads (dumps v) = some (sortKeys v) :=
  loads_render _ (sortKeys_wellFormed hw)

instance : Std.Total keyLe := ⟨fun a b => le_total a.1 b.1⟩

instance : IsTrans (String × Json) keyLe := ⟨fun _ _ _ => le_trans (α := String)⟩

private theorem sortMembers_insertionSort :
    sortMembers (kvs.insertionSort keyLe) = (sortMembers kvs).insertionSort keyLe := by
  rw [sortMembers_eq_map,sortMembers_eq_map]
  exact List.map_insertionSort keyLe keyLe _ _ fun _ _ _ _ => Iff.rfl

mutual

theorem sortKeys_idem {v : Json} : sortKeys (sortKeys v) = sortKeys v := by
  cases v with
  | arr xs => rw [sortKeys,sortKeys,sortItems_idem]
  | obj kvs =>
    rw [sortKeys,sortKeys,sortMembers_insertionSort,sortMembers_idem,
      List.Pairwise.insertionSort_eq (List.pairwise_insertionSort keyLe _)]
  | null | bool | int | float | str => rfl

theorem sortItems_idem {xs : List Json} : sortItems (sortItems xs) = sortItems xs := by
  match xs with
  | [] => rfl
  | x :: xs => rw [sortItems,sortItems,sortKeys_idem,sortItems_idem]

theorem sortMembers_idem {kvs : List (String × Json)} : sortMembers (sortMembers kvs) = sortMembers kvs := by
  match kvs with
  | [] => rfl
  | (k, v) :: kvs => rw [sortMembers,sortMembers,sortKeys_idem,sortMembers_idem]

end

theorem lookup_mem (h : kvs.lookup k = some v) : (k, v) ∈ kvs := by
  obtain ⟨_,_,rfl,-⟩ := List.lookup_eq_some_iff.mp h
  exact List.mem_append_right _ List.mem_cons_self

theorem lookup_eq_some_iff (h : (kvs.map Prod.fst).Nodup) : kvs.lookup k = some v ↔ (k, v) ∈ kvs := by
  refine ⟨lookup_mem,fun hm => ?_⟩
  obtain ⟨before,after,rfl⟩ := List.append_of_mem hm
  rw [List.map_append] at h
  refine List.lookup_eq_some_iff.mpr ⟨before,after,rfl,fun p hp => bne_iff_ne.mpr fun he => ?_⟩
  exact List.disjoint_of_nodup_append h (List.mem_map_of_mem hp) (he ▸ List.mem_cons_self)

private theorem lookup_sortMembers : (sortMembers kvs).lookup k = (kvs.lookup k).map sortKeys := by
  induction kvs with
  | nil => rfl
  | cons kv kvs ih =>
    rw [sortMembers,List.lookup_cons,List.lookup_cons,ih]
    split <;> rfl

theorem lookup_sorted (h : (kvs.map Prod.fst).Nodup) :
    ((sortMembers kvs).insertionSort keyLe).lookup k = (kvs.lookup k).map sortKeys := by
  rw [← lookup_sortMembers]
  ext v
  rw [lookup_eq_some_iff (sorted_keys_perm.nodup_iff.mpr h),lookup_eq_some_iff (by rwa [sortMembers_keys]),
    List.mem_insertionSort]

theorem get_sorted (h : (kvs.map Prod.fst).Nodup) :
    get k ((sortMembers kvs).insertionSort keyLe) = sortKeys (get k kvs) := by
  unfold get
  rw [lookup_sorted h]
  cases kvs.lookup k <;> rfl

private theorem set_keys :
    (set key value kvs).map Prod.fst =
      if key ∈ kvs.map Prod.fst then kvs.map Prod.fst else kvs.map Prod.fst ++ [key] := by
  induction kvs with
  | nil => rfl
  | cons kv kvs ih =>
    obtain ⟨k,v⟩ := kv
    rw [set]
    by_cases hk : k = key
    · subst k
      simp
    · rw [if_neg hk,List.map_cons,ih]
      by_cases hm : key ∈ kvs.map Prod.fst
      · simp [hm]
      · simp [hm,Ne.symm hk]

theorem set_wellFormed {key : String} {value : Json} (hv : value.WellFormed) (hw : (Json.obj kvs).WellFormed) :
    (Json.obj (set key value kvs)).WellFormed := by
  constructor
  · rw [set_keys]
    split_ifs with hn
    · exact hw.1
    · exact List.Nodup.append hw.1 (List.nodup_singleton key)
        (by simpa [List.disjoint_singleton] using hn)
  · have hm := hw.2
    clear hw
    induction kvs with
    | nil => exact ⟨hv,trivial⟩
    | cons kv kvs ih =>
      rw [set]
      split
      · exact ⟨hv,hm.2⟩
      · exact ⟨hm.1,ih hm.2⟩

private theorem ofPairs_wellFormed (hw : WellFormedMembers kvs) :
    (Json.obj (ofPairs kvs)).WellFormed := by
  have hf (rest acc : Members) (hr : WellFormedMembers rest) (ha : (Json.obj acc).WellFormed) :
      (Json.obj (rest.foldl (fun kvs kv => set kv.1 kv.2 kvs) acc)).WellFormed := by
    induction rest generalizing acc with
    | nil => exact ha
    | cons kv rest ih =>
      exact ih _ hr.2 (set_wellFormed hr.1 ha)
  exact hf kvs [] hw ⟨List.nodup_nil,trivial⟩

private theorem classifyNumber_wellFormed (h : classifyNumber cs = some v) : v.WellFormed := by
  unfold classifyNumber at h
  split_ifs at h <;> cases h <;> trivial

mutual

/-- Whatever the reader accepts is a value that a dictionary can hold. -/
theorem scanValue_wellFormed {n : Nat} {cs r : List Char} {v : Json}
    (h : scanValue n cs = some (v, r)) : v.WellFormed := by
  match n with
  | 0 => cases h
  | n + 1 =>
    rw [scanValue] at h
    split at h
    · cases h
    split_ifs at h
    · obtain ⟨p,_,⟨⟩⟩ := Option.map_eq_some_iff.mp h
      trivial
    · cases h
      trivial
    · obtain ⟨p,hp,⟨⟩⟩ := Option.map_eq_some_iff.mp h
      exact scanItems_wellFormed hp
    · cases h
      exact ⟨List.nodup_nil,trivial⟩
    · obtain ⟨p,hp,⟨⟩⟩ := Option.map_eq_some_iff.mp h
      exact ofPairs_wellFormed (scanMembers_wellFormed hp)
    iterate 3
      cases h
      trivial
    · obtain ⟨w,hw,⟨⟩⟩ := Option.map_eq_some_iff.mp h
      exact classifyNumber_wellFormed hw

theorem scanItems_wellFormed {n : Nat} {cs r : List Char} {xs : List Json}
    (h : scanItems n cs = some (xs, r)) : WellFormedItems xs := by
  match n with
  | 0 => cases h
  | n + 1 =>
    rw [scanItems] at h
    split at h
    · cases h
    next v r' hv =>
      have hw := scanValue_wellFormed hv
      split at h
      · obtain ⟨p,hp,⟨⟩⟩ := Option.map_eq_some_iff.mp h
        exact ⟨hw,scanItems_wellFormed hp⟩
      · cases h
        exact ⟨hw,trivial⟩
      · cases h

theorem scanMembers_wellFormed {n : Nat} {cs r : List Char} {kvs : List (String × Json)}
    (h : scanMembers n cs = some (kvs, r)) : WellFormedMembers kvs := by
  match n with
  | 0 => cases h
  | n + 1 =>
    rw [scanMembers] at h
    split at h
    · split at h
      · cases h
      · split at h
        · split at h
          · cases h
          next v r' hv =>
            have hw := scanValue_wellFormed hv
            split at h
            · obtain ⟨p,hp,⟨⟩⟩ := Option.map_eq_some_iff.mp h
              exact ⟨hw,scanMembers_wellFormed hp⟩
            · cases h
              exact ⟨hw,trivial⟩
            · cases h
        · cases h
    · cases h

end

theorem loads_wellFormed {s : String} (h : loads s = some v) : v.WellFormed := by
  unfold loads at h
  split at h
  next w r hs =>
    split at h
    · cases h
      exact scanValue_wellFormed hs
    · cases h
  · cases h

theorem get_wellFormed (hw : (Json.obj kvs).WellFormed) : (get k kvs).WellFormed := by
  unfold get
  cases h : kvs.lookup k with
  | none => trivial
  | some v => exact (wellFormedMembers_iff kvs).mp hw.2 _ (lookup_mem h)

end Yeoman.Library.Json

namespace Yeoman.Library.Dict

def get (key : String) (d : Dict) : Json := Json.get key d.members

def has (key : String) (d : Dict) : Bool := Json.has key d.members

def empty : Dict := ⟨[],List.nodup_nil,trivial⟩

def toJson (d : Dict) : Json := .obj d.members
variable (key : String) (d : Dict)

theorem get_wellFormed : (d.get key).WellFormed :=
  Json.get_wellFormed d.wellFormed

def setInt (key : String) (value : Int) (d : Dict) : Dict :=
  ⟨Json.set key (.int value) d.members,Json.set_wellFormed trivial d.wellFormed⟩

def getDict? (key : String) (d : Dict) : Option Dict :=
  match h : d.get key with
  | .obj kvs => some ⟨kvs,h ▸ d.get_wellFormed key⟩
  | _ => none

theorem getDict?_of_get {key : String} {d e : Dict} (h : d.get key = e.toJson) :
    d.getDict? key = some e := by
  unfold getDict?
  split
  next kvs hk =>
    rw [h] at hk
    cases hk
    rfl
  next hk =>
    exact absurd h (hk _)

/-- `json.loads` of a text that holds an object. -/
def loads? (s : String) : Option Dict :=
  match h : Json.loads s with
  | some (.obj kvs) => some ⟨kvs,Json.loads_wellFormed h⟩
  | _ => none

def sorted (d : Dict) : Dict :=
  ⟨(Json.sortMembers d.members).insertionSort Json.keyLe,Json.sortKeys_wellFormed d.wellFormed⟩

theorem get_sorted : d.sorted.get key = Json.sortKeys (d.get key) :=
  Json.get_sorted d.wellFormed.1

theorem toJson_sorted : d.sorted.toJson = Json.sortKeys d.toJson := by
  rfl

theorem loads?_dumps : loads? (Json.dumps d.toJson) = some d.sorted := by
  have h := Json.loads_dumps d.toJson d.wellFormed
  unfold loads?
  split
  next kvs hk =>
    rw [h] at hk
    cases hk
    rfl
  next hk =>
    exact absurd h (hk _)

/-- Canonical text identifies a dictionary up to the order of its keys. -/
theorem dumps_eq_iff {e : Dict} : Json.dumps d.toJson = Json.dumps e.toJson ↔ d.sorted = e.sorted := by
  constructor
  · intro h
    have hd := loads?_dumps d
    rw [h,loads?_dumps] at hd
    exact (Option.some.inj hd).symm
  · intro h
    unfold Json.dumps
    rw [← toJson_sorted,← toJson_sorted,h]

end Yeoman.Library.Dict
