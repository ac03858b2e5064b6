import Yeoman.Library.JsonRoundTrip

/-! Dictionaries built member by member, as a program fills them: `data[key] = value` and
`data.update(other)`, with what a later read finds. -/
namespace Yeoman.Library.Json
variable {kvs : Members}

theorem lookup_cons_ite {key k : String} {v : Json} :
    List.lookup key ((k, v) :: kvs) = if key = k then some v else kvs.lookup key := by
  rw [List.lookup_cons]
  by_cases hk : key = k
  · simp [hk]
  · rw [beq_eq_false_iff_ne.mpr hk,if_neg hk]

theorem lookup_set {key key' : String} {value : Json} :
    (set key value kvs).lookup key' = if key' = key then some value else kvs.lookup key' := by
  induction kvs with
  | nil => exact lookup_cons_ite
  | cons kv kvs ih =>
    obtain ⟨k,v⟩ := kv
    rw [set]
    by_cases hk : k = key
    · subst k
      rw [if_pos rfl,lookup_cons_ite,lookup_cons_ite]
      split <;> rfl
    · rw [if_neg hk,lookup_cons_ite,lookup_cons_ite,ih]
      by_cases hx : key' = k
      · subst k
        rw [if_pos rfl,if_pos rfl,if_neg hk]
      · rw [if_neg hx,if_neg hx]

end Yeoman.Library.Json

namespace Yeoman.Library.Dict

def set (key : String) (value : Json) (hv : value.WellFormed) (d : Dict) : Dict :=
  ⟨Json.set key value d.members,Json.set_wellFormed hv d.wellFormed⟩

def setStr (key value : String) (d : Dict) : Dict := d.set key (.str value) trivial

def setBool (key : String) (value : Bool) (d : Dict) : Dict := d.set key (.bool value) trivial

def ofOptStr (value : Option String) : Json := value.elim .null .str
variable (key key' : String) (value : Option String)

theorem ofOptStr_wellFormed : (ofOptStr value).WellFormed := by
  cases value <;> trivial

def setOptStr (key : String) (value : Option String) (d : Dict) : Dict :=
  d.set key (ofOptStr value) (ofOptStr_wellFormed value)

def ofOptInt (value : Option Int) : Json := value.elim .null .int

theorem ofOptInt_wellFormed {value : Option Int} : (ofOptInt value).WellFormed := by
  cases value <;> trivial

def setOptInt (key : String) (value : Option Int) (d : Dict) : Dict :=
  d.set key (ofOptInt value) ofOptInt_wellFormed

def setDict (key : String) (value : Dict) (d : Dict) : Dict := d.set key value.toJson value.wellFormed

/-- `if value is not None: data[key] = value`. -/
def setStr? (key : String) (value : Option String) (d : Dict) : Dict :=
  value.elim d fun v => d.setStr key v

theorem get_set (value : Json) (hv : value.WellFormed) (d : Dict) :
    (d.set key value hv).get key' = if key' = key then value else d.get key' := by
  unfold Dict.get Dict.set Json.get
  rw [Json.lookup_set]
  split <;> rfl

theorem has_set (value : Json) (hv : value.WellFormed) (d : Dict) :
    (d.set key value hv).has key' = (key' = key || d.has key') := by
  unfold Dict.has Dict.set Json.has
  rw [Json.lookup_set]
  by_cases hk : key' = key
  · simp [hk]
  · simp [hk]

@[simp] theorem get_empty : empty.get key = .null := rfl

@[simp] theorem get_setStr (value : String) (d : Dict) :
    (d.setStr key value).get key' = if key' = key then .str value else d.get key' :=
  get_set key key' (.str value) trivial d
variable {d : Dict}

@[simp] theorem get_setInt {value : Int} :
    (d.setInt key value).get key' = if key' = key then .int value else d.get key' :=
  get_set key key' (.int value) trivial d

@[simp] theorem get_setOptStr (d : Dict) :
    (d.setOptStr key value).get key' = if key' = key then ofOptStr value else d.get key' :=
  get_set key key' (ofOptStr value) (ofOptStr_wellFormed value) d

@[simp] theorem get_setOptInt (value : Option Int) (d : Dict) :
    (d.setOptInt key value).get key' = if key' = key then ofOptInt value else d.get key' :=
  get_set key key' (ofOptInt value) ofOptInt_wellFormed d

private def updateMembers : (kvs : Json.Members) → Json.WellFormedMembers kvs → Dict → Dict
  | [], _, d => d
  | (k, v) :: kvs, h, d => updateMembers kvs h.2 (d.set k v h.1)

def update (d other : Dict) : Dict := updateMembers other.members other.wellFormed.2 d

private theorem lookup_updateMembers {kvs : Json.Members} (h : Json.WellFormedMembers kvs)
    (hn : (kvs.map Prod.fst).Nodup) {key : String} :
    (updateMembers kvs h d).members.lookup key = (kvs.lookup key).or (d.members.lookup key) := by
  induction kvs generalizing d with
  | nil => rfl
  | cons kv kvs ih =>
    obtain ⟨k,v⟩ := kv
    rw [updateMembers,ih _ (List.nodup_cons.mp hn).2]
    rw [Dict.set,Json.lookup_set,Json.lookup_cons_ite]
    by_cases hk : key = k
    · subst k
      have hl : kvs.lookup key = none := by
        cases hl : kvs.lookup key with
        | none => rfl
        | some w => exact absurd (List.mem_map.mpr ⟨_,Json.lookup_mem hl,rfl⟩) (List.nodup_cons.mp hn).1
      simp [hl]
    · simp [hk]

theorem get_update {other : Dict} {key : String} :
    (d.update other).get key = if other.has key then other.get key else d.get key := by
  unfold Dict.get Dict.has Json.get Json.has update
  rw [lookup_updateMembers _ other.wellFormed.1]
  cases other.members.lookup key <;> rfl

end Yeoman.Library.Dict
