import Palu.Proofs.Rows

namespace Palu

open Tables

def RawHull.entry (hull : RawHull) : HullEntry where
  name := hull.name
  typeId := hull.typeId
  baseLy := hull.baseLy
  groupId := hull.groupId

namespace HullCatalog
variable {raw : RawHullCatalog}

/-- The catalog answers an id with the last hull of that id. -/
theorem byTypeId_fromRaw (raw : RawHullCatalog) (t : ℤ) :
    (fromRaw raw).byTypeId t = (newest RawHull.typeId raw.hulls t).map RawHull.entry :=
  congrFun (foldl_stored byTypeIdMap rfl (fun _ _ => rfl) raw.hulls) t

/-- The catalog answers a name with the last hull of that name. -/
theorem byName_fromRaw (raw : RawHullCatalog) (name : String) :
    (fromRaw raw).byName name =
      (newest (fun h : RawHull => h.name.toLower) raw.hulls name.toLower).map RawHull.entry :=
  congrFun (foldl_stored byNameMap rfl (fun _ _ => rfl) raw.hulls) name.toLower

theorem insert_min (c : HullCatalog) (hull : RawHull) :
    (c.insert hull).minBaseLyByGroup = Function.update c.minBaseLyByGroup hull.groupId
      (lowered (c.minBaseLyByGroup hull.groupId) hull.baseLy) := by
  simp only [insert]
  cases c.minBaseLyByGroup hull.groupId <;> rfl

theorem minima_insert (hulls : List RawHull) :
    Minima RawHull.groupId RawHull.baseLy hulls (hulls.foldl insert {}).minBaseLyByGroup := by
  induction hulls using List.reverseRecOn with
  | nil => exact .nil _ _
  | append_singleton hulls hull ih =>
    rw [List.foldl_append, List.foldl_cons, List.foldl_nil, insert_min]
    exact ih.push hull

theorem minima_fromRaw (raw : RawHullCatalog) :
    Minima RawHull.groupId RawHull.baseLy raw.hulls (fromRaw raw).minBaseLyForGroup :=
  minima_insert raw.hulls

theorem byTypeId_eq_some {t : ℤ} {e : HullEntry} : (fromRaw raw).byTypeId t = some e ↔
    ∃ hull, Last (fun h => h.typeId = t) raw.hulls hull ∧ hull.entry = e := by
  simp only [byTypeId_fromRaw, Option.map_eq_some_iff, newest_eq_some]

theorem byName_eq_some {name : String} {e : HullEntry} : (fromRaw raw).byName name = some e ↔
    ∃ hull, Last (fun h => h.name.toLower = name.toLower) raw.hulls hull ∧ hull.entry = e := by
  simp only [byName_fromRaw, Option.map_eq_some_iff, newest_eq_some]

/-- Whatever the catalog answers is one of its hulls. -/
theorem mem_of_byTypeId {t : ℤ} {e : HullEntry} (h : (fromRaw raw).byTypeId t = some e) :
    ∃ hull ∈ raw.hulls, hull.entry = e := by
  obtain ⟨hull, hlast, he⟩ := byTypeId_eq_some.mp h
  exact ⟨hull, hlast.holds.1, he⟩

theorem mem_of_byName {name : String} {e : HullEntry} (h : (fromRaw raw).byName name = some e) :
    ∃ hull ∈ raw.hulls, hull.entry = e := by
  obtain ⟨hull, hlast, he⟩ := byName_eq_some.mp h
  exact ⟨hull, hlast.holds.1, he⟩

/-- A hull is no shorter than the least range of its group, which is that of a hull. -/
theorem minBaseLy_le {hull : RawHull} (h : hull ∈ raw.hulls) :
    ∃ base, (fromRaw raw).minBaseLyForGroup hull.groupId = some base ∧ base ≤ hull.baseLy ∧
      ∃ worst ∈ raw.hulls, worst.baseLy = base := by
  have hmin := minima_fromRaw raw
  cases hbase : (fromRaw raw).minBaseLyForGroup hull.groupId with
  | none => exact absurd rfl ((hmin.missing _).mp hbase hull h)
  | some base =>
    obtain ⟨⟨worst, hworst, _, he⟩, hleast⟩ := hmin.least _ _ hbase
    exact ⟨base, rfl, hleast ⟨hull, h, rfl, rfl⟩, worst, hworst, he⟩

end HullCatalog

section Join
variable {types : List RawType} {dogma : List RawTypeDogma} {row : RawTypeDogma} {hull : RawHull}

/-- The types kept by the first pass: the last published row of each id. -/
theorem published_eq (types : List RawType) :
    types.foldl addType (fun _ => none) =
      fun t => (newest RawType.id (types.filter RawType.published) t).map fun type =>
        (type.name, type.groupId) := by
  rw [← foldl_stored id rfl (fun _ _ => rfl), id, List.foldl_filter]
  rfl

def RawTypeDogma.Carries (row : RawTypeDogma) (attributeId : ℤ) : Prop :=
  ∃ attr ∈ row.dogmaAttributes, attr.attributeId = attributeId

/-- The first attribute of that id in a row has the value. -/
def RawTypeDogma.Reads (row : RawTypeDogma) (attributeId : ℤ) (value : ℚ) : Prop :=
  ∃ attr, First (fun a : RawDogmaAttribute => a.attributeId = attributeId)
    row.dogmaAttributes attr ∧ attr.value = value

theorem RawTypeDogma.find_eq_some {attributeId : ℤ} {attr : RawDogmaAttribute} :
    row.find attributeId = some attr ↔
      First (fun a : RawDogmaAttribute => a.attributeId = attributeId) row.dogmaAttributes attr :=
  find?_eq_some_first

theorem RawTypeDogma.carries_iff {attributeId : ℤ} :
    row.Carries attributeId ↔ ∃ value, row.Reads attributeId value := by
  constructor
  · intro ⟨attr, ha, hid⟩
    cases h : row.find attributeId with
    | none => exact absurd hid (by simpa using List.find?_eq_none.mp h attr ha)
    | some found => exact ⟨_, found, find_eq_some.mp h, rfl⟩
  · intro ⟨_, attr, hfirst, _⟩
    exact ⟨attr, hfirst.holds⟩

/-- The hull of a row: a published type with a jump range. -/
def JoinHull (types : List RawType) (row : RawTypeDogma) (hull : RawHull) : Prop :=
  ∃ type, Last (fun t : RawType => t.published = true ∧ t.id = row.id) types type ∧
    row.Reads ATTR_JUMP_DRIVE_RANGE hull.baseLy ∧
    hull.typeId = row.id ∧ hull.name = type.name ∧ hull.groupId = type.groupId

/-- What a row adds to the hulls. -/
def hullOf (published : Published) (row : RawTypeDogma) : Option RawHull :=
  match published row.id, row.find ATTR_JUMP_DRIVE_RANGE with
  | some (name, groupId), some attr =>
    some { typeId := row.id, name := name, groupId := groupId, baseLy := attr.value }
  | _, _ => none

/-- What a row says of the skill's bonus. -/
def bonusOf (row : RawTypeDogma) : Option ℚ :=
  if row.id = JDC_SKILL_TYPE_ID then
    (row.find ATTR_JUMP_DRIVE_RANGE_BONUS).map fun attr => attr.value / 100
  else none

theorem addDogma_hulls (published : Published) (catalog : RawHullCatalog) (row : RawTypeDogma) :
    (addDogma published catalog row).hulls = catalog.hulls ++ (hullOf published row).toList := by
  unfold addDogma hullOf
  cases row.find ATTR_JUMP_DRIVE_RANGE_BONUS <;> cases published row.id <;>
    cases row.find ATTR_JUMP_DRIVE_RANGE <;> simp <;> split <;> rfl

theorem addDogma_bonus (published : Published) (catalog : RawHullCatalog) (row : RawTypeDogma) :
    (addDogma published catalog row).jdcBonusPerLevel =
      (bonusOf row).or catalog.jdcBonusPerLevel := by
  unfold addDogma bonusOf
  cases row.find ATTR_JUMP_DRIVE_RANGE_BONUS <;> cases published row.id <;>
    cases row.find ATTR_JUMP_DRIVE_RANGE <;> simp <;> split <;> rfl

theorem foldl_addDogma_hulls (published : Published) (dogma : List RawTypeDogma) :
    (dogma.foldl (addDogma published) {}).hulls = dogma.filterMap (hullOf published) := by
  induction dogma using List.reverseRecOn with
  | nil => rfl
  | append_singleton dogma row ih =>
    rw [List.foldl_append, List.foldl_cons, List.foldl_nil, addDogma_hulls, ih,
      List.filterMap_append]
    cases h : hullOf published row <;> simp [h]

/-- The bonus is that of the last row that gives one. -/
theorem foldl_addDogma_bonus (published : Published) (dogma : List RawTypeDogma) :
    (dogma.foldl (addDogma published) {}).jdcBonusPerLevel = dogma.reverse.findSome? bonusOf := by
  induction dogma using List.reverseRecOn with
  | nil => rfl
  | append_singleton dogma row ih =>
    rw [List.foldl_append, List.foldl_cons, List.foldl_nil, addDogma_bonus, ih,
      List.reverse_append, List.reverse_singleton, List.singleton_append]
    cases h : bonusOf row <;> simp [h]

theorem hullOf_eq_some : hullOf (types.foldl addType fun _ => none) row = some hull ↔
    JoinHull types row hull := by
  rw [published_eq]
  unfold hullOf JoinHull RawTypeDogma.Reads
  simp only [← newest_filter (p := RawType.published), ← RawTypeDogma.find_eq_some]
  cases newest RawType.id (types.filter RawType.published) row.id with
  | none => simp
  | some type =>
    cases row.find ATTR_JUMP_DRIVE_RANGE with
    | none => simp
    | some attr =>
      obtain ⟨typeId, name, groupId, baseLy⟩ := hull
      simp [eq_comm, and_assoc, and_comm, and_left_comm]

theorem bonusOf_eq_some {bonus : ℚ} : bonusOf row = some bonus ↔
    row.id = JDC_SKILL_TYPE_ID ∧
      ∃ value, row.Reads ATTR_JUMP_DRIVE_RANGE_BONUS value ∧ value / 100 = bonus := by
  unfold bonusOf RawTypeDogma.Reads
  simp only [← RawTypeDogma.find_eq_some]
  split
  · simp [*]
  · simp [*]

/-- The catalog of two files is the join of their rows. -/
structure CatalogExact (types : List RawType) (dogma : List RawTypeDogma) (c : HullCatalog) :
    Prop where
  found : ∀ t, (∃ e, c.byTypeId t = some e) ↔
    (∃ type ∈ types, type.published = true ∧ type.id = t) ∧
      ∃ row ∈ dogma, row.id = t ∧ row.Carries ATTR_JUMP_DRIVE_RANGE
  byTypeId : ∀ t e, c.byTypeId t = some e → e.typeId = t ∧
    ∃ type, Last (fun r : RawType => r.published = true ∧ r.id = t) types type ∧
      e.name = type.name ∧ e.groupId = type.groupId ∧
    ∃ row, Last (fun r : RawTypeDogma => r.id = t ∧ r.Carries ATTR_JUMP_DRIVE_RANGE) dogma row ∧
      row.Reads ATTR_JUMP_DRIVE_RANGE e.baseLy
  byName : ∀ name e, c.byName name = some e ↔
    ∃ row, Last (fun r => ∃ hull, JoinHull types r hull ∧ hull.name.toLower = name.toLower)
      dogma row ∧ ∃ hull, JoinHull types row hull ∧ hull.entry = e
  bonus : ∀ row value, Last (fun r : RawTypeDogma => r.id = JDC_SKILL_TYPE_ID ∧
      r.Carries ATTR_JUMP_DRIVE_RANGE_BONUS) dogma row →
    row.Reads ATTR_JUMP_DRIVE_RANGE_BONUS value → c.bonusPerLevel = value / 100
  no_bonus : (∀ row ∈ dogma, ¬ (row.id = JDC_SKILL_TYPE_ID ∧
    row.Carries ATTR_JUMP_DRIVE_RANGE_BONUS)) → c.bonusPerLevel = 0

/-- A lookup over the join answers with the last row that has a hull of that key. -/
theorem newest_join {κ : Type*} [DecidableEq κ] (key : RawHull → κ) (k : κ) (e : HullEntry) :
    (newest key (dogma.filterMap (hullOf (types.foldl addType fun _ => none))) k).map
        RawHull.entry = some e ↔
      ∃ row, Last (fun r => ∃ hull, JoinHull types r hull ∧ key hull = k) dogma row ∧
        ∃ hull, JoinHull types row hull ∧ hull.entry = e := by
  simp only [Option.map_eq_some_iff, newest_filterMap, hullOf_eq_some]
  constructor
  · intro h
    obtain ⟨hull, ⟨row, hlast, hjoin⟩, he⟩ := h
    exact ⟨row, hlast, hull, hjoin, he⟩
  · intro h
    obtain ⟨row, hlast, hull, hjoin, he⟩ := h
    exact ⟨hull, ⟨row, hlast, hjoin⟩, he⟩

theorem exists_joinHull : (∃ hull, JoinHull types row hull) ↔
    (∃ type ∈ types, type.published = true ∧ type.id = row.id) ∧
      row.Carries ATTR_JUMP_DRIVE_RANGE := by
  rw [RawTypeDogma.carries_iff, ← exists_last]
  constructor
  · intro ⟨hull, type, htype, hreads, _⟩
    exact ⟨⟨type, htype⟩, _, hreads⟩
  · intro ⟨⟨type, htype⟩, value, hreads⟩
    exact ⟨⟨row.id, type.name, type.groupId, value⟩, type, htype, hreads, rfl, rfl, rfl⟩

/-- The rows with a hull of a type are those of a published type with a range. -/
theorem exists_joinHull_typeId {t : ℤ} : (∃ hull, JoinHull types row hull ∧ hull.typeId = t) ↔
    (∃ type ∈ types, type.published = true ∧ type.id = t) ∧
      row.id = t ∧ row.Carries ATTR_JUMP_DRIVE_RANGE := by
  constructor
  · intro ⟨hull, hjoin, hid⟩
    obtain ⟨_, _, _, hrow, _⟩ := id hjoin
    obtain rfl := hrow.symm.trans hid
    obtain ⟨hpub, hcarries⟩ := exists_joinHull.mp ⟨hull, hjoin⟩
    exact ⟨hpub, rfl, hcarries⟩
  · intro ⟨hpub, hrow, hcarries⟩
    subst hrow
    obtain ⟨hull, hjoin⟩ := exists_joinHull.mpr ⟨hpub, hcarries⟩
    obtain ⟨_, _, _, hid, _⟩ := id hjoin
    exact ⟨hull, hjoin, hid⟩

theorem bonusOf_isSome : (∃ bonus, bonusOf row = some bonus) ↔
    row.id = JDC_SKILL_TYPE_ID ∧ row.Carries ATTR_JUMP_DRIVE_RANGE_BONUS := by
  simp [bonusOf_eq_some, RawTypeDogma.carries_iff]

/-- A hull of a type is made of a published type and of a row with a range. -/
theorem exists_last_join {t : ℤ} :
    (∃ row, Last (fun r => ∃ hull, JoinHull types r hull ∧ hull.typeId = t) dogma row) ↔
      (∃ type ∈ types, type.published = true ∧ type.id = t) ∧
        ∃ row ∈ dogma, row.id = t ∧ row.Carries ATTR_JUMP_DRIVE_RANGE := by
  rw [exists_last]
  simp only [exists_joinHull_typeId]
  constructor
  · intro h
    obtain ⟨row, hrow, hpub, hrest⟩ := h
    exact ⟨hpub, row, hrow, hrest⟩
  · intro h
    obtain ⟨hpub, row, hrow, hrest⟩ := h
    exact ⟨row, hrow, hpub, hrest⟩

theorem findSome?_bonusOf {value : ℚ} (hlast : Last (fun r : RawTypeDogma =>
      r.id = JDC_SKILL_TYPE_ID ∧ r.Carries ATTR_JUMP_DRIVE_RANGE_BONUS) dogma row)
    (hreads : row.Reads ATTR_JUMP_DRIVE_RANGE_BONUS value) :
    dogma.reverse.findSome? bonusOf = some (value / 100) :=
  findSome?_reverse_eq_some_last.mpr ⟨row, hlast.congr fun _ => bonusOf_isSome.symm,
    bonusOf_eq_some.mpr ⟨hlast.holds.2.1, value, hreads, rfl⟩⟩

theorem findSome?_bonusOf_none (h : ∀ row ∈ dogma, ¬ (row.id = JDC_SKILL_TYPE_ID ∧
      row.Carries ATTR_JUMP_DRIVE_RANGE_BONUS)) : dogma.reverse.findSome? bonusOf = none := by
  rw [List.findSome?_eq_none_iff]
  intro row hrow
  have hno := h row (List.mem_reverse.mp hrow)
  rw [← bonusOf_isSome, not_exists] at hno
  exact Option.eq_none_iff_forall_ne_some.mpr hno

theorem catalogExact (types : List RawType) (dogma : List RawTypeDogma) :
    CatalogExact types dogma
      (.fromRaw (dogma.foldl (addDogma (types.foldl addType fun _ => none)) {})) := by
  set raw := dogma.foldl (addDogma (types.foldl addType fun _ => none)) {} with hraw
  have hhulls : raw.hulls = dogma.filterMap (hullOf (types.foldl addType fun _ => none)) :=
    foldl_addDogma_hulls _ _
  have hid : ∀ t e, (HullCatalog.fromRaw raw).byTypeId t = some e ↔
      ∃ row, Last (fun r => ∃ hull, JoinHull types r hull ∧ hull.typeId = t) dogma row ∧
        ∃ hull, JoinHull types row hull ∧ hull.entry = e := by
    intro t e
    rw [HullCatalog.byTypeId_fromRaw, hhulls]
    exact newest_join RawHull.typeId t e
  have hbonus : (HullCatalog.fromRaw raw).bonusPerLevel =
      (dogma.reverse.findSome? bonusOf).getD 0 :=
    congrArg (Option.getD · 0) (foldl_addDogma_bonus _ _)
  refine ⟨fun t => ?_, fun t e he => ?_, fun name e => ?_, fun row value hlast hreads => ?_,
    fun hnone => ?_⟩
  · rw [← exists_last_join]
    simp only [hid]
    constructor
    · intro ⟨_, row, hlast, _⟩
      exact ⟨row, hlast⟩
    · intro ⟨row, hlast⟩
      obtain ⟨hull, hjoin, _⟩ := hlast.holds.2
      exact ⟨hull.entry, row, hlast, hull, hjoin, rfl⟩
  · obtain ⟨row, hlast, hull, hjoin, rfl⟩ := (hid t e).mp he
    obtain ⟨hpub, hrow, _⟩ := exists_joinHull_typeId.mp hlast.holds.2
    obtain ⟨type, htype, hreads, htypeId, hname, hgroup⟩ := hjoin
    rw [hrow] at htype htypeId
    refine ⟨htypeId, type, htype, hname, hgroup, row, hlast.congr fun r => ?_, hreads⟩
    exact exists_joinHull_typeId.trans (and_iff_right hpub)
  · rw [HullCatalog.byName_fromRaw, hhulls]
    exact newest_join _ _ _
  · rw [hbonus, findSome?_bonusOf hlast hreads, Option.getD_some]
  · rw [hbonus, findSome?_bonusOf_none hnone, Option.getD_none]

/-- The catalog is the join of the rows of its two files. -/
theorem hull_catalog_exact (rows : RowDecoder) (types dogma : List String)
    (htypes : Decodes rows.type types) (hdogma : Decodes rows.typeDogma dogma) :
    ∃ raw, parseHullCatalog rows (types.map .ok) (dogma.map .ok) = .ok raw ∧
      CatalogExact (rowsOf rows.type types) (rowsOf rows.typeDogma dogma) (.fromRaw raw) := by
  refine ⟨_, ?_, catalogExact _ _⟩
  rw [parseHullCatalog, forRows_ok htypes]
  exact forRows_ok hdogma _ _

/-- A Sin under two names and an unpublished ship; their ranges, the Sin's twice and
once with two ranges, and two rows of the skill. -/
def sinRows : RowDecoder where
  system _ := .error "not a system"
  stargate _ := .error "not a stargate"
  type row :=
    if row = "sin draft" then .ok ⟨22430, 898, "Draft", true⟩
    else if row = "prototype" then .ok ⟨7, 898, "Prototype", false⟩
    else if row = "sin" then .ok ⟨22430, 898, "Sin", true⟩
    else .error "expected value at line 1 column 1"
  typeDogma row :=
    if row = "sin draft" then .ok ⟨22430, [⟨ATTR_JUMP_DRIVE_RANGE, 3⟩]⟩
    else if row = "prototype" then .ok ⟨7, [⟨ATTR_JUMP_DRIVE_RANGE, 9⟩]⟩
    else if row = "sin" then
      .ok ⟨22430, [⟨30, 5⟩, ⟨ATTR_JUMP_DRIVE_RANGE, 4⟩, ⟨ATTR_JUMP_DRIVE_RANGE, 8⟩]⟩
    else if row = "skill draft" then .ok ⟨JDC_SKILL_TYPE_ID, [⟨ATTR_JUMP_DRIVE_RANGE_BONUS, 25⟩]⟩
    else if row = "skill" then
      .ok ⟨JDC_SKILL_TYPE_ID, [⟨275, 1⟩, ⟨ATTR_JUMP_DRIVE_RANGE_BONUS, 20⟩]⟩
    else if row = "sin mass" then .ok ⟨22430, [⟨30, 6⟩]⟩
    else .error "expected value at line 1 column 1"

def sinTypes : List String := ["sin draft", "prototype", "", "sin"]

def sinDogma : List String :=
  ["skill draft", "sin draft", "prototype", "sin", "skill", " sin mass "]

theorem hull_catalog_exact_sin :
    ∃ raw, parseHullCatalog sinRows (sinTypes.map .ok) (sinDogma.map .ok) = .ok raw ∧
      CatalogExact (rowsOf sinRows.type sinTypes) (rowsOf sinRows.typeDogma sinDogma)
        (.fromRaw raw) :=
  hull_catalog_exact sinRows sinTypes sinDogma (decodes_of_forall (by decide +kernel))
    (decodes_of_forall (by decide +kernel))

/-- The later name and range are kept, the first range of a row, and the later bonus. -/
example : (parseHullCatalog sinRows (sinTypes.map .ok) (sinDogma.map .ok)).map
    (fun raw => ((HullCatalog.fromRaw raw).byTypeId 22430, (HullCatalog.fromRaw raw).byTypeId 7,
      (HullCatalog.fromRaw raw).bonusPerLevel)) =
    .ok (some ⟨"Sin", 22430, 4, 898⟩, none, 1 / 5) := by
  decide +kernel

end Join

section Agreement
variable {raw : RawHullCatalog}

/-- The three indexes of a catalog tell the same of it. -/
structure IndexesAgree (c : HullCatalog) : Prop where
  minimum : ∀ g m, c.minBaseLyForGroup g = some m ↔
    IsLeast {ly | ∃ t e, c.byTypeId t = some e ∧ e.groupId = g ∧ e.baseLy = ly} m
  no_minimum : ∀ g, c.minBaseLyForGroup g = none ↔
    ∀ t e, c.byTypeId t = some e → e.groupId ≠ g
  named : ∀ name e, c.byName name = some e → c.byTypeId e.typeId = some e

/-- A later hull has the same type. -/
def Superseded (hulls : List RawHull) (i : Fin hulls.length) : Prop :=
  ∃ j > i, (hulls.get j).typeId = (hulls.get i).typeId

/-- Each superseded hull has lost its name, and does not undercut its group. -/
def StaleHarmless (hulls : List RawHull) : Prop :=
  ∀ i, Superseded hulls i →
    (∃ j > i, (hulls.get j).name.toLower = (hulls.get i).name.toLower) ∧
    ∃ j, ¬ Superseded hulls j ∧ (hulls.get j).groupId = (hulls.get i).groupId ∧
      (hulls.get j).baseLy ≤ (hulls.get i).baseLy

namespace HullCatalog

theorem byTypeId_get {i : Fin raw.hulls.length} (hi : ¬ Superseded raw.hulls i) :
    (fromRaw raw).byTypeId (raw.hulls.get i).typeId = some (raw.hulls.get i).entry := by
  rw [byTypeId_eq_some]
  refine ⟨_, ⟨i, ⟨rfl, ?_⟩, rfl⟩, rfl⟩
  intro j hj
  by_contra hlt
  exact hi ⟨j, not_le.mp hlt, hj⟩

/-- What the catalog holds are the hulls that are not superseded. -/
theorem byTypeId_iff {t : ℤ} {e : HullEntry} : (fromRaw raw).byTypeId t = some e ↔
    ∃ i, ¬ Superseded raw.hulls i ∧ (raw.hulls.get i).typeId = t ∧ (raw.hulls.get i).entry = e := by
  constructor
  · intro he
    obtain ⟨_, ⟨i, ⟨hid, hmax⟩, rfl⟩, rfl⟩ := byTypeId_eq_some.mp he
    refine ⟨i, ?_, hid, rfl⟩
    intro ⟨j, hj, hji⟩
    exact not_le.mpr hj (hmax (hji.trans hid))
  · intro ⟨i, hi, hid, he⟩
    rw [← hid, ← he]
    exact byTypeId_get hi

theorem byName_get {i : Fin raw.hulls.length}
    (hi : ∀ j > i, (raw.hulls.get j).name.toLower ≠ (raw.hulls.get i).name.toLower) :
    (fromRaw raw).byName (raw.hulls.get i).name = some (raw.hulls.get i).entry := by
  rw [byName_eq_some]
  refine ⟨_, ⟨i, ⟨rfl, ?_⟩, rfl⟩, rfl⟩
  intro j hj
  by_contra hlt
  exact hi j (not_le.mp hlt) hj

end HullCatalog

open HullCatalog

/-- A hull that lost its type also lost its name. -/
theorem IndexesAgree.renamed (h : IndexesAgree (.fromRaw raw)) {i : Fin raw.hulls.length}
    (hi : Superseded raw.hulls i) :
    ∃ j > i, (raw.hulls.get j).name.toLower = (raw.hulls.get i).name.toLower := by
  by_contra hnone
  simp only [not_exists, not_and] at hnone
  obtain ⟨j, hj, hid, he⟩ := byTypeId_iff.mp (h.named _ _ (byName_get hnone))
  obtain ⟨k, hk, hki⟩ := hi
  -- The catalog holds a later hull under that type, which has the same entry.
  have hij : i < j := by
    by_contra hle
    exact hj ⟨k, (not_lt.mp hle).trans_lt hk, hki.trans hid.symm⟩
  exact hnone j hij (congrArg (String.toLower ∘ HullEntry.name) he)

theorem IndexesAgree.undercut (h : IndexesAgree (.fromRaw raw)) (i : Fin raw.hulls.length) :
    ∃ j, ¬ Superseded raw.hulls j ∧
      (raw.hulls.get j).groupId = (raw.hulls.get i).groupId ∧
      (raw.hulls.get j).baseLy ≤ (raw.hulls.get i).baseLy := by
  have hmin := minima_fromRaw raw
  have hmem := List.get_mem raw.hulls i
  cases hm : (fromRaw raw).minBaseLyForGroup (raw.hulls.get i).groupId with
  | none => exact absurd rfl ((hmin.missing _).mp hm _ hmem)
  | some m =>
    obtain ⟨t, e, he, hg, hb⟩ := ((h.minimum _ _).mp hm).1
    obtain ⟨j, hj, _, rfl⟩ := byTypeId_iff.mp he
    refine ⟨j, hj, hg, ?_⟩
    change (raw.hulls.get j).baseLy = m at hb
    rw [hb]
    exact (hmin.least _ _ hm).2 ⟨_, hmem, rfl, rfl⟩

theorem StaleHarmless.current (h : StaleHarmless raw.hulls) (i : Fin raw.hulls.length) :
    ∃ j, ¬ Superseded raw.hulls j ∧
      (raw.hulls.get j).groupId = (raw.hulls.get i).groupId ∧
      (raw.hulls.get j).baseLy ≤ (raw.hulls.get i).baseLy := by
  by_cases hi : Superseded raw.hulls i
  · exact (h i hi).2
  · exact ⟨i, hi, rfl, le_refl _⟩

theorem StaleHarmless.agree (h : StaleHarmless raw.hulls) : IndexesAgree (.fromRaw raw) := by
  have hmin := minima_fromRaw raw
  -- What the catalog holds is among the hulls, and low enough to decide their minimum.
  have hheld : ∀ {t e}, (fromRaw raw).byTypeId t = some e →
      ∃ hull ∈ raw.hulls, hull.groupId = e.groupId ∧ hull.baseLy = e.baseLy := by
    intro t e he
    obtain ⟨i, _, _, rfl⟩ := byTypeId_iff.mp he
    exact ⟨_, List.get_mem _ i, rfl, rfl⟩
  have hlow : ∀ hull ∈ raw.hulls, ∃ t e, (fromRaw raw).byTypeId t = some e ∧
      e.groupId = hull.groupId ∧ e.baseLy ≤ hull.baseLy := by
    intro hull hm
    obtain ⟨i, rfl⟩ := List.mem_iff_get.mp hm
    obtain ⟨j, hj, hg, hb⟩ := h.current i
    exact ⟨_, _, byTypeId_get hj, hg, hb⟩
  refine ⟨fun g m => ?_, fun g => ?_, fun name e he => ?_⟩
  · rw [hmin.value_iff]
    apply Iff.symm
    apply isLeast_congr
    · intro ly ⟨t, e, he, heg, heb⟩
      obtain ⟨hull, hm, hg, hb⟩ := hheld he
      exact ⟨hull, hm, hg.trans heg, hb.trans heb⟩
    · intro ly ⟨hull, hm, hg, hb⟩
      obtain ⟨t, e, he, heg, heb⟩ := hlow hull hm
      exact ⟨_, ⟨t, e, he, heg.trans hg, rfl⟩, hb ▸ heb⟩
  · rw [hmin.missing]
    constructor
    · intro hnone t e he
      obtain ⟨hull, hm, hg, _⟩ := hheld he
      exact hg ▸ hnone hull hm
    · intro hnone hull hm hg
      obtain ⟨t, e, he, heg, _⟩ := hlow hull hm
      exact hnone t e he (heg.trans hg)
  · obtain ⟨_, ⟨i, ⟨hname, hmax⟩, rfl⟩, rfl⟩ := byName_eq_some.mp he
    apply byTypeId_get
    intro hi
    obtain ⟨j, hj, hji⟩ := (h i hi).1
    exact not_le.mpr hj (hmax (hji.trans hname))

/-- The indexes agree exactly when no superseded hull is left in one of them. -/
theorem indexes_agree_iff (raw : RawHullCatalog) :
    IndexesAgree (.fromRaw raw) ↔ StaleHarmless raw.hulls := by
  constructor
  · intro h i hi
    exact ⟨h.renamed hi, h.undercut i⟩
  · exact StaleHarmless.agree

/-- A hull listed twice, the second time with a longer range. -/
def repeatedHull : RawHullCatalog where
  hulls := [⟨22430, "Sin", 898, 3⟩, ⟨22430, "Sin", 898, 4⟩]

/-- The group's range is still the one the hull had before. -/
theorem repeated_hull_disagrees : ¬ IndexesAgree (.fromRaw repeatedHull) ∧
    (fromRaw repeatedHull).minBaseLyForGroup 898 = some 3 ∧
      (fromRaw repeatedHull).byTypeId 22430 = some ⟨"Sin", 22430, 4, 898⟩ := by
  have hmin : (fromRaw repeatedHull).minBaseLyForGroup 898 = some 3 := by decide +kernel
  have hheld : (fromRaw repeatedHull).byTypeId 22430 = some ⟨"Sin", 22430, 4, 898⟩ := by
    decide +kernel
  refine ⟨fun h => ?_, hmin, hheld⟩
  obtain ⟨t, e, he, _, hb⟩ := ((h.minimum _ _).mp hmin).1
  obtain ⟨hull, hlast, _⟩ := byTypeId_eq_some.mp he
  obtain ⟨hmem, rfl⟩ := hlast.holds
  have hid : hull.typeId = 22430 := by
    simp only [repeatedHull, List.mem_cons, List.not_mem_nil, or_false] at hmem
    rcases hmem with rfl | rfl <;> rfl
  rw [hid, hheld] at he
  cases he
  norm_num at hb

end Agreement

end Palu
