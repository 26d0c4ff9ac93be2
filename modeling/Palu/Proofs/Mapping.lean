import Palu.Model.Build
import Palu.Model.Route
import Palu.Proofs.Rows

namespace Palu

open Tables

section Systems
variable {systems : List System} {raw : RawSdeData} {n : ℕ}

/-- The nodes, the lookups and the points of a list of systems. -/
def building (systems : List System) : Building := systems.foldl Building.addSystem {}

theorem building_append (systems : List System) (s : System) :
    building (systems ++ [s]) = (building systems).addSystem s := by
  rw [building, List.foldl_append]
  rfl

theorem nodeCount_building (systems : List System) :
    (building systems).nodeCount = systems.length :=
  (aligned_build systems).count

theorem indexes_id (systems : List System) :
    Indexes System.id systems (building systems).idToIdx := by
  induction systems using List.reverseRecOn with
  | nil => exact .nil _
  | append_singleton systems s ih =>
    rw [building_append, Building.addSystem, nodeCount_building]
    exact ih.push s

theorem indexes_name (systems : List System) :
    Indexes (fun s : System => s.name.toLower) systems (building systems).nameToIdx := by
  induction systems using List.reverseRecOn with
  | nil => exact .nil _
  | append_singleton systems s ih =>
    rw [building_append, Building.addSystem, nodeCount_building]
    exact ih.push s

theorem narrow_eq_some {n : ℕ} {o : Option ℕ} {h : ∀ i ∈ o, i < n} {x : Fin n} :
    narrow o h = some x ↔ o = some x.val := by
  cases o with
  | none => simp [narrow]
  | some i => simp [narrow, Fin.ext_iff]

theorem narrow_eq_none {n : ℕ} {o : Option ℕ} {h : ∀ i ∈ o, i < n} :
    narrow o h = none ↔ o = none := by
  cases o <;> simp [narrow]

/-- A lookup that is narrowed to the nodes answers the greatest node of a key. -/
theorem Tables.Indexes.narrow_iff {κ : Type*} {key : System → κ} {lookup : κ → Option ℕ}
    (h : Indexes key systems lookup) {k : κ} (hlt : ∀ i ∈ lookup k, i < systems.length)
    (x : Fin systems.length) :
    narrow (lookup k) hlt = some x ↔ IsGreatest {j | key (systems.get j) = k} x := by
  have hset : ∀ j : Fin systems.length, key (systems.get j) = k ↔
      (j : ℕ) ∈ {j | ∃ s, systems[j]? = some s ∧ key s = k} := by
    intro j
    simp
  rw [narrow_eq_some]
  constructor
  · intro hx
    obtain ⟨hmem, hmax⟩ := h.greatest k x hx
    exact ⟨(hset x).mpr hmem, fun j hj => hmax ((hset j).mp hj)⟩
  · intro ⟨hmem, hmax⟩
    cases hl : lookup k with
    | none => exact absurd hmem ((h.missing k).mp hl _ (List.get_mem _ _))
    | some i =>
      obtain ⟨hi, himax⟩ := h.greatest k i hl
      have hle : (⟨i, h.lt hl⟩ : Fin systems.length) ≤ x := hmax ((hset _).mpr hi)
      exact congrArg some (le_antisymm hle (himax ((hset x).mp hmem)))

/-- The indexes of the built map are aligned with its systems. -/
structure IndexAligned (raw : RawSdeData) (n : ℕ) : Prop where
  nodes : (building raw.systems).nodeCount = raw.systems.length
  systems : (buildGraphData raw n).systems = raw.systems
  id_some : ∀ k i, (buildGraphData raw n).idToIdx k = some i ↔
    IsGreatest {j | (raw.systems.get j).id = k} i
  id_none : ∀ k, (buildGraphData raw n).idToIdx k = none ↔ ∀ s ∈ raw.systems, s.id ≠ k
  name_some : ∀ k i, (buildGraphData raw n).nameToIdx k = some i ↔
    IsGreatest {j | (raw.systems.get j).name.toLower = k} i
  name_none : ∀ k, (buildGraphData raw n).nameToIdx k = none ↔
    ∀ s ∈ raw.systems, s.name.toLower ≠ k
  id_lt : ∀ k, ∀ i ∈ (building raw.systems).idToIdx k, i < raw.systems.length
  name_lt : ∀ k, ∀ i ∈ (building raw.systems).nameToIdx k, i < raw.systems.length
  edge_lt : ∀ e ∈ (raw.gatePairs.foldl (EdgePass.addPair (building raw.systems).idToIdx) {}).edges,
    e.1 < raw.systems.length ∧ e.2 < raw.systems.length
  spatial_lt : ∀ e ∈ (building raw.systems).spatialIndex, e.2 < raw.systems.length
  spatial : ∀ i, (buildGraphData raw n).spatialIndex.filter (fun e => e.2 = i) =
    if (raw.systems.get i).isWormhole then [] else [((raw.systems.get i).coords, i)]

/-- The kd-tree holds a K-space system once, at its coordinates, and no other. -/
theorem GraphData.spatial_filter (g : GraphData) (i : g.NodeIndex) :
    g.spatialIndex.filter (fun e => e.2 = i) =
      if (g.systems.get i).isWormhole then [] else [((g.systems.get i).coords, i)] := by
  cases hw : (g.systems.get i).isWormhole with
  | true =>
    rw [if_pos rfl, List.filter_eq_nil_iff]
    intro ⟨p, j⟩ hm hj
    obtain rfl : j = i := by simpa using hj
    rw [(g.spatial_mem.mp hm).1] at hw
    cases hw
  | false =>
    have hm : ((g.systems.get i).coords, i) ∈ g.spatialIndex := g.spatial_mem.mpr ⟨hw, rfl⟩
    have hnodup := g.spatial_nodup.of_map
    rw [if_neg Bool.false_ne_true]
    apply List.perm_singleton.mp
    rw [List.perm_ext_iff_of_nodup (hnodup.filter _) (List.nodup_singleton _)]
    intro ⟨p, j⟩
    simp only [List.mem_filter, decide_eq_true_eq, List.mem_singleton, Prod.mk.injEq]
    constructor
    · intro ⟨hp, hj⟩
      subst hj
      exact ⟨(g.spatial_mem.mp hp).2, rfl⟩
    · intro ⟨hp, hj⟩
      subst hp hj
      exact ⟨hm, rfl⟩

theorem indexAligned (raw : RawSdeData) (n : ℕ) : IndexAligned raw n where
  nodes := nodeCount_building _
  systems := rfl
  id_some k := (indexes_id raw.systems).narrow_iff _
  id_none k := narrow_eq_none.trans ((indexes_id raw.systems).missing k)
  name_some k := (indexes_name raw.systems).narrow_iff _
  name_none k := narrow_eq_none.trans ((indexes_name raw.systems).missing k)
  id_lt _ _ h := (indexes_id raw.systems).lt h
  name_lt _ _ h := (indexes_name raw.systems).lt h
  edge_lt := edges_lt (fun _ _ h => (indexes_id raw.systems).lt h) _ (by simp)
  spatial_lt _ h := (aligned_build raw.systems).spatial_lt h
  spatial := (buildGraphData raw n).spatial_filter

section Resolving
variable {g : GraphData}

theorem resolveSystem_id {k : ℤ} {i : g.NodeIndex} :
    resolveSystem g (.id k) = .ok i ↔ g.idToIdx k = some i := by
  simp only [resolveSystem]
  split <;> simp_all

theorem resolveSystem_name {name : String} {i : g.NodeIndex} :
    resolveSystem g (.name name) = .ok i ↔ g.nameToIdx name.toLower = some i := by
  simp only [resolveSystem]
  split <;> simp_all

theorem resolveSystem_id_fails {k : ℤ} :
    (∃ e, resolveSystem g (.id k) = .error e) ↔ g.idToIdx k = none := by
  simp only [resolveSystem]
  split <;> simp_all

theorem resolveSystem_name_fails {name : String} :
    (∃ e, resolveSystem g (.name name) = .error e) ↔ g.nameToIdx name.toLower = none := by
  simp only [resolveSystem]
  split <;> simp_all

/-- What a resolved reference promises, and when it does not resolve. -/
structure ResolvesExactly (g : GraphData) : Prop where
  id : ∀ k i, resolveSystem g (.id k) = .ok i → (g.systems.get i).id = k
  name : ∀ s i, resolveSystem g (.name s) = .ok i → (g.systems.get i).name.toLower = s.toLower
  id_fails : ∀ k, (∃ e, resolveSystem g (.id k) = .error e) ↔ ∀ s ∈ g.systems, s.id ≠ k
  name_fails : ∀ name, (∃ e, resolveSystem g (.name name) = .error e) ↔
    ∀ s ∈ g.systems, s.name.toLower ≠ name.toLower

end Resolving

theorem IndexAligned.resolves (h : IndexAligned raw n) :
    ResolvesExactly (buildGraphData raw n) where
  id k i hi := ((h.id_some k i).mp (resolveSystem_id.mp hi)).1
  name _ i hi := ((h.name_some _ i).mp (resolveSystem_name.mp hi)).1
  id_fails k := resolveSystem_id_fails.trans (h.id_none k)
  name_fails s := resolveSystem_name_fails.trans (h.name_none s.toLower)

/-- The built map is aligned, so that a reference resolves to a system it names. -/
theorem built_graph_aligned (raw : RawSdeData) (n : ℕ) :
    IndexAligned raw n ∧ ResolvesExactly (buildGraphData raw n) :=
  ⟨indexAligned raw n, (indexAligned raw n).resolves⟩

end Systems

section Gates
variable {gateRows rows' : List RawStargate} {row : RawStargate} {a b : ℤ}

/-- A row that links two ids, in either direction. -/
def RawStargate.Links (row : RawStargate) (a b : ℤ) : Prop :=
  row.solarSystemId = a ∧ row.destination = b ∨ row.solarSystemId = b ∧ row.destination = a

def RawStargate.key (row : RawStargate) : ℤ × ℤ := ordered (row.solarSystemId, row.destination)

theorem RawStargate.key_eq_iff : row.key = ordered (a, b) ↔ row.Links a b := by
  simp [key, Links, ordered_eq_iff]

/-- The rows read so far have left one pair for each link. -/
theorem GatePass.keeps (gateRows : List RawStargate) :
    Keeps (fun row => some (RawStargate.key row)) id gateRows
      (gateRows.foldl GatePass.addRow {}).seen (gateRows.foldl GatePass.addRow {}).pairs := by
  induction gateRows using List.reverseRecOn with
  | nil => exact .nil _ _
  | append_singleton rows row ih =>
    rw [List.foldl_append, List.foldl_cons, List.foldl_nil]
    generalize rows.foldl GatePass.addRow {} = pass at ih
    change Keeps _ _ _ (if row.key ∈ pass.seen then pass else _).seen
      (if row.key ∈ pass.seen then pass else _).pairs
    by_cases hk : row.key ∈ pass.seen
    · rw [if_pos hk]
      apply ih.skip
      intro x hx
      exact Option.some.inj hx ▸ hk
    · rw [if_neg hk]
      exact ih.push rfl hk

/-- The pairs of a stargate file: each link of its rows once, lesser id first. -/
structure PairsExact (gateRows : List RawStargate) (pairs : List (ℤ × ℤ)) : Prop where
  sorted : ∀ p ∈ pairs, p.1 ≤ p.2
  nodup : pairs.Nodup
  linked : ∀ a b, a ≤ b → ((a, b) ∈ pairs ↔ ∃ row ∈ gateRows, row.Links a b)

theorem GatePass.pairsExact (gateRows : List RawStargate) :
    PairsExact gateRows (gateRows.foldl GatePass.addRow {}).pairs := by
  have h := GatePass.keeps gateRows
  have hmem : ∀ p, p ∈ (gateRows.foldl GatePass.addRow {}).pairs ↔
      ∃ row ∈ gateRows, RawStargate.key row = p := by
    intro p
    have := (h.kept_iff p).symm.trans (h.seen_iff p)
    simpa using this
  refine ⟨fun p hp => ?_, by simpa using h.nodup, fun a b hab => ?_⟩
  · obtain ⟨row, _, rfl⟩ := (hmem p).mp hp
    exact ordered_le _
  · rw [hmem]
    apply exists_congr
    intro row
    rw [← RawStargate.key_eq_iff, ordered_of_le hab]

/-- The nodes of a gate pair, where both systems are known. -/
def pairNodes (idToIdx : ℤ → Option ℕ) (pair : ℤ × ℤ) : Option (ℕ × ℕ) :=
  match idToIdx pair.1, idToIdx pair.2 with
  | some a, some b => some (a, b)
  | _, _ => none

theorem pairNodes_eq_some {idToIdx : ℤ → Option ℕ} {pair : ℤ × ℤ} {x y : ℕ} :
    pairNodes idToIdx pair = some (x, y) ↔ idToIdx pair.1 = some x ∧ idToIdx pair.2 = some y := by
  unfold pairNodes
  split
  · simp_all
  · simp_all

/-- The pairs added so far have left one edge for each two nodes they join. -/
theorem EdgePass.keeps (idToIdx : ℤ → Option ℕ) (pairs : List (ℤ × ℤ)) :
    Keeps (pairNodes idToIdx) ordered pairs (pairs.foldl (EdgePass.addPair idToIdx) {}).seen
      (pairs.foldl (EdgePass.addPair idToIdx) {}).edges := by
  induction pairs using List.reverseRecOn with
  | nil => exact .nil _ _
  | append_singleton pairs pair ih =>
    rw [List.foldl_append, List.foldl_cons, List.foldl_nil]
    generalize pairs.foldl (EdgePass.addPair idToIdx) {} = pass at ih
    unfold EdgePass.addPair
    split
    · rename_i a b ha hb
      have hitem : pairNodes idToIdx pair = some (a, b) := pairNodes_eq_some.mpr ⟨ha, hb⟩
      change Keeps _ _ _ (if ordered (a, b) ∈ pass.seen then pass else _).seen
        (if ordered (a, b) ∈ pass.seen then pass else _).edges
      by_cases hk : ordered (a, b) ∈ pass.seen
      · rw [if_pos hk]
        apply ih.skip
        intro x hx
        obtain rfl := Option.some.inj (hitem.symm.trans hx)
        exact hk
      · rw [if_neg hk]
        exact ih.push hitem hk
    · rename_i hnone
      apply ih.skip
      intro ⟨x, y⟩ hx
      obtain ⟨hx, hy⟩ := pairNodes_eq_some.mp hx
      exact absurd hy (hnone _ _ hx)

theorem RawStargate.Links.symm (h : row.Links a b) : row.Links b a := Or.symm h

/-- The gate graph of the rows: two nodes are adjacent where some row links ids
of theirs, over one edge. -/
structure AdjacencyExact (gateRows : List RawStargate) (g : GraphData) : Prop where
  adjacent : ∀ x y, g.gateGraph.containsEdge x y = true ↔
    ∃ row ∈ gateRows, ∃ a b, row.Links a b ∧ g.idToIdx a = some x ∧ g.idToIdx b = some y
  single : ∀ x y, g.gateGraph.containsEdge x y = true →
    g.gateGraph.edges.countP (fun e => e = (x, y) ∨ e = (y, x)) = 1

section Edges
variable {n : ℕ} {x y : Fin n}

/-- An edge of the graph, read off the positions of its ends. -/
def positions (e : Fin n × Fin n) : ℕ × ℕ := (e.1, e.2)

theorem same_pair_iff {e : Fin n × Fin n} :
    e = (x, y) ∨ e = (y, x) ↔ ordered (positions e) = ordered (positions (x, y)) := by
  rw [ordered_eq_iff]
  simp [positions, Prod.ext_iff, Fin.ext_iff]

theorem UnGraph.containsEdge_iff (G : UnGraph n) :
    G.containsEdge x y = true ↔
      ∃ p ∈ G.edges.map positions, ordered p = ordered (positions (x, y)) := by
  simp only [containsEdge, decide_eq_true_eq, List.mem_map, exists_exists_and_eq_and, ← same_pair_iff,
    and_or_left, exists_or, exists_eq_right]

end Edges

/-- A graph that keeps one edge for each two nodes that the pairs join. -/
theorem PairsExact.adjacencyExact {pairs : List (ℤ × ℤ)} (h : PairsExact gateRows pairs)
    {g : GraphData} {lookup : ℤ → Option ℕ} {seen : Finset (ℕ × ℕ)}
    (hid : ∀ k x, g.idToIdx k = some x ↔ lookup k = some x.val)
    (hkeeps : Keeps (pairNodes lookup) ordered pairs seen (g.gateGraph.edges.map positions)) :
    AdjacencyExact gateRows g := by
  have hseen : ∀ x y, g.gateGraph.containsEdge x y = true ↔ ordered (positions (x, y)) ∈ seen :=
    fun x y => g.gateGraph.containsEdge_iff.trans (hkeeps.kept_iff _).symm
  constructor
  · intro x y
    rw [hseen, hkeeps.seen_iff]
    constructor
    · intro ⟨⟨a, b⟩, hp, ⟨i, j⟩, he, hxy⟩
      obtain ⟨row, hrow, hlink⟩ := (h.linked a b (h.sorted _ hp)).mp hp
      obtain ⟨hi, hj⟩ := pairNodes_eq_some.mp he
      rcases ordered_eq_iff.mp hxy with hxy | hxy <;> cases hxy
      · exact ⟨row, hrow, a, b, hlink, (hid a x).mpr hi, (hid b y).mpr hj⟩
      · exact ⟨row, hrow, b, a, hlink.symm, (hid b x).mpr hj, (hid a y).mpr hi⟩
    · intro ⟨row, hrow, a, b, hlink, hx, hy⟩
      rw [hid] at hx hy
      rcases le_total a b with hab | hab
      · exact ⟨(a, b), (h.linked a b hab).mpr ⟨row, hrow, hlink⟩, _,
          pairNodes_eq_some.mpr ⟨hx, hy⟩, rfl⟩
      · exact ⟨(b, a), (h.linked b a hab).mpr ⟨row, hrow, hlink.symm⟩, _,
          pairNodes_eq_some.mpr ⟨hy, hx⟩, ordered_swap (x.val, y.val)⟩
  · intro x y hxy
    rw [← hkeeps.countP_eq_one ((hseen x y).mp hxy), List.countP_map]
    apply List.countP_congr
    intro e _
    simpa using same_pair_iff

theorem buildGraphData_edges (raw : RawSdeData) (n : ℕ) :
    (buildGraphData raw n).gateGraph.edges.map positions =
      (raw.gatePairs.foldl (EdgePass.addPair (building raw.systems).idToIdx) {}).edges := by
  refine (List.map_pmap _).trans ?_
  exact (List.pmap_eq_map _).trans (List.map_id _)

/-- Ways to list the same links of the known systems: in another order, more than
once, by either half, and among rows of unknown systems. -/
inductive Relisted (known : ℤ → Prop) : List RawStargate → List RawStargate → Prop
  | reorder {rows rows'} : rows.Perm rows' → Relisted known rows rows'
  | again {row rows} : row ∈ rows → Relisted known (row :: rows) rows
  | half {row rows} : row ∈ rows →
    Relisted known (⟨row.destination, row.solarSystemId⟩ :: rows) rows
  | unknown {row rows} : ¬ (known row.solarSystemId ∧ known row.destination) →
    Relisted known (row :: rows) rows
  | symm {rows rows'} : Relisted known rows rows' → Relisted known rows' rows
  | trans {rows rows' rows''} : Relisted known rows rows' → Relisted known rows' rows'' →
    Relisted known rows rows''

theorem Relisted.links {known : ℤ → Prop} (h : Relisted known gateRows rows') (ha : known a)
    (hb : known b) : (∃ row ∈ gateRows, row.Links a b) ↔ ∃ row ∈ rows', row.Links a b := by
  induction h with
  | reorder h => simp only [h.mem_iff]
  | again h =>
    simp only [List.exists_mem_cons_iff, or_iff_right_iff_imp]
    exact fun hl => ⟨_, h, hl⟩
  | half h =>
    simp only [List.exists_mem_cons_iff, or_iff_right_iff_imp]
    intro hl
    exact ⟨_, h, hl.imp And.symm And.symm |>.symm⟩
  | unknown h =>
    simp only [List.exists_mem_cons_iff, or_iff_right_iff_imp]
    intro hl
    refine absurd ?_ h
    rcases hl with ⟨rfl, rfl⟩ | ⟨rfl, rfl⟩
    · exact ⟨ha, hb⟩
    · exact ⟨hb, ha⟩
  | symm _ ih => exact ih.symm
  | trans _ _ ih ih' => exact ih.trans ih'

/-- A map whose gate graph is that of stargate rows. -/
theorem adjacencyExact {pairs : List (ℤ × ℤ)} (h : PairsExact gateRows pairs) (raw : RawSdeData)
    (n : ℕ) : AdjacencyExact gateRows (buildGraphData { raw with gatePairs := pairs } n) :=
  h.adjacencyExact (fun _ _ => narrow_eq_some)
    (buildGraphData_edges { raw with gatePairs := pairs } n ▸ EdgePass.keeps _ pairs)

/-- Relisted rows join the same nodes. -/
theorem Relisted.adjacency {raw : RawSdeData} {n : ℕ} {pairs pairs' : List (ℤ × ℤ)}
    (h : Relisted (fun k => ∃ s ∈ raw.systems, s.id = k) gateRows rows')
    (hpairs : PairsExact gateRows pairs) (hpairs' : PairsExact rows' pairs')
    (x y : Fin raw.systems.length) :
    (buildGraphData { raw with gatePairs := pairs' } n).gateGraph.containsEdge x y =
      (buildGraphData { raw with gatePairs := pairs } n).gateGraph.containsEdge x y := by
  have hknown : ∀ k (i : Fin raw.systems.length), (buildGraphData raw n).idToIdx k = some i →
      ∃ s ∈ raw.systems, s.id = k := by
    intro k i hi
    exact ⟨_, List.get_mem _ _, (((indexAligned raw n).id_some k i).mp hi).1⟩
  rw [Bool.eq_iff_iff]
  refine ((adjacencyExact hpairs' raw n).adjacent x y).trans
    (Iff.trans ?_ ((adjacencyExact hpairs raw n).adjacent x y).symm)
  constructor
  · intro ⟨row, hrow, a, b, hlink, hx, hy⟩
    obtain ⟨row, hrow, hlink⟩ := (h.links (hknown a x hx) (hknown b y hy)).mpr ⟨row, hrow, hlink⟩
    exact ⟨row, hrow, a, b, hlink, hx, hy⟩
  · intro ⟨row, hrow, a, b, hlink, hx, hy⟩
    obtain ⟨row, hrow, hlink⟩ := (h.links (hknown a x hx) (hknown b y hy)).mp ⟨row, hrow, hlink⟩
    exact ⟨row, hrow, a, b, hlink, hx, hy⟩

theorem parseGatePairs_ok {rows : RowDecoder} {lines : List String}
    (h : Decodes rows.stargate lines) :
    ∃ pairs, parseGatePairs rows (lines.map .ok) = .ok pairs ∧
      PairsExact (rowsOf rows.stargate lines) pairs := by
  refine ⟨_, ?_, GatePass.pairsExact _⟩
  rw [parseGatePairs, forRows_ok h]
  rfl

/-- The stargate file, up to the adjacency of the built graph. -/
theorem stargates_exact (rows : RowDecoder) (lines : List String) (raw : RawSdeData) (n : ℕ) :
    (∀ i line e, lines[i]? = some line → Undecodable rows.stargate line e →
      (∀ j < i, ∀ l, lines[j]? = some l → ∀ e, ¬ Undecodable rows.stargate l e) →
      parseGatePairs rows (lines.map .ok) = .error (.json (i + 1) e)) ∧
    (Decodes rows.stargate lines → ∃ pairs,
      parseGatePairs rows (lines.map .ok) = .ok pairs ∧
      PairsExact (rowsOf rows.stargate lines) pairs ∧
      AdjacencyExact (rowsOf rows.stargate lines)
        (buildGraphData { raw with gatePairs := pairs } n) ∧
      ∀ lines', Decodes rows.stargate lines' →
        Relisted (fun k => ∃ s ∈ raw.systems, s.id = k) (rowsOf rows.stargate lines)
          (rowsOf rows.stargate lines') →
        ∃ pairs', parseGatePairs rows (lines'.map .ok) = .ok pairs' ∧
          ∀ x y : Fin raw.systems.length,
            (buildGraphData { raw with gatePairs := pairs' } n).gateGraph.containsEdge x y =
              (buildGraphData { raw with gatePairs := pairs } n).gateGraph.containsEdge x y) := by
  constructor
  · intro i line e hi hline hfirst
    rw [parseGatePairs, forRows_first hi hline hfirst, Nat.zero_add]
    rfl
  · intro h
    obtain ⟨pairs, hparse, hpairs⟩ := parseGatePairs_ok h
    refine ⟨pairs, hparse, hpairs, adjacencyExact hpairs raw n, ?_⟩
    intro lines' h' hrelisted
    obtain ⟨pairs', hparse', hpairs'⟩ := parseGatePairs_ok h'
    exact ⟨pairs', hparse', hrelisted.adjacency hpairs hpairs'⟩

end Gates

end Palu
