import Palu.Model.Range

namespace Palu

/-- The lookups and the kd-tree while systems are being added. -/
structure Building where
  nodeCount : ℕ := 0
  idToIdx : ℤ → Option ℕ := fun _ => none
  nameToIdx : String → Option ℕ := fun _ => none
  spatialIndex : KdTree ℕ := []

/-- Add one system: a node, both lookups, and in K-space a point. -/
def Building.addSystem (b : Building) (system : System) : Building :=
  let idx := b.nodeCount
  { nodeCount := idx + 1
    idToIdx := Function.update b.idToIdx system.id (some idx)
    nameToIdx := Function.update b.nameToIdx system.name.toLower (some idx)
    spatialIndex :=
      if system.isWormhole then b.spatialIndex else b.spatialIndex ++ [(system.coords, idx)] }

/-- The edges added so far, with the unordered pairs they were added for. -/
structure EdgePass where
  seen : Finset (ℕ × ℕ) := ∅
  edges : List (ℕ × ℕ) := []

/-- Add the edge of one gate pair, unless a system is unknown or the pair is
already joined. -/
def EdgePass.addPair (idToIdx : ℤ → Option ℕ) (pass : EdgePass) (pair : ℤ × ℤ) : EdgePass :=
  match idToIdx pair.1, idToIdx pair.2 with
  | some a, some b =>
    let key := if a ≤ b then (a, b) else (b, a)
    if key ∈ pass.seen then pass
    else { seen := insert key pass.seen, edges := pass.edges ++ [(a, b)] }
  | _, _ => pass

/-- The nodes added so far are the positions of `systems`. -/
structure Aligned (systems : List System) (b : Building) : Prop where
  count : b.nodeCount = systems.length
  id_lt : ∀ k, ∀ i ∈ b.idToIdx k, i < systems.length
  name_lt : ∀ k, ∀ i ∈ b.nameToIdx k, i < systems.length
  spatial_mem : ∀ p i, (p, i) ∈ b.spatialIndex ↔
    ∃ s, systems[i]? = some s ∧ s.isWormhole = false ∧ p = s.coords
  spatial_nodup : (b.spatialIndex.map Prod.snd).Nodup

theorem update_lt {κ : Type*} [DecidableEq κ] {f : κ → Option ℕ} {k : κ} {n : ℕ}
    (h : ∀ x, ∀ i ∈ f x, i < n) : ∀ x, ∀ i ∈ Function.update f k (some n) x, i < n + 1 := by
  intro x i hi
  by_cases hx : x = k
  · subst hx
    simp only [Function.update_self, Option.mem_def, Option.some.injEq] at hi
    omega
  · rw [Function.update_of_ne hx] at hi
    exact Nat.lt_succ_of_lt (h x i hi)

theorem Aligned.spatial_lt {systems : List System} {b : Building} (h : Aligned systems b)
    {p : Coords} {i : ℕ} (hm : (p, i) ∈ b.spatialIndex) : i < systems.length := by
  obtain ⟨s, hs, _⟩ := (h.spatial_mem p i).mp hm
  exact (List.getElem?_eq_some_iff.mp hs).1

/-- Of one system more, the points are the old ones and that of the new system. -/
theorem Aligned.spatial_append {systems : List System} {b : Building} (h : Aligned systems b)
    (s : System) (p : Coords) (i : ℕ) :
    (∃ t, (systems ++ [s])[i]? = some t ∧ t.isWormhole = false ∧ p = t.coords) ↔
      (p, i) ∈ b.spatialIndex ∨ s.isWormhole = false ∧ p = s.coords ∧ i = systems.length := by
  rw [h.spatial_mem]
  rcases Nat.lt_trichotomy i systems.length with hi | rfl | hi
  · simp [List.getElem?_append_left hi, hi.ne]
  · simp
  · have hlen : (systems ++ [s]).length ≤ i := by simpa using hi
    simp [List.getElem?_eq_none hlen, List.getElem?_eq_none hi.le, hi.ne']

theorem Aligned.addSystem_nodup {systems : List System} {b : Building} (h : Aligned systems b)
    (s : System) : ((b.addSystem s).spatialIndex.map Prod.snd).Nodup := by
  unfold Building.addSystem
  cases hw : s.isWormhole
  · simp only [Bool.false_eq_true, ↓reduceIte, List.map_append, List.map_cons, List.map_nil]
    refine List.nodup_append.mpr ⟨h.spatial_nodup, by simp, ?_⟩
    intro i hi j hj he
    obtain ⟨⟨p, k⟩, hk, rfl⟩ := List.mem_map.mp hi
    have := h.spatial_lt hk
    simp only [List.mem_singleton] at hj
    subst hj
    rw [h.count] at he
    exact absurd he this.ne
  · simpa using h.spatial_nodup

theorem Aligned.addSystem {systems : List System} {b : Building} (h : Aligned systems b)
    (s : System) : Aligned (systems ++ [s]) (b.addSystem s) := by
  have hlen : (systems ++ [s]).length = systems.length + 1 := by simp
  refine ⟨?_, ?_, ?_, ?_, h.addSystem_nodup s⟩
  · simp [Building.addSystem, h.count]
  · simp only [Building.addSystem, h.count, hlen]
    exact update_lt h.id_lt
  · simp only [Building.addSystem, h.count, hlen]
    exact update_lt h.name_lt
  · intro p i
    rw [h.spatial_append]
    unfold Building.addSystem
    cases hw : s.isWormhole <;> simp [h.count]

theorem aligned_build (systems : List System) :
    Aligned systems (systems.foldl Building.addSystem {}) := by
  induction systems using List.reverseRecOn with
  | nil => exact ⟨rfl, by simp, by simp, by simp, by simp⟩
  | append_singleton systems s ih =>
    rw [List.foldl_append]
    exact ih.addSystem s

theorem addPair_lt {idToIdx : ℤ → Option ℕ} {n : ℕ} (hid : ∀ k, ∀ i ∈ idToIdx k, i < n)
    {pass : EdgePass} (h : ∀ e ∈ pass.edges, e.1 < n ∧ e.2 < n) (pair : ℤ × ℤ) :
    ∀ e ∈ (pass.addPair idToIdx pair).edges, e.1 < n ∧ e.2 < n := by
  unfold EdgePass.addPair
  split
  · rename_i a b ha hb
    dsimp only
    generalize (if a ≤ b then (a, b) else (b, a)) = key
    split
    · exact h
    · intro e he
      rcases List.mem_append.mp he with he | he
      · exact h e he
      · rw [List.mem_singleton.mp he]
        exact ⟨hid _ _ ha, hid _ _ hb⟩
  · exact h

theorem edges_lt {idToIdx : ℤ → Option ℕ} {n : ℕ} (hid : ∀ k, ∀ i ∈ idToIdx k, i < n)
    (pairs : List (ℤ × ℤ)) {pass : EdgePass} (h : ∀ e ∈ pass.edges, e.1 < n ∧ e.2 < n) :
    ∀ e ∈ (pairs.foldl (EdgePass.addPair idToIdx) pass).edges, e.1 < n ∧ e.2 < n := by
  induction pairs generalizing pass with
  | nil => exact h
  | cons pair pairs ih => exact ih (addPair_lt hid h pair)

/-- Read a node number off a lookup that only holds numbers below `n`. -/
def narrow {n : ℕ} (o : Option ℕ) (h : ∀ i ∈ o, i < n) : Option (Fin n) :=
  o.pmap Fin.mk h

/-- Build the map from the parsed data: systems in order, then the gate edges
between known systems, each unordered pair once. -/
def buildGraphData (raw : RawSdeData) (buildNumber : ℕ) : GraphData :=
  let b := raw.systems.foldl Building.addSystem {}
  have hb := aligned_build raw.systems
  let pass := raw.gatePairs.foldl (EdgePass.addPair b.idToIdx) {}
  have he := @edges_lt _ _ hb.id_lt raw.gatePairs {} (by simp)
  { systems := raw.systems
    idToIdx k := narrow (b.idToIdx k) (hb.id_lt k)
    nameToIdx k := narrow (b.nameToIdx k) (hb.name_lt k)
    gateGraph := .ofEdges (pass.edges.pmap (fun e h => (⟨e.1, h.1⟩, ⟨e.2, h.2⟩)) he)
    spatialIndex := b.spatialIndex.pmap (fun e h => (e.1, ⟨e.2, h⟩)) fun e => hb.spatial_lt
    hulls := .fromRaw raw.hulls
    buildNumber
    spatial_mem := by
      intro p i
      rw [List.mem_pmap]
      constructor
      · intro ⟨⟨q, j⟩, hm, hj⟩
        obtain ⟨s, hs, hw, hq⟩ := (hb.spatial_mem q j).mp hm
        obtain ⟨hlt, rfl⟩ := List.getElem?_eq_some_iff.mp hs
        cases hj
        exact ⟨hw, hq⟩
      · intro ⟨hw, hp⟩
        exact ⟨(p, i), (hb.spatial_mem p i).mpr ⟨(raw.systems.get i), by simp, hw, hp⟩, rfl⟩
    spatial_nodup := by
      rw [List.map_pmap]
      have := List.Nodup.pmap (f := fun (i : ℕ) (h : i < raw.systems.length) => Fin.mk i h)
        (H := fun i hi => by
          obtain ⟨⟨p, k⟩, hk, rfl⟩ := List.mem_map.mp hi
          exact hb.spatial_lt hk) (fun a _ b _ h => Fin.mk.inj h) hb.spatial_nodup
      simpa [List.pmap_map] using this }

/-- A system on the x axis, so many light-years out. -/
def sysAt (stop : ℤ × SecClass × ℚ) : System where
  id := stop.1
  name := "S" ++ toString stop.1
  security := if stop.2.1 = .highsec then 9 / 10 else 3 / 10
  secClass := stop.2.1
  coords := (stop.2.2 * LY_IN_METERS, 0, 0)
  regionId := 10000002
  constellationId := 20000020

/-- A chain of systems, each joined by a gate to the next. -/
def gateChain (stops : List (ℤ × SecClass × ℚ)) : GraphData :=
  buildGraphData
    { systems := stops.map sysAt
      gatePairs := (stops.map Prod.fst).zip (stops.map Prod.fst).tail } 0

end Palu
