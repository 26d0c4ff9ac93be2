import Palu.Proofs.Routes
import Palu.Model.Build

namespace Palu

open Paths

variable {g : GraphData} {ctx : RouteContext g} {src dst : g.NodeIndex} {p q : Path g}

namespace RouteContext

/-- Where an edge costs one, and a penalty if `P` holds of it, a path costs its
jumps and its penalties. -/
theorem pathCost_penalties {P : g.NodeIndex × g.NodeIndex → Bool} {k : ℕ}
    (h : ∀ a b, ctx.edgeWeight a b = 1 + if P (a, b) then k else 0) (p : Path g) :
    ctx.pathCost p = p.length - 1 + k * (steps p).countP P := by
  rw [← length_steps, pathCost]
  induction steps p with
  | nil => simp
  | cons e es ih =>
    rw [List.map_cons, List.sum_cons, ih, List.countP_cons, List.length_cons, h]
    split <;> ring

/-- A hop over an overlay edge that no gate parallels. -/
def overlayHop (ctx : RouteContext g) (e : g.NodeIndex × g.NodeIndex) : Bool :=
  ctx.isOverlayEdge e.1 e.2 && !ctx.hasGateEdge e.1 e.2

def overlayHops (ctx : RouteContext g) (p : Path g) : ℕ := (steps p).countP ctx.overlayHop

def dangerous (g : GraphData) (v : g.NodeIndex) : Bool := (g.systems.get v).secClass ≠ .highsec

theorem pathCost_shortest (h : ctx.preference = .shortest) (p : Path g) :
    ctx.pathCost p = p.length - 1 := by
  simp [pathCost, edgeWeight, securityPenalty, wormholePenalty, h, length_steps]

theorem pathCost_preferGates (h : ctx.preference = .preferGates) (p : Path g) :
    ctx.pathCost p = p.length - 1 + WORMHOLE_PENALTY * ctx.overlayHops p := by
  refine pathCost_penalties (fun a b => ?_) p
  simp only [edgeWeight, securityPenalty, wormholePenalty, h, add_zero]
  rfl

theorem pathCost_safest (h : ctx.preference = .safest) (p : Path g) :
    ctx.pathCost p = p.length - 1 + SECURITY_PENALTY * p.tail.countP (dangerous g) := by
  rw [← map_snd_steps, List.countP_map]
  refine pathCost_penalties (fun a b => ?_) p
  simp [edgeWeight, securityPenalty, wormholePenalty, h, dangerous]

/-- An admissible walk over gates only. -/
structure GateRoute (ctx : RouteContext g) (src dst : g.NodeIndex) (p : Path g) : Prop
    extends ctx.Admits src dst p where
  gates : p.IsChain fun a b => ctx.hasGateEdge a b = true

theorem Admits.overlayHops_eq_zero (h : ctx.Admits src dst p) :
    ctx.overlayHops p = 0 ↔ ctx.GateRoute src dst p := by
  rw [overlayHops, List.countP_eq_zero]
  constructor
  · intro hz
    refine ⟨h, (isChain_iff_steps _ _).mpr fun e he => ?_⟩
    have hj := (isChain_iff_steps _ _).mp h.joined e he
    have := hz e he
    simp only [overlayHop, Bool.and_eq_true, Bool.not_eq_true', not_and, Bool.not_eq_false] at this
    exact hj.elim id this
  · intro hg e he
    simp [overlayHop, (isChain_iff_steps _ _).mp hg.gates e he]

theorem GateRoute.cost_eq (hp : ctx.preference = .preferGates) (h : ctx.GateRoute src dst p) :
    ctx.pathCost p = p.length - 1 := by
  rw [pathCost_preferGates hp, h.toAdmits.overlayHops_eq_zero.mpr h, mul_zero, add_zero]

/-- Back from `v`, the first settled of the cheapest stops is always a gate away. -/
inductive TieBreaksToGates (ctx : RouteContext g) (src : g.NodeIndex) : g.NodeIndex → Prop where
  | start : TieBreaksToGates ctx src src
  | step {u v : g.NodeIndex} (stop : FirstStop ctx.network src u v)
      (gate : ctx.hasGateEdge u v = true) (rest : TieBreaksToGates ctx src u) :
      TieBreaksToGates ctx src v

theorem tieBreaksToGates_iff (h : Canonical ctx.network src dst p) :
    ctx.TieBreaksToGates src dst ↔ ∀ e ∈ steps p, ctx.hasGateEdge e.1 e.2 = true := by
  induction h with
  | start => simp [TieBreaksToGates.start]
  | @snoc u v p path stop ih =>
    rw [steps_snoc path.walk.getLast]
    constructor
    · intro ht e he
      cases ht with
      | start => exact absurd rfl stop.ne_start
      | step stop' gate rest =>
        obtain rfl := stop.unique stop'
        rcases List.mem_append.mp he with he | he
        · exact ih.mp rest e he
        · rwa [List.mem_singleton.mp he]
    · intro hg
      exact .step stop (hg (u, v) (by simp)) (ih.mpr fun e he => hg e (by simp [he]))

/-- What `preferGates` promises of a returned path `p`. -/
structure WorthIt (ctx : RouteContext g) (src dst : g.NodeIndex) (p : Path g) : Prop where
  /-- Overlay hops are only taken where each saves more than the penalty. -/
  saves : 1 ≤ ctx.overlayHops p → ∀ q, ctx.GateRoute src dst q →
    p.length - 1 + WORMHOLE_PENALTY * ctx.overlayHops p < q.length - 1
  /-- Overlay hops are taken where some overlay route saves that much. -/
  takes : (∃ r, ctx.Admits src dst r ∧ 1 ≤ ctx.overlayHops r ∧ ∀ q, ctx.GateRoute src dst q →
    r.length - 1 + WORMHOLE_PENALTY * ctx.overlayHops r < q.length - 1) →
    1 ≤ ctx.overlayHops p

/-- A gate route as cheap as any route. -/
def CheapestByGates (ctx : RouteContext g) (src dst : g.NodeIndex) : Prop :=
  ∃ q, ctx.GateRoute src dst q ∧ ∀ r, ctx.Admits src dst r → ctx.pathCost q ≤ ctx.pathCost r

end RouteContext

open RouteContext

/-- An overlay path saves more than its penalties exactly when no gate route is
as cheap. -/
theorem saves_iff (hp : ctx.preference = .preferGates) (hc : CheapestRoute ctx src dst p) :
    (∀ q, ctx.GateRoute src dst q →
      p.length - 1 + WORMHOLE_PENALTY * ctx.overlayHops p < q.length - 1) ↔
    ¬ ctx.CheapestByGates src dst := by
  rw [← pathCost_preferGates hp]
  constructor
  · intro h ⟨q, hq, hmin⟩
    have := h q hq
    rw [← hq.cost_eq hp] at this
    exact this.not_ge (hmin p hc.admits)
  · intro h q hq
    rw [← hq.cost_eq hp]
    by_contra hle
    exact h ⟨q, hq, fun r hr => (not_lt.mp hle).trans (hc.cheapest r hr)⟩

theorem takes_overlay (hp : ctx.preference = .preferGates) (hc : CheapestRoute ctx src dst p)
    {r : Path g} (hr : ctx.Admits src dst r)
    (hs : ∀ q, ctx.GateRoute src dst q →
      r.length - 1 + WORMHOLE_PENALTY * ctx.overlayHops r < q.length - 1) :
    1 ≤ ctx.overlayHops p := by
  rw [← pathCost_preferGates hp] at hs
  rw [Nat.one_le_iff_ne_zero]
  intro hz
  -- Without overlay hops `p` is a gate route, and `r` would be cheaper than it.
  have hg := hc.admits.overlayHops_eq_zero.mp hz
  have := hs p hg
  rw [← hg.cost_eq hp] at this
  exact this.not_ge (hc.cheapest r hr)

/-- `preferGates` keeps its promise exactly when no gate route ties for the
cheapest, or the tie goes to the gates. -/
theorem preferGates_worth_it (ctx : RouteContext g) (hp : ctx.preference = .preferGates)
    (src dst : g.NodeIndex) :
    (∀ p, ctx.Answers src dst (some p) → ctx.WorthIt src dst p) ↔
      (ctx.CheapestByGates src dst → ctx.TieBreaksToGates src dst) := by
  constructor
  · intro h ⟨q, hq, hmin⟩
    obtain ⟨p, hcan⟩ := exists_canonical (dist_ne_top (admits_iff.mp hq.toAdmits))
    have hroute := cheapestRoute_of_canonical hcan
    have hw := h p (best_eq_some.mpr hcan ▸ ctx.answers_best src dst)
    have hz : ctx.overlayHops p = 0 := by
      by_contra hne
      exact (saves_iff hp hroute).mp (hw.saves (Nat.one_le_iff_ne_zero.mpr hne)) ⟨q, hq, hmin⟩
    exact (tieBreaksToGates_iff hcan).mpr
      ((isChain_iff_steps _ _).mp (hroute.admits.overlayHops_eq_zero.mp hz).gates)
  · intro h p ha
    have hcan := ha.canonical
    have hroute := cheapestRoute_of_canonical hcan
    refine ⟨fun hone => (saves_iff hp hroute).mpr fun hcheap => ?_, ?_⟩
    · have hgates := (tieBreaksToGates_iff hcan).mp (h hcheap)
      have := hroute.admits.overlayHops_eq_zero.mpr
        ⟨hroute.admits, (isChain_iff_steps _ _).mpr hgates⟩
      omega
    · intro ⟨r, hr, _, hs⟩
      exact takes_overlay hp hroute hr hs

/-- Four systems in a row, and a wormhole from the first to the last. -/
def tiedChain : RouteContext (gateChain [(1, .highsec, 1), (2, .highsec, 2), (3, .highsec, 3),
    (4, .highsec, 4)]) :=
  (new ∅ .preferGates).addConnection ⟨0, by decide⟩ ⟨3, by decide⟩ .wormhole

theorem preferGates_worth_it_tied :
    (∀ p, tiedChain.Answers ⟨0, by decide⟩ ⟨3, by decide⟩ (some p) →
      tiedChain.WorthIt ⟨0, by decide⟩ ⟨3, by decide⟩ p) ↔
    (tiedChain.CheapestByGates ⟨0, by decide⟩ ⟨3, by decide⟩ →
      tiedChain.TieBreaksToGates ⟨0, by decide⟩ ⟨3, by decide⟩) :=
  preferGates_worth_it tiedChain rfl _ _

/-- The wormhole saves two jumps, no more than its penalty, and is taken. -/
theorem preferGates_takes_tie :
    ∃ p, tiedChain.Answers ⟨0, by decide⟩ ⟨3, by decide⟩ (some p) ∧
      ¬ tiedChain.WorthIt ⟨0, by decide⟩ ⟨3, by decide⟩ p := by
  refine ⟨[⟨0, by decide⟩, ⟨3, by decide⟩], answers_of_run (by decide +kernel), fun h => ?_⟩
  have hgates : tiedChain.GateRoute ⟨0, by decide⟩ ⟨3, by decide⟩
      [⟨0, by decide⟩, ⟨1, by decide⟩, ⟨2, by decide⟩, ⟨3, by decide⟩] :=
    ⟨⟨rfl, rfl, by decide +kernel, fun v _ => Finset.notMem_empty v⟩, by decide +kernel⟩
  have hsave := h.saves (by decide +kernel) _ hgates
  exact absurd hsave (by decide +kernel)

/-- The distinct systems outside highsec that a path enters. -/
def danger (p : Path g) : ℕ := (p.tail.toFinset.filter fun v => dangerous g v).card

theorem danger_of_nodup (h : p.Nodup) : danger p = p.tail.countP (dangerous g) := by
  rw [danger, List.countP_eq_length_filter, ← List.toFinset_filter,
    List.toFinset_card_of_nodup]
  exact h.tail.filter _

theorem danger_mono (h : p.tail ⊆ q.tail) : danger p ≤ danger q := by
  refine Finset.card_le_card (Finset.filter_subset_filter _ ?_)
  intro v hv
  rw [List.mem_toFinset] at hv ⊢
  exact h hv

theorem danger_eq_zero : danger p = 0 ↔ ∀ v ∈ p.tail, (g.systems.get v).secClass = .highsec := by
  simp [danger, Finset.filter_eq_empty_iff, dangerous]

/-- A walk without loops enters no more systems and makes no more hops. -/
theorem exists_simpler (h : ctx.Admits src dst q) :
    ∃ r, ctx.Admits src dst r ∧ r.Nodup ∧ danger r ≤ danger q ∧ r.length - 1 ≤ q.length - 1 := by
  obtain ⟨r, hr, hn, hs⟩ := (admits_iff.mp h).exists_simple
  have htail := hs.map Prod.snd
  rw [map_snd_steps, map_snd_steps] at htail
  refine ⟨r, admits_iff.mpr hr, hn, danger_mono htail.subset, ?_⟩
  rw [← length_steps, ← length_steps]
  exact hs.length_le

/-- Among simple paths the penalty outweighs every number of hops. -/
theorem lex_of_cost_le (hn : g.systems.length ≤ SECURITY_PENALTY)
    (hs : ctx.preference = .safest) (hp : p.Nodup) (hq : q.Nodup)
    (h : ctx.pathCost p ≤ ctx.pathCost q) :
    toLex (danger p, p.length - 1) ≤ toLex (danger q, q.length - 1) := by
  have hlen : q.length ≤ g.systems.length := by
    simpa using hq.length_le_card
  rw [pathCost_safest hs, pathCost_safest hs, ← danger_of_nodup hp, ← danger_of_nodup hq] at h
  rw [Prod.Lex.toLex_le_toLex]
  simp only [SECURITY_PENALTY] at h hn ⊢
  omega

/-- `safest` enters the fewest systems outside highsec, and makes the fewest
hops among the walks that enter so few. -/
theorem safest_lexicographic (ctx : RouteContext g) (hn : g.systems.length ≤ 10000)
    (hs : ctx.preference = .safest) (src dst : g.NodeIndex) :
    ∃ found, ctx.Answers src dst found ∧
      (found.isSome = true ↔ ∃ q, ctx.Admits src dst q) ∧
      ∀ p, found = some p → ctx.Admits src dst p ∧
        (∀ q, ctx.Admits src dst q →
          toLex (danger p, p.length - 1) ≤ toLex (danger q, q.length - 1)) ∧
        ((∃ q, ctx.Admits src dst q ∧ ∀ v ∈ q.tail, (g.systems.get v).secClass = .highsec) →
          ∀ v ∈ p.tail, (g.systems.get v).secClass = .highsec) := by
  refine ⟨best ctx.network src dst, ctx.answers_best src dst, best_isSome, fun p hp => ?_⟩
  have hroute := cheapestRoute_of_canonical (best_eq_some.mp hp)
  have hlex : ∀ q, ctx.Admits src dst q →
      toLex (danger p, p.length - 1) ≤ toLex (danger q, q.length - 1) := by
    intro q hq
    obtain ⟨r, hr, hnd, hdanger, hhops⟩ := exists_simpler hq
    apply (lex_of_cost_le hn hs hroute.nodup hnd (hroute.cheapest r hr)).trans
    rw [Prod.Lex.toLex_le_toLex]
    omega
  refine ⟨hroute.admits, hlex, ?_⟩
  intro ⟨q, hq, hsafe⟩
  have hle := hlex q hq
  rw [danger_eq_zero.mpr hsafe, Prod.Lex.toLex_le_toLex] at hle
  apply danger_eq_zero.mp
  omega

/-- A lowsec shortcut from the first system to the third, and a bridge round it. -/
def detour : RouteContext (gateChain [(1, .highsec, 1), (2, .lowsec, 2), (3, .highsec, 3),
    (4, .highsec, 4), (5, .highsec, 5)]) :=
  (new ∅ .safest).addConnection ⟨0, by decide⟩ ⟨4, by decide⟩ .bridge

theorem safest_takes_detour :
    ∃ p, detour.Answers ⟨0, by decide⟩ ⟨2, by decide⟩ (some p) ∧ danger p = 0 := by
  obtain ⟨found, ha, hsome, hp⟩ :=
    safest_lexicographic detour (by decide) rfl ⟨0, by decide⟩ ⟨2, by decide⟩
  have hround : detour.Admits ⟨0, by decide⟩ ⟨2, by decide⟩
      [⟨0, by decide⟩, ⟨4, by decide⟩, ⟨3, by decide⟩, ⟨2, by decide⟩] :=
    ⟨rfl, rfl, by decide +kernel, fun v _ => Finset.notMem_empty v⟩
  obtain ⟨p, rfl⟩ := Option.isSome_iff_exists.mp (hsome.mpr ⟨_, hround⟩)
  exact ⟨p, ha, danger_eq_zero.mpr ((hp p rfl).2.2 ⟨_, hround, by decide +kernel⟩)⟩

end Palu
