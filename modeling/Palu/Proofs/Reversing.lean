import Palu.Proofs.Comparing
import Palu.Proofs.RoundedSearch

namespace Palu

open Paths Collections

variable {g : GraphData} {ctx : RouteContext g} {scout : EveScoutSnapshot}
  {req back : GateRouteRequest} {header header' : RouteHeader g} {now : Instant}
  {src dst x y : g.NodeIndex} {p q : Path g}

section Reversal
open RouteContext

theorem hasGateEdge_comm (ctx : RouteContext g) (a b : g.NodeIndex) :
    ctx.hasGateEdge a b = ctx.hasGateEdge b a :=
  g.gateGraph.containsEdge_comm a b

theorem isOverlayEdge_comm (ctx : RouteContext g) (a b : g.NodeIndex) :
    ctx.isOverlayEdge a b = ctx.isOverlayEdge b a := by
  have hmirror : ∀ a b, ctx.isOverlayEdge a b = true → ctx.isOverlayEdge b a = true := by
    intro a b h
    obtain ⟨k, hk⟩ := isOverlayEdge_iff.mp h
    exact isOverlayEdge_iff.mpr ⟨k, ctx.mirrored hk⟩
  exact Bool.eq_iff_iff.mpr ⟨hmirror a b, hmirror b a⟩

theorem joined_comm (ctx : RouteContext g) (a b : g.NodeIndex) :
    ctx.Joined a b ↔ ctx.Joined b a := by
  unfold RouteContext.Joined
  rw [hasGateEdge_comm, isOverlayEdge_comm]

/-- What entering a system costs on top of the hop. -/
def entryPenalty (ctx : RouteContext g) (v : g.NodeIndex) : ℕ :=
  ctx.securityPenalty (g.systems.get v).secClass

/-- A hop costs the same both ways, but for the penalty of the system entered. -/
theorem network_reversible (ctx : RouteContext g) :
    Reversible ctx.network {v | v ∉ ctx.avoid} (entryPenalty ctx) where
  enters h := (mem_neighbors.mp h).2
  back h hu := mem_neighbors.mpr ⟨(joined_comm _ _ _).mp (mem_neighbors.mp h).1, hu⟩
  weight u v := by
    have hpenalty : ctx.wormholePenalty u v = ctx.wormholePenalty v u := by
      unfold wormholePenalty
      rw [hasGateEdge_comm, isOverlayEdge_comm]
    change ctx.edgeWeight u v + entryPenalty ctx u = ctx.edgeWeight v u + entryPenalty ctx v
    unfold edgeWeight entryPenalty
    rw [hpenalty]
    dsimp only
    omega

/-- Paths found there and back, and how their costs compare. -/
structure ThereAndBack (ctx : RouteContext g) (x y : g.NodeIndex) (p q : Path g) : Prop where
  there : ctx.Answers x y (some p)
  back : ctx.Answers y x (some q)
  shortest : ctx.preference = .shortest → p.length - 1 = q.length - 1
  preferGates : ctx.preference = .preferGates →
    p.length - 1 + WORMHOLE_PENALTY * ctx.overlayHops p =
      q.length - 1 + WORMHOLE_PENALTY * ctx.overlayHops q
  safest : ctx.preference = .safest →
    ctx.pathCost p + entryPenalty ctx x = ctx.pathCost q + entryPenalty ctx y

/-- Only the safest preference charges for entering a system. -/
theorem entryPenalty_eq_zero (h : ctx.preference ≠ .safest) (v : g.NodeIndex) :
    entryPenalty ctx v = 0 := by
  unfold entryPenalty securityPenalty
  cases hp : ctx.preference with
  | shortest => rfl
  | preferGates => rfl
  | safest => exact absurd hp h

theorem thereAndBack_of_best (hx : x ∉ ctx.avoid) (hp : best ctx.network x y = some p)
    (hq : best ctx.network y x = some q) : ThereAndBack ctx x y p q := by
  have hcost : ctx.pathCost p + entryPenalty ctx x = ctx.pathCost q + entryPenalty ctx y :=
    (network_reversible ctx).canonical hx (best_eq_some.mp hp) (best_eq_some.mp hq)
  refine ⟨hp ▸ ctx.answers_best x y, hq ▸ ctx.answers_best y x, ?_, ?_, fun _ => hcost⟩
  · intro h
    have hfree : ∀ v, entryPenalty ctx v = 0 := entryPenalty_eq_zero (by simp [h])
    rwa [hfree, hfree, pathCost_shortest h, pathCost_shortest h] at hcost
  · intro h
    have hfree : ∀ v, entryPenalty ctx v = 0 := entryPenalty_eq_zero (by simp [h])
    rwa [hfree, hfree, pathCost_preferGates h, pathCost_preferGates h] at hcost

theorem scoutOverlay_swap (scout : EveScoutSnapshot) (inputs : OverlayInputs)
    (x y : g.NodeIndex) (now : Instant) (ctx : RouteContext g) :
    scoutOverlay scout inputs [x, y] now ctx = scoutOverlay scout inputs [y, x] now ctx := by
  have hswap : ∀ hub, isEndpoint g [x, y] hub = isEndpoint g [y, x] hub := by
    intro hub
    unfold isEndpoint
    cases g.idToIdx hub with
    | none => rfl
    | some v => simp [or_comm]
  unfold scoutOverlay
  rw [hswap, hswap]

/-- `req` has a slot from `x` to `y`, and `back`, which changes nothing else of
the header, one from `y` to `x`. -/
structure Reverses (g : GraphData) (req back : GateRouteRequest) (i j : ℕ)
    (x y : g.NodeIndex) : Prop where
  knobs : back = { req with src := back.src, dst := back.dst }
  src : resolveSystem g req.src = .ok x
  dst : ∃ t, req.dst[i]? = some t ∧ resolveSystem g t = .ok y
  backSrc : resolveSystem g back.src = .ok y
  backDst : ∃ t, back.dst[j]? = some t ∧ resolveSystem g t = .ok x

/-- Both slots are searched for over one context: the ends leave the avoid set
in either order, and are endpoints in either order. -/
theorem Reverses.slotContext_eq {i j : ℕ} {back : GateRouteRequest}
    (h : Reverses g req back i j x y) (hh : resolveHeader g req = .ok header)
    (hh' : resolveHeader g back = .ok header') :
    slotContext scout req header y now = slotContext scout back header' x now := by
  obtain ⟨_, _, hsrc, ⟨avoid, ha, hshared⟩, hc⟩ := resolveHeader_ok_iff.mp hh
  obtain ⟨_, _, hsrc', ⟨avoid', ha', hshared'⟩, hc'⟩ := resolveHeader_ok_iff.mp hh'
  have hoverlay : back.overlay = req.overlay := by
    rw [h.knobs]
    rfl
  have hpref : back.preference = req.preference := by
    rw [h.knobs]
  rw [h.src] at hsrc
  rw [h.backSrc] at hsrc'
  rw [hoverlay, ha] at ha'
  rw [hoverlay, hc] at hc'
  unfold slotContext destinationContext
  rw [hoverlay, hpref, hshared, hshared', ← Except.ok.inj ha', ← Except.ok.inj hc',
    ← Except.ok.inj hsrc, ← Except.ok.inj hsrc', Finset.erase_right_comm, scoutOverlay_swap]

theorem admits_reverse (hx : x ∉ ctx.avoid) (h : ctx.Admits x y p) : ctx.Admits y x p.reverse :=
  admits_iff.mpr ((network_reversible ctx).walk hx (admits_iff.mp h))

/-- Slots that show the way from `x` to `y` and the way back, over `ctx`: both are
routes or neither is, and where no search rounds a sum the costs compare. -/
structure BothWays (ctx : RouteContext g) (x y : g.NodeIndex) (Exact : Prop)
    (slot slot' : GateRouteResult) : Prop where
  route_iff : (∃ jumps shown, slot.outcome = .route jumps shown) ↔
    ∃ jumps shown, slot'.outcome = .route jumps shown
  compare : ∀ jumps shown jumps' shown', slot.outcome = .route jumps shown →
    slot'.outcome = .route jumps' shown' → ∃ p q : Path g,
      jumps = p.length - 1 ∧ shown = buildSteps ctx p ∧
      jumps' = q.length - 1 ∧ shown' = buildSteps ctx q ∧
      ctx.Admits x y p ∧ ctx.Admits y x q ∧ (Exact → ThereAndBack ctx x y p q)

section Searches
variable {found : RouteContext g → g.NodeIndex → g.NodeIndex → Option (Path g)} {t t' : SystemRef}

theorem outcomeBy_eq_route {jumps : ℕ} {shown : List RouteStep} (hsrc : header.src = src)
    (hdst : resolveSystem g t = .ok dst) (hctx : slotContext scout req header dst now = ctx) :
    outcomeBy found scout req header t now = .route jumps shown ↔
      ∃ p, found ctx src dst = some p ∧ jumps = p.length - 1 ∧ shown = buildSteps ctx p := by
  subst hsrc hctx
  simp only [outcomeBy, hdst]
  change foldFailure (searchOutcome _ (found (slotContext scout req header dst now) _ _)) = _ ↔ _
  cases found (slotContext scout req header dst now) header.src dst with
  | none => simp [searchOutcome, foldFailure]
  | some p => simp [slotContext, searchOutcome, foldFailure, eq_comm]

/-- A search that finds an admissible walk exactly when there is one answers both
ways or neither, and at comparable costs where it finds the cheapest. -/
theorem Reverses.bothWays {Exact : Prop} {i j : ℕ} (h : Reverses g req back i j x y)
    (hh : resolveHeader g req = .ok header) (hh' : resolveHeader g back = .ok header')
    (hy : resolveSystem g t = .ok y) (hx : resolveSystem g t' = .ok x)
    (hctx : slotContext scout req header y now = ctx)
    (hfound : ∀ a b, (found ctx a b).isSome = true ↔ ∃ p, ctx.Admits a b p)
    (hadmits : ∀ a b p, found ctx a b = some p → ctx.Admits a b p)
    (hexact : Exact → found ctx x y = best ctx.network x y ∧
      found ctx y x = best ctx.network y x) :
    BothWays ctx x y Exact (resultBy found scout req header t now)
      (resultBy found scout back header' t' now) := by
  have hthere : ∀ {jumps shown}, outcomeBy found scout req header t now = .route jumps shown ↔
      ∃ p, found ctx x y = some p ∧ jumps = p.length - 1 ∧ shown = buildSteps ctx p :=
    outcomeBy_eq_route (header_src_eq hh h.src) hy hctx
  have hback : ∀ {jumps shown}, outcomeBy found scout back header' t' now = .route jumps shown ↔
      ∃ q, found ctx y x = some q ∧ jumps = q.length - 1 ∧ shown = buildSteps ctx q :=
    outcomeBy_eq_route (header_src_eq hh' h.backSrc) hx ((h.slotContext_eq hh hh').symm.trans hctx)
  have hxa : x ∉ ctx.avoid := by
    rw [← hctx]
    exact fun ha => ((mem_slotContext_avoid hh).mp ha).2.1 (header_src_eq hh h.src).symm
  have hya : y ∉ ctx.avoid := by
    rw [← hctx]
    exact fun ha => ((mem_slotContext_avoid hh).mp ha).2.2 rfl
  constructor
  · constructor
    · intro ⟨_, _, hroute⟩
      obtain ⟨p, hp, _⟩ := hthere.mp hroute
      have hq := (hfound y x).mpr ⟨p.reverse, admits_reverse hxa (hadmits x y p hp)⟩
      obtain ⟨q, hq⟩ := Option.isSome_iff_exists.mp hq
      exact ⟨_, _, hback.mpr ⟨q, hq, rfl, rfl⟩⟩
    · intro ⟨_, _, hroute⟩
      obtain ⟨q, hq, _⟩ := hback.mp hroute
      have hp := (hfound x y).mpr ⟨q.reverse, admits_reverse hya (hadmits y x q hq)⟩
      obtain ⟨p, hp⟩ := Option.isSome_iff_exists.mp hp
      exact ⟨_, _, hthere.mpr ⟨p, hp, rfl, rfl⟩⟩
  · intro jumps shown jumps' shown' hroute hroute'
    obtain ⟨p, hp, hj, hs⟩ := hthere.mp hroute
    obtain ⟨q, hq, hj', hs'⟩ := hback.mp hroute'
    refine ⟨p, q, hj, hs, hj', hs', hadmits x y p hp, hadmits y x q hq, fun he => ?_⟩
    obtain ⟨hbest, hbest'⟩ := hexact he
    exact thereAndBack_of_best hxa (hbest ▸ hp) (hbest' ▸ hq)

end Searches

/-- The fan-out with every sum of its searches rounded. -/
def computeGateRoute.rounded (round : ℕ → ℕ) (g : GraphData) (scout : EveScoutSnapshot)
    (req : GateRouteRequest) : Run (Except AppError GateRouteResponse) :=
  computeGateRouteBy (g := g) (shortestPath.rounded round) scout req

/-- What a search with rounded sums finds. -/
def foundRounded (round : ℕ → ℕ) (ctx : RouteContext g) (src dst : g.NodeIndex) :
    Option (Path g) :=
  match shortestPath.rounded round ctx src dst {} with
  | .ok (found, _) => found
  | .error _ => none

/-- No sum of a search from `src` is rounded to an `f32`, as one hop more than any node
takes costs less than the first number that is. -/
def RouteContext.F32Exact (ctx : RouteContext g) (src : g.NodeIndex) : Prop :=
  ∀ D, IsGreatest (ctx.fewestHops src) D → (D + 1) * ctx.preference.maxWeight < 2 ^ 24

section Rounded
variable {round : ℕ → ℕ}

theorem RouteContext.AnswersRounded.foundRounded_eq {found : Option (Path g)}
    (h : ctx.AnswersRounded round src dst found) : foundRounded round ctx src dst = found := by
  obtain ⟨left, hl⟩ := h {}
  simp only [foundRounded, hl]

theorem answersRounded_found (round : ℕ → ℕ) (ctx : RouteContext g) (src dst : g.NodeIndex) :
    ctx.AnswersRounded round src dst (foundRounded round ctx src dst) := by
  obtain ⟨found, hfound, _⟩ := rounded_answers round ctx src dst
  rwa [hfound.foundRounded_eq]

theorem foundRounded_isSome : (foundRounded round ctx src dst).isSome = true ↔
    ∃ p, ctx.Admits src dst p := by
  obtain ⟨found, hfound, hsome, _⟩ := rounded_answers round ctx src dst
  rwa [hfound.foundRounded_eq]

theorem foundRounded_admits (h : foundRounded round ctx src dst = some p) :
    ctx.Admits src dst p := by
  obtain ⟨found, hfound, _, hadmits⟩ := rounded_answers round ctx src dst
  rw [hfound.foundRounded_eq] at h
  exact (hadmits p h).1

theorem RouteContext.F32Exact.foundRounded_eq_best (h : ctx.F32Exact src) (dst : g.NodeIndex) :
    foundRounded roundF32 ctx src dst = best ctx.network src dst := by
  obtain ⟨D, hD⟩ := exists_greatest_hops ctx.network src
  rw [← ctx.fewestHops_eq] at hD
  apply AnswersRounded.foundRounded_eq
  intro scratch
  rw [rounded_eq roundF32_eq hD (h D hD)]
  exact ctx.answers_best src dst scratch

theorem computeGateRoute_rounded_gives (round : ℕ → ℕ) (scout : EveScoutSnapshot)
    (hh : resolveHeader g req = .ok header) (m : Machine) :
    ∃ left, computeGateRoute.rounded round g scout req m = .ok (.ok ⟨req.src,
      req.dst.mapIdx fun i t => resultBy (foundRounded round) scout req header t
        (slotInstant g req m i)⟩, left) := by
  obtain ⟨_, hrun⟩ := computeGateRouteBy_gives (answersRounded_found round) scout hh m
  exact ⟨_, hrun⟩

end Rounded

/-- Reversing a route. With costs added as whole numbers, and with every sum an `f32`
addition, the slot from `x` to `y` is a route exactly when the one from `y` to `x` is.
Their costs differ by the penalties of their ends, in `f32` where no search from
either end rounds a sum. -/
theorem reverse_route (g : GraphData) (scout : EveScoutSnapshot) (req back : GateRouteRequest)
    (i j : ℕ) (x y : g.NodeIndex) (m m' : Machine) (hvalid : ¬ HeaderDefect g req)
    (hvalid' : ¬ HeaderDefect g back) (h : Reverses g req back i j x y)
    (hnow : slotInstant g back m' j = slotInstant g req m i) :
    ∃ (header : RouteHeader g) (ctx : RouteContext g), resolveHeader g req = .ok header ∧
      slotContext scout req header y (slotInstant g req m i) = ctx ∧
      ctx.preference = req.preference.toPreference ∧
      (∃ response left response' left' slot slot',
        computeGateRoute g scout req m = .ok (.ok response, left) ∧
        computeGateRoute g scout back m' = .ok (.ok response', left') ∧
        response.results[i]? = some slot ∧ response'.results[j]? = some slot' ∧
        BothWays ctx x y True slot slot') ∧
      ∃ response left response' left' slot slot',
        computeGateRoute.rounded roundF32 g scout req m = .ok (.ok response, left) ∧
        computeGateRoute.rounded roundF32 g scout back m' = .ok (.ok response', left') ∧
        response.results[i]? = some slot ∧ response'.results[j]? = some slot' ∧
        BothWays ctx x y (ctx.F32Exact x ∧ ctx.F32Exact y) slot slot' := by
  obtain ⟨header, left, hh, hrun⟩ := computeGateRoute_answers scout hvalid m
  obtain ⟨header', left', hh', hrun'⟩ := computeGateRoute_answers scout hvalid' m'
  obtain ⟨leftR, hrunR⟩ := computeGateRoute_rounded_gives roundF32 scout hh m
  obtain ⟨leftR', hrunR'⟩ := computeGateRoute_rounded_gives roundF32 scout hh' m'
  obtain ⟨t, ht, hy⟩ := h.dst
  obtain ⟨t', ht', hx⟩ := h.backDst
  have hbest : BothWays (slotContext scout req header y (slotInstant g req m i)) x y True
      (resultBy (fun ctx => best ctx.network) scout req header t (slotInstant g req m i))
      (resultBy (fun ctx => best ctx.network) scout back header' t' (slotInstant g req m i)) :=
    h.bothWays hh hh' hy hx rfl (fun _ _ => best_isSome)
      (fun _ _ _ hp => (cheapestRoute_of_canonical (best_eq_some.mp hp)).admits)
      fun _ => ⟨rfl, rfl⟩
  refine ⟨header, _, hh, rfl, slotContext_preference, ?_, ?_⟩
  · refine ⟨_, _, _, _, destinationResult scout req header t (slotInstant g req m i),
      destinationResult scout back header' t' (slotInstant g req m i), hrun, hrun', ?_, ?_, ?_⟩
    · simp only [List.getElem?_mapIdx, ht, Option.map_some, slotInstant]
    · rw [← hnow]
      simp only [List.getElem?_mapIdx, ht', Option.map_some, slotInstant]
    · exact hbest
  · refine ⟨_, _, _, _, resultBy (foundRounded roundF32) scout req header t (slotInstant g req m i),
      resultBy (foundRounded roundF32) scout back header' t' (slotInstant g req m i),
      hrunR, hrunR', ?_, ?_, ?_⟩
    · simp only [List.getElem?_mapIdx, ht, Option.map_some]
    · simp only [List.getElem?_mapIdx, ht', Option.map_some, hnow]
    · exact h.bothWays hh hh' hy hx rfl (fun _ _ => foundRounded_isSome)
        (fun _ _ _ => foundRounded_admits)
        fun he => ⟨he.1.foundRounded_eq_best y, he.2.foundRounded_eq_best x⟩

theorem reverse_route_turnur :
    ∃ (x y : turnurChain.NodeIndex) (header : RouteHeader turnurChain)
      (ctx : RouteContext turnurChain),
      resolveHeader turnurChain { src := .id 1, dst := [.id TURNUR_SYSTEM_ID] } = .ok header ∧
      slotContext {} { src := .id 1, dst := [.id TURNUR_SYSTEM_ID] } header y 0 = ctx ∧
      ctx.preference = .shortest ∧
      (∃ response left response' left' slot slot',
        computeGateRoute turnurChain {} { src := .id 1, dst := [.id TURNUR_SYSTEM_ID] }
          { clock := fun _ => 0 } = .ok (.ok response, left) ∧
        computeGateRoute turnurChain {} { src := .id TURNUR_SYSTEM_ID, dst := [.id 2, .id 1] }
          { clock := fun _ => 0 } = .ok (.ok response', left') ∧
        response.results[0]? = some slot ∧ response'.results[1]? = some slot' ∧
        BothWays ctx x y True slot slot') ∧
      ∃ response left response' left' slot slot',
        computeGateRoute.rounded roundF32 turnurChain {}
          { src := .id 1, dst := [.id TURNUR_SYSTEM_ID] }
          { clock := fun _ => 0 } = .ok (.ok response, left) ∧
        computeGateRoute.rounded roundF32 turnurChain {}
          { src := .id TURNUR_SYSTEM_ID, dst := [.id 2, .id 1] }
          { clock := fun _ => 0 } = .ok (.ok response', left') ∧
        response.results[0]? = some slot ∧ response'.results[1]? = some slot' ∧
        BothWays ctx x y (ctx.F32Exact x ∧ ctx.F32Exact y) slot slot' :=
  ⟨⟨0, by decide⟩, ⟨2, by decide⟩,
    reverse_route turnurChain {} { src := .id 1, dst := [.id TURNUR_SYSTEM_ID] }
      { src := .id TURNUR_SYSTEM_ID, dst := [.id 2, .id 1] } 0 1 _ _ { clock := fun _ => 0 }
      { clock := fun _ => 0 } (by decide +kernel) (by decide +kernel)
      ⟨rfl, by decide +kernel, ⟨_, rfl, by decide +kernel⟩, by decide +kernel,
        ⟨_, rfl, by decide +kernel⟩⟩ rfl⟩

end Reversal

end Palu
