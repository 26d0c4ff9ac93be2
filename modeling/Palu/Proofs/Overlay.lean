import Palu.Proofs.FanOut

namespace Palu

open Paths Collections

variable {g : GraphData} {scout : EveScoutSnapshot} {inputs : OverlayInputs}
  {endpoints : List g.NodeIndex} {now : Instant} {ctx : RouteContext g}

/-- One connection to be added: two systems and a kind. -/
abbrev OverlayEntry (g : GraphData) := g.NodeIndex × g.NodeIndex × EdgeKind

/-- The entry joins `x` and `y`, one way round or the other. -/
def joins (e : OverlayEntry g) (x y : g.NodeIndex) : Bool :=
  (e.1 = x ∧ e.2.1 = y) ∨ (e.1 = y ∧ e.2.1 = x)

/-- The kind of the first entry that joins two different systems. -/
def firstKind (entries : List (OverlayEntry g)) (x y : g.NodeIndex) : Option EdgeKind :=
  if x = y then none else (entries.find? fun e => joins e x y).map fun e => e.2.2

def addEntries (entries : List (OverlayEntry g)) (ctx : RouteContext g) : RouteContext g :=
  entries.foldl (fun ctx e => ctx.addConnection e.1 e.2.1 e.2.2) ctx

theorem joins_comm (e : OverlayEntry g) (x y : g.NodeIndex) : joins e x y = joins e y x := by
  simp [joins, or_comm]

theorem firstKind_comm (entries : List (OverlayEntry g)) (x y : g.NodeIndex) :
    firstKind entries x y = firstKind entries y x := by
  simp only [firstKind, eq_comm, joins_comm]

theorem firstKind_isSome {entries : List (OverlayEntry g)} {x y : g.NodeIndex} :
    (firstKind entries x y).isSome = true ↔ x ≠ y ∧ ∃ e ∈ entries, joins e x y = true := by
  unfold firstKind
  split <;> simp_all

namespace RouteContext

theorem overlayEdgeKind_eq_some {x y : g.NodeIndex} {k : EdgeKind} :
    ctx.overlayEdgeKind x y = some k ↔ (y, k) ∈ ctx.connections x := by
  simp only [overlayEdgeKind, Option.map_eq_some_iff]
  constructor
  · rintro ⟨⟨z, j⟩, hf, rfl⟩
    have hz : z = y := by simpa using List.find?_some hf
    exact hz ▸ List.mem_of_find?_eq_some hf
  · intro hm
    have hsome : ((ctx.connections x).find? fun e => e.1 = y).isSome = true :=
      List.find?_isSome.mpr ⟨(y, k), hm, by simp⟩
    obtain ⟨⟨z, j⟩, hf⟩ := Option.isSome_iff_exists.mp hsome
    refine ⟨(z, j), hf, ?_⟩
    have hz : z = y := by simpa using List.find?_some hf
    subst hz
    -- A neighbour is listed once, so it cannot be listed with two kinds.
    have := List.inj_on_of_nodup_map (ctx.distinct x) (List.mem_of_find?_eq_some hf) hm rfl
    exact congrArg Prod.snd this

theorem mem_addConnection {a b x y : g.NodeIndex} {kind k : EdgeKind} :
    (y, k) ∈ (ctx.addConnection a b kind).connections x ↔ (y, k) ∈ ctx.connections x ∨
      x ≠ y ∧ joins (a, b, kind) x y = true ∧ k = kind ∧ ∀ j, (y, j) ∉ ctx.connections x := by
  have hm := @ctx.mirrored
  have hl := @ctx.loopFree
  unfold addConnection
  split
  · simp only [joins, decide_eq_true_eq]
    grind
  · simp only [Overlay.mem_link, joins, decide_eq_true_eq]
    grind

theorem overlayEdgeKind_addConnection (ctx : RouteContext g) (a b : g.NodeIndex)
    (kind : EdgeKind) (x y : g.NodeIndex) :
    (ctx.addConnection a b kind).overlayEdgeKind x y =
      (ctx.overlayEdgeKind x y).or (firstKind [(a, b, kind)] x y) := by
  have hnone : ctx.overlayEdgeKind x y = none ↔ ∀ j, (y, j) ∉ ctx.connections x := by
    simp only [Option.eq_none_iff_forall_ne_some, ne_eq, overlayEdgeKind_eq_some]
  have hfirst : ∀ k, firstKind [(a, b, kind)] x y = some k ↔
      x ≠ y ∧ joins (a, b, kind) x y = true ∧ k = kind := by
    intro k
    unfold firstKind
    cases hj : joins (a, b, kind) x y <;> simp [hj, eq_comm]
  ext k
  rw [overlayEdgeKind_eq_some, mem_addConnection, Option.or_eq_some_iff, hfirst, hnone,
    overlayEdgeKind_eq_some]
  tauto

end RouteContext

/-- Adding entries one by one, the first for a pair wins. -/
theorem overlayEdgeKind_addEntries (entries : List (OverlayEntry g)) (ctx : RouteContext g)
    (x y : g.NodeIndex) :
    (addEntries entries ctx).overlayEdgeKind x y =
      (ctx.overlayEdgeKind x y).or (firstKind entries x y) := by
  induction entries generalizing ctx with
  | nil => simp [addEntries, firstKind]
  | cons e entries ih =>
    have hcons : firstKind (e :: entries) x y = (firstKind [e] x y).or (firstKind entries x y) := by
      unfold firstKind
      split
      · rfl
      · cases hj : joins e x y <;> simp [hj]
    have := ih (ctx.addConnection e.1 e.2.1 e.2.2)
    rw [RouteContext.overlayEdgeKind_addConnection] at this
    rw [hcons, ← Option.or_assoc]
    exact this

section Entries

/-- The enabled connections, in request order. -/
def enabledConnections (inputs : OverlayInputs) (connections : List (OverlayEntry g)) :
    List (OverlayEntry g) :=
  connections.filter fun e => inputs.uses e.2.2

/-- The entry of a signature, if it is live and both its systems are known. -/
def signatureEntry (g : GraphData) (now : Instant) (sig : Signature) : Option (OverlayEntry g) :=
  if sig.isLive now then
    match g.idToIdx sig.outSystemId, g.idToIdx sig.inSystemId with
    | some out, some in_ => some (out, in_, .wormhole)
    | _, _ => none
  else none

/-- The entries of the hub's signatures, if they are wanted. -/
def hubEntries (g : GraphData) (now : Instant) (wanted : Bool) (sigs : List Signature) :
    List (OverlayEntry g) :=
  if wanted then sigs.filterMap (signatureEntry g now) else []

/-- All that is added for a route, in the order in which it is added. -/
def overlayEntries (scout : EveScoutSnapshot) (inputs : OverlayInputs)
    (endpoints : List g.NodeIndex) (now : Instant) (connections : List (OverlayEntry g)) :
    List (OverlayEntry g) :=
  enabledConnections inputs connections ++
    (hubEntries g now (inputs.includeThera || isEndpoint g endpoints THERA_SYSTEM_ID)
        scout.thera ++
      hubEntries g now (inputs.includeTurnur || isEndpoint g endpoints TURNUR_SYSTEM_ID)
        scout.turnur)

theorem addOverlayConnections_eq (connections : List (OverlayEntry g)) (ctx : RouteContext g) :
    addOverlayConnections inputs connections ctx =
      addEntries (enabledConnections inputs connections) ctx :=
  List.foldl_filter.symm

theorem addScoutEdges_eq (sigs : List Signature) (ctx : RouteContext g) :
    addScoutEdges ctx sigs now = addEntries (sigs.filterMap (signatureEntry g now)) ctx := by
  unfold addScoutEdges addEntries
  rw [List.foldl_filterMap]
  apply List.foldl_ext
  intro ctx sig _
  unfold addScoutEdge signatureEntry
  split
  · cases g.idToIdx sig.outSystemId with
    | none => rfl
    | some out => cases g.idToIdx sig.inSystemId <;> rfl
  · rfl

theorem hubEntries_eq (wanted : Bool) (sigs : List Signature) (ctx : RouteContext g) :
    (if wanted then addScoutEdges ctx sigs now else ctx) =
      addEntries (hubEntries g now wanted sigs) ctx := by
  cases wanted with
  | false => rfl
  | true => exact addScoutEdges_eq sigs ctx

theorem addEntries_append (xs ys : List (OverlayEntry g)) (ctx : RouteContext g) :
    addEntries (xs ++ ys) ctx = addEntries ys (addEntries xs ctx) :=
  List.foldl_append

theorem scoutOverlay_eq (connections : List (OverlayEntry g)) (ctx : RouteContext g) :
    scoutOverlay scout inputs endpoints now (addOverlayConnections inputs connections ctx) =
      addEntries (overlayEntries scout inputs endpoints now connections) ctx := by
  rw [overlayEntries, addEntries_append, addEntries_append, ← addOverlayConnections_eq,
    ← hubEntries_eq, ← hubEntries_eq]
  rfl

end Entries

/-- The overlay is what the entries say, with the first of a pair winning. -/
structure OverlayExact (ctx : RouteContext g) (entries : List (OverlayEntry g)) : Prop where
  kind : ∀ x y, ctx.overlayEdgeKind x y = firstKind entries x y
  listed : ∀ x y k, (y, k) ∈ ctx.connections x ↔ firstKind entries x y = some k
  symmetric : ∀ x y, ctx.overlayEdgeKind x y = ctx.overlayEdgeKind y x
  loopFree : ∀ x, ctx.overlayEdgeKind x x = none
  once : ∀ x, ((ctx.connections x).map Prod.fst).Nodup

theorem addEntries_exact (entries : List (OverlayEntry g)) (avoid : Finset g.NodeIndex)
    (preference : Preference) :
    OverlayExact (addEntries entries (.new avoid preference)) entries := by
  have hkind : ∀ x y, (addEntries entries (.new avoid preference)).overlayEdgeKind x y =
      firstKind entries x y := by
    intro x y
    rw [overlayEdgeKind_addEntries]
    rfl
  refine ⟨hkind, fun x y k => ?_, fun x y => ?_, fun x => ?_, RouteContext.distinct _⟩
  · rw [← RouteContext.overlayEdgeKind_eq_some, hkind]
  · rw [hkind, hkind, firstKind_comm]
  · rw [hkind, firstKind, if_pos rfl]

theorem scoutOverlay_exact (scout : EveScoutSnapshot) (inputs : OverlayInputs)
    (endpoints : List g.NodeIndex) (now : Instant) (connections : List (OverlayEntry g))
    (avoid : Finset g.NodeIndex) (preference : Preference) :
    OverlayExact (scoutOverlay scout inputs endpoints now
        (addOverlayConnections inputs connections (.new avoid preference)))
      (overlayEntries scout inputs endpoints now connections) := by
  rw [scoutOverlay_eq]
  exact addEntries_exact _ _ _

/-- The two hubs whose signatures EVE-Scout lists. -/
inductive Hub where
  | thera | turnur
  deriving DecidableEq

namespace Hub

def id : Hub → ℤ
  | .thera => THERA_SYSTEM_ID
  | .turnur => TURNUR_SYSTEM_ID

def signatures : Hub → EveScoutSnapshot → List Signature
  | .thera => EveScoutSnapshot.thera
  | .turnur => EveScoutSnapshot.turnur

def includeFlag : Hub → OverlayInputs → Bool
  | .thera => OverlayInputs.includeThera
  | .turnur => OverlayInputs.includeTurnur

/-- The hub is opted in, or one of the endpoints. -/
def Included (hub : Hub) (inputs : OverlayInputs) (endpoints : List g.NodeIndex) : Prop :=
  hub.includeFlag inputs = true ∨ ∃ v ∈ endpoints, g.idToIdx hub.id = some v

theorem included_iff {hub : Hub} : hub.Included inputs endpoints ↔
    (hub.includeFlag inputs || isEndpoint g endpoints hub.id) = true := by
  unfold Included isEndpoint
  rw [Bool.or_eq_true]
  cases hv : g.idToIdx hub.id with
  | none => simp
  | some v => simp

end Hub

section Listing

theorem resolveConnection_eq_ok {c : Connection} {e : OverlayEntry g} :
    resolveConnection g c = .ok e ↔ resolveSystem g c.src = .ok e.1 ∧
      resolveSystem g c.dst = .ok e.2.1 ∧ e.2.2 = edgeKind c.kind := by
  simp only [resolveConnection, bind_ok]
  constructor
  · rintro ⟨u, hu, v, hv, he⟩
    cases Except.ok.inj he
    exact ⟨hu, hv, rfl⟩
  · intro h
    obtain ⟨hu, hv, hk⟩ := h
    exact ⟨e.1, hu, e.2.1, hv, by rw [← hk]; rfl⟩

theorem signatureEntry_eq_some {sig : Signature} {e : OverlayEntry g} :
    signatureEntry g now sig = some e ↔ sig.isLive now = true ∧
      g.idToIdx sig.outSystemId = some e.1 ∧ g.idToIdx sig.inSystemId = some e.2.1 ∧
      e.2.2 = .wormhole := by
  unfold signatureEntry
  cases sig.isLive now with
  | false => simp
  | true =>
    cases g.idToIdx sig.outSystemId with
    | none => simp
    | some out =>
      cases g.idToIdx sig.inSystemId with
      | none => simp
      | some in_ =>
        simp only [if_true, Option.some.injEq, true_and]
        constructor
        · intro he
          subst he
          exact ⟨rfl, rfl, rfl⟩
        · rintro ⟨rfl, rfl, hk⟩
          rw [← hk]

/-- The entry of a connection. -/
structure EntryOfConnection (c : Connection) (e : OverlayEntry g) : Prop where
  src : resolveSystem g c.src = .ok e.1
  dst : resolveSystem g c.dst = .ok e.2.1
  wormhole : c.kind = .wormhole → e.2.2 = .wormhole
  bridge : c.kind = .bridge → e.2.2 = .bridge

/-- The entry of a signature. -/
structure EntryOfSignature (sig : Signature) (e : OverlayEntry g) : Prop where
  out : g.idToIdx sig.outSystemId = some e.1
  in_ : g.idToIdx sig.inSystemId = some e.2.1
  kind : e.2.2 = .wormhole

/-- A connection counts when the flag of its kind is set. -/
def Connection.Enabled (inputs : OverlayInputs) (c : Connection) : Prop :=
  c.kind = .wormhole ∧ inputs.useWormholes = true ∨ c.kind = .bridge ∧ inputs.useBridges = true

instance (inputs : OverlayInputs) : DecidablePred (Connection.Enabled inputs) :=
  fun _ => inferInstanceAs (Decidable (_ ∨ _))

/-- A signature counts when its hub is included, it has not expired, and both its
systems are known. -/
def Hub.Counts (hub : Hub) (inputs : OverlayInputs) (endpoints : List g.NodeIndex)
    (now : Instant) (sig : Signature) : Prop :=
  hub.Included inputs endpoints ∧ now < sig.expiresAt ∧
    (g.idToIdx sig.outSystemId).isSome = true ∧ (g.idToIdx sig.inSystemId).isSome = true

instance (hub : Hub) (inputs : OverlayInputs) (endpoints : List g.NodeIndex) :
    Decidable (hub.Included inputs endpoints) :=
  inferInstanceAs (Decidable (_ ∨ _))

instance (hub : Hub) (inputs : OverlayInputs) (endpoints : List g.NodeIndex) (now : Instant) :
    DecidablePred (hub.Counts inputs endpoints now) :=
  fun _ => inferInstanceAs (Decidable (_ ∧ _))

/-- The entries of a request's connections and of the hubs' signatures, one by one. -/
structure Listing (scout : EveScoutSnapshot) (inputs : OverlayInputs)
    (endpoints : List g.NodeIndex) (now : Instant) (ofConnections : List (OverlayEntry g))
    (ofHub : Hub → List (OverlayEntry g)) : Prop where
  connections : List.Forall₂ EntryOfConnection
    (inputs.connections.filter fun c => c.Enabled inputs) ofConnections
  signatures : ∀ hub, List.Forall₂ EntryOfSignature
    ((hub.signatures scout).filter fun sig => hub.Counts inputs endpoints now sig) (ofHub hub)

theorem uses_edgeKind {c : Connection} :
    inputs.uses (edgeKind c.kind) = true ↔ c.Enabled inputs := by
  unfold Connection.Enabled
  cases c.kind <;> simp [edgeKind, OverlayInputs.uses]

theorem enabledConnections_listed {connections : List (OverlayEntry g)}
    (h : resolveConnections g inputs = .ok connections) :
    List.Forall₂ EntryOfConnection (inputs.connections.filter fun c => c.Enabled inputs)
      (enabledConnections inputs connections) := by
  have hresolved := mapM_ok.mp h
  refine List.Forall₂.imp (fun c e he => ?_) (List.rel_filter (fun c e he => ?_) hresolved)
  · obtain ⟨hsrc, hdst, hkind⟩ := resolveConnection_eq_ok.mp he
    refine ⟨hsrc, hdst, fun hc => ?_, fun hc => ?_⟩
    · rw [hkind, hc]
      rfl
    · rw [hkind, hc]
      rfl
  · obtain ⟨_, _, hkind⟩ := resolveConnection_eq_ok.mp he
    dsimp only
    rw [decide_eq_true_iff, ← uses_edgeKind, hkind]

theorem hubEntries_listed (hub : Hub) (scout : EveScoutSnapshot) (inputs : OverlayInputs)
    (endpoints : List g.NodeIndex) (now : Instant) :
    List.Forall₂ EntryOfSignature
      ((hub.signatures scout).filter fun sig => hub.Counts inputs endpoints now sig)
      (hubEntries g now (hub.includeFlag inputs || isEndpoint g endpoints hub.id)
        (hub.signatures scout)) := by
  have hcounts : ∀ sig, hub.Counts inputs endpoints now sig ↔
      hub.Included inputs endpoints ∧ ∃ e : OverlayEntry g, signatureEntry g now sig = some e := by
    intro sig
    unfold Hub.Counts signatureEntry Signature.isLive
    cases g.idToIdx sig.outSystemId <;> cases g.idToIdx sig.inSystemId <;> simp
  unfold hubEntries
  split
  · rename_i hwanted
    have hin := Hub.included_iff.mpr hwanted
    induction hub.signatures scout with
    | nil => exact .nil
    | cons sig sigs ih =>
      cases he : signatureEntry g now sig with
      | none =>
        have hno : ¬ hub.Counts inputs endpoints now sig := by simp [hcounts, he]
        rw [List.filter_cons_of_neg (by simpa using hno), List.filterMap_cons_none he]
        exact ih
      | some e =>
        have hyes : hub.Counts inputs endpoints now sig := (hcounts sig).mpr ⟨hin, e, he⟩
        rw [List.filter_cons_of_pos (by simpa using hyes), List.filterMap_cons_some he]
        exact .cons ⟨(signatureEntry_eq_some.mp he).2.1, (signatureEntry_eq_some.mp he).2.2.1,
          (signatureEntry_eq_some.mp he).2.2.2⟩ ih
  · rename_i hunwanted
    have hout : ¬ hub.Included inputs endpoints := fun h => hunwanted (Hub.included_iff.mp h)
    rw [List.filter_eq_nil_iff.mpr fun sig _ => by simp [Hub.Counts, hout]]
    exact .nil

theorem overlayEntries_listed {connections : List (OverlayEntry g)}
    (h : resolveConnections g inputs = .ok connections) (scout : EveScoutSnapshot)
    (endpoints : List g.NodeIndex) (now : Instant) :
    ∃ ofConnections ofHub, Listing scout inputs endpoints now ofConnections ofHub ∧
      overlayEntries scout inputs endpoints now connections =
        ofConnections ++ (ofHub .thera ++ ofHub .turnur) :=
  ⟨_, _, ⟨enabledConnections_listed h, fun hub => hubEntries_listed hub scout inputs endpoints now⟩,
    rfl⟩

end Listing

/-- Assembly is exact, by `applyOverlay` and by the two halves of it that the
fan-out runs apart: the enabled connections come first, then the signatures of
Thera, then those of Turnur. -/
theorem overlay_exact (g : GraphData) (scout : EveScoutSnapshot) (inputs : OverlayInputs)
    (endpoints : List g.NodeIndex) (avoid : Finset g.NodeIndex) (preference : Preference)
    (connections : List (OverlayEntry g)) (m : Machine)
    (hconns : resolveConnections g inputs = .ok connections) :
    ∃ ctx left ofConnections ofHub,
      applyOverlay scout inputs endpoints (.new avoid preference) m = .ok (.ok ctx, left) ∧
      applyScoutOverlay scout inputs endpoints
        (addOverlayConnections inputs connections (.new avoid preference)) m = .ok (ctx, left) ∧
      Listing scout inputs endpoints (m.clock m.reads) ofConnections ofHub ∧
      OverlayExact ctx (ofConnections ++ (ofHub .thera ++ ofHub .turnur)) := by
  obtain ⟨ofConnections, ofHub, hlisting, hentries⟩ :=
    overlayEntries_listed hconns scout endpoints (m.clock m.reads)
  refine ⟨_, { m with reads := m.reads + 1 }, ofConnections, ofHub, ?_, rfl, hlisting, ?_⟩
  · unfold applyOverlay
    rw [hconns]
    rfl
  · rw [← hentries]
    exact scoutOverlay_exact _ _ _ _ _ _ _

/-- A bridge and then a wormhole between the same two systems, and a signature
from Turnur to the first. -/
def doubledInputs : OverlayInputs where
  useWormholes := true
  useBridges := true
  connections := [⟨.bridge, .id 1, .id 2, none⟩, ⟨.wormhole, .id 2, .id 1, none⟩]

theorem overlay_exact_doubled :
    ∃ ctx left ofConnections ofHub,
      applyOverlay expiringScout doubledInputs [⟨0, by decide⟩, ⟨2, by decide⟩]
        (.new (g := turnurChain) ∅ .shortest) { clock := fun _ => 0 } = .ok (.ok ctx, left) ∧
      applyScoutOverlay expiringScout doubledInputs [⟨0, by decide⟩, ⟨2, by decide⟩]
        (addOverlayConnections doubledInputs
          [(⟨0, by decide⟩, ⟨1, by decide⟩, .bridge), (⟨1, by decide⟩, ⟨0, by decide⟩, .wormhole)]
          (.new (g := turnurChain) ∅ .shortest)) { clock := fun _ => 0 } = .ok (ctx, left) ∧
      Listing (g := turnurChain) expiringScout doubledInputs [⟨0, by decide⟩, ⟨2, by decide⟩] 0
        ofConnections ofHub ∧
      OverlayExact ctx (ofConnections ++ (ofHub .thera ++ ofHub .turnur)) :=
  overlay_exact turnurChain expiringScout doubledInputs [⟨0, by decide⟩, ⟨2, by decide⟩] ∅
    .shortest _ { clock := fun _ => 0 } (by decide +kernel)

end Palu
