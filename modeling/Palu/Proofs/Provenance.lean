import Palu.Proofs.Certificates
import Palu.Proofs.Lifetimes
import Palu.Proofs.Mapping
import Palu.Proofs.StagingRange

namespace Palu

open Effects Executions Paths

section Files
variable {rows : RowDecoder} {files : String → Option Bytes} {data : RawSdeData} {n : ℕ}

theorem parseFile_ok {α : Type} {f : List (Except String String) → Except ParseError α}
    {name : String} {a : α} (h : parseFile files name f = .ok a) :
    ∃ content, files name = some content ∧ f (readLines content) = .ok a := by
  unfold parseFile openFile at h
  cases hc : files name with
  | none =>
    rw [hc] at h
    cases h
  | some content =>
    rw [hc] at h
    refine ⟨content, rfl, ?_⟩
    cases hf : f (readLines content) with
    | error e => simp [hf, bind, Except.bind, Except.mapError] at h
    | ok b => simpa [hf, bind, Except.bind, Except.mapError] using h

theorem loadFiles_ok (h : loadFiles rows files = .ok data) :
    parseFile files "mapSolarSystems.jsonl" (parseSystems rows) = .ok data.systems ∧
      parseFile files "mapStargates.jsonl" (parseGatePairs rows) = .ok data.gatePairs := by
  obtain ⟨systems, hsystems, h⟩ := Collections.bind_ok.mp h
  obtain ⟨gatePairs, hpairs, h⟩ := Collections.bind_ok.mp h
  obtain ⟨hulls, _, h⟩ := Collections.bind_ok.mp h
  cases h
  exact ⟨hsystems, hpairs⟩

/-- A line of the archive's file decodes to the row. -/
def Archive.Lists {ρ : Type} (archive : Archive) (file : String)
    (decode : String → Except String ρ) (row : ρ) : Prop :=
  ∃ content, contentOf archive file = some content ∧
    ∃ line, .ok line ∈ readLines content ∧ rowOf decode line = some row

variable {archive : Archive}

theorem systems_listed (h : loadFiles rows (contentOf archive) = .ok data) :
    ∀ s ∈ data.systems, ∃ raw, archive.Lists "mapSolarSystems.jsonl" rows.system raw ∧
      systemFromRaw raw = s := by
  obtain ⟨content, hc, hparse⟩ := parseFile_ok (loadFiles_ok h).1
  obtain ⟨lines, hlines, _, hsystems⟩ := lines_of_forRows hparse
  intro s hs
  rw [hsystems, foldl_systems, List.nil_append, rowsOf] at hs
  obtain ⟨raw, hraw, rfl⟩ := List.mem_map.mp hs
  obtain ⟨line, hline, hrow⟩ := List.mem_filterMap.mp hraw
  exact ⟨raw, ⟨content, hc, line, hlines ▸ List.mem_map_of_mem hline, hrow⟩, rfl⟩

/-- Where the map has a gate, a row of the archive links the two systems. -/
theorem gates_listed (h : loadFiles rows (contentOf archive) = .ok data)
    {x y : Fin data.systems.length}
    (hxy : (buildGraphData data n).gateGraph.containsEdge x y = true) :
    ∃ row, archive.Lists "mapStargates.jsonl" rows.stargate row ∧
      row.Links (data.systems.get x).id (data.systems.get y).id := by
  obtain ⟨content, hc, hparse⟩ := parseFile_ok (loadFiles_ok h).2
  obtain ⟨pass, hpass, hpairs⟩ := Collections.map_ok.mp hparse
  obtain ⟨lines, hlines, _, rfl⟩ := lines_of_forRows hpass
  have hexact := GatePass.pairsExact (rowsOf rows.stargate lines)
  rw [hpairs] at hexact
  obtain ⟨row, hrow, a, b, hlinks, ha, hb⟩ := ((adjacencyExact hexact data n).adjacent x y).mp hxy
  have hid := fun k i => (indexAligned data n).id_some k i
  obtain ⟨line, hline, hrow⟩ := List.mem_filterMap.mp hrow
  refine ⟨row, ⟨content, hc, line, hlines ▸ List.mem_map_of_mem hline, hrow⟩, ?_⟩
  rw [((hid a x).mp ha).1, ((hid b y).mp hb).1]
  exact hlinks

end Files

section Hops

/-- What a shown path may draw on: a build, a request with the references at the
ends of the path, the rows heard from EVE-Scout, and the time. -/
structure Sources where
  archive : Archive
  rows : RowDecoder
  inputs : OverlayInputs
  ends : List SystemRef
  heard : List RawSignature
  now : Instant

namespace Sources

/-- A row of the build's systems. -/
def System (o : Sources) (raw : RawSystem) : Prop :=
  o.archive.Lists "mapSolarSystems.jsonl" o.rows.system raw

/-- A row of the build's stargates. -/
def Stargate (o : Sources) (row : RawStargate) : Prop :=
  o.archive.Lists "mapStargates.jsonl" o.rows.stargate row

end Sources

/-- The reference is to the system of the row. -/
def SystemRef.Names (raw : RawSystem) : SystemRef → Prop
  | .id k => raw.id = k
  | .name s => raw.name.toLower = s.toLower

/-- The step shows the system of the row, with its class: wormhole regions are
numbered from 11000000 on, and elsewhere the class goes by the security. -/
structure RouteStep.Shows (step : RouteStep) (raw : RawSystem) : Prop where
  system : step.system = raw.name
  systemId : step.systemId = raw.id
  security : step.security = raw.securityStatus
  wormhole : 11000000 ≤ raw.regionId → step.secClass = "Wormhole"
  highsec : raw.regionId < 11000000 → HIGHSEC_MIN ≤ raw.securityStatus →
    step.secClass = "Highsec"
  lowsec : raw.regionId < 11000000 → raw.securityStatus < HIGHSEC_MIN →
    0 < raw.securityStatus → step.secClass = "Lowsec"
  nullsec : raw.regionId < 11000000 → raw.securityStatus ≤ 0 → step.secClass = "Nullsec"

theorem routeStep_shows (raw : RawSystem) (via : String) :
    (routeStep (systemFromRaw raw) via).Shows raw := by
  have hmin : (0 : ℚ) < HIGHSEC_MIN := by norm_num [HIGHSEC_MIN]
  constructor
  case wormhole =>
    intro hregion
    simp [routeStep, systemFromRaw, classifySecurity, hregion, SecClass.label]
  case highsec =>
    intro hregion hsec
    simp [routeStep, systemFromRaw, classifySecurity, hregion.not_ge, hsec, SecClass.label]
  case lowsec =>
    intro hregion hlow hsec
    simp [routeStep, systemFromRaw, classifySecurity, hregion.not_ge, hlow.not_ge, hsec,
      SecClass.label]
  case nullsec =>
    intro hregion hsec
    simp [routeStep, systemFromRaw, classifySecurity, hregion.not_ge, (hsec.trans_lt hmin).not_ge,
      hsec.not_gt, SecClass.label]
  all_goals rfl

/-- A wormhole out of a hub, as EVE-Scout lists it. -/
structure RawSignature.Leaves (row : RawSignature) (hub : Hub) : Prop where
  wormhole : row.signatureType = "wormhole"
  out : row.outSystemId = hub.id

/-- Why a hop from one system to the next is shown, and under which label. -/
inductive Sources.Hop (o : Sources) (a b : RawSystem) : String → Prop where
  | stargate {row} (hrow : o.Stargate row) (hlinks : row.Links a.id b.id) : o.Hop a b "stargate"
  | connection {c} (hc : c ∈ o.inputs.connections) (huse : o.inputs.uses (edgeKind c.kind) = true)
    (hjoins : c.src.Names a ∧ c.dst.Names b ∨ c.src.Names b ∧ c.dst.Names a) :
    o.Hop a b (edgeKind c.kind).viaLabel
  | signature {row hub} (hrow : row ∈ o.heard) (hleaves : row.Leaves hub)
    (hlive : o.now < row.expiresAt)
    (hincluded : hub.includeFlag o.inputs = true ∨
      ∃ r ∈ o.ends, ∃ raw, o.System raw ∧ raw.id = hub.id ∧ r.Names raw)
    (hjoins : row.outSystemId = a.id ∧ row.inSystemId = b.id ∨
      row.outSystemId = b.id ∧ row.inSystemId = a.id) :
    o.Hop a b "wormhole"

/-- A shown path with the row behind each of its systems. -/
structure Sources.Accounts (o : Sources) (shown : List RouteStep) (raws : List RawSystem) : Prop where
  listed : ∀ raw ∈ raws, o.System raw
  shows : List.Forall₂ RouteStep.Shows shown raws
  start : shown.head?.map RouteStep.via = some "start"
  hops : List.Forall₂ (fun e step => o.Hop e.1 e.2 step.via) (steps raws) shown.tail

/-- The signatures are wormholes out of their hubs, from these rows. -/
def EveScoutSnapshot.Of (snap : EveScoutSnapshot) (raw : List RawSignature) : Prop :=
  ∀ hub : Hub, ∀ sig ∈ hub.signatures snap, ∃ row ∈ raw, row.Leaves hub ∧ row.signature = sig

theorem partition_of (raw : List RawSignature) (fetchedAt : Instant) :
    (partition raw fetchedAt).Of raw := by
  have hfold : ∀ (rest : List RawSignature) (snap : EveScoutSnapshot), rest ⊆ raw → snap.Of raw →
      (rest.foldl EveScoutSnapshot.keep snap).Of raw := by
    intro rest
    induction rest with
    | nil => exact fun _ _ h => h
    | cons r rest ih =>
      intro snap hsub h
      obtain ⟨hr, hsub⟩ := List.cons_subset.mp hsub
      apply ih _ hsub
      intro hub sig hs
      unfold EveScoutSnapshot.keep at hs
      split at hs
      · exact h hub sig hs
      · rename_i htype
        have hwormhole : r.signatureType = "wormhole" := not_not.mp htype
        split at hs
        · rename_i hout
          cases hub with
          | turnur => exact h .turnur sig hs
          | thera =>
            rcases List.mem_append.mp hs with hs | hs
            · exact h .thera sig hs
            · exact ⟨r, hr, ⟨hwormhole, hout⟩, (List.mem_singleton.mp hs).symm⟩
        · split at hs
          · rename_i hout
            cases hub with
            | thera => exact h .thera sig hs
            | turnur =>
              rcases List.mem_append.mp hs with hs | hs
              · exact h .turnur sig hs
              · exact ⟨r, hr, ⟨hwormhole, hout⟩, (List.mem_singleton.mp hs).symm⟩
          · exact h hub sig hs
  apply hfold raw _ (List.Subset.refl _)
  intro hub sig hs
  cases hub <;> cases hs

theorem steps_map {V W : Type*} (f : V → W) (p : List V) :
    steps (p.map f) = (steps p).map (Prod.map f f) := by
  induction p with
  | nil => rfl
  | cons v p ih =>
    cases p with
    | nil => rfl
    | cons u p => simpa using ih

/-- Each step shows the system of its node. -/
theorem buildSteps_shows {g : GraphData} (ctx : RouteContext g) (p : Path g) :
    List.Forall₂ (fun step v => ∃ via, step = routeStep (g.systems.get v) via) (buildSteps ctx p) p := by
  have hgo : ∀ (prev : g.NodeIndex) (p : Path g),
      List.Forall₂ (fun step v => ∃ via, step = routeStep (g.systems.get v) via)
        (buildSteps.go ctx prev p) p := by
    intro prev p
    induction p generalizing prev with
    | nil => exact .nil
    | cons v p ih => exact .cons ⟨_, rfl⟩ (ih v)
  cases p with
  | nil => exact .nil
  | cons v p => exact .cons ⟨_, rfl⟩ (hgo v p)

section Built
variable {o : Sources} {g : GraphData} {scout : EveScoutSnapshot}

/-- The map is that of the build: there is a row behind each of its nodes, and one
behind each of its gates. -/
structure BuiltFrom (o : Sources) (g : GraphData) (rawOf : g.NodeIndex → RawSystem) : Prop where
  listed : ∀ v, o.System (rawOf v)
  system : ∀ v, systemFromRaw (rawOf v) = g.systems.get v
  resolves : ResolvesExactly g
  gates : ∀ u v, g.gateGraph.containsEdge u v = true →
    ∃ row, o.Stargate row ∧ row.Links (g.systems.get u).id (g.systems.get v).id

theorem exists_builtFrom {data : RawSdeData} (n : ℕ)
    (h : loadFiles o.rows (contentOf o.archive) = .ok data) :
    ∃ rawOf, BuiltFrom o (buildGraphData data n) rawOf := by
  choose rawOf hlisted hraw using fun v : Fin data.systems.length =>
    systems_listed h _ (List.get_mem data.systems v)
  exact ⟨rawOf, hlisted, hraw, (indexAligned data n).resolves, fun _ _ => gates_listed h⟩

variable {rawOf : g.NodeIndex → RawSystem} {a b v : g.NodeIndex} {endpoints : List g.NodeIndex}
  {via : String} (hbuilt : BuiltFrom o g rawOf)
include hbuilt

theorem BuiltFrom.id (v : g.NodeIndex) : (rawOf v).id = (g.systems.get v).id := by
  rw [← hbuilt.system v]
  rfl

theorem BuiltFrom.id_of_lookup {k : ℤ} (h : g.idToIdx k = some v) : (rawOf v).id = k :=
  (hbuilt.id v).trans (hbuilt.resolves.id k v (resolveSystem_id.mpr h))

theorem BuiltFrom.names {r : SystemRef} (h : resolveSystem g r = .ok v) : r.Names (rawOf v) := by
  cases r with
  | id k => exact (hbuilt.id v).trans (hbuilt.resolves.id k v h)
  | name s =>
    have hname : (rawOf v).name = (g.systems.get v).name := by
      rw [← hbuilt.system v]
      rfl
    rw [SystemRef.Names, hname]
    exact hbuilt.resolves.name s v h

theorem BuiltFrom.connection {k : ConnectionKind} (huse : o.inputs.uses (edgeKind k) = true)
    (h : ConnectionJoins g o.inputs k a b) :
    o.Hop (rawOf a) (rawOf b) (edgeKind k).viaLabel := by
  obtain ⟨c, hc, rfl, u, v, hu, hv, hbetween⟩ := h
  refine .connection hc huse ?_
  rcases hbetween with ⟨rfl, rfl⟩ | ⟨rfl, rfl⟩
  · exact .inl ⟨hbuilt.names hu, hbuilt.names hv⟩
  · exact .inr ⟨hbuilt.names hu, hbuilt.names hv⟩

theorem BuiltFrom.signature (hscout : scout.Of o.heard)
    (hends : ∀ v ∈ endpoints, ∃ r ∈ o.ends, resolveSystem g r = .ok v)
    (h : ScoutJoins scout o.inputs endpoints o.now a b) :
    o.Hop (rawOf a) (rawOf b) "wormhole" := by
  obtain ⟨hub, hincluded, sig, hsig, hlive, u, v, hu, hv, hbetween⟩ := h
  obtain ⟨row, hheard, hleaves, rfl⟩ := hscout hub sig hsig
  have hout : (rawOf u).id = row.outSystemId := hbuilt.id_of_lookup hu
  have hin : (rawOf v).id = row.inSystemId := hbuilt.id_of_lookup hv
  refine .signature hheard hleaves (of_decide_eq_true hlive) ?_ ?_
  · apply hincluded.imp_right
    rintro ⟨w, hw, hid⟩
    obtain ⟨r, hr, hres⟩ := hends w hw
    exact ⟨r, hr, rawOf w, hbuilt.listed w, hbuilt.id_of_lookup hid, hbuilt.names hres⟩
  · rcases hbetween with ⟨rfl, rfl⟩ | ⟨rfl, rfl⟩
    · exact .inl ⟨hout.symm, hin.symm⟩
    · exact .inr ⟨hout.symm, hin.symm⟩

/-- A truthful label of a step between two nodes is a reason for the hop. -/
theorem BuiltFrom.hop (hscout : scout.Of o.heard)
    (hends : ∀ v ∈ endpoints, ∃ r ∈ o.ends, resolveSystem g r = .ok v)
    (h : Truthful scout o.inputs endpoints o.now a b via) :
    o.Hop (rawOf a) (rawOf b) via := by
  rcases h.known with rfl | rfl | rfl
  · obtain ⟨row, hlists, hlinks⟩ := hbuilt.gates a b (h.stargate.mp rfl)
    rw [← hbuilt.id, ← hbuilt.id] at hlinks
    exact .stargate hlists hlinks
  · obtain ⟨_, huse, hjoins⟩ := h.bridge rfl
    exact hbuilt.connection (k := .bridge) huse hjoins
  · rcases (h.wormhole rfl).2 with ⟨huse, hjoins⟩ | hjoins
    · exact hbuilt.connection (k := .wormhole) huse hjoins
    · exact hbuilt.signature hscout hends hjoins

/-- A path that the search found is accounted for by what the map was built from. -/
theorem BuiltFrom.accounts (hscout : scout.Of o.heard)
    (hends : ∀ v ∈ endpoints, ∃ r ∈ o.ends, resolveSystem g r = .ok v) {ctx : RouteContext g}
    {p : Path g} {shown : List RouteStep}
    (h : CertifiedPath ctx scout o.inputs endpoints o.now p shown) :
    o.Accounts shown (p.map rawOf) := by
  refine ⟨fun raw hraw => ?_, ?_, h.start, ?_⟩
  · obtain ⟨v, _, rfl⟩ := List.mem_map.mp hraw
    exact hbuilt.listed v
  · rw [h.shown_eq, List.forall₂_map_right_iff]
    apply (buildSteps_shows ctx p).imp
    rintro step v ⟨via, rfl⟩
    rw [← hbuilt.system v]
    exact routeStep_shows (rawOf v) via
  · rw [steps_map, List.forall₂_map_left_iff]
    exact h.labels.imp fun e step he => hbuilt.hop hscout hends he

end Built

end Hops

section Replies
variable {g : GraphData} {scout : EveScoutSnapshot} {within : WithinUnsorted g}

theorem routeBlops_eq_ok {req : BlopsRouteRequest} {response : BlopsRouteResponse} {m left : Machine}
    (h : routeBlops within scout req m = .ok (.ok response, left)) :
    ∃ ly staged, computeStaging within scout (req.stagingQuery ly) blopsDestOk blopsStageOk
      blopsDestReject m = .ok (.ok staged, left) ∧ response.chosen = staged.chosen := by
  unfold routeBlops at h
  cases heffective : resolveEffectiveLy g req.ship req.jdcLevel with
  | error e =>
    rw [heffective] at h
    cases h
  | ok effective =>
    rw [heffective] at h
    obtain ⟨⟨result, left'⟩, hr, hok⟩ := Collections.bind_ok.mp h
    cases result with
    | error e => cases hok
    | ok staged =>
      cases hok
      exact ⟨_, staged, hr, rfl⟩

/-- A path that a reply shows, with the overlay that was asked for and the
references to the two systems whose hubs count as opted in. -/
inductive Shows : Request → Reply → OverlayInputs → List SystemRef → List RouteStep → Prop where
  | slot {req response slot jumps shown} (hslot : slot ∈ response.results)
    (hroute : slot.outcome = .route jumps shown) :
    Shows (.routeSystem req) (.routeSystem (.ok response)) req.overlay [req.src, slot.dst] shown
  | leg {req response} :
    Shows (.routeBlops req) (.routeBlops (.ok response)) req.overlay [req.src, req.dst]
      response.chosen.gatePath

/-- Every path of an answer is certified, at an instant that was read for it. -/
theorem Answers.certified {w : Deployment} {env : Env} {clock : ℕ → Instant}
    {lastReloadAt : Option Instant} {req : Request} {reply : Reply} {inputs : OverlayInputs}
    {ends : List SystemRef} {shown : List RouteStep}
    (h : Answers w env clock g lastReloadAt scout req reply)
    (hshown : Shows req reply inputs ends shown) :
    ∃ (ctx : RouteContext g) (endpoints : List g.NodeIndex) (n : ℕ) (p : Path g),
      CertifiedPath ctx scout inputs endpoints (clock n) p shown ∧
      ∀ v ∈ endpoints, ∃ r ∈ ends, resolveSystem g r = .ok v := by
  cases hshown with
  | slot hslot hroute =>
    cases h with
    | routeSystem hrun =>
      obtain ⟨i, hi⟩ := List.mem_iff_getElem?.mp hslot
      obtain ⟨header, dst, p, hh, hp⟩ := slot_of_run hrun hi hroute
      obtain ⟨hc, hctx⟩ := slotContext_exact scout hh dst (slotInstant g _ _ i)
      have hcert := certified_of_best hc hctx hp.found
      rw [← hp.shown_eq] at hcert
      refine ⟨_, _, _, p, hcert, ?_⟩
      simp [(resolveHeader_ok_iff.mp hh).2.2.1, hp.dst_eq]
  | leg =>
    cases h with
    | routeBlops hrun =>
      obtain ⟨ly, staged, hstaged, hchosen⟩ := routeBlops_eq_ok hrun
      obtain ⟨header, head, rest, hh, hb, _, rfl⟩ := computeStaging_ok hstaged
      rw [hchosen]
      refine ⟨_, _, _, head.path,
        certified_of_best hh.connections (scoutOverlay_exact _ _ _ _ _ _ _) hb, ?_⟩
      have hsrc := hh.src
      have hdst := hh.dst
      simp only [BlopsRouteRequest.stagingQuery] at hsrc hdst
      simp [hsrc, hdst]

end Replies

section Runs
variable {w : Deployment} {archiveOf : UInt64 → Archive} {s t : Server} {e : Event} {p p' : Process}
  {x : Execution (Step w)} {k : ℕ}

/-- The rows were heard from EVE-Scout since the process came up, or there are none. -/
def Heard (x : Execution (Step w)) (k : ℕ) (rows : List RawSignature) : Prop :=
  rows = [] ∨ ∃ i < k, Alive x i k ∧ ∃ fetchedAt, x.event i = .poll (.body (.ok rows)) fetchedAt

theorem Heard.extend {rows : List RawSignature} {j : ℕ} (h : Heard x j rows) (hlive : Alive x j k)
    (hjk : j ≤ k) : Heard x k rows := by
  rcases h with rfl | ⟨i, hi, hlive', fetchedAt, he⟩
  · exact .inl rfl
  · refine .inr ⟨i, by omega, fun m him hmk => ?_, fetchedAt, he⟩
    rcases le_total m j with hmj | hjm
    · exact hlive' m him hmj
    · exact hlive m hjm hmk

/-- The snapshot in place, and one that is to replace it, are from rows heard. -/
structure FromHeard (x : Execution (Step w)) (k : ℕ) (p : Process) : Prop where
  cell : ∃ rows, Heard x k rows ∧ p.app.eveScout.Of rows
  fetched : ∀ snap, p.poller = .fetched snap → ∃ rows, Heard x k rows ∧ snap.Of rows

theorem EveScoutSnapshot.empty_of : ({} : EveScoutSnapshot).Of [] := by
  intro hub sig hs
  cases hub <;> cases hs

theorem fetchSnapshot_ok {response : Response (Except String (List RawSignature))} {now : Instant}
    {snap : EveScoutSnapshot} (h : fetchSnapshot response now = .ok snap) :
    ∃ rows, response = .body (.ok rows) ∧ snap = partition rows now := by
  unfold fetchSnapshot at h
  cases response with
  | body content =>
    cases content with
    | ok rows =>
      cases h
      exact ⟨rows, rfl, rfl⟩
    | error e => cases h
  | _ => cases h

theorem afterPoll_fetched {r : Except Trace EveScoutSnapshot} {snap : EveScoutSnapshot}
    (h : ScoutTask.afterPoll r = .fetched snap) : r = .ok snap := by
  cases r with
  | ok fetched =>
    cases h
    rfl
  | error e => cases h

theorem polls_eq_some {poll : Response (Except String (List RawSignature)) × Instant} :
    e.polls = some poll ↔ e = .poll poll.1 poll.2 := by
  constructor
  · intro h
    cases e with
    | poll response now =>
      cases h
      rfl
    | _ => cases h
  · rintro rfl
    rfl

theorem Step.polled {poll : Response (Except String (List RawSignature)) × Instant}
    (hs : Step w s e t) (hp : s.process = some p) (hp' : t.process = some p')
    (he : e.polls = some poll) :
    p'.app.eveScout = p.app.eveScout ∧ p'.poller = .afterPoll (fetchSnapshot poll.1 poll.2) := by
  cases hs with
  | poll hq ht =>
    cases he
    cases hp.symm.trans hq
    cases hp'
    exact ⟨rfl, rfl⟩
  | _ => cases he

theorem fromHeard (hstart : (x.state 0).process = none) : ∀ k ≤ x.length, ∀ p,
    (x.state k).process = some p → FromHeard x k p := by
  apply x.along (I := fun k s => ∀ p, s.process = some p → FromHeard x k p)
  · exact fun p hp => absurd (hstart.symm.trans hp) (by simp)
  · intro k hk ih p' hp'
    have hs := x.step k hk
    rcases hs.alive hp' with ⟨p, hp, _⟩ | ⟨env, _, _, _, _, data, current, _, _, _, rfl⟩
    · obtain ⟨⟨rows, hheard, hof⟩, hfetched⟩ := ih p hp
      have hk' : k ≤ k + 1 := Nat.le_succ k
      have hlive : Alive x k (k + 1) := by
        apply Alive.succ _ hp'
        intro i hki hik
        rw [le_antisymm hik hki, hp]
        rfl
      cases he : (x.event k).polls with
      | none =>
        cases hs.scoutStep hp hp' he with
        | none hcell htask =>
          refine ⟨⟨rows, hheard.extend hlive hk', hcell ▸ hof⟩, fun snap hsnap => ?_⟩
          obtain ⟨rows', hheard', hof'⟩ := hfetched snap (htask ▸ hsnap)
          exact ⟨rows', hheard'.extend hlive hk', hof'⟩
        | @store snap htask htask' hcell =>
          obtain ⟨rows', hheard', hof'⟩ := hfetched snap htask
          exact ⟨⟨rows', hheard'.extend hlive hk', hcell ▸ hof'⟩, by simp [htask']⟩
      | some poll =>
        obtain ⟨hcell, htask⟩ := hs.polled hp hp' he
        refine ⟨⟨rows, hheard.extend hlive hk', hcell ▸ hof⟩, fun snap hsnap => ?_⟩
        obtain ⟨heard, hresponse, rfl⟩ := fetchSnapshot_ok (afterPoll_fetched (htask ▸ hsnap))
        refine ⟨heard, .inr ⟨k, Nat.lt_succ_self k, hlive, poll.2, ?_⟩, partition_of heard _⟩
        rw [← hresponse]
        exact polls_eq_some.mp he
    · refine ⟨⟨[], .inl rfl, EveScoutSnapshot.empty_of⟩, fun snap hsnap => ?_⟩
      rcases Process.new_poller env (buildGraphData data current.buildNumber.toNat) with h | h <;>
        cases h.symm.trans hsnap

/-- Every path that a server shows while it serves from its cache is accounted for:
by the rows of one published build, by what the request opts in, and by wormholes
that EVE-Scout listed in one answer to this process and that had not expired. -/
theorem hops_sourced (x : Execution (Step w)) (hagree : ∀ build, Consistent (archiveOf build))
    (hhonest : ∀ i < x.length, ∀ host, (x.event i).via = some host → Honest archiveOf host)
    (hstart : (x.state 0).process = none) (hgenuine : Genuine archiveOf (x.state 0).disk)
    {k id worker : ℕ} (hk : k < x.length) {clock : ℕ → Instant} {reply : Reply}
    (he : x.event k = .reply id worker clock reply) (hp : (x.state k).process = some p)
    (hcache : resolveSdeDir p.env = none) :
    ∃ req, (∃ a < k, x.event a = .arrive req ∧ (x.state a).arrived = id) ∧
      ∃ build heard, Heard x k heard ∧ ∀ inputs ends shown, Shows req reply inputs ends shown →
        ∃ n raws, Sources.Accounts
          { archive := archiveOf build
            rows := w.serde.toRowDecoder
            inputs := inputs
            ends := ends
            heard := heard
            now := clock n } shown raws := by
  obtain ⟨req, a, i, l, j, hx, build, data, hbuild, hgraph⟩ :=
    answered_published x hagree hhonest hstart hgenuine hk he hp hcache
  obtain ⟨hai, hil, hlj, hjk⟩ := hx.order
  obtain ⟨q, A, B, C, hq, hA, _, hC, hanswers⟩ := hx.answers
  rw [hgraph A hA] at hanswers
  obtain ⟨pj, hpj, rfl⟩ := Option.map_eq_some_iff.mp hC
  obtain ⟨heard, hheard, hof⟩ := (fromHeard hstart j (by omega) pj hpj).cell
  refine ⟨req, ⟨a, by omega, hx.came⟩, build, heard, ?_, fun inputs ends shown hshown => ?_⟩
  · exact hheard.extend (fun m hm hmk => hx.alive m (by omega) hmk) hjk
  · obtain ⟨ctx, endpoints, n, path, hcert, hends⟩ := hanswers.certified hshown
    let o : Sources := ⟨archiveOf build, w.serde.toRowDecoder, inputs, ends, heard, clock n⟩
    obtain ⟨rawOf, hbuilt⟩ := exists_builtFrom (o := o) build.toNat hbuild
    exact ⟨n, _, hbuilt.accounts hof hends hcert⟩

end Runs

section Session

def jitaId : ℤ := 30000142

/-- A build of two systems without gates. -/
def theraArchive : Archive := FILES.map fun f =>
  ⟨"Latest/" ++ f, if f = "mapSolarSystems.jsonl" then utf8 "Thera\nJita\n" else []⟩

def theraSite : Deployment where
  cache := ⟨"/cache"⟩
  serde := { twoBuildsSerde with
    system := fun row =>
      if row = "Thera" then .ok ⟨THERA_SYSTEM_ID, row, -1, 11000031, 21000324, ⟨0, 0, 0⟩⟩
      else if row = "Jita" then .ok ⟨jitaId, row, 9 / 10, 10000002, 20000020, ⟨1, 1, 1⟩⟩
      else .error "expected value at line 1 column 1" }
  within := fun _ => scan

def theraHost : Host := { publishes 1 with download := fun _ => .body (.ok theraArchive) }

/-- A wormhole that closes at the instant 1. -/
def theraRow : RawSignature := ⟨THERA_SYSTEM_ID, jitaId, "Jita", none, "wormhole", 1⟩

def fromThera : GateRouteRequest := { src := .name "thera", dst := [.id jitaId] }

def theraSession (reply : Reply) : List Event :=
  [.start (fun _ => none) (fun _ => none) theraHost, .poll (.body (.ok [theraRow])) 0, .store,
    .arrive (.routeSystem fromThera), .load 0, .load 0, .reply 0 0 (fun _ => 0) reply]

theorem exists_theraSession : ∃ (x : Execution (Step theraSite)) (p : Process)
    (response : GateRouteResponse) (shown : List RouteStep),
    x.length = 7 ∧ x.state 0 = { disk := notesDisk } ∧
    (∀ i, x.event i = (theraSession (.routeSystem (.ok response))).getD i .stop) ∧
    (x.state 6).process = some p ∧ (p.env = fun _ => none) ∧
    response.results = [⟨.id jitaId, .route 1 shown⟩] ∧
    shown.map RouteStep.via = ["start", "wormhole"] := by
  let load := loadSde theraSite (fun _ => none) (fun _ => none) theraHost
  let answer := fun g : GraphData =>
    computeGateRoute g (partition [theraRow] 0) fromThera { clock := fun _ => 0 }
  have hone : (run load notesDisk).1.map (fun r => (r.2.buildNumber,
      (answer (buildGraphData r.1 1)).map fun a => a.1.map GateRouteResponse.results)) =
      .ok (1, .ok (.ok [⟨.id jitaId, .route 1
        [⟨"Thera", THERA_SYSTEM_ID, -1, "Wormhole", "start"⟩,
          ⟨"Jita", jitaId, 9 / 10, "Highsec", "wormhole"⟩]⟩])) := by decide +kernel
  obtain ⟨⟨data, build, released, fetched⟩, hok, hone⟩ := Collections.map_ok.mp hone
  obtain ⟨hbuild, hresults⟩ := Prod.mk.inj hone
  obtain rfl : build = 1 := hbuild
  obtain ⟨⟨result, left⟩, hanswer, hresults⟩ := Collections.map_ok.mp hresults
  obtain ⟨response, rfl, hresults⟩ := Collections.map_ok.mp hresults
  obtain ⟨disk, hload⟩ : ∃ disk, run load notesDisk = (.ok (data, ⟨1, released, fetched⟩), disk) :=
    ⟨_, Prod.ext hok rfl⟩
  let g := buildGraphData data 1
  obtain ⟨s₁, h₀, hp₁, ha₁⟩ : ∃ s₁, Step theraSite { disk := notesDisk } _ s₁ ∧
      s₁.process = some (.new (fun _ => none) g) ∧ s₁.arrived = 0 :=
    ⟨_, .start_of_run rfl hload, rfl, rfl⟩
  obtain ⟨s₂, p₂, h₁, hp₂, ht₂, hsame₂⟩ : ∃ s₂ p₂,
      Step theraSite s₁ (.poll (.body (.ok [theraRow])) 0) s₂ ∧ s₂.process = some p₂ ∧
      p₂.poller = .fetched (partition [theraRow] 0) ∧ (p₂.env = fun _ => none) ∧
      p₂.app.graph = g ∧ (p₂.scratch = fun _ => {}) ∧ s₂.arrived = s₁.arrived :=
    ⟨_, _, .poll hp₁ rfl, rfl, rfl, rfl, rfl, rfl, rfl⟩
  obtain ⟨s₃, p₃, h₂, hp₃, hscout₃, hsame₃⟩ : ∃ s₃ p₃, Step theraSite s₂ .store s₃ ∧
      s₃.process = some p₃ ∧ p₃.app.eveScout = partition [theraRow] 0 ∧ p₃.env = p₂.env ∧
      p₃.app.graph = p₂.app.graph ∧ p₃.scratch = p₂.scratch ∧ s₃.arrived = s₂.arrived :=
    ⟨_, _, .store hp₂ ht₂, rfl, rfl, rfl, rfl, rfl, rfl⟩
  have ha₃ : s₃.arrived = 0 := by rw [hsame₃.2.2.2, hsame₂.2.2.2, ha₁]
  obtain ⟨s₄, p₄, h₃, hp₄, hh₄, happ₄, hsame₄⟩ : ∃ s₄ p₄,
      Step theraSite s₃ (.arrive (.routeSystem fromThera)) s₄ ∧ s₄.process = some p₄ ∧
      p₄.handling s₃.arrived = some (.routeSystem fromThera, .entered) ∧ p₄.app = p₃.app ∧
      p₄.env = p₃.env ∧ p₄.scratch = p₃.scratch :=
    ⟨_, _, .arrive hp₃, rfl, Function.update_self .., rfl, rfl, rfl⟩
  rw [ha₃] at hh₄
  obtain ⟨s₅, p₅, h₄, hp₅, hh₅, happ₅, hsame₅⟩ : ∃ s₅ p₅, Step theraSite s₄ (.load 0) s₅ ∧
      s₅.process = some p₅ ∧
      p₅.handling 0 = some (.routeSystem fromThera, .withGraph p₄.app.graph) ∧ p₅.app = p₄.app ∧
      p₅.env = p₄.env ∧ p₅.scratch = p₄.scratch :=
    ⟨_, _, .load hp₄ hh₄ rfl, rfl, rfl, rfl, rfl, rfl⟩
  obtain ⟨s₆, p₆, h₅, hp₆, hh₆, hsame₆⟩ : ∃ s₆ p₆, Step theraSite s₅ (.load 0) s₆ ∧
      s₆.process = some p₆ ∧ p₆.handling 0 =
        some (.routeSystem fromThera, .withScout p₄.app.graph p₅.app.eveScout) ∧
      p₆.env = p₅.env ∧ p₆.scratch = p₅.scratch :=
    ⟨_, _, .load hp₅ hh₅ rfl, rfl, rfl, rfl, rfl⟩
  have hgraph : p₄.app.graph = g := by rw [happ₄, hsame₃.2.1, hsame₂.2.1]
  have hscout : p₅.app.eveScout = partition [theraRow] 0 := by rw [happ₅, happ₄, hscout₃]
  have hscratch : p₆.scratch 0 = {} := by
    rw [hsame₆.2, hsame₅.2, hsame₄.2, hsame₃.2.2.1, hsame₂.2.2.1]
  rw [hgraph, hscout] at hh₆
  have hrun : (Reply.routeSystem <$> computeGateRoute g (partition [theraRow] 0) fromThera)
      { scratch := p₆.scratch 0, clock := fun _ => 0 } =
        .ok (.routeSystem (.ok response), left) := by
    rw [hscratch]
    exact Collections.bind_ok.mpr ⟨_, hanswer, rfl⟩
  obtain ⟨s₇, h₆⟩ : ∃ s₇, Step theraSite s₆
      (.reply 0 0 (fun _ => 0) (.routeSystem (.ok response))) s₇ :=
    ⟨_, .reply hp₆ hh₆ rfl hrun⟩
  let x : Execution (Step theraSite) :=
    { length := 7
      state := fun i => [⟨notesDisk, none, 0⟩, s₁, s₂, s₃, s₄, s₅, s₆].getD i s₇
      event := fun i => (theraSession (.routeSystem (.ok response))).getD i .stop
      step := by
        intro i hi
        interval_cases i
        exacts [h₀, h₁, h₂, h₃, h₄, h₅, h₆] }
  refine ⟨x, p₆, response, _, rfl, rfl, fun _ => rfl, hp₆, ?_, Except.ok.inj hresults, rfl⟩
  rw [hsame₆.1, hsame₅.1, hsame₄.1, hsame₃.1, hsame₂.1]

theorem hops_sourced_session : ∃ (x : Execution (Step theraSite)) (response : GateRouteResponse)
    (shown : List RouteStep),
    x.event 6 = .reply 0 0 (fun _ => 0) (.routeSystem (.ok response)) ∧
    ⟨.id jitaId, .route 1 shown⟩ ∈ response.results ∧
    shown.map RouteStep.via = ["start", "wormhole"] ∧
    ∃ req, (∃ a < 6, x.event a = .arrive req ∧ (x.state a).arrived = 0) ∧
      ∃ build heard, Heard x 6 heard ∧ ∀ inputs ends shown,
        Shows req (.routeSystem (.ok response)) inputs ends shown →
          ∃ n raws, Sources.Accounts
            { archive := (fun _ : UInt64 => theraArchive) build
              rows := theraSite.serde.toRowDecoder
              inputs := inputs
              ends := ends
              heard := heard
              now := (fun _ : ℕ => (0 : Instant)) n } shown raws := by
  obtain ⟨x, p, response, shown, hlen, hx, hevent, hp, henv, hresults, hvia⟩ := exists_theraSession
  have he : x.event 6 = .reply 0 0 (fun _ => 0) (.routeSystem (.ok response)) := hevent 6
  refine ⟨x, response, shown, he, by simp [hresults], hvia, ?_⟩
  apply hops_sourced x _ _ (by rw [hx]) (by rw [hx]; exact genuine_notesDisk) (by omega) he hp
    (by rw [henv]; rfl)
  · exact fun _ => consistent_archiveWith _
  · intro i hi host hvia build archive h
    rw [hevent] at hvia
    obtain rfl : host = theraHost := by
      rw [hlen] at hi
      interval_cases i <;> cases hvia
      rfl
    cases h
    rfl

end Session

end Palu
