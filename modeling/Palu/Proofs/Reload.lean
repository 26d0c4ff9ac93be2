import Palu.Model.Reload
import Palu.Proofs.Refresh

namespace Palu

open Effects

variable {cache : SdeCache} {serde : Serde} {served start : Served} {poll : Poll}

/-- The manifest names an older build than the one loaded, which installs and
parses. -/
def RollsBack (serde : Serde) (served : Served) (poll : Poll) : Prop :=
  ∃ latest archive data, fetchLatestBuild serde poll.toHost = .ok latest ∧
    latest.buildNumber.toNat < served.graph.buildNumber ∧
    Installs poll.toHost served.disk latest.buildNumber archive ∧
    loadFiles serde.toRowDecoder (contentOf archive) = .ok data

def Swaps (cache : SdeCache) (serde : Serde) (served : Served) (poll : Poll) : Prop :=
  ∃ data current, (run (checkAndRefresh cache serde poll.toHost served.graph.buildNumber)
    served.disk).1 = .ok (.updated data current)

/-- The build number never decreases along a run, and the graph is only swapped
for that of a newer manifest. -/
structure MovesForward (cache : SdeCache) (serde : Serde) (start : Served) (polls : List Poll) :
    Prop where
  mono : ∀ front mid back, polls = front ++ mid ++ back →
    (reloadRun cache serde start front).graph.buildNumber ≤
      (reloadRun cache serde start (front ++ mid)).graph.buildNumber
  newer : ∀ front poll back, polls = front ++ poll :: back →
    Swaps cache serde (reloadRun cache serde start front) poll →
    ∃ latest, fetchLatestBuild serde poll.toHost = .ok latest ∧
      (reloadRun cache serde start front).graph.buildNumber < latest.buildNumber.toNat

theorem reloadTick_ends (cache : SdeCache) (serde : Serde) (served : Served) (poll : Poll) :
    Ends (Refreshed serde poll.toHost served.disk served.graph.buildNumber)
      (RefreshFailed serde poll.toHost served.disk served.graph.buildNumber) (fun _ => True)
      (run (checkAndRefresh cache serde poll.toHost served.graph.buildNumber) served.disk) :=
  checkAndRefresh_triple cache serde poll.toHost served.graph.buildNumber served.disk rfl

/-- A tick swaps the graph for that of another build than the one loaded. -/
theorem Swaps.reloads (h : Swaps cache serde served poll) :
    ∃ latest archive data, fetchLatestBuild serde poll.toHost = .ok latest ∧
      latest.buildNumber.toNat ≠ served.graph.buildNumber ∧
      Installs poll.toHost served.disk latest.buildNumber archive ∧
      loadFiles serde.toRowDecoder (contentOf archive) = .ok data ∧
      (reloadTick cache serde served poll).graph.buildNumber = latest.buildNumber.toNat := by
  obtain ⟨data, current, h⟩ := h
  have hends := reloadTick_ends cache serde served poll
  unfold reloadTick
  match hr : run (checkAndRefresh cache serde poll.toHost served.graph.buildNumber) served.disk,
    hends with
  | (r, s), hends =>
    rw [hr] at h
    dsimp only at h
    subst h
    cases hends with
    | updated latest archive data s hlatest hne hs hdata =>
      exact ⟨latest, archive, data, hlatest, hne, hs.installs, hdata, rfl⟩

theorem graph_of_not_swaps (h : ¬ Swaps cache serde served poll) :
    (reloadTick cache serde served poll).graph = served.graph := by
  unfold reloadTick
  match hr : run (checkAndRefresh cache serde poll.toHost served.graph.buildNumber)
    served.disk with
  | (.ok .upToDate, s) => rfl
  | (.ok (.updated data current), s) => exact absurd ⟨data, current, congrArg Prod.fst hr⟩ h
  | (.error stop, s) => rfl

/-- One tick moves forward unless it rolls back. -/
theorem reloadTick_forward (cache : SdeCache) (h : ¬ RollsBack serde served poll) :
    served.graph.buildNumber ≤ (reloadTick cache serde served poll).graph.buildNumber ∧
      (Swaps cache serde served poll → ∃ latest, fetchLatestBuild serde poll.toHost = .ok latest ∧
        served.graph.buildNumber < latest.buildNumber.toNat) := by
  by_cases hs : Swaps cache serde served poll
  · obtain ⟨latest, archive, data, hlatest, hne, hinstalls, hdata, hbuild⟩ := hs.reloads
    have hlt : served.graph.buildNumber < latest.buildNumber.toNat := by
      have hge : ¬ latest.buildNumber.toNat < served.graph.buildNumber :=
        fun hlt => h ⟨latest, archive, data, hlatest, hlt, hinstalls, hdata⟩
      omega
    exact ⟨by omega, fun _ => ⟨latest, hlatest, hlt⟩⟩
  · rw [graph_of_not_swaps hs]
    exact ⟨le_rfl, fun hswaps => absurd hswaps hs⟩

/-- A stale manifest that can be gone back to is gone back to. -/
theorem RollsBack.swaps (h : RollsBack serde served poll) (huncut : poll.toHost.Uncut) :
    Swaps cache serde served poll := by
  obtain ⟨latest, archive, data, hlatest, hlt, hinstalls, hdata⟩ := h
  have hends := reloadTick_ends cache serde served poll
  unfold Swaps
  match hr : run (checkAndRefresh cache serde poll.toHost served.graph.buildNumber) served.disk,
    hends with
  | (.ok (.updated data' current), s), _ => exact ⟨data', current, rfl⟩
  | (.ok .upToDate, s), hends =>
    cases hends with
    | upToDate latest' hlatest' heq =>
      cases hlatest.symm.trans hlatest'
      omega
  | (.error (.error e), s), hends =>
    cases hends with
    | unknown h => exact absurd hlatest (h latest)
    | notInstalled latest' s hlatest' hne hs hno =>
      cases hlatest.symm.trans hlatest'
      exact absurd ⟨archive, hinstalls⟩ hno
    | notLoaded latest' archive' e' s hlatest' hne hs he =>
      cases hlatest.symm.trans hlatest'
      cases hinstalls.downloaded.symm.trans hs.downloaded
      cases hdata.symm.trans he
  | (.error .crash, s), _ =>
    exact absurd (congrArg Prod.fst hr) (checkAndRefresh_neverCrashes huncut _ _)

theorem reloadRun_append (front back : List Poll) :
    reloadRun cache serde start (front ++ back) =
      reloadRun cache serde (reloadRun cache serde start front) back :=
  List.foldl_append

/-- The hot reload moves forward unless some poll of the run finds a stale manifest
that can be gone back to. -/
theorem reload_moves_forward_iff (cache : SdeCache) (serde : Serde) (start : Served)
    (polls : List Poll) (huncut : ∀ poll ∈ polls, poll.toHost.Uncut) :
    MovesForward cache serde start polls ↔ ∀ front poll back, polls = front ++ poll :: back →
      ¬ RollsBack serde (reloadRun cache serde start front) poll := by
  constructor
  · intro h front poll back he hback
    obtain ⟨latest, hlatest, hlt⟩ := h.newer front poll back he
      (hback.swaps (huncut poll (by simp [he])))
    obtain ⟨latest', _, _, hlatest', hlt', _⟩ := hback
    cases hlatest.symm.trans hlatest'
    omega
  · intro h
    refine ⟨fun front mid back he => ?_, fun front poll back he => (reloadTick_forward cache (h front poll back he)).2⟩
    induction mid generalizing front with
    | nil => simp
    | cons poll mid ih =>
      have htick := (reloadTick_forward cache (h front poll (mid ++ back) (by simp [he]))).1
      have hrest := ih (front ++ [poll]) (by simp [he])
      rw [reloadRun_append front [poll], List.append_assoc, List.singleton_append] at hrest
      exact htick.trans hrest

/-- The server as it is with one of the two builds loaded. -/
def servedBuild (build : UInt64) : Served where
  graph := buildGraphData { systems := [], gatePairs := [] } build.toNat
  lastReloadAt := none
  disk := twoBuildsDisk build

def pollOf (host : Host) : Poll := { host with reloadedAt := 1780405200 }

/-- The first manifest is stale and its archive is gone. -/
def goneHost : Host :=
  { twoBuildsHost (fun _ => .done) 1 with
    download := fun _ => .refused "HTTP status client error (404 Not Found)" }

theorem reload_moves_forward_iff_gone :
    MovesForward ⟨"/cache"⟩ twoBuildsSerde (servedBuild 1)
      [pollOf (twoBuildsHost (fun _ => .done) 2), pollOf goneHost] := by
  have hfirst : ¬ RollsBack twoBuildsSerde (servedBuild 1)
      (pollOf (twoBuildsHost (fun _ => .done) 2)) := by
    intro hback
    obtain ⟨latest, _, _, hlatest, hlt, _⟩ := hback
    have hbuild : (fetchLatestBuild twoBuildsSerde
      (pollOf (twoBuildsHost (fun _ => .done) 2)).toHost).map LatestManifest.buildNumber = .ok 2 := by
        decide +kernel
    rw [hlatest] at hbuild
    rw [Except.ok.inj hbuild] at hlt
    exact absurd hlt (by decide)
  have hsecond : ∀ served, ¬ RollsBack twoBuildsSerde served (pollOf goneHost) := by
    intro served hback
    obtain ⟨_, _, _, _, _, hinstalls, _⟩ := hback
    cases hinstalls.downloaded
  apply (reload_moves_forward_iff _ _ _ _ ?_).mpr
  · intro front poll back he
    rcases front with _ | ⟨p, _ | ⟨q, front⟩⟩
    · cases he
      exact hfirst
    · cases he
      exact hsecond _
    · simp at he
  · intro poll hp
    rcases List.mem_cons.mp hp with rfl | hp
    · exact fun site k he => by cases he
    · obtain rfl := List.mem_singleton.mp hp
      exact fun site k he => by cases he

/-- A stale manifest takes the map back a build and prunes the newer one. -/
theorem stale_manifest_rolls_back :
    (pollOf (twoBuildsHost (fun _ => .done) 1)).toHost.Uncut ∧
    (servedBuild 2).graph.buildNumber = 2 ∧
    (reloadTick ⟨"/cache"⟩ twoBuildsSerde (servedBuild 2)
      (pollOf (twoBuildsHost (fun _ => .done) 1))).graph.buildNumber = 1 ∧
    ((reloadTick ⟨"/cache"⟩ twoBuildsSerde (servedBuild 2)
      (pollOf (twoBuildsHost (fun _ => .done) 1))).disk.dir "2").isNone = true := by
  constructor
  · intro site k he
    cases he
  · decide +kernel

end Palu
