import Palu.Model.Build
import Palu.Model.Cache

namespace Palu

open Effects

/-- What the server holds between two polls of the manifest. -/
structure Served where
  graph : GraphData
  lastReloadAt : Option Instant
  disk : Disk

/-- What one poll finds around it. -/
structure Poll extends Host where
  reloadedAt : Instant

/-- One tick of the hot-reload task. The graph is swapped for one that is fully
built, and kept if the check fails. -/
def reloadTick (cache : SdeCache) (serde : Serde) (served : Served) (poll : Poll) : Served :=
  match run (checkAndRefresh cache serde poll.toHost served.graph.buildNumber) served.disk with
  | (.ok .upToDate, disk) => { served with disk := disk }
  | (.ok (.updated data current), disk) =>
    { graph := buildGraphData data current.buildNumber.toNat
      lastReloadAt := some poll.reloadedAt
      disk := disk }
  | (.error _, disk) => { served with disk := disk }

/-- The ticks of one run of the task. -/
def reloadRun (cache : SdeCache) (serde : Serde) (start : Served) (polls : List Poll) : Served :=
  polls.foldl (reloadTick cache serde) start

end Palu
