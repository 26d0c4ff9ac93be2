import Palu.Paths.Settling
import Palu.Proofs.Corridor
import Palu.Proofs.InRange
import Palu.Proofs.Reload
import Palu.Proofs.Containment
import Palu.Proofs.Mapping
import Palu.Proofs.StagingRange
import Palu.Proofs.Avoided
import Palu.Proofs.Chains
import Palu.Proofs.Rounding
import Palu.Proofs.Sessions
import Palu.Proofs.Restarts
import Palu.Proofs.Exploration
import Palu.Proofs.Provenance
import Palu.Proofs.Relisting
import Palu.Proofs.Layouts
import Palu.Proofs.Trees
import Palu.Proofs.Switches
import Palu.Proofs.Upgrades
import Palu.Model.Build
