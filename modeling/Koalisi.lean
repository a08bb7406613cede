import Koalisi.Algorithms.Bounds
import Koalisi.Algorithms.Dcvc
import Koalisi.Algorithms.Structures
import Koalisi.Core.Supervision
import Koalisi.Decision.Blindness
import Koalisi.Decision.Levers
import Koalisi.Decision.Lockout
import Koalisi.Decision.Modulation
import Koalisi.Decision.Reliability
import Koalisi.Decision.Residuals
import Koalisi.Decision.Specialists
import Koalisi.Harness.Ranges
import Koalisi.Harness.Records
import Koalisi.Harness.References
import Koalisi.Harness.Streams
import Koalisi.Ingest.Flow
import Koalisi.Ingest.Series
import Koalisi.Persistence.Drains
import Koalisi.Persistence.Recall
import Koalisi.Persistence.Recovery
import Koalisi.Persistence.Tampering
import Koalisi.Persistence.Windows
import Koalisi.Process.Rewrite
import Koalisi.Process.Tokens
import Koalisi.Subsystems.Daemon
import Koalisi.Subsystems.Remote
import Koalisi.Subsystems.Seeding
import Koalisi.Topology.Activity
import Koalisi.Topology.Attempts
import Koalisi.Topology.Clock
import Koalisi.Topology.Deltas
import Koalisi.Topology.Histories
import Koalisi.Topology.Snapshots
import Koalisi.Topology.Tapping
