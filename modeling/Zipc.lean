import Zipc.Exclusion
import Zipc.Fifo
import Zipc.Uniqueness
import Zipc.Attribution
import Zipc.Generation
import Zipc.Buffer
import Zipc.Lifecycle
import Zipc.Focus
import Zipc.Calls
import Zipc.Epochs
import Zipc.Wakeup
import Zipc.Repairs
import Zipc.Complete
import Zipc.Session
import Zipc.Fence
import Zipc.Strict
import Zipc.Ledger
import Zipc.Stranding
import Zipc.Torn
import Zipc.Sweeps
import Zipc.Lib.Noninterference
import Zipc.Bystander
import Zipc.EndToEnd
import Zipc.Topology
import Zipc.Geometry
import Zipc.Placement
import Zipc.Controls
import Zipc.Acceptance
import Zipc.Interrupted
import Zipc.OwnerSweep
import Zipc.Sending
import Zipc.Windows
import Zipc.Deque
import Zipc.Succession
import Zipc.Room
import Zipc.Trace
import Zipc.Registration
import Zipc.Republish
import Zipc.Sizes
import Zipc.Lib.Trim
import Zipc.Lines
import Zipc.Numerals
import Zipc.Rendering
import Zipc.Isolation
import Zipc.Custody
import Zipc.Retired
import Zipc.Reconcile
import Zipc.Opening
