import Lorie.Lib.Transition
import Lorie.Lib.Counter
import Lorie.Lib.Region
import Lorie.Lib.Fill
import Lorie.Lib.Levels
import Lorie.Lib.Ledger
import Lorie.Lib.LinkedList
import Lorie.GpuCopy.Queue
import Lorie.GpuCopy.Fifo
import Lorie.GpuCopy.Registration
import Lorie.Present.Copy
import Lorie.Present.CopyGeometry
import Lorie.Present.Acknowledge
import Lorie.Connection.WorkQueue
import Lorie.Connection.Wire
import Lorie.Connection.Receive
import Lorie.Connection.Fragment
import Lorie.Commands.Transport
import Lorie.Commands.Delivery
import Lorie.Outputs.Model
import Lorie.Outputs.Step
import Lorie.Outputs.Revision
import Lorie.Outputs.Copies
import Lorie.Outputs.Commit
import Lorie.Outputs.Leases
import Lorie.Resources.Channel
import Lorie.Resources.Suspend
import Lorie.Resources.Descriptors
import Lorie.WorkQueue.Queue
import Lorie.DataExchange.Model
import Lorie.DataExchange.Frees
import Lorie.DataExchange.Descriptors
import Lorie.DataExchange.Requests
import Lorie.DataExchange.Service
import Lorie.DataExchange.Exports
import Lorie.DataExchange.Ownership
import Lorie.DataExchange.Negotiation
import Lorie.DataExchange.Drop
import Lorie.Outputs.DirectInput
import Lorie.Outputs.Registry
import Lorie.Outputs.Changes
import Lorie.Outputs.WellFormed
import Lorie.Outputs.SizeOwner
import Lorie.Outputs.Releases
import Lorie.Windows.Model
import Lorie.Windows.Changes
import Lorie.Windows.Serials
import Lorie.Windows.Activation
import Lorie.Lib.Replay
import Lorie.Windows.Catalog
import Lorie.Windows.Refresh
import Lorie.Windows.SizeHints
import Lorie.Commands.Queue
import Lorie.DataExchange.Targets
import Lorie.Windows.StateAtoms
import Lorie.WorkQueue.Passes
import Lorie.WorkQueue.Zombies
import Lorie.DataExchange.Contents
import Lorie.DataExchange.Intact
import Lorie.DataExchange.Renegotiation
import Lorie.DataExchange.Tickets
import Lorie.Lib.Folds
import Lorie.Outputs.Placement
import Lorie.Outputs.Reconcile
import Lorie.Buffer.DmaCopy
import Lorie.Buffer.Storage
import Lorie.Lib.Mirror
import Lorie.Lib.Pairing
import Lorie.Outputs.Images
import Lorie.Outputs.Publishing
import Lorie.Outputs.Redirection
import Lorie.Present.Accounting
import Lorie.Windows.Icon
import Lorie.Windows.Inspection
import Lorie.Windows.Membership
import Lorie.Windows.Shell
import Lorie.Windows.ShellCatalog
import Lorie.Buffer.Layout
import Lorie.Keyboard.Keymap
import Lorie.Keyboard.Keysym
import Lorie.Lib.Ring
import Lorie.Present.VblankFates
import Lorie.Present.VblankOrder
import Lorie.Resources.Ancillary
import Lorie.Windows.Focus
import Lorie.Buffer.Imported
import Lorie.Buffer.ImportedSession
import Lorie.Buffer.Mapping
import Lorie.Buffer.Allocate
import Lorie.Buffer.Receive
import Lorie.Buffer.Transport
import Lorie.Lib.Custody
import Lorie.Lib.XSettings
import Lorie.Managers.Model
import Lorie.Managers.Ownership
import Lorie.Managers.Published
import Lorie.Lib.Handles
import Lorie.Lib.Waiting
import Lorie.SharedMemory.Accounts
import Lorie.SharedMemory.Identity
import Lorie.SharedMemory.Keys
import Lorie.SharedMemory.Waiting
import Lorie.Cursor.Bound
import Lorie.Cursor.Current
import Lorie.Lib.Holdings
import Lorie.RendererThread.Answers
import Lorie.RendererThread.Presentations
