import Esther.Lib.Transition
import Esther.Lib.Cells
import Esther.Lib.Paging
import Esther.Lib.Custody
import Esther.Lib.Pool
import Esther.Lib.Register
import Esther.Lib.Slots
import Esther.Lib.Frames
import Esther.Lib.Recency
import Esther.Lib.Chain
import Esther.Lib.Turns
import Esther.Lib.Probing
import Esther.Core.Structures
import Esther.Core.Serial
import Esther.Core.Protocol
import Esther.Core.Socket
import Esther.Core.PageTable
import Esther.Core.Cache
import Esther.Core.Memoria
import Esther.Core.Parser
import Esther.Core.Kernel
import Esther.Core.Pcbutils
import Esther.Core.Events
import Esther.Core.Cpu
import Esther.Core.System
import Esther.Core.Consola
import Esther.Core.Mlist
import Esther.Core.HashTable
import Esther.Core.Queue
import Esther.Core.Etiquetas
import Esther.Core.Server
import Esther.Theory.Wire
import Esther.Theory.Encoding
import Esther.Theory.Framing
import Esther.Theory.Migration
import Esther.Theory.PageTable
import Esther.Theory.Requests
import Esther.Theory.Spaces
import Esther.Theory.Isolation
import Esther.Theory.Fetch
import Esther.Theory.Kernel
import Esther.Theory.Partition
import Esther.Theory.Semaphore
import Esther.Theory.Waiting
import Esther.Theory.Loading
import Esther.Theory.Consoles
import Esther.Theory.Traffic
import Esther.Theory.Codes
import Esther.Theory.Blocked
import Esther.Theory.Exit
import Esther.Theory.Live
import Esther.Theory.Identity
import Esther.Theory.Pages
import Esther.Theory.Messages
import Esther.Theory.Cpu
import Esther.Theory.Dispatch
import Esther.Theory.Ownership
import Esther.Theory.Bursts
import Esther.Theory.Resume
import Esther.Theory.Lockstep
import Esther.Theory.Quantum
import Esther.Theory.Pool
import Esther.Theory.Values
import Esther.Theory.Shared
import Esther.Theory.Cache
import Esther.Theory.Coherence
import Esther.Theory.Truncated
import Esther.Theory.Contexts
import Esther.Theory.Room
import Esther.Theory.Calls
import Esther.Theory.Labels
import Esther.Theory.Handback
import Esther.Theory.Replies
import Esther.Theory.Variables
import Esther.Theory.Allocation
import Esther.Theory.Conserving
import Esther.Theory.Bounds
import Esther.Theory.Settling
import Esther.Theory.Replacement
import Esther.Theory.Connection
import Esther.Theory.Numbering
import Esther.Theory.Notices
import Esther.Theory.Mlist
import Esther.Theory.Sequence
import Esther.Theory.HashTable
import Esther.Theory.Storing
import Esther.Theory.Queries
import Esther.Theory.Queue
import Esther.Theory.TagBlock
import Esther.Theory.Attribution
import Esther.Theory.Lookup
import Esther.Theory.Names
import Esther.Theory.Offsets
import Esther.Theory.Extend
import Esther.Core.Lists
import Esther.Lib.Parcels
import Esther.Theory.Lists
import Esther.Core.Formats
import Esther.Lib.Words
import Esther.Theory.Formats
import Esther.Lib.Lines
import Esther.Theory.Order
import Esther.Lib.Scopes
import Esther.Theory.Ansisop
import Esther.Theory.Execution
import Esther.Theory.Functions
import Esther.Theory.Texts
import Esther.Core.Terminal
import Esther.Theory.Terminal
import Esther.Theory.Stopped
import Esther.Theory.Lifecycle
import Esther.Core.Descriptors
import Esther.Theory.Descriptors
import Esther.Lib.Threads
import Esther.Core.Hebras
import Esther.Theory.Linearized
