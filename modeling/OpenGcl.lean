import OpenGcl.Library.Machine
import OpenGcl.Library.Memory
import OpenGcl.Library.RingBuffer
import OpenGcl.Queue.CircularQueue
import OpenGcl.Queue.Ring
import OpenGcl.Queue.Counters
import OpenGcl.Library.Fifo
import OpenGcl.Queue.Fifo
import OpenGcl.Queue.Agreement
import OpenGcl.Queue.Mailbox
import OpenGcl.Queue.Ends
import OpenGcl.Library.Deque
import OpenGcl.Queue.Deque
import OpenGcl.Library.CriticalSection
import OpenGcl.Queue.Threads
import OpenGcl.Queue.InStep
import OpenGcl.Library.LinkedRing
import OpenGcl.Library.Arrangement
import OpenGcl.List.Linkable
import OpenGcl.List.Membership
import OpenGcl.List.Prepend
import OpenGcl.List.Append
import OpenGcl.List.Nodes
import OpenGcl.Library.Traversal
import OpenGcl.List.Traversal
import OpenGcl.Queue.Iterator
import OpenGcl.Queue.Init
import OpenGcl.Library.ThreadKeys
import OpenGcl.Thread.Thread
import OpenGcl.Thread.Running
import OpenGcl.Thread.RWLock
import OpenGcl.Thread.Current
import OpenGcl.Thread.Ids
import OpenGcl.Thread.Join
import OpenGcl.Thread.Keys
import OpenGcl.Thread.Lifetime
import OpenGcl.Thread.Handshake
import OpenGcl.Thread.Undisturbed
import OpenGcl.Time.Time
import OpenGcl.Time.Conversions
import OpenGcl.Time.Ticks
import OpenGcl.Time.Posix
import OpenGcl.Thread.TimedWait
import OpenGcl.Library.PairCode
import OpenGcl.Util.Util
import OpenGcl.Util.Hex
import OpenGcl.Util.Overlap
import OpenGcl.Library.CString
import OpenGcl.Library.Pieces
import OpenGcl.Tockenizer.Tockenizer
import OpenGcl.Tockenizer.Lossless
import OpenGcl.Tockenizer.Session
import OpenGcl.Tockenizer.Rejection
import OpenGcl.Tockenizer.Separators
import OpenGcl.Tockenizer.Target
import OpenGcl.Library.Channel
import OpenGcl.Socket.Transfer
import OpenGcl.Socket.Link
import OpenGcl.Socket.ByteStream
import OpenGcl.Socket.Reported
import OpenGcl.Socket.EndOfStream
import OpenGcl.Socket.Deadline
import OpenGcl.Library.Ledger
import OpenGcl.Socket.Descriptors
import OpenGcl.Library.LittleEndian
import OpenGcl.Library.PrefixCode
import OpenGcl.Socket.VPacket
import OpenGcl.Socket.VProtocol
import OpenGcl.Queue.Cursor
import OpenGcl.Event.EventEmitter
import OpenGcl.Event.Locking
import OpenGcl.Event.Slots
import OpenGcl.Event.Blocks
import OpenGcl.Event.Squeeze
import OpenGcl.Event.Table
import OpenGcl.Event.Names
import OpenGcl.Event.Dispatch
import OpenGcl.Event.Conservation
import OpenGcl.Queue.Overflow
import OpenGcl.Event.Completed
import OpenGcl.Event.Compaction
import OpenGcl.Event.Once
import OpenGcl.Event.NameTable
import OpenGcl.Event.Threads
import OpenGcl.Event.Removal
import OpenGcl.Event.Turned
import OpenGcl.Event.Refusal
import OpenGcl.MMap.MMap
import OpenGcl.MMap.View
import OpenGcl.MMap.Windows
import OpenGcl.MMap.Failure
import OpenGcl.MMap.Descriptors
import OpenGcl.MMap.Mappings
