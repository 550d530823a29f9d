import CoapServer.Basic
import CoapServer.Lib.Run
import CoapServer.Lib.Ring
import CoapServer.Queue.Sequential
import CoapServer.Queue.Threads
import CoapServer.Queue.Exactness
import CoapServer.Queue.Shutdown
import CoapServer.Queue.Capacity
import CoapServer.Queue.Arithmetic
import CoapServer.Lib.Splice
import CoapServer.Blocks.SessionData
import CoapServer.Blocks.Transfers
import CoapServer.Blocks.Holes
import CoapServer.Config
import CoapServer.Resources.Formatter
import CoapServer.Resources.Files
import CoapServer.Resources.Object
import CoapServer.Resources.DataFile
import CoapServer.Server.World
import CoapServer.Lib.Numerals
import CoapServer.Server.Timestamps
import CoapServer.Server.Requests
import CoapServer.Server.Acknowledgement
import CoapServer.Server.Process
import CoapServer.Server.Writes
import CoapServer.Lib.Path
import CoapServer.Lib.Frame
import CoapServer.Lib.Erasure
import CoapServer.Lib.Fallible
import CoapServer.Lib.Outcome
import CoapServer.Lib.Template
import CoapServer.Server.Substitute
import CoapServer.Server.Dynamic
import CoapServer.Server.Creation
import CoapServer.Server.Machine
import CoapServer.Server.Dispatch
import CoapServer.Server.LogPath
import CoapServer.Server.Polling
import CoapServer.Parse.Replace
import CoapServer.Parse.Constructors
import CoapServer.Parse.Expansion
import CoapServer.Server.Commands
import CoapServer.Server.LogLines
import CoapServer.Lib.Streams
import CoapServer.Server.LogStream
import CoapServer.Blocks.Repeats
import CoapServer.Server.Locks
import CoapServer.Server.Startup
import CoapServer.Server.Registration
import CoapServer.Server.Failures
import CoapServer.Parse.Specifiers
import CoapServer.Lib.BaseEncoding
import CoapServer.Resources.Lossless
import CoapServer.Resources.Escapes
import CoapServer.Server.Safe
import CoapServer.Server.Snapshot
import CoapServer.Server.PathBuffer
import CoapServer.Server.Output
import CoapServer.Server.Initialise
import CoapServer.Server.CommandLine
import CoapServer.Lib.Trace
import CoapServer.Lib.AtomicObject
import CoapServer.Queue.Linearizable
import CoapServer.Lib.Fairness
import CoapServer.Queue.Liveness
import CoapServer.Lib.Memory
import CoapServer.Blocks.Buffers
import CoapServer.Parse.Accepted
import CoapServer.Lib.Mutex
import CoapServer.Resources.Register
import CoapServer.Server.Effects
import CoapServer.Server.Ledger
import CoapServer.Server.Restart
import CoapServer.Server.Observers
import CoapServer.Lib.Fields
import CoapServer.Server.Audit
import CoapServer.Lib.Separation
import CoapServer.Resources.Pointers
import CoapServer.Server.Program
import CoapServer.Server.Lifetimes
import CoapServer.Server.LogOrder
