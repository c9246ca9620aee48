import CloudLabs.Cdb.Record.Commands
import CloudLabs.Cdb.Participant.Durability
import CloudLabs.Cdb.Participant.Redo
import CloudLabs.Cdb.Participant.Snapshot
import CloudLabs.Cdb.Ledger.Wrapped
import CloudLabs.Cdb.Coordinator.Outline.Theorems
import CloudLabs.Cdb.Coordinator.Answers
import CloudLabs.Cdb.Coordinator.Requests
import CloudLabs.Cdb.Participant.ReadBack
import CloudLabs.Cdb.CommandParser.Announced
import CloudLabs.Cdb.Refinement.Theorems
import CloudLabs.Cdb.Pending.Theorems
import CloudLabs.Cdb.Restoration.Theorems
import CloudLabs.Cdb.Startup.Theorems
import CloudLabs.Sudoku.Main
import CloudLabs.Cdb.Connections.Order
import CloudLabs.Cdb.Record.Loading
import CloudLabs.Cdb.Participant.Recover
import CloudLabs.Cdb.System.Numbers
import CloudLabs.Cdb.Participant.Retries
import CloudLabs.Sudoku.Solver
import CloudLabs.TcpServer.ThreadPool.Resizing
import CloudLabs.TcpServer.Reactor.Registration
import CloudLabs.Cdb.Connections.Waiting
import CloudLabs.Cdb.Configuration.Theorems
import CloudLabs.HttpServer.Uri
import CloudLabs.HttpServer.Body
import CloudLabs.HttpServer.Headers
import CloudLabs.HttpServer.RoundTrip
import CloudLabs.HttpServer.Framing
import CloudLabs.Sudoku.Least
import CloudLabs.Cdb.Sessions.Alone
import CloudLabs.Cdb.Unanimity.Theorems
import CloudLabs.Cdb.CommandParser.Grammar
import CloudLabs.Cdb.Progress
import CloudLabs.TcpServer.ThreadPool.Stopping
import CloudLabs.HttpServer.ThreadPool.Theorems
import CloudLabs.Cdb.Connections.Attention
import CloudLabs.Cdb.Sessions.Decoding
import CloudLabs.Cdb.Configuration.RoundTrip
import CloudLabs.MessagePack.WellFormed
import CloudLabs.Cdb.Rpc.Theorems
