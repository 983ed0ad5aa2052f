import RaftPlayground.Protocol.Run
import RaftPlayground.Protocol.Ballots
import RaftPlayground.Protocol.Ledger
import RaftPlayground.Protocol.CatchUp
import RaftPlayground.Protocol.Streams
import RaftPlayground.Protocol.Owners
import RaftPlayground.Server.Entry
import RaftPlayground.Server.Seed
import RaftPlayground.Server.Machine
import RaftPlayground.Server.Stream
import RaftPlayground.Server.Log
import RaftPlayground.Server.Node
import RaftPlayground.Server.Turn
import RaftPlayground.Server.Cluster
import RaftPlayground.Server.Move
import RaftPlayground.Server.Upkeep
import RaftPlayground.Server.Round
import RaftPlayground.Server.Loop
import RaftPlayground.Server.Service
import RaftPlayground.Server.Deployment
import RaftPlayground.Server.Rename
import RaftPlayground.Server.Flight
import RaftPlayground.Server.Fleet
import RaftPlayground.Server.Restart
import RaftPlayground.Safety.Conditions
import RaftPlayground.Safety.Terms
import RaftPlayground.Safety.StepDown
import RaftPlayground.Safety.Request
import RaftPlayground.Safety.Progress
import RaftPlayground.Safety.RoundTrip
import RaftPlayground.Safety.AppendOnly
import RaftPlayground.Safety.Origins
import RaftPlayground.Safety.NoPanic
import RaftPlayground.Safety.Restarts
import RaftPlayground.Safety.Reading
import RaftPlayground.Safety.Vote
import RaftPlayground.Safety.Quorum
import RaftPlayground.Safety.Overlap
import RaftPlayground.Safety.Election
import RaftPlayground.Safety.Hint
import RaftPlayground.Safety.WellFormed
import RaftPlayground.Safety.Matching
import RaftPlayground.Safety.Holding
import RaftPlayground.Safety.Commit
import RaftPlayground.Safety.Ack
import RaftPlayground.Safety.Lagging
import RaftPlayground.Safety.Backoff
import RaftPlayground.Safety.Heartbeat
import RaftPlayground.Safety.Refusal
import RaftPlayground.Safety.Batch
import RaftPlayground.Safety.Forward
import RaftPlayground.Safety.Electable
import RaftPlayground.Safety.Timeout
import RaftPlayground.Safety.Steady
import RaftPlayground.Safety.Pace
import RaftPlayground.Safety.Calls
import RaftPlayground.Safety.Winning
import RaftPlayground.Safety.Deployed
import RaftPlayground.Safety.Stored
import RaftPlayground.Safety.Serving
import RaftPlayground.Safety.Recorded
import RaftPlayground.Safety.Confirm
import RaftPlayground.Text.Lines
import RaftPlayground.Repl.Persistence
import RaftPlayground.Repl.History
import RaftPlayground.Repl.Navigate
import RaftPlayground.Repl.Reopen
import RaftPlayground.Repl.State
import RaftPlayground.Repl.Browse
import RaftPlayground.Repl.Handler
import RaftPlayground.Repl.Console
import RaftPlayground.Repl.Lifecycle
import RaftPlayground.Repl.Reports
import RaftPlayground.Repl.Servers
import RaftPlayground.Repl.Leaving
import RaftPlayground.Repl.Playground
