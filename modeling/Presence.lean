import Presence.Json.Reader
import Presence.Main
import Presence.Proofs.Lookup
import Presence.Proofs.PeerHistory
import Presence.Proofs.Cutoff
import Presence.Proofs.Schedule
import Presence.Proofs.SweeperRun
import Presence.Proofs.SweepTimes
import Presence.Proofs.Freshness
import Presence.Proofs.Staleness
import Presence.Proofs.ConsoleRun
import Presence.Proofs.Moments
import Presence.Proofs.BreakOff
import Presence.Proofs.SweeperStart
import Presence.Proofs.ConsoleCourse
import Presence.Proofs.Rendering
import Presence.Proofs.LineReader
import Presence.Proofs.FrontEnd
import Presence.Proofs.LineEnds
import Presence.Proofs.Framing
import Presence.Proofs.TrackedIds
import Presence.Proofs.Ledger
import Presence.Proofs.SplitSweep
import Presence.Proofs.Threads
import Presence.Proofs.Waits
import Presence.Proofs.UpsertLines
import Presence.Proofs.IdLists
import Presence.Proofs.Responses
import Presence.Proofs.TimeShift
import Presence.Proofs.CommandLine
import Presence.Proofs.ProgramRun
import Presence.Proofs.WordLines
import Presence.Proofs.SweepAndPrune
import Presence.Proofs.TickSpacing
import Presence.Proofs.RepeatedPrunes
import Presence.Proofs.OptionGroups
import Presence.Proofs.Seconds
import Presence.Proofs.SweepLog
import Presence.Proofs.Turns
