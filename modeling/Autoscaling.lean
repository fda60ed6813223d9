import Autoscaling.Text.Blank
import Autoscaling.Text.Quoted
import Autoscaling.Number.Shortest
import Autoscaling.Number.Fixed
import Autoscaling.Duration.Text
import Autoscaling.Json.Selection
import Autoscaling.Json.Writer
import Autoscaling.Dict
import Autoscaling.Setting
import Autoscaling.Policy.Document
import Autoscaling.Config.Basic
import Autoscaling.Toml.Reader
import Autoscaling.Config.Document
import Autoscaling.Exposition
import Autoscaling.History
import Autoscaling.Phase
import Autoscaling.Session
import Autoscaling.Pool.Line
import Autoscaling.Machine.Work
import Autoscaling.Machine.Observation
import Autoscaling.Machine.Punctual
import Autoscaling.Proofs.Pool.Move
import Autoscaling.Proofs.Pool.Sound
import Autoscaling.Proofs.Pool.Summons
import Autoscaling.Proofs.Pool.Ledger
import Autoscaling.Proofs.Pool.Makes
import Autoscaling.Proofs.Pool.Staffed
import Autoscaling.Proofs.Machine.Turns
import Autoscaling.Proofs.Machine.Act
import Autoscaling.Proofs.Machine.Caller
import Autoscaling.Proofs.Machine.Control
import Autoscaling.Proofs.Machine.Governed
import Autoscaling.Proofs.Machine.Steady
import Autoscaling.Proofs.Machine.Course
import Autoscaling.Proofs.Machine.Gate
import Autoscaling.Proofs.Machine.Onward
import Autoscaling.Proofs.Occupancy
import Autoscaling.Proofs.Conservation
import Autoscaling.Proofs.Saturation
import Autoscaling.Proofs.Drain
import Autoscaling.Proofs.SingleFlight
import Autoscaling.Proofs.Overlap
import Autoscaling.Proofs.Cooldown
import Autoscaling.Proofs.Ticks
import Autoscaling.Proofs.Pool.Closing
import Autoscaling.Proofs.Machine.Closing
import Autoscaling.Proofs.Release
import Autoscaling.Proofs.StartStop
import Autoscaling.Proofs.Machine.Lineup
import Autoscaling.Proofs.Machine.Handover
import Autoscaling.Proofs.Machine.Reports
import Autoscaling.Proofs.Evaluations
import Autoscaling.Proofs.Store.Histories
import Autoscaling.Proofs.Store.Independence
import Autoscaling.Proofs.Machine.Mirror
import Autoscaling.Proofs.Machine.Brief
import Autoscaling.Proofs.Machine.Vigil
import Autoscaling.Proofs.Machine.Watch
import Autoscaling.Proofs.Panics
import Autoscaling.Proofs.Shutdown
import Autoscaling.Proofs.LastScaling
import Autoscaling.Proofs.Exposition.Seconds
import Autoscaling.Proofs.Recorder.Counters
import Autoscaling.Proofs.Exposition.Faithful
import Autoscaling.Proofs.Duration.Reread
import Autoscaling.Proofs.Json.Numerals
import Autoscaling.Proofs.Json.Readable
import Autoscaling.Proofs.Json.Reread
import Autoscaling.Proofs.Policy.Members
import Autoscaling.Proofs.Policy.Reread
import Autoscaling.Proofs.Duration.Grammar
import Autoscaling.Proofs.Expiry
import Autoscaling.Proofs.Text.Order
import Autoscaling.Proofs.Machine.Replies
import Autoscaling.Proofs.Machine.Underway
import Autoscaling.Proofs.Gating
import Autoscaling.Proofs.Accounts
import Autoscaling.Proofs.Duration.Canonical
import Autoscaling.Proofs.CoolingDown
import Autoscaling.Proofs.Pace
import Autoscaling.Proofs.Pool.Renumbered
import Autoscaling.Proofs.Machine.Renumbered
import Autoscaling.Proofs.BarrenPasses
import Autoscaling.Proofs.Recorder.Shown
import Autoscaling.Proofs.Exposition.Accuracy
import Autoscaling.Proofs.Policy.Fieldwise
import Autoscaling.Proofs.Launch
import Autoscaling.Proofs.Lifetime
