import BrushlessDrive.Board
import BrushlessDrive.Bridge
import BrushlessDrive.Clock
import BrushlessDrive.Color
import BrushlessDrive.Config
import BrushlessDrive.Counter
import BrushlessDrive.Device
import BrushlessDrive.Drive
import BrushlessDrive.Fatal
import BrushlessDrive.Indicator
import BrushlessDrive.Interrupt
import BrushlessDrive.Interval
import BrushlessDrive.Machine
import BrushlessDrive.Modulation
import BrushlessDrive.Phases
import BrushlessDrive.Proofs.Bridge
import BrushlessDrive.Proofs.Bridge.Trace
import BrushlessDrive.Proofs.Drive.Freshness
import BrushlessDrive.Proofs.Drive.PowerFault
import BrushlessDrive.Proofs.Interrupt.Exclusion
import BrushlessDrive.Proofs.Interrupt.Guards
import BrushlessDrive.Proofs.Interrupt.Scope
import BrushlessDrive.Proofs.Interval
import BrushlessDrive.Proofs.Modulation.Gain
import BrushlessDrive.Proofs.Modulation.Headroom
import BrushlessDrive.Proofs.Modulation.Levels
import BrushlessDrive.Proofs.Modulation.Range
import BrushlessDrive.Proofs.Modulation.ZeroSequence
import BrushlessDrive.Proofs.Runner
import BrushlessDrive.Proofs.Runner.History
import BrushlessDrive.Proofs.Runner.Transparency
import BrushlessDrive.Proofs.Scalar.Accumulation
import BrushlessDrive.Proofs.Scalar.Error
import BrushlessDrive.Proofs.Scalar.Infinity
import BrushlessDrive.Proofs.Scalar.Integer
import BrushlessDrive.Proofs.Scalar.Operations
import BrushlessDrive.Proofs.Scalar.Order
import BrushlessDrive.Proofs.Scalar.Packing
import BrushlessDrive.Proofs.Scalar.Range
import BrushlessDrive.Proofs.Scalar.Relative
import BrushlessDrive.Proofs.Scalar.Remainder
import BrushlessDrive.Proofs.Scalar.Rounding
import BrushlessDrive.Proofs.Scalar.Sum
import BrushlessDrive.Proofs.Scalar.Unpacked
import BrushlessDrive.Proofs.Scalar.Value
import BrushlessDrive.Proofs.Sensing.Bus
import BrushlessDrive.Proofs.Sensing.Calibration
import BrushlessDrive.Proofs.Sensing.Convergence
import BrushlessDrive.Proofs.Sensing.FailSafe
import BrushlessDrive.Proofs.Sensing.Hull
import BrushlessDrive.Proofs.Sensing.Monotone
import BrushlessDrive.Proofs.Sinusoid
import BrushlessDrive.Proofs.Supervision.BootSequence
import BrushlessDrive.Proofs.Supervision.Check
import BrushlessDrive.Proofs.Supervision.Coupling
import BrushlessDrive.Proofs.Supervision.Orders
import BrushlessDrive.Proofs.Supervision.Staging
import BrushlessDrive.Proofs.Task.Admission
import BrushlessDrive.Proofs.Task.Beep
import BrushlessDrive.Proofs.Task.Clipping
import BrushlessDrive.Proofs.Task.Currents
import BrushlessDrive.Proofs.Task.Isolation
import BrushlessDrive.Proofs.Task.Outcome
import BrushlessDrive.Proofs.Task.Parameters
import BrushlessDrive.Proofs.Task.PulseSchedule
import BrushlessDrive.Proofs.Task.Ramp
import BrushlessDrive.Proofs.Task.Release
import BrushlessDrive.Proofs.Task.Run
import BrushlessDrive.Proofs.Task.Spinup
import BrushlessDrive.Proofs.Task.Timeout
import BrushlessDrive.Proofs.Transform.Angle
import BrushlessDrive.Proofs.Transform.Length
import BrushlessDrive.Proofs.Transform.Rotation
import BrushlessDrive.Proofs.Units
import BrushlessDrive.Proofs.Units.RoundTrip
import BrushlessDrive.Runner
import BrushlessDrive.Scalar
import BrushlessDrive.Schedule
import BrushlessDrive.Sensing.Bus
import BrushlessDrive.Sensing.Current
import BrushlessDrive.Sensing.Power
import BrushlessDrive.Signature
import BrushlessDrive.Sinusoid
import BrushlessDrive.Startup
import BrushlessDrive.Supervisor
import BrushlessDrive.Task
import BrushlessDrive.Task.Beep
import BrushlessDrive.Task.Context
import BrushlessDrive.Task.Report
import BrushlessDrive.Task.Spinup
import BrushlessDrive.Timeline
import BrushlessDrive.Transform
import BrushlessDrive.Units
import BrushlessDrive.Proofs.Color
import BrushlessDrive.Proofs.Task.Limits
import BrushlessDrive.Proofs.DeadTime
import BrushlessDrive.Proofs.Indicator
