import RobotCar.StepperBookkeeping
import RobotCar.CommandAtomicity
import RobotCar.PendingMove
import RobotCar.ModeAgreement
import RobotCar.BusSharing
import RobotCar.StepperWait
import RobotCar.MicroHeapRun
import RobotCar.StepperPulses
import RobotCar.Lib.Ring
import RobotCar.Transport
import RobotCar.TransportStream
import RobotCar.TransportReopen
import RobotCar.ControlSteps
import RobotCar.Lib.Decides
import RobotCar.EncoderCounts
import RobotCar.BridgeOutputs
import RobotCar.PoseUnits
import RobotCar.MirrorSymmetry
import RobotCar.StatusReport
import RobotCar.Routines
import RobotCar.ServoTables
import RobotCar.ServoWire
import RobotCar.VelocityLimit
import RobotCar.StoppedCar
import RobotCar.ServoWait
import RobotCar.StepperMove
import RobotCar.MicroRealloc
import RobotCar.MicroRosAllocators
import RobotCar.CompositeRoutines
import RobotCar.Divider
import RobotCar.ModeChange
import RobotCar.WheelControllers
import RobotCar.ScsReplies
import RobotCar.ScsTruncation
import RobotCar.ServoBunch
import RobotCar.ServoBunchRuns
import RobotCar.ServoBunchTime
import RobotCar.MicroFirstFit
import RobotCar.MicroOutcomes
import RobotCar.Display
import RobotCar.ServoExhaustion
import RobotCar.Kernel
import RobotCar.KernelCalls
import RobotCar.KernelDelays
import RobotCar.KernelListRuns
import RobotCar.KernelTurns
import RobotCar.ServoProgress
import RobotCar.StepperHoming
import RobotCar.KernelMutexes
import RobotCar.TransportWrite
import RobotCar.KernelClock
import RobotCar.ServoCommands
