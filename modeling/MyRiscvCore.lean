import MyRiscvCore.Properties.AddressMap
import MyRiscvCore.Properties.Arithmetic
import MyRiscvCore.Properties.Counters
import MyRiscvCore.Properties.DebugMemory
import MyRiscvCore.Properties.DebugProtocol
import MyRiscvCore.Properties.Dispatch
import MyRiscvCore.Properties.InstructionSet
import MyRiscvCore.Properties.Liveness
import MyRiscvCore.Properties.Misaligned
import MyRiscvCore.Properties.PredictorBounds
import MyRiscvCore.Properties.Queues
import MyRiscvCore.Properties.ReturnStack
import MyRiscvCore.Properties.Rings
import MyRiscvCore.Properties.Selection
import MyRiscvCore.Properties.StoreBuffer
import MyRiscvCore.Properties.Targets
import MyRiscvCore.Properties.Termination
import MyRiscvCore.Properties.TraceRows
import MyRiscvCore.Properties.Transparency
import MyRiscvCore.Properties.Zicsr
