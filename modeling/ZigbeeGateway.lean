import ZigbeeGateway.Kernel.Idle
import ZigbeeGateway.Kernel.IpcPrio
import ZigbeeGateway.Kernel.MemAlign
import ZigbeeGateway.Kernel.MemStats
import ZigbeeGateway.Kernel.MemheapSystem
import ZigbeeGateway.Kernel.MempoolRun
import ZigbeeGateway.Kernel.MessageQueueRun
import ZigbeeGateway.Kernel.MutexInherit
import ZigbeeGateway.Kernel.PrintNumber
import ZigbeeGateway.Kernel.TimeSlice
import ZigbeeGateway.Kernel.TimerCheck
import ZigbeeGateway.Drivers.Completion
import ZigbeeGateway.Drivers.DataqueueLevel
import ZigbeeGateway.Drivers.Enc28j60Bank
import ZigbeeGateway.Drivers.Enc28j60Isr
import ZigbeeGateway.Drivers.Enc28j60Rearm
import ZigbeeGateway.Drivers.Enc28j60Tx
import ZigbeeGateway.Drivers.Pipe
import ZigbeeGateway.Drivers.PortalOpen
import ZigbeeGateway.Drivers.Serial
import ZigbeeGateway.Drivers.SerialDma
import ZigbeeGateway.Finsh.CodeSize
import ZigbeeGateway.Finsh.Lookup
import ZigbeeGateway.Finsh.ShellStream
import ZigbeeGateway.Finsh.TabCompletion
import ZigbeeGateway.Net.SysArch
import ZigbeeGateway.Utilities.Ymodem
import ZigbeeGateway.Utilities.YmodemCrc
import ZigbeeGateway.App.Accesses
import ZigbeeGateway.App.Echo
import ZigbeeGateway.App.SocketUse
