import Gergios.Kernel.Sched.RealTimeOrder
import Gergios.Kernel.Sched.Priorities
import Gergios.Kernel.Sched.Requeue
import Gergios.Kernel.Sched.Quantum
import Gergios.Kernel.Ipc.DeliveryRuns
import Gergios.Kernel.Ipc.NotifyRuns
import Gergios.Kernel.Ipc.FilterChain
import Gergios.Kernel.Ipc.PendingSmp
import Gergios.Kernel.DrvQueue
import Gergios.Kernel.Audit
import Gergios.Kernel.System.Capability
import Gergios.Kernel.Irq.ExclusiveRuns
import Gergios.Safecopy.Complete
import Gergios.Safecopy.Vector
import Gergios.Timers.Expiry
import Gergios.Libsys.AsynsendRuns
import Gergios.Ext4.WriteRuns
import Gergios.Ext4.InodeTable
import Gergios.Ext4.BlockAlloc
import Gergios.Ext4.HtreeSearch
import Gergios.Ext4.JournalSpace
import Gergios.Ext4.JournalRecovery
import Gergios.Ext4.Acl
import Gergios.Vm.FindSlot
import Gergios.Vm.AllocExact
import Gergios.Vm.VfsRequest
import Gergios.Vfs.TllRuns
import Gergios.Vfs.LockRuns
import Gergios.Pm.EventRuns
import Gergios.Mfs.Contents
import Gergios.Nvme.Prp
import Gergios.Nvme.Queues
import Gergios.Xhci.Ring
