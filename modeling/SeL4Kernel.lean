import SeL4Kernel.Kernel.SlidingWindow
import SeL4Kernel.Fastpath.ReplyRecvRefinement
import SeL4Kernel.Allocman.MallocRuns
import SeL4Kernel.Boot.InitialUntypeds
import SeL4Kernel.Allocman.SplitRuns
import SeL4Kernel.Sync.RecursiveMutex
import SeL4Kernel.Timer.TqueueRuns
import SeL4Kernel.Sync.CondVarRuns
import SeL4Kernel.Virtqueue.VirtqueueRuns
import SeL4Kernel.Cpio.CpioWalk
import SeL4Kernel.Vgic.VgicRuns
import SeL4Kernel.Object.SlotPermutation
import SeL4Kernel.Object.Reset
import SeL4Kernel.Vchan.Stream
import SeL4Kernel.GuestRam.Runs
import SeL4Kernel.GuestMemory.ReservationRuns
import SeL4Kernel.Platsupport.IrqRuns
import SeL4Kernel.Virtio.EmulRuns
import SeL4Kernel.Kernel.Reciprocal
import SeL4Kernel.Hardware.KernelRegions
import SeL4Kernel.GuestRam.Touch
import SeL4Kernel.Elfloader.Authentication
import SeL4Kernel.GuestMemory.Mapping
import SeL4Kernel.Dma.Lookup
import SeL4Kernel.Camkes.Defrag
import SeL4Kernel.Ringbuffer.Ringbuffer
import SeL4Kernel.Kernel.Div64
import SeL4Kernel.Pci.CapEmulation
