import Rshyve.Pci.Buses
import Rshyve.Migrate.Proofs.Handover
import Rshyve.Migrate.Proofs.Frames
import Rshyve.Migrate.Proofs.Receive
import Rshyve.Migrate.Proofs.Topology
import Rshyve.Migrate.Proofs.Registers
import Rshyve.Migrate.Proofs.Import
import Rshyve.Migrate.Proofs.Time
import Rshyve.Migrate.Proofs.Cpu
import Rshyve.Virtio.Proofs.BlkService
import Rshyve.Virtio.BlkBarrier
import Rshyve.Virtio.Proofs.Chain
import Rshyve.Virtio.Proofs.Drain
import Rshyve.Virtio.Proofs.PciQueues
import Rshyve.Virtio.Proofs.PciRestore
import Rshyve.Virtio.Proofs.UsedIndex
import Rshyve.Virtio.Proofs.Completion
import Rshyve.Vcpu.Proofs.Fulfil
import Rshyve.Hyperv.Overlays
import Rshyve.Migrate.Proofs.Rollback
import Rshyve.Virtio.Proofs.VionaRuns
import Rshyve.Nvme.Prp
import Rshyve.Pci.Proofs.Locks
import Rshyve.Virtio.Proofs.VsockStream
import Rshyve.Virtio.Proofs.VsockBacklog
import Rshyve.Virtio.Proofs.MsixDelivery
import Rshyve.Intr.Proofs.Lines
import Rshyve.Core.RateLimit
import Rshyve.Devices.Backlog
import Rshyve.Devices.Quiesce
import Rshyve.Machine.MemHotplug
import Rshyve.Hid.Rfb
import Rshyve.Devices.OutputPump
import Rshyve.Machine.Signal
