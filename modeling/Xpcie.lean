import Xpcie.Library.EffectLog
import Xpcie.Library.BoundedArray
import Xpcie.Library.Runs
import Xpcie.Library.Grouping
import Xpcie.Library.AddressSpan
import Xpcie.Library.WordAlignment
import Xpcie.Library.Interleaving
import Xpcie.Library.RunLength
import Xpcie.Library.NumberText
import Xpcie.Machine
import Xpcie.Kernel
import Xpcie.Mapper
import Xpcie.Descriptor
import Xpcie.TransferBuild
import Xpcie.Engine
import Xpcie.DescriptorSetup
import Xpcie.TransferGroups
import Xpcie.DescriptorChain
import Xpcie.Prefetch
import Xpcie.ControlWord
import Xpcie.WriteBounds
import Xpcie.UserPages
import Xpcie.KernelPages
import Xpcie.MapperCapacity
import Xpcie.PageReferences
import Xpcie.ByteOrder
import Xpcie.Write
import Xpcie.Alignment
import Xpcie.WriteOutcome
import Xpcie.WriteCopies
import Xpcie.WriteSequence
import Xpcie.DescriptorSize
import Xpcie.Mmap
import Xpcie.EngineSharing
import Xpcie.Lifecycle
import Xpcie.LifecycleBalance
import Xpcie.HardwareAccess
import Xpcie.HardwareHistory
import Xpcie.HexDump
import Xpcie.DeviceStore
import Xpcie.ConcurrentStore
import Xpcie.Library.ReadersWriterReplay
import Xpcie.Library.ReadersWriterProgress
import Xpcie.LockedValue
import Xpcie.Library.CNumber
import Xpcie.RegisterTool
import Xpcie.RegisterSession
import Xpcie.SelfTest
import Xpcie.WriteLedger
import Xpcie.DmaMask
import Xpcie.Loopback
import Xpcie.Library.ThreadTable
import Xpcie.ThreadObject
