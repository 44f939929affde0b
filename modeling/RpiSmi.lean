import RpiSmi.Exec
import RpiSmi.BitField
import RpiSmi.Elements
import RpiSmi.Registers
import RpiSmi.Context
import RpiSmi.Machine
import RpiSmi.Await
import RpiSmi.Unpack
import RpiSmi.Transfer
import RpiSmi.ReadAwait
import RpiSmi.WriteAwait
import RpiSmi.DirectAwait
import RpiSmi.DirectTrace
import RpiSmi.ShiftNet
import RpiSmi.Samples
import RpiSmi.ProgrammedRead
import RpiSmi.Frames
import RpiSmi.ReadBuffer
import RpiSmi.ReadRuns
import RpiSmi.DeviceSelect
import RpiSmi.DirectDevice
import RpiSmi.DirectLoops
import RpiSmi.DirectWrite
import RpiSmi.DirectRead
import RpiSmi.History
import RpiSmi.Device
import RpiSmi.RxFifo
import RpiSmi.TxFifo
import RpiSmi.RegisterFile
import RpiSmi.DmaCalls
import RpiSmi.Configure
import RpiSmi.Invocations
import RpiSmi.DecodeAgreement
import RpiSmi.SetupOrder
import RpiSmi.SettingsCoherence
import RpiSmi.ControlHistory
import RpiSmi.DmaWait
import RpiSmi.DmaStart
import RpiSmi.DmaChannel
import RpiSmi.DmaRefusal
import RpiSmi.DmaLength
import RpiSmi.SharedBuffer
import RpiSmi.DmaCoherence
import RpiSmi.Interleaving
import RpiSmi.IrqEvents
import RpiSmi.PixelExpansion
import RpiSmi.Unpacking
import RpiSmi.SampleAgreement
import RpiSmi.WriteConfigured
import RpiSmi.SyncAtomicity
import RpiSmi.WriteResult
import RpiSmi.DirectResult
import RpiSmi.RawBuffer
import RpiSmi.CheckedInt
import RpiSmi.Sizing
import RpiSmi.Lifecycle
import RpiSmi.BufferInit
import RpiSmi.BufferCheck
import RpiSmi.ModuleLoad
import RpiSmi.CsSharing
import RpiSmi.LiteAwait
import RpiSmi.Refine
import RpiSmi.PollTrace
import RpiSmi.AwaitEnds
import RpiSmi.LiteAgreement
import RpiSmi.Writes
import RpiSmi.Gpio
import RpiSmi.SwappedUnpack
import RpiSmi.InvalidWidth
import RpiSmi.BusAddress
import RpiSmi.DmaThresholds
import RpiSmi.StickyFlag
import RpiSmi.SetupError
import RpiSmi.SameRun
import RpiSmi.Sram
import RpiSmi.SramCalls
import RpiSmi.NetInverse
import RpiSmi.Packing
import RpiSmi.ClockManager
import RpiSmi.GpioBlock
import RpiSmi.LiteDirect
import RpiSmi.Deadlines
import RpiSmi.PollBounds
import RpiSmi.DeviceTiming
import RpiSmi.PollClient
import RpiSmi.BufferAliasing
import RpiSmi.DmaEngine
import RpiSmi.DmaTransfer
import RpiSmi.BusRest
import RpiSmi.BusFifos
import RpiSmi.BusRuns
import RpiSmi.ReadPaths
