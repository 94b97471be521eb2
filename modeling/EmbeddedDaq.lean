import EmbeddedDaq.GeneralRuns
import EmbeddedDaq.GeneralBatching
import EmbeddedDaq.SharedPacketBytes
import EmbeddedDaq.AdcTaskDelivery
import EmbeddedDaq.HostPacket
import EmbeddedDaq.WireFormat
import EmbeddedDaq.FaultCan
import EmbeddedDaq.FaultI2c
import EmbeddedDaq.FaultOneWire
import EmbeddedDaq.FaultSpi
import EmbeddedDaq.FaultUartInjector
import EmbeddedDaq.FaultSession
import EmbeddedDaq.FaultUart
import EmbeddedDaq.GeneralOrbit
import EmbeddedDaq.GeneralWhileLoop
import EmbeddedDaq.GeneralWindowSearch
import EmbeddedDaq.GeneralXorLinear
import EmbeddedDaq.HostClient
import EmbeddedDaq.HostLossless
import EmbeddedDaq.InjectionRate
import EmbeddedDaq.PredicateRate
import EmbeddedDaq.UartLoopback
import EmbeddedDaq.FaultAccounting
import EmbeddedDaq.FaultEffects
import EmbeddedDaq.FaultTrait
import EmbeddedDaq.FaultTransparency
import EmbeddedDaq.HostPhantoms
import EmbeddedDaq.HostReception
import EmbeddedDaq.LossWarning
import EmbeddedDaq.MillivoltAgreement
import EmbeddedDaq.ChannelAverages
import EmbeddedDaq.UartBaud
import EmbeddedDaq.HostGrammar
import EmbeddedDaq.FaultCanFrame
import EmbeddedDaq.FaultConfinement
import EmbeddedDaq.GeneralSingleBit
import EmbeddedDaq.GeneralMapAccum
import EmbeddedDaq.FaultAgreement
import EmbeddedDaq.DisconnectRule
import EmbeddedDaq.GeneralBoundedList
import EmbeddedDaq.PacketList
import EmbeddedDaq.ReadArithmetic
import EmbeddedDaq.CalibrationAgreement
import EmbeddedDaq.FaultPlacement
import EmbeddedDaq.GeneralBoundedCounter
import EmbeddedDaq.CounterRange
import EmbeddedDaq.LfsrCycle
import EmbeddedDaq.GeneralPacedFrames
import EmbeddedDaq.FaultConsole
import EmbeddedDaq.ConsoleReception
import EmbeddedDaq.ConsoleSession
import EmbeddedDaq.FirmwareTransportTask
import EmbeddedDaq.TransportTaskStream
import EmbeddedDaq.HostArrivals
import EmbeddedDaq.Telemetry
import EmbeddedDaq.MpuProtection
import EmbeddedDaq.BootOutcome
import EmbeddedDaq.FaultReplay
import EmbeddedDaq.HostSession
import EmbeddedDaq.FaultTiming
import EmbeddedDaq.GeneralCooperative
import EmbeddedDaq.GeneralPolling
import EmbeddedDaq.FaultMachine
import EmbeddedDaq.FirmwareTasks
import EmbeddedDaq.ProcessorSharing
import EmbeddedDaq.GeneralAgreement
import EmbeddedDaq.ProfileAgreement
import EmbeddedDaq.LateClient
