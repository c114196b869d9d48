import JP4Agent.Afi
import JP4Agent.AfiAccepted
import JP4Agent.AfiAddEntry
import JP4Agent.AfiBindCounts
import JP4Agent.AfiBindRuns
import JP4Agent.AfiBinds
import JP4Agent.AfiCap
import JP4Agent.AfiCapFields
import JP4Agent.AfiCapInserts
import JP4Agent.AfiCapOrder
import JP4Agent.AfiCapRanges
import JP4Agent.AfiCapRecorded
import JP4Agent.AfiCapValues
import JP4Agent.AfiCreation
import JP4Agent.AfiDevice
import JP4Agent.AfiDeviceSteps
import JP4Agent.AfiEntry
import JP4Agent.AfiFieldWidths
import JP4Agent.AfiInsertResults
import JP4Agent.AfiInsertRuns
import JP4Agent.AfiInserts
import JP4Agent.AfiMatchKinds
import JP4Agent.AfiMessages
import JP4Agent.AfiPipeline
import JP4Agent.AfiPipelineOrder
import JP4Agent.AfiReachable
import JP4Agent.AfiReturns
import JP4Agent.AfiSteps
import JP4Agent.AfiStore
import JP4Agent.AfiStoreRuns
import JP4Agent.AfiStrayBytes
import JP4Agent.AfiTreeEncap
import JP4Agent.AfiTreeEncapEntries
import JP4Agent.AfiWire
import JP4Agent.AfiWireRoundTrip
import JP4Agent.AftBindOrder
import JP4Agent.AftBinds
import JP4Agent.AftRoutes
import JP4Agent.AftSandbox
import JP4Agent.Base64
import JP4Agent.Base64Decode
import JP4Agent.Base64Groups
import JP4Agent.Base64Reference
import JP4Agent.Base64RoundTrip
import JP4Agent.Base64Stores
import JP4Agent.BindSurroundings
import JP4Agent.BrcmBinds
import JP4Agent.BrcmGroups
import JP4Agent.BrcmWrites
import JP4Agent.CLIAnswers
import JP4Agent.CLIClient
import JP4Agent.CLICommands
import JP4Agent.CLIEntries
import JP4Agent.CLIService
import JP4Agent.ControllerArp
import JP4Agent.ControllerClassifiers
import JP4Agent.ControllerConnection
import JP4Agent.ControllerEcho
import JP4Agent.ControllerPackets
import JP4Agent.ControllerRequests
import JP4Agent.ControllerRoutes
import JP4Agent.DeviceHPPacket
import JP4Agent.GetHex
import JP4Agent.GetHexRoundTrip
import JP4Agent.HexStrings
import JP4Agent.Hostpath
import JP4Agent.HostpathLengths
import JP4Agent.HostpathReceive
import JP4Agent.HostpathRoundTrip
import JP4Agent.HostpathTransmit
import JP4Agent.InternetChecksum
import JP4Agent.Library.Bytes
import JP4Agent.Library.CStrings
import JP4Agent.Library.Folds
import JP4Agent.Library.HeapBuffer
import JP4Agent.Library.Numerals
import JP4Agent.Library.OnesComplement
import JP4Agent.Library.Overwrites
import JP4Agent.Library.Programs
import JP4Agent.Library.Proto3
import JP4Agent.Library.PtrMap
import JP4Agent.Library.PtrMapAssign
import JP4Agent.Library.PtrMapOrder
import JP4Agent.Library.Runs
import JP4Agent.Library.Segments
import JP4Agent.Library.SuffixCode
import JP4Agent.Library.TwoWords
import JP4Agent.NullBinds
import JP4Agent.P4Info
import JP4Agent.P4RuntimeDetermined
import JP4Agent.P4RuntimeMemory
import JP4Agent.P4RuntimePipeline
import JP4Agent.P4RuntimePipelineFailures
import JP4Agent.P4RuntimePipelineReplace
import JP4Agent.P4RuntimeService
import JP4Agent.P4RuntimeWrites
import JP4Agent.RequestCalls
import JP4Agent.Startup
import JP4Agent.StreamChannelRuns
import JP4Agent.Targets
import JP4Agent.TestPacket
import JP4Agent.TreeEntryBinds
import JP4Agent.Uint128
