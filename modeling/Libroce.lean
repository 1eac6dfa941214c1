import Libroce.Lib.Machine
import Libroce.Types
import Libroce.Iov
import Libroce.Mr
import Libroce.Spec
import Libroce.Crc
import Libroce.Netpkt
import Libroce.Qp
import Libroce.Requester
import Libroce.Responder
import Libroce.MrSafety
import Libroce.RequesterBuild
import Libroce.RequesterRun
import Libroce.RequesterWindow
import Libroce.RequesterOwners
import Libroce.RequesterRetire
import Libroce.RoundTrip
import Libroce.ResponderStep
import Libroce.ResponderAgree
import Libroce.ResponderRetry
import Libroce.ResponderUnion
import Libroce.Landing
import Libroce.ResponderMessage
import Libroce.ResponderIdle
import Libroce.ResponderDatagram
import Libroce.Icrc
import Libroce.Decap
import Libroce.ResponderLength
import Libroce.RequesterAck
import Libroce.Device
import Libroce.DeviceFrame
import Libroce.DeviceTable
import Libroce.DeviceRefs
import Libroce.DeviceLifetime
import Libroce.DeviceSpecial
import Libroce.DmaBalance
import Libroce.Agreement
import Libroce.Transmit
import Libroce.Exchange
import Libroce.Quiescence
import Libroce.MrRefs
import Libroce.MrOwners
import Libroce.MrBalance
import Libroce.RequesterCalls
import Libroce.GoBackN
import Libroce.Sequencing
import Libroce.ResponderCursor
import Libroce.PageCount
import Libroce.RequesterRefusal
import Libroce.PsnWrap
import Libroce.Lib.Scatter
import Libroce.Lib.Segment
import Libroce.Placement
import Libroce.Reception
import Libroce.WritePlacement
import Libroce.SendReassembly
import Libroce.ModifyQp
import Libroce.Lib.Outcome
import Libroce.Addressing
import Libroce.PortRange
import Libroce.RecvRelease
import Libroce.UdStatus
import Libroce.DatagramReport
import Libroce.Grh
import Libroce.Framing
import Libroce.AddressVector
import Libroce.SendLedger
import Libroce.Segmentation
import Libroce.ByteLen
import Libroce.Translation
import Libroce.Lib.OnesComplement
import Libroce.Checksum
import Libroce.Bth
import Libroce.Lib.SlotMap
import Libroce.ResourceTable
import Libroce.GidTable
import Libroce.MessageLength
import Libroce.Lib.Blocks
import Libroce.DeviceTables
import Libroce.RefusedWrite
import Libroce.IovTrim
import Libroce.SgeCalls
import Libroce.SgePages
import Libroce.LossyPair
import Libroce.PostedSend
import Libroce.ReceivedSend
import Libroce.PairRequester
import Libroce.PairResponder
import Libroce.PairSafety
import Libroce.Isolation
import Libroce.Frames
import Libroce.Corruption
import Libroce.Lib.Rings
import Libroce.IntrusiveList
import Libroce.PacketQueues
import Libroce.RemoteWrite
import Libroce.Ports
import Libroce.WireRun
import Libroce.DatagramPair
