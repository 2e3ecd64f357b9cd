import Dift.Foundation.Radix
import Dift.Foundation.Memory
import Dift.Foundation.Loop
import Dift.Foundation.Tiling
import Dift.Foundation.Elements
import Dift.Foundation.Stretches
import Dift.Wire.HostOrder
import Dift.Wire.Headers
import Dift.Packetize.Socket
import Dift.Packetize.Cutting
import Dift.Packetize.Copying
import Dift.Packetize.InPlace
import Dift.Packetize.SendNew
import Dift.Packetize.FastNew
import Dift.Packetize.Version1
import Dift.Packetize.Retry
import Dift.Packetize.SendBuffer
import Dift.Packetize.Series
import Dift.Assemble.Complete
import Dift.Assemble.Sessions
import Dift.Assemble.Transmission
import Dift.Assemble.RoundTrip
import Dift.Assemble.Duplicates
import Dift.Supply.Release
import Dift.Supply.Ring
import Dift.Evio.Swap
import Dift.Evio.Tree
import Dift.Evio.Preserve
import Dift.Et.Fifo
import Dift.Et.GetBuffers
import Dift.Et.Conservation
import Dift.Et.Traffic
import Dift.Et.Reassembly
import Dift.Et.Interleaving
import Dift.Wire.Codecs
import Dift.Packetize.Grpc
import Dift.Packetize.Partition
import Dift.Assemble.Allocated
import Dift.Assemble.Packetized
import Dift.Assemble.Stages
import Dift.Assemble.Foreign
import Dift.Assemble.Division
import Dift.Assemble.Accounting
import Dift.Assemble.Discards
import Dift.Evio.Raw
import Dift.Evio.Destination
import Dift.Et.Bounds
import Dift.Et.Flushing
import Dift.Et.OneTick
import Dift.Assemble.Reassembled
import Dift.Assemble.Records
import Dift.Evio.Structures
import Dift.Evio.Strings
import Dift.Evio.Transformer
import Dift.Foundation.Numerals
import Dift.Names.Specifiers
import Dift.Names.Generate
import Dift.Foundation.Nesting
import Dift.Foundation.Rewriting
import Dift.Names.Base
import Dift.Evio.Footprint
import Dift.Foundation.Traversal
import Dift.Evio.Iterators
import Dift.Evio.Dictionary
import Dift.Evio.Composite
import Dift.Foundation.Bits
import Dift.Evio.Powers
import Dift.Evio.BlockHeader
import Dift.Evio.Words
import Dift.Evio.Buffer
import Dift.Evio.HeaderParser
import Dift.Wire.ReParsers
import Dift.Foundation.Machine
import Dift.Supply.BlockingQueue
import Dift.Foundation.Scan
import Dift.Disruptor.Slots
import Dift.Disruptor.EventPoller
import Dift.Disruptor.MultiProducer
import Dift.Disruptor.SingleProducer
import Dift.Supply.Sequencer
import Dift.Foundation.Doubling
import Dift.Assemble.GetBuffer
import Dift.Assemble.Successive
import Dift.Assemble.SinglePacket
import Dift.Foundation.BitField
import Dift.Evio.SixthWord
import Dift.Evio.BlockWriting
import Dift.Foundation.Handout
import Dift.Disruptor.Publishing
import Dift.Disruptor.WorkerPool
import Dift.Disruptor.Wiring
import Dift.Disruptor.BatchEventProcessor
import Dift.Disruptor.Rerun
import Dift.Assemble.Receptions
import Dift.Assemble.GrpcCalls
