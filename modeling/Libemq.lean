import Libemq.CStrings
import Libemq.ExitCode
import Libemq.Triples
import Libemq.Relational
import Libemq.PackedLayout
import Libemq.Framing
import Libemq.Codecs
import Libemq.SharedObjects
import Libemq.LinkedLists
import Libemq.Blocks
import Libemq.Protocol
import Libemq.Client
import Libemq.Network
import Libemq.Packet
import Libemq.Commands
import Libemq.Lists
import Libemq.ListRuns
import Libemq.Transactions
import Libemq.Responses
import Libemq.Calls
import Libemq.Completion
import Libemq.Events
import Libemq.Runs
import Libemq.EventFormat
import Libemq.Delivery
import Libemq.Sending
import Libemq.ServerErrors
import Libemq.Sessions
import Libemq.Waiting
import Libemq.RequestFormat
import Libemq.FrameLength
import Libemq.CallStream
import Libemq.Halves
import Libemq.Brokers
import Libemq.Consistency
import Libemq.Settling
import Libemq.Inventories
import Libemq.HeapLists
import Libemq.Connections
import Libemq.Subscriptions
import Libemq.RecordLists
import Libemq.Lifetimes
import Libemq.Lockstep
import Libemq.Machines
import Libemq.Reentry
import Libemq.Consumption
import Libemq.Rejection
import Libemq.Registry
import Libemq.QueueRegistry
import Libemq.Dispatch
import Libemq.Stopping
import Libemq.ListBounds
import Libemq.ListFormat
import Libemq.MessageBounds
import Libemq.ErrorTexts
import Libemq.RoundTrip
import Libemq.Segmentation
import Libemq.InFlight
import Libemq.AllocationFailure
import Libemq.StringTermination
import Libemq.ValueConversion
import Libemq.StoredNames
import Libemq.Messages
import Libemq.Ownership
