import LibCoap.Machine.Exec
import LibCoap.Machine.Exchange
import LibCoap.Wire.MessageGrammar
import LibCoap.Wire.BlockOption
import LibCoap.Packet.RoundTrip
import LibCoap.Packet.ByteOrder
import LibCoap.Packet.Operations
import LibCoap.Packet.History
import LibCoap.Blockwise.Encode
import LibCoap.Blockwise.Decode
import LibCoap.Blockwise.RoundTrip
import LibCoap.Client.Transfer
import LibCoap.Network.Download
import LibCoap.Packet.Additions
import LibCoap.Packet.SerializeRoom
import LibCoap.Packet.Capacity
import LibCoap.Packet.Building
import LibCoap.Packet.Run
import LibCoap.Packet.Reencoding
import LibCoap.Client.BlockState
import LibCoap.Client.MessageIds
import LibCoap.Blockwise.Header
import LibCoap.Client.Sending
import LibCoap.Client.Retransmission
import LibCoap.Client.SendSafety
import LibCoap.Machine.Bisection
import LibCoap.Packet.Lookup
import LibCoap.Packet.FindOptions
import LibCoap.Packet.Insertion
import LibCoap.Text.Delimited
import LibCoap.Text.Decimal
import LibCoap.Uri.Splitting
import LibCoap.Uri.RoundTrip
import LibCoap.Client.Paths
import LibCoap.Address
import LibCoap.Address.IPv4
import LibCoap.Address.IPv6
import LibCoap.Machine.Observation
import LibCoap.Packet.Clearing
import LibCoap.Machine.Loop
import LibCoap.Packet.HeaderCodec
import LibCoap.Packet.OptionLoop
import LibCoap.Client.Receiving
import LibCoap.Machine.History
import LibCoap.Application.Progress
import LibCoap.Application.Transfer
import LibCoap.Network.Legible
import LibCoap.Application.Liveness
import LibCoap.Packet.Diagnosis
import LibCoap.Network.Peers
import LibCoap.Wire.Reader
import LibCoap.Network.Serving
import LibCoap.Application.Duplicates
import LibCoap.Application.Backlog
import LibCoap.Application.Delays
import LibCoap.Logging
import LibCoap.Address.Destination
import LibCoap.Machine.Settings
import LibCoap.Application.Launch
import LibCoap.Application.Failing
import LibCoap.Application.Files
import LibCoap.Application.Sharing
