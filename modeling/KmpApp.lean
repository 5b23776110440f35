import KmpApp.Transition.Run
import KmpApp.Transition.View
import KmpApp.Transition.Simulation
import KmpApp.Transition.Pipeline
import KmpApp.Transition.Interleave
import KmpApp.Coroutines.Suspend
import KmpApp.Flow.StateFlow
import KmpApp.Compose.Runtime
import KmpApp.Data.Museum
import KmpApp.Background.Coroutine
import KmpApp.Background.Machine
import KmpApp.Background.Containment
import KmpApp.Background.Store
import KmpApp.Background.Outputs
import KmpApp.Screens.Views
import KmpApp.Screens.Consistency
import KmpApp.Screens.Detail
import KmpApp.Screens.ListScreen
import KmpApp.Navigation.App
import KmpApp.Navigation.Identity
import KmpApp.System.Machine
import KmpApp.System.Safety
import KmpApp.System.Wired
import KmpApp.Grpc.Rx
import KmpApp.Grpc.Call
import KmpApp.Grpc.Sending
import KmpApp.Grpc.Reading
import KmpApp.Grpc.Delivery
import KmpApp.Grpc.Conversation
import KmpApp.Codec.Numeral
import KmpApp.Codec.Reader
import KmpApp.Codec.Writer
import KmpApp.Protobuf.WireFormat
import KmpApp.Protobuf.Chat
import KmpApp.Protobuf.CodedOutput
import KmpApp.Protobuf.Words
import KmpApp.Protobuf.CodedInput
import KmpApp.Protobuf.Grammar
import KmpApp.Protobuf.Groups
import KmpApp.Protobuf.Message
import KmpApp.Protobuf.Language
import KmpApp.Protobuf.Encoding
import KmpApp.Protobuf.RoundTrip
import KmpApp.Protobuf.Delimited
import KmpApp.Protobuf.Records
import KmpApp.Protobuf.Relay
