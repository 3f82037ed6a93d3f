import Mcpp.Loop
import Mcpp.Base128
import Mcpp.Buffers
import Mcpp.Uuid
import Mcpp.PacketVisitor
import Mcpp.VarInt
import Mcpp.Packets
import Mcpp.Wire
import Mcpp.SerializePacket
import Mcpp.Oversized
import Mcpp.ShiftCipher
import Mcpp.SharedSecret
import Mcpp.ClientConnection
import Mcpp.Framing
import Mcpp.Frames
import Mcpp.Decoding
import Mcpp.Run
import Mcpp.MCPlayer
import Mcpp.LoginGate
import Mcpp.Challenge
import Mcpp.QueuedPayload
import Mcpp.EncryptionKey
import Mcpp.Identity
import Mcpp.Sending
import Mcpp.Shutdown
import Mcpp.Lifecycle
import Mcpp.Boundary
import Mcpp.Callbacks
import Mcpp.Startup
import Mcpp.Config
import Mcpp.WriteDefaults
import Mcpp.Conformance
import Mcpp.RoundTrip
import Mcpp.ConfigurationManager
import Mcpp.Registration
import Mcpp.RegistrationOrder
import Mcpp.Restart
import Mcpp.FrameSize
import Mcpp.PlayerState
import Mcpp.AuthHash
import Mcpp.CurlProcessor
import Mcpp.HttpRequests
import Mcpp.HasJoined
import Mcpp.StringLimits
import Mcpp.SessionQuery
import Mcpp.VerifyToken
import Mcpp.UuidText
import Mcpp.IntegerCasts
import Mcpp.ConfigRejection
import Mcpp.LoadingPaths
import Mcpp.Ownership
import Mcpp.Tracing
import Mcpp.Traversal
import Mcpp.StackBalance
import Mcpp.Component
import Mcpp.PlayerRuns
import Mcpp.Conversation
import Mcpp.ServerList
import Mcpp.Transport
import Mcpp.CipherStreams
import Mcpp.Sockets
import Mcpp.ConfigRuns
import Mcpp.UuidValues
import Mcpp.HttpBodies
import Mcpp.TokenGrowth
import Mcpp.KeyAgreement
import Mcpp.Passes
