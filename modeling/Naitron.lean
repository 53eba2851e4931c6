import Naitron.Router
import Naitron.Schema
import Naitron.Middleware
import Naitron.Server.Body
import Naitron.Server.LiveRoutes
import Naitron.Server.Sessions
import Naitron.Server.Streaming
import Naitron.WireResponse
import Naitron.RouterSpec
import Naitron.JsonText
import Naitron.Server.Reading
import Naitron.Server.Identity
import Naitron.SdkRequest
import Naitron.Server.Listings
import Naitron.SdkAnswers
import Naitron.WsStream
import Naitron.WsCodec
import Naitron.Server.Relay
import Naitron.SdkCallbacks
import Naitron.Server.Handshake
import Naitron.Strtod
import Naitron.JwtExpiry
import Naitron.JwtKeys
import Naitron.Server.SchemaReply
import Naitron.SchemaSpec
import Naitron.SchemaReading
import Naitron.Server.Compression
import Naitron.Server.Forwarding
import Naitron.Multipart
import Naitron.RateLimit
import Naitron.JwksRefresh
import Naitron.Server.StaticFiles
import Naitron.KvStore
import Naitron.Base64
import Naitron.Sha256Spec
import Naitron.Server.Oauth
import Naitron.JsonEmit
import Naitron.Server.Replicas
import Naitron.MultipartSlices
import Naitron.Arena
import Naitron.JsonCursor
import Naitron.Server.Backoff
import Naitron.StreamClient
import Naitron.Server.Mcp
import Naitron.Server.LoginPending
import Naitron.JsonRefine
import Naitron.Server.ControlCall
import Naitron.Server.HttpsExchange
import Naitron.Server.McpReply
