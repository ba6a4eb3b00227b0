import Vds.LogSync.SyncProcess
import Vds.LogSync.DagSteps
import Vds.LogSync.Progress
import Vds.LogSync.Replay
import Vds.LogSync.Confirmation
import Vds.LogSync.Authority
import Vds.LogSync.CanonicalBlock
import Vds.LogSync.Agreement
import Vds.DhtNetwork.Authenticity
import Vds.Kernel.ErasureCode
import Vds.Kernel.JsonRoundTrip
import Vds.DhtNetwork.SupportedTypes
import Vds.Transactions.BlockMessages
import Vds.Database.AsyncTransaction
import Vds.Database.SqlBuilder
import Vds.Database.SqlEmission
import Vds.Database.SqlReading
import Vds.Database.SqlRoundTrip
import Vds.DhtNetwork.StorageQuota
import Vds.DhtNetwork.NodeRegistration
import Vds.DhtNetwork.Resending
import Vds.Http.MessageReceipt
import Vds.DhtNetwork.CheckedAgreement
import Vds.LogSync.Reapply
import Vds.Kernel.MtService
import Vds.Kernel.ChunkOutput
import Vds.Kernel.TaskManager
import Vds.Kernel.SymmetricCrypto
import Vds.Kernel.Deflate
import Vds.DhtNetwork.Route
import Vds.DhtNetwork.RouteTimer
import Vds.Kernel.NetworkService
import Vds.Kernel.UdpSocket
import Vds.Kernel.TcpSocket
import Vds.UserManager.UserChannel
import Vds.Kernel.Foldername
import Vds.Kernel.JsonPointers
import Vds.Kernel.JsonSpacing
import Vds.Http.HttpParser
import Vds.Http.HttpBodies
import Vds.Http.HttpChunks
import Vds.Kernel.AsyncMutex
import Vds.Http.OutputLock
import Vds.Http.HttpClient
import Vds.Http.HttpClientCalls
import Vds.Kernel.Utf8RoundTrip
import Vds.Kernel.UrlEncode
import Vds.Kernel.Base64Decode
import Vds.Library.Overwrite
import Vds.Kernel.File
import Vds.Kernel.TextStream
import Vds.Library.Comparison
import Vds.Kernel.NetworkAddress
import Vds.WsApi.Requests
import Vds.WsApi.ChannelPages
import Vds.WsApi.ProcessMessage
import Vds.WsApi.RequestLaw
import Vds.DhtNetwork.ObjectId
import Vds.DhtNetwork.RouteTable
import Vds.WsApi.Login
import Vds.LogParser.FilterParser
import Vds.LogParser.FilterTable
import Vds.CmdApp.SyncFiles
import Vds.CmdApp.SyncTasks
import Vds.CmdApp.SyncLaw
import Vds.WsApi.Subscription
import Vds.Web.VdsWs
import Vds.DhtNetwork.Forwarding
import Vds.DhtNetwork.SyncReplicas
import Vds.DhtNetwork.UdpTransport
import Vds.DhtNetwork.UdpSessions
import Vds.DhtNetwork.UdpRuns
import Vds.DhtNetwork.UdpLoop
import Vds.DhtNetwork.UdpNetwork
import Vds.LogSync.Replication
import Vds.LogSync.Approvals
import Vds.LogSync.Chronology
import Vds.LogSync.Finality
