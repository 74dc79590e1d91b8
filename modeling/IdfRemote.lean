import IdfRemote.MuxRoundTrip
import IdfRemote.MuxCodec
import IdfRemote.MuxAgreement
import IdfRemote.DuplexTransmit
import IdfRemote.DuplexIntegrity
import IdfRemote.DesktopRegistry
import IdfRemote.RegistryIdentity
import IdfRemote.RegistryUniqueness
import IdfRemote.EventPolling
import IdfRemote.Exclusivity
import IdfRemote.Monitoring
import IdfRemote.TransmitDrops
import IdfRemote.FlashRoundTrip
import IdfRemote.FlashUpload
import IdfRemote.StoreInvariant
import IdfRemote.Lifecycle
import IdfRemote.Activity
import IdfRemote.Reconnecting
import IdfRemote.Shutdown
import IdfRemote.ReplyMatching
import IdfRemote.MuxChecksum
import IdfRemote.MuxGrammar
import IdfRemote.JsonText
import IdfRemote.ResponseDelivery
import IdfRemote.Renegotiation
import IdfRemote.Rejection
import IdfRemote.PartialFrames
import IdfRemote.OutputDelivery
import IdfRemote.FirmwareSessions
import IdfRemote.RegistryCoverage
import IdfRemote.BadReplies
import IdfRemote.SessionLoss
import IdfRemote.LongPolling
import IdfRemote.FlashMonitor
import IdfRemote.MonitorKeys
import IdfRemote.GatewaySession
import IdfRemote.CodecBounds
import IdfRemote.ConsoleChunks
import IdfRemote.LogSegments
import IdfRemote.EndToEnd
import IdfRemote.EventReaders
import IdfRemote.FlashDelivery
import IdfRemote.BuildToBoard
import IdfRemote.ArtifactDownload
