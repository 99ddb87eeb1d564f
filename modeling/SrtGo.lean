import SrtGo.Buffer.RecvHistory
import SrtGo.Secure.Sealing
import SrtGo.Flow.StaleACK
import SrtGo.Flow.Advertised
import SrtGo.Flow.Understood
import SrtGo.Bonding.Reader
import SrtGo.Bonding.Coherence
import SrtGo.Bonding.Lockstep
import SrtGo.Bonding.CoordinatedSend
import SrtGo.Stream.Reliability
import SrtGo.Flow.DropPrecision
import SrtGo.Secure.Schedule
import SrtGo.Secure.Persistence
import SrtGo.Session.Linger
import SrtGo.Bonding.FailoverBuffer
import SrtGo.Bonding.SourceTime
import SrtGo.Bonding.Balance
import SrtGo.Crypto.KeyExchange
import SrtGo.Packet.HandshakeCodec
import SrtGo.Flow.SenderDrop
import SrtGo.Session.MessageControl
import SrtGo.Flow.Recovery
import SrtGo.Flow.Pacing
import SrtGo.Flow.RoundTrip
import SrtGo.Flow.Reordering
import SrtGo.Session.Reading
import SrtGo.Settings
