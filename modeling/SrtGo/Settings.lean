import SrtGo.Filter.Config

/-!
# The configuration of a connection

`validate` fills in the defaults and checks the limits of a configuration.  A latency is checked
from below only; on its way into the handshake it is narrowed to sixteen bits of milliseconds.
Durations are in nanoseconds.
-/

namespace SrtGo.Settings

def millisecond : ℤ := 1000000
def second : ℤ := 1000 * millisecond

inductive TransType where
  | live
  | file
deriving DecidableEq, Repr

/-- The part of the configuration that `validate` reads. -/
structure Config where
  latency : ℤ := 0
  recvLatency : ℤ := 0
  peerLatency : ℤ := 0
  mss : ℤ := 0
  fc : ℤ := 0
  overheadBW : ℤ := 0
  sendBufSize : ℤ := 0
  recvBufSize : ℤ := 0
  payloadSize : ℤ := 0
  streamID : String := ""
  passphrase : String := ""
  keyLength : ℤ := 0
  connTimeout : ℤ := 0
  linger : ℤ := 0
  peerIdleTimeout : ℤ := 0
  kmRefreshRate : ℕ := 0
  kmPreAnnounce : ℕ := 0
  messageAPI : Option Bool := none
  transType : TransType := .live
  congestion : String := ""
  minVersion : ℕ := 0
  lossMaxTTL : ℤ := 0
  sndDropDelay : ℤ := 0
  enforcedEncryption : Option Bool := none
  nakReport : Option Bool := none
  ipTTL : ℤ := 0
  ipTOS : ℤ := 0
  inputBW : ℤ := 0
  minInputBW : ℤ := 0
  packetFilter : String := ""
  udpSendBufSize : ℤ := 0
  udpRecvBufSize : ℤ := 0

def orDefault {α : Type*} [Zero α] [DecidableEq α] (x d : α) : α := if x = 0 then d else x

def require (p : Prop) [Decidable p] (err : String) : Except String Unit :=
  if p then .ok () else .error err

theorem require_bind {α : Type} {p : Prop} [Decidable p] {err : String}
    {f : Unit → Except String α} {x : α} :
    (require p err >>= f) = .ok x ↔ p ∧ f () = .ok x := by
  unfold require
  split_ifs with hp
  · exact (and_iff_right hp).symm
  · exact iff_of_false (fun h => nomatch h) fun h => hp h.1

theorem ok_of_bind {α β : Type} {e : Except String α} {f : α → Except String β} {x : β}
    (h : (e >>= f) = .ok x) :
    ∃ a, f a = .ok x := by
  cases e with
  | error err => cases h
  | ok a => exact ⟨a, h⟩

namespace Config

/-- A UDP buffer that is set holds at least one packet. -/
def udpBufSize (mss size : ℤ) : ℤ :=
  let size := max size 0
  if 0 < size ∧ size < mss then mss else size

def lingerTime (file : Bool) (linger : ℤ) : ℤ :=
  min (max (orDefault linger (if file then 180 * second else second)) 0) (180 * second)

def checkFilter (config : String) : Except String Unit :=
  if config = "" then .ok () else (Filter.parseConfig config).map fun _ => ()

def validate (cfg : Config) : Except String Config := do
  let cfg :=
    { cfg with congestion := if cfg.transType = TransType.file then "file" else cfg.congestion }
  let cfg := { cfg with congestion := if cfg.congestion = "" then "live" else cfg.congestion }
  require (cfg.congestion = "live" ∨ cfg.congestion = "file")
    "srt: Congestion must be \"live\" or \"file\""
  let cfg := { cfg with mss := orDefault cfg.mss 1500 }
  require (76 ≤ cfg.mss ∧ cfg.mss ≤ 1500) "srt: MSS must be between 76 and 1500"
  let cfg := { cfg with latency := orDefault cfg.latency (120 * millisecond) }
  require (20 * millisecond ≤ cfg.latency) "srt: latency must be at least 20ms"
  let cfg := { cfg with recvLatency := orDefault cfg.recvLatency cfg.latency }
  require (20 * millisecond ≤ cfg.recvLatency) "srt: RecvLatency must be at least 20ms"
  let cfg := { cfg with peerLatency := orDefault cfg.peerLatency cfg.latency }
  require (20 * millisecond ≤ cfg.peerLatency) "srt: PeerLatency must be at least 20ms"
  let cfg := { cfg with fc := orDefault cfg.fc 25600 }
  require (32 ≤ cfg.fc) "srt: FC must be at least 32"
  let cfg := { cfg with overheadBW := orDefault cfg.overheadBW 25 }
  require (5 ≤ cfg.overheadBW ∧ cfg.overheadBW ≤ 100)
    "srt: overhead bandwidth must be between 5 and 100 percent"
  let cfg := { cfg with sendBufSize := orDefault cfg.sendBufSize 8192 }
  require (32 ≤ cfg.sendBufSize) "srt: SendBufSize must be at least 32"
  let cfg := { cfg with recvBufSize := orDefault cfg.recvBufSize 8192 }
  require (32 ≤ cfg.recvBufSize) "srt: RecvBufSize must be at least 32"
  let cfg := { cfg with recvBufSize := min cfg.recvBufSize cfg.fc }
  require (0 < cfg.payloadSize → 32 ≤ cfg.payloadSize) "srt: PayloadSize must be at least 32"
  require (0 < cfg.payloadSize → cfg.payloadSize ≤ cfg.mss - 44)
    "srt: PayloadSize must be at most MSS - 44"
  require (cfg.streamID.utf8ByteSize ≤ 512) "srt: stream ID must be at most 512 bytes"
  let secured := cfg.passphrase ≠ ""
  require (secured → 10 ≤ cfg.passphrase.utf8ByteSize ∧ cfg.passphrase.utf8ByteSize ≤ 80)
    "srt: passphrase must be 10-80 bytes"
  let cfg := { cfg with keyLength := if secured then orDefault cfg.keyLength 16 else cfg.keyLength }
  require (secured → cfg.keyLength = 16 ∨ cfg.keyLength = 24 ∨ cfg.keyLength = 32)
    "srt: key length must be 16, 24, or 32"
  let cfg := { cfg with
    connTimeout := orDefault cfg.connTimeout (3 * second)
    linger := lingerTime (cfg.congestion = "file") cfg.linger
    peerIdleTimeout := orDefault cfg.peerIdleTimeout (5 * second) }
  require (second ≤ cfg.peerIdleTimeout) "srt: PeerIdleTimeout must be at least 1s"
  let cfg := { cfg with messageAPI := some (cfg.messageAPI.getD (cfg.congestion ≠ "file")) }
  let cfg :=
    { cfg with
      kmRefreshRate :=
        if secured then orDefault cfg.kmRefreshRate (2 ^ 24) else cfg.kmRefreshRate }
  let cfg :=
    { cfg with
      kmPreAnnounce :=
        if 0 < cfg.kmRefreshRate then orDefault cfg.kmPreAnnounce (2 ^ 12) else cfg.kmPreAnnounce }
  require (0 < cfg.kmRefreshRate → cfg.kmPreAnnounce < cfg.kmRefreshRate / 2)
    "srt: KMPreAnnounce must be less than KMRefreshRate/2"
  let cfg := { cfg with
    minVersion := orDefault cfg.minVersion 0x010000
    lossMaxTTL := max cfg.lossMaxTTL 0
    sndDropDelay := max cfg.sndDropDelay (-1)
    enforcedEncryption := some (cfg.enforcedEncryption.getD true)
    nakReport := some (cfg.nakReport.getD true)
    ipTTL := orDefault cfg.ipTTL (-1) }
  require (cfg.ipTTL = -1 ∨ 1 ≤ cfg.ipTTL ∧ cfg.ipTTL ≤ 255)
    "srt: IPTTL must be -1 (default) or 1-255"
  require (-1 ≤ cfg.ipTOS ∧ cfg.ipTOS ≤ 255) "srt: IPTOS must be -1 (default) or 0-255"
  let cfg := { cfg with
    udpSendBufSize := udpBufSize cfg.mss cfg.udpSendBufSize
    udpRecvBufSize := udpBufSize cfg.mss cfg.udpRecvBufSize
    minInputBW := max cfg.minInputBW 0
    inputBW := max cfg.inputBW 0 }
  checkFilter cfg.packetFilter
  return cfg

def milliseconds (d : ℤ) : ℤ := d.tdiv millisecond

def recvLatencyMS (cfg : Config) : ℕ := (milliseconds cfg.recvLatency % 2 ^ 16).toNat
def peerLatencyMS (cfg : Config) : ℕ := (milliseconds cfg.peerLatency % 2 ^ 16).toNat

end Config

structure DialConfig where
  recvLatencyMS : ℕ
  sendLatencyMS : ℕ

/-- The configuration of a caller; the handshake takes a zero for the default. -/
def Config.dialConfig (cfg : Config) : DialConfig :=
  ⟨orDefault cfg.recvLatencyMS 120, orDefault cfg.peerLatencyMS 120⟩

/-- The receive latencies of the two sides: each is the larger of the own wish and the other's
offer. -/
def negotiateLatency (localRecv localSend peerRecv peerSend : ℕ) : ℕ × ℕ :=
  (max localRecv peerSend, max localSend peerRecv)

/-- The latencies offered are those configured, and negotiation never goes below the own one. -/
structure NegotiatesConfigured (cfg : Config) : Prop where
  recv : (cfg.dialConfig.recvLatencyMS : ℤ) = Config.milliseconds cfg.recvLatency
  peer : (cfg.dialConfig.sendLatencyMS : ℤ) = Config.milliseconds cfg.peerLatency
  negotiated : ∀ peerRecv peerSend, Config.milliseconds cfg.recvLatency ≤
    (negotiateLatency cfg.dialConfig.recvLatencyMS cfg.dialConfig.sendLatencyMS peerRecv peerSend).1

theorem offered_eq_iff {d : ℤ} (hmin : 20 * millisecond ≤ d) :
    ((orDefault (Config.milliseconds d % 2 ^ 16).toNat 120 : ℕ) : ℤ) = Config.milliseconds d ↔
      d < 2 ^ 16 * millisecond := by
  unfold Config.milliseconds orDefault millisecond at *
  rw [Int.tdiv_eq_ediv_of_nonneg (by omega)]
  split_ifs <;> omega

/-- What a latency setting stands for: a zero is the common latency, and then the default. -/
def Config.configured (cfg : Config) (own : ℤ) : ℤ :=
  orDefault own (orDefault cfg.latency (120 * millisecond))

theorem latencies_of_validate {cfg cfg' : Config} (h : cfg.validate = .ok cfg') :
    (cfg'.recvLatency = cfg.configured cfg.recvLatency ∧ 20 * millisecond ≤ cfg'.recvLatency) ∧
    cfg'.peerLatency = cfg.configured cfg.peerLatency ∧ 20 * millisecond ≤ cfg'.peerLatency := by
  unfold Config.validate at h
  simp only [require_bind] at h
  obtain ⟨-, -, -, hrecv, hpeer, -, -, -, -, -, -, -, -, -, -, -, -, -, h⟩ := h
  obtain ⟨-, h⟩ := ok_of_bind h
  obtain rfl := Except.ok.inj h
  exact ⟨⟨rfl, hrecv⟩, rfl, hpeer⟩

/-- **When the negotiated latency is the configured one.**  Of the configurations that are accepted,
those with both latencies below `2 ^ 16` milliseconds. -/
theorem negotiates_configured_iff {cfg cfg' : Config} (h : cfg.validate = .ok cfg') :
    NegotiatesConfigured cfg' ↔ cfg.configured cfg.recvLatency < 2 ^ 16 * millisecond ∧
      cfg.configured cfg.peerLatency < 2 ^ 16 * millisecond := by
  obtain ⟨⟨hrecv, hrecvMin⟩, hpeer, hpeerMin⟩ := latencies_of_validate h
  rw [← hrecv, ← hpeer, ← offered_eq_iff hrecvMin, ← offered_eq_iff hpeerMin]
  constructor
  · intro hn
    exact ⟨hn.recv, hn.peer⟩
  · rintro ⟨hr, hp⟩
    refine ⟨hr, hp, fun peerRecv peerSend => ?_⟩
    rw [← hr]
    exact_mod_cast le_max_left _ _

def ownLatencies : Config :=
  { latency := 50 * millisecond, recvLatency := 200 * millisecond, peerLatency := 80 * millisecond }

theorem negotiates_configured_own :
    ∃ cfg', ownLatencies.validate = .ok cfg' ∧ NegotiatesConfigured cfg' ∧
      cfg'.dialConfig.recvLatencyMS = 200 ∧ cfg'.dialConfig.sendLatencyMS = 80 :=
  ⟨_, rfl, (@negotiates_configured_iff ownLatencies _ rfl).mpr (by decide), by decide, by decide⟩

/-- A latency of 66 seconds is accepted, offered as 464 ms and negotiated so. -/
theorem long_latency_is_cut : ∃ cfg', ({ latency := 66 * second } : Config).validate = .ok cfg' ∧
    Config.milliseconds cfg'.recvLatency = 66000 ∧ cfg'.dialConfig.recvLatencyMS = 464 ∧
    (negotiateLatency cfg'.dialConfig.recvLatencyMS cfg'.dialConfig.sendLatencyMS 120 120).1 =
      464 :=
  ⟨_, rfl, by decide, by decide, by decide⟩

end SrtGo.Settings
