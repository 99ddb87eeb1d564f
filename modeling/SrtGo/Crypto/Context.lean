import SrtGo.Crypto.KeyWrap
import SrtGo.Packet.Cif

/-!
# The encryption context

A secured connection keeps two key slots, even and odd, so that a new key can be
announced while the old one is still in use.  The context encrypts and decrypts
payloads in counter mode or in the authenticated mode, draws new keys, and writes
and reads the key material that the two sides exchange.

A cached cipher is determined by its key, so the model keeps the key in place of
the cipher.  Random keys come from a stream of draws that stands for the system's
randomness.
-/

namespace SrtGo.Crypto

open Bytes

inductive CipherMode where
  | ctr
  | gcm
deriving DecidableEq, Repr, Inhabited

def CipherMode.code : CipherMode → ℕ
  | .ctr => 2
  | .gcm => 4

def errInvalidKey : String := "crypto: invalid encryption key type"
def errInvalidPassphrase : String := "crypto: invalid passphrase"
def errAuthFailed : String := "crypto: GCM authentication failed"

/-- A key slot: the key itself, and the keys of the cached block cipher and of the
cached authenticated cipher. -/
structure Slot where
  sek : Option Bytes := none
  cipher : Option Bytes := none
  aead : Option Bytes := none
deriving DecidableEq, Repr, Inhabited

/-- The encryption state of a connection.  `entropy` is the stream of random draws
and `drawn` the number of draws so far; a draw of `none` is a failing source of
randomness. -/
structure Context where
  mode : CipherMode
  keyLength : ℕ
  salt : Bytes
  even : Slot := {}
  odd : Slot := {}
  useGcm153 : Bool := false
  entropy : ℕ → Option Bytes
  drawn : ℕ := 0

namespace Context

/-- The slot that a key flag names; only the two single flags name one. -/
def slot (ctx : Context) : PacketEncryption → Option Slot
  | .even => some ctx.even
  | .odd => some ctx.odd
  | .none | .both => none

def setSlot (ctx : Context) (key : PacketEncryption) (s : Slot) : Context :=
  match key with
  | .even => { ctx with even := s }
  | .odd => { ctx with odd := s }
  | .none | .both => ctx

def newCipher (key : Bytes) : Option Bytes := if validKeySize key.length then some key else none

def draw (ctx : Context) : Context × Option Bytes :=
  ({ ctx with drawn := ctx.drawn + 1 }, (ctx.entropy ctx.drawn).map (fit ctx.keyLength))

/-- Draw a new key for a slot.  The second component is the error. -/
def generateSEK (ctx : Context) (key : PacketEncryption) : Context × Option String :=
  match ctx.draw with
  | (ctx, none) => (ctx, some "crypto: generating SEK")
  | (ctx, some sek) =>
    match newCipher sek with
    | none => (ctx, some "crypto: creating cipher")
    | some block =>
      match ctx.slot key with
      | none => (ctx, some errInvalidKey)
      | some _ =>
        (ctx.setSlot key
          { sek := some sek
            cipher := some block
            aead := if ctx.mode = .gcm then some block else none }, none)

def clearSEK (ctx : Context) (key : PacketEncryption) : Context := ctx.setSlot key {}

def newWithMode (keyLength : ℕ) (mode : CipherMode) (entropy : ℕ → Option Bytes) :
    Except String Context :=
  if !validKeySize keyLength then
    .error s!"crypto: invalid key size {keyLength}, must be 16, 24, or 32"
  else
    match entropy 0 with
    | none => .error "crypto: generating salt"
    | some salt =>
      let ctx : Context :=
        { mode := mode, keyLength := keyLength, salt := fit 16 salt, entropy := entropy,
          drawn := 1 }
      match ctx.generateSEK .even with
      | (_, some e) => .error e
      | (ctx, none) =>
        match ctx.generateSEK .odd with
        | (_, some e) => .error e
        | (ctx, none) => .ok ctx

def setGCM153 (ctx : Context) (enabled : Bool) : Context := { ctx with useGcm153 := enabled }

variable [Primitives]

/-! ## Payloads -/

/-- The initial counter block of a packet: the salt, with the sequence number in
bytes 10 to 13 and a block counter of zero. -/
def ctrIV (salt : Bytes) (seqNo : ℕ) : Bytes :=
  xorInto (List.replicate 10 0 ++ putBE 4 seqNo) (salt.take 14) ++ [0, 0]

/-- The first `n` blocks of the key stream: the counter block is incremented as
one big-endian number. -/
def keyStream (key iv : Bytes) (n : ℕ) : Bytes :=
  (List.range n).flatMap fun i => Primitives.encrypt key (putBE 16 (readBE iv + i))

def xorPayload (ctx : Context) (data : Bytes) (key : PacketEncryption) (seqNo : ℕ) :
    Except String Bytes :=
  match (ctx.slot key).bind Slot.cipher with
  | none => .error errInvalidKey
  | some block =>
    .ok (xorInto data (keyStream block (ctrIV ctx.salt seqNo) (data.length / 16 + 1)))

def buildGCMNonce (salt : Bytes) (seqNo : ℕ) (legacy : Bool) : Bytes :=
  if legacy then (xorInto (List.replicate 12 0 ++ putBE 4 seqNo) salt).drop 4
  else xorInto (List.replicate 8 0 ++ putBE 4 seqNo) (salt.take 12)

/-- The additional data: the 16 header bytes, if they are all there. -/
def additionalData (header : Bytes) : Bytes := if 16 ≤ header.length then header.take 16 else []

def encryptGCM (ctx : Context) (data header : Bytes) (key : PacketEncryption) (seqNo : ℕ) :
    Except String Bytes :=
  match (ctx.slot key).bind Slot.aead with
  | none => .error errInvalidKey
  | some aead =>
    .ok (Primitives.gcmSeal aead (buildGCMNonce ctx.salt seqNo ctx.useGcm153) data
      (additionalData header))

def decryptGCM (ctx : Context) (data header : Bytes) (key : PacketEncryption) (seqNo : ℕ) :
    Except String Bytes :=
  match (ctx.slot key).bind Slot.aead with
  | none => .error errInvalidKey
  | some aead =>
    if data.length < 16 then .error errAuthFailed
    else
      match Primitives.gcmOpen aead (buildGCMNonce ctx.salt seqNo ctx.useGcm153) data
        (additionalData header) with
      | none => .error errAuthFailed
      | some plaintext => .ok plaintext

def encryptPayload (ctx : Context) (data header : Bytes) (key : PacketEncryption) (seqNo : ℕ) :
    Except String Bytes :=
  match ctx.mode with
  | .gcm => ctx.encryptGCM data header key seqNo
  | .ctr => ctx.xorPayload data key seqNo

def decryptPayload (ctx : Context) (data header : Bytes) (key : PacketEncryption) (seqNo : ℕ) :
    Except String Bytes :=
  match ctx.mode with
  | .gcm => ctx.decryptGCM data header key seqNo
  | .ctr => ctx.xorPayload data key seqNo

/-! ## Key material -/

/-- The key-encryption key of a passphrase: the last 8 bytes of the salt go in. -/
def calculateKEK (passphrase : String) (salt : Bytes) (keyLength : ℕ) : Bytes :=
  Primitives.pbkdf2 passphrase (salt.drop 8) keyLength

/-- A slot's key in a field of the key length; an empty slot leaves zeros. -/
def keyField (ctx : Context) (s : Slot) : Bytes := fit ctx.keyLength (s.sek.getD [])

def keyPlaintext (ctx : Context) : PacketEncryption → Bytes
  | .even => ctx.keyField ctx.even
  | .odd => ctx.keyField ctx.odd
  | .both => ctx.keyField ctx.even ++ ctx.keyField ctx.odd
  | .none => []

def marshalKM (ctx : Context) (passphrase : String) (key : PacketEncryption) :
    Except String CIFKeyMaterial :=
  if key = .none then .error errInvalidKey
  else
    match keyWrap (calculateKEK passphrase ctx.salt ctx.keyLength) (ctx.keyPlaintext key) with
    | .error e => .error ("crypto: wrapping key: " ++ e)
    | .ok wrapped =>
      .ok { s := 0
            version := 1
            packetType := 2
            sign := 0x2029
            keyBasedEncryption := key
            keyEncryptionKeyIndex := 0
            cipher := ctx.mode.code
            authentication := if ctx.mode = .gcm then 1 else 0
            streamEncapsulation := 2
            sLen := 16
            kLen := ctx.keyLength
            salt := fit 16 ctx.salt
            wrap := wrapped }

/-- Take over the salt and the cipher mode of received key material; this happens
before the key is unwrapped. -/
def adopt (ctx : Context) (km : CIFKeyMaterial) : Context :=
  { ctx with
    salt := if km.salt.length = 16 then km.salt else ctx.salt
    mode := if km.cipher = CipherMode.gcm.code then .gcm else .ctr }

/-- A received key in a slot.  The authenticated cipher is only renewed in its own
mode. -/
def install (ctx : Context) (s : Slot) (sek : Bytes) : Slot :=
  { sek := some sek
    cipher := newCipher sek
    aead := if ctx.mode = .gcm ∧ (newCipher sek).isSome then newCipher sek else s.aead }

def installError (sek : Bytes) : Option String :=
  if (newCipher sek).isSome then none else some s!"crypto/aes: invalid key size {sek.length}"

/-- Install received key material.  The second component is the error; the context
may have changed even then. -/
def unmarshalKM (ctx : Context) (km : CIFKeyMaterial) (passphrase : String) :
    Context × Option String :=
  if km.keyBasedEncryption = .none then (ctx, some errInvalidKey)
  else
    let ctx := ctx.adopt km
    match keyUnwrap (calculateKEK passphrase ctx.salt ctx.keyLength) km.wrap with
    | .error _ => (ctx, some errInvalidPassphrase)
    | .ok plaintext =>
      let expectedLen := km.keyBasedEncryption.keyCount * ctx.keyLength
      if plaintext.length ≠ expectedLen then
        (ctx, some s!"crypto: unwrapped key wrong length ({plaintext.length}, want {expectedLen})")
      else
        match km.keyBasedEncryption with
        | .even => ({ ctx with even := ctx.install ctx.even plaintext }, installError plaintext)
        | .odd => ({ ctx with odd := ctx.install ctx.odd plaintext }, installError plaintext)
        | .both =>
          ({ ctx with
             even := ctx.install ctx.even (plaintext.take ctx.keyLength)
             odd := ctx.install ctx.odd (plaintext.drop ctx.keyLength) },
            installError (plaintext.take ctx.keyLength))
        | .none => (ctx, none)

end Context

end SrtGo.Crypto
