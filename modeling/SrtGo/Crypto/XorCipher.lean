import SrtGo.Crypto.Context

/-!
# A cipher to compute with

The results of this development hold for every `Primitives`.  To run the model on
concrete inputs one needs some: here the block cipher adds the key to the block, sealing
appends an empty tag, and a derived key repeats the length of the passphrase.  The
instances are scoped, so that no general statement picks them up.
-/

namespace SrtGo.Crypto.XorCipher

open Bytes

def addKey (key block : Bytes) : Bytes := xorInto block (key.take 16)

scoped instance primitives : Primitives where
  encrypt := addKey
  decrypt := addKey
  gcmSeal _ _ plaintext _ := plaintext ++ List.replicate 16 0
  gcmOpen _ _ ciphertext _ := some (ciphertext.take (ciphertext.length - 16))
  pbkdf2 passphrase _ keyLength := List.replicate keyLength (UInt8.ofNat passphrase.length)

scoped instance lawful : LawfulPrimitives where
  length_encrypt key block hblock := (length_xorInto block _).trans hblock
  decrypt_encrypt key block _ := xorInto_xorInto block _
  gcmOpen_gcmSeal key nonce plaintext additional := by simp [Primitives.gcmSeal, Primitives.gcmOpen]
  length_gcmSeal key nonce plaintext additional := by simp [Primitives.gcmSeal]
  length_pbkdf2 passphrase salt keyLength := List.length_replicate

end SrtGo.Crypto.XorCipher
