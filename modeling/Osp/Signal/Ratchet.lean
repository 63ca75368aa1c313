import Osp.Lib.KeyChain
import Osp.Signal.Crypto

/-!
# Ratchet keys

The chain, root and message keys of `ratchet.c`. Where the source checks the length of what HKDF returned, the length is right
(`length_hkdfDeriveSecrets`), so the functions are total and the lengths are fields of the message keys.
-/

namespace Osp.Signal

open Osp.Lib

variable (p : CryptoProvider) (k : RatchetChainKey)

/-- A text constant of the source, without its terminating zero. -/
def ascii (text : List Char) : Bytes := text.map fun c => UInt8.ofNat c.toNat

/-- `ratchet_chain_key` -/
structure RatchetChainKey where
  kdf : HkdfContext
  key : Bytes
  index : UInt32
deriving DecidableEq

/-- `ratchet_root_key` -/
structure RatchetRootKey where
  kdf : HkdfContext
  key : Bytes
deriving DecidableEq

/-- `ratchet_message_keys` -/
structure RatchetMessageKeys where
  cipherKey : Bytes
  macKey : Bytes
  iv : Bytes
  counter : UInt32
  length_cipherKey : cipherKey.length = 32
  length_macKey : macKey.length = 32
  length_iv : iv.length = 16
deriving DecidableEq

/-- A salt of `HASH_OUTPUT_SIZE` zeros. -/
def zeroSalt : Bytes := List.replicate 32 0

namespace RatchetChainKey

variable (chainKey : RatchetChainKey)

/-- `ratchet_chain_key_get_base_material` -/
def getBaseMaterial (seed : UInt8) : Bytes :=
  p.hmacSha256 chainKey.key [seed]

/-- `key_material_seed` -/
def keyMaterialSeed : Bytes :=
  ascii ['W', 'h', 'i', 's', 'p', 'e', 'r', 'M', 'e', 's', 's', 'a', 'g', 'e', 'K', 'e', 'y', 's']

/-- The 80 bytes that `ratchet_chain_key_get_message_keys` derives. -/
def keyMaterial : Bytes :=
  hkdfDeriveSecrets p chainKey.kdf (chainKey.getBaseMaterial p 0x01) zeroSalt keyMaterialSeed 80

/-- `ratchet_chain_key_get_message_keys` -/
def getMessageKeys : RatchetMessageKeys where
  cipherKey := (chainKey.keyMaterial p).take 32
  macKey := ((chainKey.keyMaterial p).drop 32).take 32
  iv := (chainKey.keyMaterial p).drop 64
  counter := chainKey.index
  length_cipherKey := by simp [keyMaterial]
  length_macKey := by simp [keyMaterial]
  length_iv := by simp [keyMaterial]

/-- `ratchet_chain_key_create_next`: the index is a `uint32_t` and wraps. -/
def createNext : RatchetChainKey :=
  ⟨chainKey.kdf, chainKey.getBaseMaterial p 0x02, chainKey.index + 1⟩

end RatchetChainKey

namespace RatchetRootKey

/-- `key_info` of `ratchet_root_key_create_chain` -/
def ratchetInfo : Bytes := ascii ['W', 'h', 'i', 's', 'p', 'e', 'r', 'R', 'a', 't', 'c', 'h', 'e', 't']

/-- `ratchet_root_key_create_chain`: the next root key and the key of a new chain. -/
def createChain (rootKey : RatchetRootKey) (theirRatchetKey : EcPublicKey)
    (ourRatchetKeyPrivate : EcPrivateKey) : RatchetRootKey × RatchetChainKey :=
  let derived := hkdfDeriveSecrets p rootKey.kdf (p.agreement theirRatchetKey ourRatchetKeyPrivate) rootKey.key ratchetInfo 64
  (⟨rootKey.kdf, derived.take 32⟩, ⟨rootKey.kdf, derived.drop 32, 0⟩)

end RatchetRootKey

/-- `key_info` of `ratcheting_session_calculate_derived_keys` -/
def whisperText : Bytes := ascii ['W', 'h', 'i', 's', 'p', 'e', 'r', 'T', 'e', 'x', 't']

/-- `ratcheting_session_calculate_derived_keys` -/
def calculateDerivedKeys (secret : Bytes) : RatchetRootKey × RatchetChainKey :=
  let output := hkdfDeriveSecrets p .three secret zeroSalt whisperText 64
  (⟨.three, output.take 32⟩, ⟨.three, output.drop 32, 0⟩)

/-! ## The chain of message keys -/

/-- The chain keys of a session, as a chain of keys. -/
def ratchetChain : KeyChain RatchetChainKey RatchetMessageKeys where
  next := RatchetChainKey.createNext p
  keys := RatchetChainKey.getMessageKeys p
  index := RatchetChainKey.index
  counter := RatchetMessageKeys.counter
  index_next := fun _ => rfl
  counter_keys := fun _ => rfl

@[simp] theorem ratchetChain_next : (ratchetChain p).next k = k.createNext p := rfl

@[simp] theorem ratchetChain_keys :
    (ratchetChain p).keys k = k.getMessageKeys p := rfl

@[simp] theorem ratchetChain_index : (ratchetChain p).index k = k.index := rfl

end Osp.Signal
