import Osp.Lib.Libc
import Osp.Lib.Qsort
import Osp.Signal.Crypto
import Osp.Signal.LocalStorage

/-!
# Fingerprints and device consistency

`fingerprint.c` and `device_consistency.c`: the numbers that two users compare, and those that the devices of one user compare. SHA-512 is
a parameter, and so is `qsort`, with which the key lists and the signature lists are sorted. Strings are given by their bytes before the
NUL.
-/

namespace Osp.Signal

open Lib

/-- `SG_ERR_FP_VERSION_MISMATCH` -/
def sgErrFpVersionMismatch : Int := -1200
/-- `SG_ERR_FP_IDENT_MISMATCH` -/
def sgErrFpIdentMismatch : Int := -1201

/-- The SHA-512 callbacks. -/
structure Sha512 where
  digest : Bytes → Bytes
  length_digest : ∀ message, (digest message).length = 64

/-- `ec_public_key_memcmp`, of keys that are not null. -/
def ecPublicKeyMemcmp (key1 key2 : EcPublicKey) : Int := bytesCompare key1.data key2.data

/-- `ec_public_key_list_sort` -/
def ecPublicKeyListSort (q : Qsort EcPublicKey) (list : List EcPublicKey) : List EcPublicKey := q.sort ecPublicKeyMemcmp list

/-- `%05d` of a number below 100000. -/
def fiveDigits (n : Nat) : Bytes := [10000, 1000, 100, 10, 1].map fun d => UInt8.ofNat (48 + n / d % 10)

/-- The five digits for five bytes of a hash. -/
def encodedChunk (data : Bytes) (i : Nat) : Bytes := fiveDigits (ofBe ((data.drop i).take 5) % 100000)

/-! ## Fingerprints -/

/-- `FINGERPRINT_LENGTH` -/
def fingerprintLength : Nat := 30

/-- `fingerprint_generator` -/
structure FingerprintGenerator where
  iterations : Nat
  scannableVersion : Nat

/-- `displayable_fingerprint` -/
structure DisplayableFingerprint where
  localFingerprint : Bytes
  remoteFingerprint : Bytes
  displayText : Bytes

/-- `scannable_fingerprint` -/
structure ScannableFingerprint where
  version : UInt32
  localStableIdentifier : Option Bytes
  localFingerprint : Bytes
  remoteStableIdentifier : Option Bytes
  remoteFingerprint : Bytes

/-- `fingerprint` -/
structure Fingerprint where
  displayable : DisplayableFingerprint
  scannable : ScannableFingerprint

/-- `LogicalFingerprint` of the wire protocol. -/
structure LogicalFingerprint where
  identifier : Option Bytes
  content : Option Bytes

/-- `CombinedFingerprints` of the wire protocol. -/
structure CombinedFingerprints where
  version : Option UInt32
  localFingerprint : Option LogicalFingerprint
  remoteFingerprint : Option LogicalFingerprint

/-- `fingerprint_generator_get_logical_key_bytes` -/
def getLogicalKeyBytes (q : Qsort EcPublicKey) (keys : List EcPublicKey) : Bytes :=
  ((ecPublicKeyListSort q keys).map EcPublicKey.serialize).flatten

/-- `fingerprint_generator_get_fingerprint` -/
def FingerprintGenerator.getFingerprint (generator : FingerprintGenerator) (h : Sha512) (stableIdentifier identity : Bytes) :
    Except Int Bytes :=
  let hash := (fun hash => h.digest (hash ++ identity))^[generator.iterations] ([0, 0] ++ identity ++ stableIdentifier)
  if hash.length < fingerprintLength then .error sgErrUnknown else .ok hash

/-- `fingerprint_generator_create_display_string` -/
def createDisplayString (fingerprint : Bytes) : Except Int Bytes :=
  if fingerprint.length < fingerprintLength then .error sgErrUnknown
  else .ok ([0, 5, 10, 15, 20, 25].flatMap (encodedChunk fingerprint))

/-- `displayable_fingerprint_create` -/
def displayableFingerprintCreate (localFingerprint remoteFingerprint : Bytes) : DisplayableFingerprint where
  localFingerprint := localFingerprint
  remoteFingerprint := remoteFingerprint
  displayText :=
    if bytesCompare localFingerprint remoteFingerprint ≤ 0 then localFingerprint ++ remoteFingerprint
    else remoteFingerprint ++ localFingerprint

/-- `scannable_fingerprint_create` -/
def scannableFingerprintCreate (version : UInt32) (localStableIdentifier localFingerprint remoteStableIdentifier remoteFingerprint :
    Option Bytes) : Except Int ScannableFingerprint :=
  if version = 0 ∧ (localStableIdentifier = none ∨ remoteStableIdentifier = none) then .error sgErrInval
  else match localFingerprint, remoteFingerprint with
    | some localFingerprint, some remoteFingerprint =>
      if version = 0 then .ok ⟨0, localStableIdentifier, localFingerprint, remoteStableIdentifier, remoteFingerprint⟩
      else .ok ⟨version, none, localFingerprint.take 32, none, remoteFingerprint.take 32⟩
    | _, _ => .error sgErrInval

/-- `fingerprint_generator_create_for_impl` -/
def FingerprintGenerator.createForImpl (generator : FingerprintGenerator) (h : Sha512)
    (localStableIdentifier localIdentity remoteStableIdentifier remoteIdentity : Bytes) : Except Int Fingerprint := do
  let localFingerprint ← generator.getFingerprint h localStableIdentifier localIdentity
  let remoteFingerprint ← generator.getFingerprint h remoteStableIdentifier remoteIdentity
  let displayableLocal ← createDisplayString localFingerprint
  let displayableRemote ← createDisplayString remoteFingerprint
  let displayable := displayableFingerprintCreate displayableLocal displayableRemote
  let scannable ←
    if generator.scannableVersion = 0 then
      scannableFingerprintCreate 0 (some localStableIdentifier) (some localIdentity) (some remoteStableIdentifier)
        (some remoteIdentity)
    else if generator.scannableVersion = 1 then
      scannableFingerprintCreate 1 none (some localFingerprint) none (some remoteFingerprint)
    else .error sgErrInval
  return ⟨displayable, scannable⟩

/-- `fingerprint_generator_create_for_list` -/
def FingerprintGenerator.createForList (generator : FingerprintGenerator) (h : Sha512) (q : Qsort EcPublicKey)
    (localStableIdentifier : Bytes) (localIdentityKeys : List EcPublicKey) (remoteStableIdentifier : Bytes)
    (remoteIdentityKeys : List EcPublicKey) : Except Int Fingerprint :=
  generator.createForImpl h localStableIdentifier (getLogicalKeyBytes q localIdentityKeys) remoteStableIdentifier
    (getLogicalKeyBytes q remoteIdentityKeys)

/-- `scannable_fingerprint_serialize` -/
def ScannableFingerprint.serialize (codec : Codec CombinedFingerprints) (scannable : ScannableFingerprint) : codec.Buffer :=
  let logical := fun identifier content : Option Bytes =>
    (⟨if scannable.version = 0 then identifier else none, content⟩ : LogicalFingerprint)
  codec.pack ⟨some scannable.version, some (logical scannable.localStableIdentifier (some scannable.localFingerprint)),
    some (logical scannable.remoteStableIdentifier (some scannable.remoteFingerprint))⟩

/-- `scannable_fingerprint_deserialize` -/
def scannableFingerprintDeserialize (codec : Codec CombinedFingerprints) (data : codec.Buffer) : Except Int ScannableFingerprint :=
  match codec.unpack data with
  | none => .error sgErrInvalidProtoBuf
  | some combined =>
    scannableFingerprintCreate (combined.version.getD 0) (combined.localFingerprint.bind (·.identifier))
      (combined.localFingerprint.bind (·.content)) (combined.remoteFingerprint.bind (·.identifier))
      (combined.remoteFingerprint.bind (·.content))

/-- `scannable_fingerprint_compare`. Fingerprints of version 0 have both identifiers. -/
def ScannableFingerprint.compare (scannable otherScannable : ScannableFingerprint) : Int :=
  if otherScannable.version ≠ scannable.version then sgErrFpVersionMismatch
  else if scannable.version = 0 ∧ scannable.localStableIdentifier ≠ otherScannable.remoteStableIdentifier then sgErrFpIdentMismatch
  else if scannable.version = 0 ∧ scannable.remoteStableIdentifier ≠ otherScannable.localStableIdentifier then sgErrFpIdentMismatch
  else if scannable.localFingerprint ≠ otherScannable.remoteFingerprint then 0
  else if scannable.remoteFingerprint ≠ otherScannable.localFingerprint then 0
  else 1

/-! ## Device consistency -/

/-- `device_consistency_signature` -/
structure DeviceConsistencySignature where
  signature : Bytes
  vrfOutput : Bytes

/-- `device_consistency_commitment` -/
structure DeviceConsistencyCommitment where
  generation : UInt32
  serialized : Bytes

/-- `device_consistency_commitment_create` -/
def deviceConsistencyCommitmentCreate (h : Sha512) (q : Qsort EcPublicKey) (generation : UInt32) (identityKeys : List EcPublicKey) :
    DeviceConsistencyCommitment :=
  ⟨generation, h.digest (textBytes "DeviceConsistencyCommitment_V0" ++ beBytes 4 generation.toNat ++
    ((ecPublicKeyListSort q identityKeys).map EcPublicKey.serialize).flatten)⟩

/-- `device_consistency_signature_list_sort_comparator` -/
def signatureListSortComparator (sig1 sig2 : DeviceConsistencySignature) : Int :=
  if sig1.vrfOutput.length = sig2.vrfOutput.length then bytesCompare sig1.vrfOutput sig2.vrfOutput
  else if sig1.vrfOutput.length < sig2.vrfOutput.length then -1
  else 1

/-- `device_consistency_code_generate_for` -/
def deviceConsistencyCodeGenerateFor (h : Sha512) (q : Qsort DeviceConsistencySignature) (commitment : DeviceConsistencyCommitment)
    (signatures : List DeviceConsistencySignature) : Except Int Bytes :=
  let sorted := q.sort signatureListSortComparator signatures
  let hash := h.digest ([0, 0] ++ commitment.serialized ++ (sorted.map (·.vrfOutput)).flatten)
  if hash.length < 10 then .error sgErrUnknown else .ok (([0, 5].flatMap (encodedChunk hash)).take 6)

end Osp.Signal
