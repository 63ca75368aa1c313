import Osp.Lib.Bytes

/-!
# Keys, the crypto provider and HKDF

`signal_protocol.h` (error codes, `signal_crypto_provider`), `curve.c` and `hkdf.c`. A function that can fail returns the
source's negative code; allocation does not fail. The provider's callbacks and the curve operations are parameters: HMAC is a
function with 32-byte output, and a key pair is generated from the private key that the random callback gave.
-/

namespace Osp.Signal

/-! ## Error codes -/

/-- `SG_ERR_INVAL` -/
def sgErrInval : Int := -22
/-- `SG_ERR_UNKNOWN` -/
def sgErrUnknown : Int := -1000
/-- `SG_ERR_DUPLICATE_MESSAGE` -/
def sgErrDuplicateMessage : Int := -1001
/-- `SG_ERR_INVALID_KEY` -/
def sgErrInvalidKey : Int := -1002
/-- `SG_ERR_INVALID_KEY_ID` -/
def sgErrInvalidKeyId : Int := -1003
/-- `SG_ERR_INVALID_MESSAGE` -/
def sgErrInvalidMessage : Int := -1005
/-- `SG_ERR_INVALID_VERSION` -/
def sgErrInvalidVersion : Int := -1006
/-- `SG_ERR_LEGACY_MESSAGE` -/
def sgErrLegacyMessage : Int := -1007
/-- `SG_ERR_NO_SESSION` -/
def sgErrNoSession : Int := -1008
/-- `SG_ERR_UNTRUSTED_IDENTITY` -/
def sgErrUntrustedIdentity : Int := -1010
/-- `SG_ERR_INVALID_PROTO_BUF` -/
def sgErrInvalidProtoBuf : Int := -1100

/-! ## Curve keys -/

/-- `DJB_KEY_LEN` -/
def djbKeyLen : Nat := 32

/-- `DJB_TYPE` -/
def djbType : UInt8 := 0x05

/-- `ec_public_key` -/
structure EcPublicKey where
  data : Bytes
  length_data : data.length = djbKeyLen
deriving DecidableEq

/-- `ec_private_key` -/
structure EcPrivateKey where
  data : Bytes
  length_data : data.length = djbKeyLen
deriving DecidableEq

/-- `ec_key_pair`, and `ratchet_identity_key_pair`, which has the same two members. -/
structure EcKeyPair where
  publicKey : EcPublicKey
  privateKey : EcPrivateKey
deriving DecidableEq

/-- `curve_decode_point` -/
def curveDecodePoint (keyData : Bytes) : Except Int EcPublicKey :=
  match keyData with
  | [] => .error sgErrInvalidKey
  | type :: data =>
    if type ≠ djbType then .error sgErrInvalidKey
    else if h : data.length = djbKeyLen then .ok ⟨data, h⟩
    else .error sgErrInvalidKey

/-- `ec_public_key_serialize` and `ec_public_key_serialize_protobuf` -/
def EcPublicKey.serialize (key : EcPublicKey) : Bytes := djbType :: key.data

/-- `curve_decode_private_point` -/
def curveDecodePrivatePoint (keyData : Bytes) : Except Int EcPrivateKey :=
  if h : keyData.length = djbKeyLen then .ok ⟨keyData, h⟩ else .error sgErrInvalidKey

/-- `ec_private_key_serialize` and `ec_private_key_serialize_protobuf` -/
def EcPrivateKey.serialize (key : EcPrivateKey) : Bytes := key.data

@[simp] theorem curveDecodePoint_serialize (key : EcPublicKey) : curveDecodePoint key.serialize = .ok key := by
  simp [curveDecodePoint, EcPublicKey.serialize, key.length_data]

@[simp] theorem curveDecodePrivatePoint_serialize (key : EcPrivateKey) :
    curveDecodePrivatePoint key.serialize = .ok key := by
  simp [curveDecodePrivatePoint, EcPrivateKey.serialize, key.length_data]

/-! ## The crypto provider -/

/-- The cipher argument of `signal_encrypt` and `signal_decrypt`. -/
inductive Cipher
  | aesCtrNoPadding
  | aesCbcPkcs5
deriving DecidableEq

/-- The callbacks of `signal_crypto_provider` that the library uses, and the curve operations of `curve25519-donna` and
`curve_sigs`. `sign` takes the 64 bytes of randomness the source draws. -/
structure CryptoProvider where
  hmacSha256 : Bytes → Bytes → Bytes
  length_hmacSha256 : ∀ key message, (hmacSha256 key message).length = 32
  encrypt : Cipher → (key iv plaintext : Bytes) → Except Int Bytes
  decrypt : Cipher → (key iv ciphertext : Bytes) → Except Int Bytes
  publicKey : EcPrivateKey → EcPublicKey
  agreement : EcPublicKey → EcPrivateKey → Bytes
  sign : EcPrivateKey → (message random : Bytes) → Bytes
  length_sign : ∀ key message random, (sign key message random).length = 64
  verify : EcPublicKey → (message signature : Bytes) → Bool

/-- The assumptions on the primitives: agreement is commutative, decryption undoes encryption, and a signature verifies. -/
structure CryptoProvider.Lawful (p : CryptoProvider) : Prop where
  agreement_comm : ∀ a b, p.agreement (p.publicKey a) b = p.agreement (p.publicKey b) a
  decrypt_encrypt : ∀ cipher key iv plaintext ciphertext, p.encrypt cipher key iv plaintext = .ok ciphertext →
    p.decrypt cipher key iv ciphertext = .ok plaintext
  verify_sign : ∀ key message random, p.verify (p.publicKey key) message (p.sign key message random) = true

variable (p : CryptoProvider)

/-- `curve_generate_key_pair`, from the private key that was drawn. -/
def curveGenerateKeyPair (random : EcPrivateKey) : EcKeyPair := ⟨p.publicKey random, random⟩

/-- `curve_verify_signature`: a signature of another length is refused with `SG_ERR_INVAL`. -/
def curveVerifySignature (signingKey : EcPublicKey) (message signature : Bytes) : Except Int Bool :=
  if signature.length ≠ 64 then .error sgErrInval else .ok (p.verify signingKey message signature)

/-! ## HKDF -/

/-- `hkdf_context`: the first value of the block counter. -/
structure HkdfContext where
  iterationStartOffset : Fin 2
deriving DecidableEq

/-- The context of message version 3. -/
abbrev HkdfContext.three : HkdfContext := ⟨1⟩

/-- `hkdf_create` -/
def hkdfCreate (messageVersion : UInt32) : Except Int HkdfContext :=
  if messageVersion = 2 then .ok ⟨0⟩
  else if messageVersion = 3 then .ok ⟨1⟩
  else .error sgErrInval

/-- `hkdf_extract` -/
def hkdfExtract (salt inputKeyMaterial : Bytes) : Bytes := p.hmacSha256 salt inputKeyMaterial

/-- The loop of `hkdf_expand`: `n` more rounds from counter `i`, after the block `step`, for `remaining` more bytes. -/
def hkdfExpandLoop (p : CryptoProvider) (prk info : Bytes) : Nat → UInt8 → Bytes → Nat → Bytes
  | 0, _, _, _ => []
  | n + 1, i, step, remaining =>
    let block := p.hmacSha256 prk (step ++ info ++ [i])
    let stepSize := min remaining block.length
    block.take stepSize ++ hkdfExpandLoop p prk info n (i + 1) block (remaining - stepSize)

/-- `hkdf_expand`, for outputs of up to 254 blocks: there the loop's `uint8_t` counter does not wrap. -/
def hkdfExpand (context : HkdfContext) (prk info : Bytes) (outputLen : Nat) : Bytes :=
  hkdfExpandLoop p prk info ((outputLen + 31) / 32) (UInt8.ofNat context.iterationStartOffset) [] outputLen

/-- The variables of the loop: the counter, the last block, the output so far and how much of it is missing. -/
structure HkdfLoop where
  i : UInt8
  step : Bytes
  output : Bytes
  remaining : Nat

variable (prk info : Bytes)

/-- The body of the loop. -/
def HkdfLoop.next (s : HkdfLoop) : HkdfLoop :=
  let block := p.hmacSha256 prk (s.step ++ info ++ [s.i])
  let stepSize := min s.remaining block.length
  ⟨s.i + 1, block, s.output ++ block.take stepSize, s.remaining - stepSize⟩

/-- The loop, with its test before each of at most `n` rounds. -/
def HkdfLoop.run (bound : Nat) : Nat → HkdfLoop → Option Bytes
  | n, s => if s.i.toNat < bound then match n with | 0 => none | n + 1 => run bound n (s.next p prk info) else some s.output

/-- `hkdf_expand`, if it returns within `n` rounds. -/
def hkdfExpandWithin (n : Nat) (context : HkdfContext) (outputLen : Nat) : Option Bytes :=
  HkdfLoop.run p prk info ((outputLen + 31) / 32 + context.iterationStartOffset) n
    ⟨UInt8.ofNat context.iterationStartOffset, [], [], outputLen⟩

/-- `hkdf_derive_secrets` -/
def hkdfDeriveSecrets (context : HkdfContext) (inputKeyMaterial salt info : Bytes) (outputLen : Nat) :
    Bytes :=
  hkdfExpand p context (hkdfExtract p salt inputKeyMaterial) info outputLen

theorem length_hkdfExpandLoop (n : Nat) (i : UInt8) (step : Bytes) (remaining : Nat) :
    (hkdfExpandLoop p prk info n i step remaining).length = min remaining (32 * n) := by
  induction n generalizing i step remaining with
  | zero => simp [hkdfExpandLoop]
  | succ n ih =>
    rw [hkdfExpandLoop]
    simp only [List.length_append, List.length_take, ih, p.length_hmacSha256]
    omega

/-- The derived secret has the length that was asked for. -/
@[simp] theorem length_hkdfDeriveSecrets (context : HkdfContext) (ikm salt info : Bytes) (n : Nat) :
    (hkdfDeriveSecrets p context ikm salt info n).length = n := by
  rw [hkdfDeriveSecrets, hkdfExpand, length_hkdfExpandLoop]
  omega

end Osp.Signal
