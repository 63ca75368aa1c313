import Osp.Signal.Ratchet

/-!
# The state of a session

`session_state.c` without its serialisation, and the two initialisers of `ratchet.c`. Pointers that may be null are options.
Members that the source guards by a `has_` flag and keeps zeroed while the flag is clear are options too.
-/

namespace Osp.Signal

open Osp.Lib

/-- `session_state_sender_chain` -/
structure SenderChain where
  senderRatchetKeyPair : Option EcKeyPair
  chainKey : Option RatchetChainKey
deriving DecidableEq

/-- `session_state_receiver_chain`, its list of message keys oldest first. -/
structure ReceiverChain where
  senderRatchetKey : Option EcPublicKey
  chainKey : Option RatchetChainKey
  messageKeys : List RatchetMessageKeys
deriving DecidableEq

/-- `session_pending_key_exchange` -/
structure PendingKeyExchange where
  sequence : UInt32
  localBaseKey : Option EcKeyPair
  localRatchetKey : Option EcKeyPair
  localIdentityKey : Option EcKeyPair
deriving DecidableEq

/-- `session_pending_pre_key` -/
structure PendingPreKey where
  preKeyId : Option UInt32
  signedPreKeyId : UInt32
  baseKey : Option EcPublicKey
deriving DecidableEq

/-- `session_state` -/
structure SessionState where
  sessionVersion : UInt32
  localIdentityPublic : Option EcPublicKey
  remoteIdentityPublic : Option EcPublicKey
  rootKey : Option RatchetRootKey
  previousCounter : UInt32
  senderChain : Option SenderChain
  receiverChains : List ReceiverChain
  pendingKeyExchange : Option PendingKeyExchange
  pendingPreKey : Option PendingPreKey
  remoteRegistrationId : UInt32
  localRegistrationId : UInt32
  needsRefresh : Bool
  aliceBaseKey : Option EcPublicKey
deriving DecidableEq

variable (state : SessionState) (senderEphemeral : EcPublicKey)

namespace SessionState

/-- `MAX_MESSAGE_KEYS` -/
def maxMessageKeys : Nat := 2000

/-- The bound on the receiver chains in `session_state_add_receiver_chain`. -/
def maxReceiverChains : Nat := 5

/-- `session_state_create` -/
def create : SessionState where
  sessionVersion := 2
  localIdentityPublic := none
  remoteIdentityPublic := none
  rootKey := none
  previousCounter := 0
  senderChain := none
  receiverChains := []
  pendingKeyExchange := none
  pendingPreKey := none
  remoteRegistrationId := 0
  localRegistrationId := 0
  needsRefresh := false
  aliceBaseKey := none

/-! ## The sender chain -/

/-- `session_state_get_sender_ratchet_key_pair` -/
def getSenderRatchetKeyPair : Option EcKeyPair :=
  state.senderChain.bind SenderChain.senderRatchetKeyPair

/-- `session_state_get_sender_ratchet_key` -/
def getSenderRatchetKey : Option EcPublicKey :=
  state.getSenderRatchetKeyPair.map EcKeyPair.publicKey

/-- `session_state_get_sender_chain_key` -/
def getSenderChainKey : Option RatchetChainKey :=
  state.senderChain.bind SenderChain.chainKey

/-- `session_state_set_sender_chain` -/
def setSenderChain (senderRatchetKeyPair : EcKeyPair) (chainKey : RatchetChainKey) : SessionState :=
  { state with senderChain := some ⟨some senderRatchetKeyPair, some chainKey⟩ }

/-- `session_state_set_sender_chain_key` -/
def setSenderChainKey (chainKey : RatchetChainKey) : Except Int SessionState :=
  match state.senderChain with
  | some chain => .ok { state with senderChain := some { chain with chainKey := some chainKey } }
  | none => .error sgErrUnknown

end SessionState

/-! ## The receiver chains -/

/-- The test of `session_state_find_receiver_chain`: `ec_public_key_compare` of the chain's key, which may be null. -/
def ReceiverChain.isFor (chain : ReceiverChain) : Bool :=
  chain.senderRatchetKey == some senderEphemeral

namespace SessionState

/-- `session_state_find_receiver_chain` -/
def findReceiverChain : Option ReceiverChain :=
  state.receiverChains.find? (ReceiverChain.isFor senderEphemeral)

/-- A change of the chain that `session_state_find_receiver_chain` finds, if it finds one. -/
def updateReceiverChain (f : ReceiverChain → ReceiverChain) :
    SessionState :=
  { state with receiverChains := updateFirst (ReceiverChain.isFor senderEphemeral) f state.receiverChains }

/-- `session_state_get_receiver_chain_key` -/
def getReceiverChainKey : Option RatchetChainKey :=
  (state.findReceiverChain senderEphemeral).bind ReceiverChain.chainKey

/-- `session_state_remove_message_keys`: the message keys of that counter and the state without them. -/
def removeMessageKeys (counter : UInt32) :
    Option (RatchetMessageKeys × SessionState) :=
  match state.findReceiverChain senderEphemeral with
  | none => none
  | some chain =>
    match chain.messageKeys.find? (·.counter == counter) with
    | none => none
    | some keys => some (keys, state.updateReceiverChain senderEphemeral fun chain =>
        { chain with messageKeys := chain.messageKeys.eraseP (·.counter == counter) })

/-- `session_state_set_message_keys`: appended, then the oldest are dropped while there are more than `MAX_MESSAGE_KEYS`; nothing
happens when there is no such chain. -/
def setMessageKeys (messageKeys : RatchetMessageKeys) : SessionState :=
  state.updateReceiverChain senderEphemeral fun chain =>
    { chain with messageKeys := lastN maxMessageKeys (chain.messageKeys ++ [messageKeys]) }

/-- `session_state_add_receiver_chain`: appended, then the oldest are dropped while there are more than five. -/
def addReceiverChain (senderRatchetKey : EcPublicKey) (chainKey : RatchetChainKey) : SessionState :=
  { state with
    receiverChains := lastN maxReceiverChains (state.receiverChains ++ [⟨some senderRatchetKey, some chainKey, []⟩]) }

/-- `session_state_set_receiver_chain_key` -/
def setReceiverChainKey (chainKey : RatchetChainKey) :
    Except Int SessionState :=
  match state.findReceiverChain senderEphemeral with
  | none => .error sgErrUnknown
  | some _ => .ok (state.updateReceiverChain senderEphemeral fun chain => { chain with chainKey := some chainKey })

/-! ## The other members -/

/-- `session_state_set_pending_key_exchange` -/
def setPendingKeyExchange (sequence : UInt32) (ourBaseKey ourRatchetKey ourIdentityKey : EcKeyPair) :
    SessionState :=
  { state with pendingKeyExchange := some ⟨sequence, some ourBaseKey, some ourRatchetKey, some ourIdentityKey⟩ }

/-- `session_state_set_unacknowledged_pre_key_message` -/
def setUnacknowledgedPreKeyMessage (preKeyId : Option UInt32) (signedPreKeyId : UInt32)
    (baseKey : EcPublicKey) : SessionState :=
  { state with pendingPreKey := some ⟨preKeyId, signedPreKeyId, some baseKey⟩ }

/-- `session_state_clear_unacknowledged_pre_key_message` -/
def clearUnacknowledgedPreKeyMessage : SessionState := { state with pendingPreKey := none }

end SessionState

/-! ## Initialisation -/

/-- `alice_signal_protocol_parameters` -/
structure AliceParameters where
  ourIdentityKey : EcKeyPair
  ourBaseKey : EcKeyPair
  theirIdentityKey : EcPublicKey
  theirSignedPreKey : EcPublicKey
  theirOneTimePreKey : Option EcPublicKey
  theirRatchetKey : EcPublicKey

/-- `bob_signal_protocol_parameters` -/
structure BobParameters where
  ourIdentityKey : EcKeyPair
  ourSignedPreKey : EcKeyPair
  ourOneTimePreKey : Option EcKeyPair
  ourRatchetKey : EcKeyPair
  theirIdentityKey : EcPublicKey
  theirBaseKey : EcPublicKey

/-- `discontinuity_data` -/
def discontinuityData : Bytes := List.replicate 32 0xFF

/-- `CIPHERTEXT_CURRENT_VERSION` -/
def ciphertextCurrentVersion : UInt32 := 3

/-- The secret that `ratcheting_session_alice_initialize` gathers. -/
def AliceParameters.secret (p : CryptoProvider) (parameters : AliceParameters) : Bytes :=
  discontinuityData ++
  p.agreement parameters.theirSignedPreKey parameters.ourIdentityKey.privateKey ++
  p.agreement parameters.theirIdentityKey parameters.ourBaseKey.privateKey ++
  p.agreement parameters.theirSignedPreKey parameters.ourBaseKey.privateKey ++
  match parameters.theirOneTimePreKey with
  | some key => p.agreement key parameters.ourBaseKey.privateKey
  | none => []

/-- The secret that `ratcheting_session_bob_initialize` gathers. -/
def BobParameters.secret (p : CryptoProvider) (parameters : BobParameters) : Bytes :=
  discontinuityData ++
  p.agreement parameters.theirIdentityKey parameters.ourSignedPreKey.privateKey ++
  p.agreement parameters.theirBaseKey parameters.ourIdentityKey.privateKey ++
  p.agreement parameters.theirBaseKey parameters.ourSignedPreKey.privateKey ++
  match parameters.ourOneTimePreKey with
  | some pair => p.agreement parameters.theirBaseKey pair.privateKey
  | none => []

/-- `ratcheting_session_alice_initialize`; `random` is the private half of the sending ratchet key. -/
def ratchetingSessionAliceInitialize (p : CryptoProvider) (random : EcPrivateKey) (state : SessionState)
    (parameters : AliceParameters) : SessionState :=
  let sendingRatchetKey := curveGenerateKeyPair p random
  let (derivedRoot, derivedChain) := calculateDerivedKeys p (parameters.secret p)
  let (sendingChainRoot, sendingChainKey) :=
    derivedRoot.createChain p parameters.theirRatchetKey sendingRatchetKey.privateKey
  let state := state.addReceiverChain parameters.theirRatchetKey derivedChain
  let state := { state with
    sessionVersion := ciphertextCurrentVersion
    remoteIdentityPublic := some parameters.theirIdentityKey
    localIdentityPublic := some parameters.ourIdentityKey.publicKey }
  { state.setSenderChain sendingRatchetKey sendingChainKey with rootKey := some sendingChainRoot }

/-- `ratcheting_session_bob_initialize` -/
def ratchetingSessionBobInitialize (p : CryptoProvider) (state : SessionState) (parameters : BobParameters) : SessionState :=
  let (derivedRoot, derivedChain) := calculateDerivedKeys p (parameters.secret p)
  let state := { state with
    sessionVersion := ciphertextCurrentVersion
    remoteIdentityPublic := some parameters.theirIdentityKey
    localIdentityPublic := some parameters.ourIdentityKey.publicKey }
  { state.setSenderChain parameters.ourRatchetKey derivedChain with rootKey := some derivedRoot }

end Osp.Signal
