import Osp.Signal.SessionCipher

/-!
# The operations on sessions

Everything that `session_state.h`, `session_record.h`, `ratchet.h`, the session builder and the session cipher offer to change a
state or a record, and the records that can be made with it. A state of its own is the current state of a record that
`session_record_create` makes for it.
-/

namespace Osp.Signal

open Osp.Lib

/-- An operation that changes a state in place. -/
inductive StateOperation
  | setSessionVersion (version : UInt32)
  | setLocalIdentityKey (key : EcPublicKey)
  | setRemoteIdentityKey (key : EcPublicKey)
  | setRootKey (rootKey : RatchetRootKey)
  | setPreviousCounter (counter : UInt32)
  | setSenderChain (senderRatchetKeyPair : EcKeyPair) (chainKey : RatchetChainKey)
  | setSenderChainKey (chainKey : RatchetChainKey)
  | removeMessageKeys (senderEphemeral : EcPublicKey) (counter : UInt32)
  | setMessageKeys (senderEphemeral : EcPublicKey) (messageKeys : RatchetMessageKeys)
  | addReceiverChain (senderRatchetKey : EcPublicKey) (chainKey : RatchetChainKey)
  | setReceiverChainKey (senderEphemeral : EcPublicKey) (chainKey : RatchetChainKey)
  | setPendingKeyExchange (sequence : UInt32) (ourBaseKey ourRatchetKey ourIdentityKey : EcKeyPair)
  | setUnacknowledgedPreKeyMessage (preKeyId : Option UInt32) (signedPreKeyId : UInt32) (baseKey : EcPublicKey)
  | clearUnacknowledgedPreKeyMessage
  | setRemoteRegistrationId (id : UInt32)
  | setLocalRegistrationId (id : UInt32)
  | setNeedsRefresh (value : Bool)
  | setAliceBaseKey (key : EcPublicKey)
  | aliceInitialize (random : EcPrivateKey) (parameters : AliceParameters)
  | bobInitialize (parameters : BobParameters)

namespace SessionState

/-- The state after an operation. One that fails leaves the state as it was. -/
def apply (p : CryptoProvider) (state : SessionState) : StateOperation → SessionState
  | .setSessionVersion version => { state with sessionVersion := version }
  | .setLocalIdentityKey key => { state with localIdentityPublic := some key }
  | .setRemoteIdentityKey key => { state with remoteIdentityPublic := some key }
  | .setRootKey rootKey => { state with rootKey := some rootKey }
  | .setPreviousCounter counter => { state with previousCounter := counter }
  | .setSenderChain senderRatchetKeyPair chainKey => state.setSenderChain senderRatchetKeyPair chainKey
  | .setSenderChainKey chainKey =>
    match state.setSenderChainKey chainKey with
    | .ok state => state
    | .error _ => state
  | .removeMessageKeys senderEphemeral counter =>
    match state.removeMessageKeys senderEphemeral counter with
    | some (_, state) => state
    | none => state
  | .setMessageKeys senderEphemeral messageKeys => state.setMessageKeys senderEphemeral messageKeys
  | .addReceiverChain senderRatchetKey chainKey => state.addReceiverChain senderRatchetKey chainKey
  | .setReceiverChainKey senderEphemeral chainKey =>
    match state.setReceiverChainKey senderEphemeral chainKey with
    | .ok state => state
    | .error _ => state
  | .setPendingKeyExchange sequence ourBaseKey ourRatchetKey ourIdentityKey =>
    state.setPendingKeyExchange sequence ourBaseKey ourRatchetKey ourIdentityKey
  | .setUnacknowledgedPreKeyMessage preKeyId signedPreKeyId baseKey =>
    state.setUnacknowledgedPreKeyMessage preKeyId signedPreKeyId baseKey
  | .clearUnacknowledgedPreKeyMessage => state.clearUnacknowledgedPreKeyMessage
  | .setRemoteRegistrationId id => { state with remoteRegistrationId := id }
  | .setLocalRegistrationId id => { state with localRegistrationId := id }
  | .setNeedsRefresh value => { state with needsRefresh := value }
  | .setAliceBaseKey key => { state with aliceBaseKey := some key }
  | .aliceInitialize random parameters => ratchetingSessionAliceInitialize p random state parameters
  | .bobInitialize parameters => ratchetingSessionBobInitialize p state parameters

end SessionState

/-- The records that can be made when every operation on a state is of a kind. -/
inductive SessionRecord.Reachable (ctx : Context) (Ok : SessionState → StateOperation → Prop) : SessionRecord → Prop
  | create : Reachable ctx Ok (.create none)
  | createState {state : SessionState} :
    Reachable ctx Ok record → state ∈ record.states → Reachable ctx Ok (.create (some state))
  | deserialize {data : ctx.storage.record.Buffer} :
    SessionRecord.deserialize ctx.storage data = .ok record → Reachable ctx Ok record
  | deserializeState {data : ctx.storage.session.Buffer} {state : SessionState} :
    sessionStateDeserialize ctx.storage data = .ok state → Reachable ctx Ok (.create (some state))
  | change :
    Reachable ctx Ok record → Ok record.state operation →
      Reachable ctx Ok (record.setState (record.state.apply ctx.crypto operation))
  | changePrevious {state : SessionState} :
    Reachable ctx Ok record → record.previousStates[n]? = some state → Ok state operation →
      Reachable ctx Ok { record with previousStates := record.previousStates.set n (state.apply ctx.crypto operation) }
  | removePrevious :
    Reachable ctx Ok record → Reachable ctx Ok { record with previousStates := record.previousStates.eraseIdx n }
  | setState {state : SessionState} :
    Reachable ctx Ok record → Reachable ctx Ok other → state ∈ other.states → Reachable ctx Ok (record.setState state)
  | promoteState {state : SessionState} :
    Reachable ctx Ok record → Reachable ctx Ok other → state ∈ other.states → Reachable ctx Ok (record.promoteState state)
  | archiveCurrentState :
    Reachable ctx Ok record → Reachable ctx Ok record.archiveCurrentState
  | processPreKeyMessage {store : Store ctx} {preKeyId : Option UInt32} :
    store.loadSession address = .ok record → processPreKeySignalMessageV3 store record message = .ok (preKeyId, record') →
      Reachable ctx Ok record'
  | processBundle {store : Store ctx} :
    processPreKeyBundleRecord store address bundle randomBase randomRatchet identityKey = .ok record → Reachable ctx Ok record
  | encrypt {state : SessionState} :
    Reachable ctx Ok record → encryptWithState ctx record.state plaintext = .ok (message, state) →
      Reachable ctx Ok (record.setState state)
  | decrypt :
    Reachable ctx Ok record → decryptFromRecord ctx random record message = .ok (plaintext, record') →
      Reachable ctx Ok record'

end Osp.Signal
