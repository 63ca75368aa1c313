import Osp.Freeradius.Theorems.IdAlloc
import Osp.Freeradius.Theorems.PairmoveConserves
import Osp.Freeradius.Theorems.PasswordHiding
import Osp.Freeradius.Theorems.PolicyInterpreter
import Osp.Freeradius.Theorems.RbtreeWalk
import Osp.Freeradius.Theorems.SignVerify
import Osp.Lighttpd.Theorems.ChunkedAccept
import Osp.Lighttpd.Theorems.ChunkedResponse
import Osp.Lighttpd.Theorems.ChunkedSafety
import Osp.Lighttpd.Theorems.Confinement
import Osp.Lighttpd.Theorems.EtagComparison
import Osp.Lighttpd.Theorems.ForwardedAddress
import Osp.Lighttpd.Theorems.Framing
import Osp.Lighttpd.Theorems.HeaderExtraction
import Osp.Lighttpd.Theorems.KeepAlive
import Osp.Lighttpd.Theorems.PercentMeaning
import Osp.Lighttpd.Theorems.RangeResponse
import Osp.Lighttpd.Theorems.UrlNormalize
import Osp.Openssh.Theorems.MatchPattern
import Osp.Openssh.Theorems.ReceiveCredit
import Osp.Pppd.Theorems.AuthenticatorSoundness
import Osp.Pppd.Theorems.ClientSoundness
import Osp.Pppd.Theorems.Fragments
import Osp.Pppd.Theorems.Negotiation
import Osp.Signal.Theorems.Archive
import Osp.Signal.Theorems.AtMostOnce
import Osp.Signal.Theorems.Atomicity
import Osp.Signal.Theorems.BaseKeys
import Osp.Signal.Theorems.Delivery
import Osp.Signal.Theorems.Fingerprints
import Osp.Signal.Theorems.GroupDelivery
import Osp.Signal.Theorems.GroupReplay
import Osp.Signal.Theorems.Hkdf
import Osp.Signal.Theorems.Malformed
import Osp.Signal.Theorems.PreKeyIds
import Osp.Signal.Theorems.SkippedKeys
import Osp.Signal.Theorems.StoredSessions
import Osp.Signal.Theorems.WireMessages
import Osp.Websocketpp.Theorems.ClosePayload
import Osp.Websocketpp.Theorems.ClosingHandshake
import Osp.Websocketpp.Theorems.Lifecycle
import Osp.Websocketpp.Theorems.RequestChunking
import Osp.Websocketpp.Theorems.SizeLimit
import Osp.Websocketpp.Theorems.TextDelivery
import Osp.Websocketpp.Theorems.UriRoundTrip
import Osp.Websocketpp.Theorems.Utf8Chunks
import Osp.Websocketpp.Theorems.WordMask
import Osp.Websocketpp.Theorems.WriteOrder
