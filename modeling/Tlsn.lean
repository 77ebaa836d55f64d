import Tlsn.Lib.RangeSet
import Tlsn.Lib.AssocMap
import Tlsn.Lib.Outcome
import Tlsn.Lib.Codec
import Tlsn.Lib.Sharing
import Tlsn.Lib.KeyedCounter
import Tlsn.Lib.Framing
import Tlsn.Lib.FreshPool
import Tlsn.Lib.MerkleDamgard
import Tlsn.Lib.Hmac
import Tlsn.Lib.Interaction
import Tlsn.Core.Transcript
import Tlsn.Core.Commitment
import Tlsn.Core.Session
import Tlsn.Core.Substrings
import Tlsn.Core.SubstringsSafety
import Tlsn.Tls.Base
import Tlsn.Tls.KeyExchange
import Tlsn.Tls.Extensions
import Tlsn.Tls.Handshake
import Tlsn.Core.SessionProof
import Tlsn.UniversalHash.Ghash
import Tlsn.UniversalHash.GhashInner
import Tlsn.Aead.AesGcm
import Tlsn.Mpc.RecordLayer
import Tlsn.Mpc.Follower
import Tlsn.Mpc.FollowerRuns
import Tlsn.Mpc.Leader
import Tlsn.Mpc.Lockstep
import Tlsn.Cipher.StreamCipher
import Tlsn.Cipher.KeyStream
import Tlsn.Cipher.BlockCipher
import Tlsn.Aead.Tag
import Tlsn.Mpc.TranscriptIds
import Tlsn.Tls.Deframer
import Tlsn.Verifier.Receive
import Tlsn.Prf.HmacSha256
import Tlsn.KeyExchange.PointAddition
import Tlsn.KeyExchange.Exchange
import Tlsn.Tls.Fragments
import Tlsn.Notary.Service
import Tlsn.Formats.Commit
