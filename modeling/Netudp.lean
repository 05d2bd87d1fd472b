import Netudp.Proofs.AckSoundness
import Netudp.Proofs.AddressGrammar
import Netudp.Proofs.AtMostOnce
import Netudp.Proofs.Bandwidth
import Netudp.Proofs.Crc32c
import Netudp.Proofs.Flood
import Netudp.Proofs.Forgery
import Netudp.Proofs.FragmentOrder
import Netudp.Proofs.GroupPool
import Netudp.Proofs.KeyEpochs
import Netudp.Proofs.MessageSizes
import Netudp.Proofs.NetworkSim
import Netudp.Proofs.Ownership
import Netudp.Proofs.Pipeline
import Netudp.Proofs.Pool
import Netudp.Proofs.RateLimiter
import Netudp.Proofs.ReliableWindow
import Netudp.Proofs.Replication
import Netudp.Proofs.RttSamples
import Netudp.Proofs.SendWindow
import Netudp.Proofs.Sequenced
import Netudp.Proofs.ServerFallback
import Netudp.Proofs.Session
import Netudp.Proofs.Simd
import Netudp.Proofs.Slices
import Netudp.Proofs.SlotReuse
import Netudp.Proofs.Storage
import Netudp.Proofs.Timeouts
import Netudp.Proofs.TokenReplay
import Netudp.Proofs.Unordered
import Netudp.Proofs.ValueCodecs
