import TokenKit.Lib.AssocList
import TokenKit.Lib.StepMachine
import TokenKit.Lib.FirstSlot
import TokenKit.Lib.SortedSplit
import TokenKit.Lib.Pairs
import TokenKit.Lib.Pointwise
import TokenKit.Lib.Results
import TokenKit.Revocation
import TokenKit.RevocationLog
import TokenKit.Error
import TokenKit.Claims
import TokenKit.Backend
import TokenKit.TransparentBackend
import TokenKit.Service
import TokenKit.ServiceRun
import TokenKit.Redis
import TokenKit.Jwks
import TokenKit.JwksHistory
import TokenKit.Proofs.Store
import TokenKit.Proofs.Capacity
import TokenKit.Proofs.Queue
import TokenKit.Proofs.Repeat
import TokenKit.Proofs.Window
import TokenKit.Proofs.Backends
import TokenKit.Proofs.RoundTrip
import TokenKit.Proofs.Reading
import TokenKit.Proofs.Minting
import TokenKit.Proofs.Rotation
import TokenKit.Proofs.KidPin
import TokenKit.Proofs.KeyPairs
import TokenKit.Proofs.RevokedToken
import TokenKit.Proofs.StaticKeys
import TokenKit.Proofs.Installed
import TokenKit.Proofs.Lookups
import TokenKit.Proofs.Flood
import TokenKit.Proofs.Versions
import TokenKit.Proofs.SingleFlight
import TokenKit.RedisConnections
import TokenKit.Proofs.RedisSteps
import TokenKit.Proofs.Reconnect
import TokenKit.Proofs.AloneCall
import TokenKit.Proofs.EntryKeys
import TokenKit.Proofs.Acceptance
import TokenKit.Proofs.Checks
import TokenKit.Proofs.RequiredClaims
import TokenKit.Proofs.NoAudience
import TokenKit.Proofs.TwoReadings
import TokenKit.Proofs.Published
import TokenKit.Proofs.KeyOrder
import TokenKit.Proofs.Reasons
import TokenKit.Proofs.Expiry
import TokenKit.Proofs.Evictable
import TokenKit.Proofs.Observers
import TokenKit.Proofs.Resets
import TokenKit.Proofs.Failures
import TokenKit.Proofs.RedisAnswers
import TokenKit.Proofs.JwksAnswers
import TokenKit.Proofs.Overlap
import TokenKit.Proofs.Turnover
import TokenKit.Proofs.AddedKey
import TokenKit.Proofs.ForcedRefresh
import TokenKit.Proofs.JwksProgress
import TokenKit.Proofs.Lifetime
import TokenKit.Proofs.Loosening
import TokenKit.Proofs.RedisProgress
import TokenKit.Extractors
import TokenKit.Proofs.Extractors
import TokenKit.Proofs.RequestRate
import TokenKit.Proofs.StaysRejected
import TokenKit.Proofs.StaticService
