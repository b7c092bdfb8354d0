import Lktrs.Foundation.Outcome
import Lktrs.Foundation.Bytes
import Lktrs.Foundation.Sha256
import Lktrs.Foundation.TextCodec
import Lktrs.Foundation.PointGroup
import Lktrs.Foundation.Primality
import Lktrs.Foundation.Residues
import Lktrs.Foundation.Gadgets
import Lktrs.Foundation.ExponentGroup
import Lktrs.Foundation.Json
import Lktrs.Foundation.JsonRoundTrip
import Lktrs.Foundation.JsonIndent
import Lktrs.Foundation.JsonSize
import Lktrs.Foundation.JsonDecode
import Lktrs.Foundation.JsonReorder
import Lktrs.Foundation.Runs
import Lktrs.Foundation.Maps
import Lktrs.Foundation.Frames
import Lktrs.Foundation.PrimeGroup
import Lktrs.NativeProof.Orders
import Lktrs.NativeProof.Curves
import Lktrs.NativeProof.Profile
import Lktrs.NativeProof.Accumulator
import Lktrs.NativeProof.Circuit
import Lktrs.NativeProof.Backend
import Lktrs.NativeProof.Statements
import Lktrs.NativeProof.CircuitSpec
import Lktrs.NativeProof.HostCircuit
import Lktrs.NativeProof.ExponentModel
import Lktrs.NativeProof.Snapshots
import Lktrs.NativeProof.PowersOfTau
import Lktrs.NativeProof.SetupEncoding
import Lktrs.NativeProof.Protocol
import Lktrs.NativeProof.Tracing
import Lktrs.NativeProof.Registrations
import Lktrs.NativeProof.StrictJson
import Lktrs.NativeProof.CanonicalText
import Lktrs.NativeProof.Vault
import Lktrs.NativeProof.VaultRun
import Lktrs.NativeProof.VaultSize
import Lktrs.NativeProof.KeyLayout
import Lktrs.NativeProof.Setup
import Lktrs.NativeProof.Wire
import Lktrs.NativeProof.Trust
import Lktrs.NativeProof.HashInputs
import Lktrs.NativeProof.Enrollments
import Lktrs.NativeProof.TrustChecks
import Lktrs.NativeProof.PublicContext
import Lktrs.NativeProof.AuthorizedVerification
import Lktrs.NativeProof.ServiceLedger
import Lktrs.NativeProof.Service
import Lktrs.NativeProof.SetupPin
import Lktrs.NativeProof.ServiceSteps
import Lktrs.NativeProof.ServiceChecks
import Lktrs.NativeProof.ServiceRun
import Lktrs.NativeProof.ServiceQuota
import Lktrs.NativeProof.ServiceRing
import Lktrs.NativeProof.ServiceFailures
import Lktrs.NativeProof.ServiceAgreement
import Lktrs.Protocol.NativeProcess
import Lktrs.Protocol.LifetimePrograms
import Lktrs.Protocol.NativeExchange
import Lktrs.Protocol.NativeRequests
import Lktrs.Protocol.NativeRuns
import Lktrs.Protocol.Elements
import Lktrs.Protocol.Accumulator
import Lktrs.Protocol.AccumulatorSpec
import Lktrs.Protocol.AccumulatorRuns
import Lktrs.Protocol.Hashing
import Lktrs.Protocol.Ddh
import Lktrs.Protocol.Clear
import Lktrs.Protocol.ClearMoves
import Lktrs.Protocol.ClearRuns
import Lktrs.Protocol.ClearSigning
import Lktrs.Protocol.ClearQuota
import Lktrs.Protocol.ClearTracing
import Lktrs.Protocol.Sha256
import Lktrs.Foundation.SelfDelimiting
import Lktrs.Protocol.Transcripts
import Lktrs.Foundation.Scan
import Lktrs.Protocol.Serialization
import Lktrs.NativeProof.KeyScan
import Lktrs.NativeProof.ProvingScan
import Lktrs.NativeProof.Ceremony
import Lktrs.NativeProof.Openings
import Lktrs.NativeProof.VaultSigning
import Lktrs.NativeProof.Responses
import Lktrs.NativeProof.ServiceClients
import Lktrs.NativeProof.DemoServer
