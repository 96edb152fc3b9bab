import Remoting.Call.Scripted
import Remoting.Client.Caller
import Remoting.Interface.Catalogue
import Remoting.Interface.Surface
import Remoting.Loopback
import Remoting.Proofs.Format
import Remoting.Sample.Catalogue
import Remoting.Proofs.WireFormat
import Remoting.Proofs.ValueParts
import Remoting.Proofs.DecoderAcceptance
import Remoting.Proofs.Emission
import Remoting.Proofs.EncoderEmission
import Remoting.Proofs.WordSizes
import Remoting.Proofs.EncodedSize
import Remoting.Proofs.EncoderSpelling
import Remoting.Proofs.RoundTrip
import Remoting.Proofs.Canonicity
import Remoting.Proofs.DescribedMethods
import Remoting.Proofs.MethodCodecs
import Remoting.Proofs.CompiledTree
import Remoting.Proofs.CallerPlans
import Remoting.Proofs.EndpointHandlers
import Remoting.Proofs.CallSlots
import Remoting.Proofs.Exchange
import Remoting.Proofs.Replies
import Remoting.Proofs.LoopbackAgreement
import Remoting.Proofs.BoundsAgreement
import Remoting.Proofs.FreshAnswers
import Remoting.Proofs.EndpointHistory
import Remoting.Proofs.ResponseStatus
import Remoting.Proofs.PathText
import Remoting.Proofs.DescribedNames
import Remoting.Proofs.Routes
import Remoting.Proofs.TypeLayers
import Remoting.Proofs.MethodShapes
import Remoting.Proofs.ValidShapes
import Remoting.Proofs.ClosedTypes
import Remoting.Proofs.ArgumentGates
import Remoting.Proofs.MemberResolution
import Remoting.Proofs.WitnessGrammar
import Remoting.Proofs.CodecErrors
import Remoting.Proofs.CodecCoverage
import Remoting.Proofs.SpecializationFailures
import Remoting.Proofs.WellFormedCalls
import Remoting.Proofs.RegisteredSet
import Remoting.Proofs.PublishedSurface
import Remoting.Proofs.Locality
import Remoting.Proofs.DecodedSize
import Remoting.Proofs.WrittenPieces
import Remoting.Proofs.KeptEntries
import Remoting.Proofs.KeptSpecializations
import Remoting.Proofs.CallAttempts
import Remoting.Proofs.ClientSessions
import Remoting.Proofs.ClientCaches
import Remoting.Proofs.SentRequests
import Remoting.Proofs.FirstSuccesses
import Remoting.Proofs.KeyedCaches
import Remoting.Proofs.KeptInterfaces
