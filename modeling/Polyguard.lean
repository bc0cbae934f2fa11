import Polyguard.RequestLine.Agreement
import Polyguard.RequestTarget.Canonical
import Polyguard.BodyFraming.Agreement
import Polyguard.Header.Agreement
import Polyguard.Chunk.Agreement
import Polyguard.HopByHop.Agreement
import Polyguard.Telemetry.Agreement
import Polyguard.Upgrade.Agreement
import Polyguard.Authority.Soundness
import Polyguard.Route.Agreement
import Polyguard.Proxy.Agreement
import Polyguard.Proxy.Decoding
import Polyguard.Proxy.MemorySafety
import Polyguard.Proxy.Composition
import Polyguard.Proxy.Bodiless
import Polyguard.Proxy.Blame
import Polyguard.Trailer.Agreement
import Polyguard.Trailer.RadixOrder
import Polyguard.Bytes.AddressText
import Polyguard.Proxy.LegacyRoutes
import Polyguard.Proxy.Boundaries
import Polyguard.Nginx.Dispatch
import Polyguard.Nginx.AccessKept
import Polyguard.Nginx.Certificates
import Polyguard.Nginx.Includes
import Polyguard.Forwarding.Agreement
import Polyguard.Proxy.Guard
import Polyguard.Proxy.Ranges
import Polyguard.Proxy.Expansion
import Polyguard.Proxy.Rewriting
import Polyguard.Proxy.StaticPaths
import Polyguard.Proxy.Heads
import Polyguard.Proxy.ConfiguredHeaders
import Polyguard.Proxy.ServerNames
import Polyguard.Proxy.ResponseHeads
import Polyguard.Proxy.Compression
import Polyguard.Polyform.Selection
import Polyguard.Proxy.Untrusted
import Polyguard.Proxy.Server
import Polyguard.CanonicalHead.Agreement
import Polyguard.Proxy.Responses
import Polyguard.Proxy.Startup
import Polyguard.Nginx.Imported
