import ForgeswornLink.Lib.ByteString
import ForgeswornLink.Lib.Table
import ForgeswornLink.Lib.Renaming
import ForgeswornLink.Lib.Runs
import ForgeswornLink.Lib.Seats
import ForgeswornLink.Lib.Sections
import ForgeswornLink.Lib.OrderedChecks
import ForgeswornLink.Lib.InverseIndex
import ForgeswornLink.Lib.Expansion
import ForgeswornLink.Lib.NewestWins
import ForgeswornLink.Lib.Keyring
import ForgeswornLink.Lib.Filing
import ForgeswornLink.Lib.Shedding
import ForgeswornLink.Lib.Tally
import ForgeswornLink.Lib.CountedStream
import ForgeswornLink.Lib.Stamps
import ForgeswornLink.Lib.BitGroups
import ForgeswornLink.Lib.FramedStream
import ForgeswornLink.Lib.AsciiText
import ForgeswornLink.Lib.WhatwgPath
import ForgeswornLink.Lib.DotSegments
import ForgeswornLink.Lib.BoundedChannel
import ForgeswornLink.Lib.Stutter
import ForgeswornLink.Lib.RoundRobin
import ForgeswornLink.Identity
import ForgeswornLink.RelayFrame
import ForgeswornLink.Card
import ForgeswornLink.CardRules
import ForgeswornLink.CardBytes
import ForgeswornLink.CardIssue
import ForgeswornLink.Probe
import ForgeswornLink.TagBook
import ForgeswornLink.BookMaterial
import ForgeswornLink.BookAgreement
import ForgeswornLink.PairingLifecycle
import ForgeswornLink.CardRotation
import ForgeswornLink.BookSections
import ForgeswornLink.CacheTransparency
import ForgeswornLink.RelayPump
import ForgeswornLink.PumpUpdates
import ForgeswornLink.PumpEpoch
import ForgeswornLink.RelayUrl
import ForgeswornLink.BrowserPath
import ForgeswornLink.RelayClient
import ForgeswornLink.DriverSchedule
import ForgeswornLink.DriverPool
import ForgeswornLink.TagQueue
import ForgeswornLink.Relay
import ForgeswornLink.DerivationInputs
import ForgeswornLink.RelayRegistry
import ForgeswornLink.RelayRows
import ForgeswornLink.RelayAdmission
import ForgeswornLink.RelayModes
import ForgeswornLink.RelayNotices
import ForgeswornLink.RelayQueues
import ForgeswornLink.RelayDelivery
import ForgeswornLink.Paths
import ForgeswornLink.PathSocket
import ForgeswornLink.PathEffects
import ForgeswornLink.DirectSends
import ForgeswornLink.ProbeEffects
import ForgeswornLink.LearntAddresses
import ForgeswornLink.PongTiming
import ForgeswornLink.ProbeRates
import ForgeswornLink.DirectIndex
import ForgeswornLink.SessionSlots
import ForgeswornLink.SessionProofs
import ForgeswornLink.SendOutcome
import ForgeswornLink.TagNetwork
import ForgeswornLink.TagAttribution
import ForgeswornLink.TagMeeting
import ForgeswornLink.TagPrivacy
import ForgeswornLink.RelayEffects
import ForgeswornLink.WriteReadiness
import ForgeswornLink.WriteWakeups
import ForgeswornLink.Session
import ForgeswornLink.Endpoint
import ForgeswornLink.SessionEffects
import ForgeswornLink.SessionHistory
import ForgeswornLink.StatusFeed
import ForgeswornLink.ControlStream
import ForgeswornLink.EndpointEffects
import ForgeswornLink.ReproveRounds
import ForgeswornLink.SocketBook
import ForgeswornLink.PairingAdmission
import ForgeswornLink.Consent
import ForgeswornLink.Takeover
import ForgeswornLink.ProbeKeys
import ForgeswornLink.ProbeNetwork
import ForgeswornLink.SessionStages
import ForgeswornLink.SessionRelease
import ForgeswornLink.PeerSide
import ForgeswornLink.SimultaneousDial
import ForgeswornLink.NodeText
import ForgeswornLink.Engine
import ForgeswornLink.EngineEffects
import ForgeswornLink.PairedSecrets
import ForgeswornLink.EngineRoutes
import ForgeswornLink.RouteReplacement
import ForgeswornLink.PairingReload
import ForgeswornLink.EngineStop
import ForgeswornLink.EngineSessions
import ForgeswornLink.EngineDials
import ForgeswornLink.HttpRoutes
import ForgeswornLink.HttpResponse
import ForgeswornLink.RequestPaths
import ForgeswornLink.WebSocket
import ForgeswornLink.SocketEvents
import ForgeswornLink.InboundQueue
import ForgeswornLink.BlobWire
import ForgeswornLink.BlobTransfer
import ForgeswornLink.BlobFetch
