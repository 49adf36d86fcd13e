import NdimonR.Library.SortedMap
import NdimonR.Library.Text
import NdimonR.Library.Ipv4
import NdimonR.Library.Json
import NdimonR.Library.Encoding
import NdimonR.Types.Model
import NdimonR.Types.Wire
import NdimonR.Types.Validation
import NdimonR.Types.Valid
import NdimonR.Types.Encode
import NdimonR.Types.EncodeFaithful
import NdimonR.State.Plan
import NdimonR.Engine.Validation
import NdimonR.Engine.ValidatorsAgree
import NdimonR.State.PlanDetects
import NdimonR.State.CrossDomain
import NdimonR.State.TesseraAgrees
import NdimonR.Library.Effects
import NdimonR.Engine.Journal
import NdimonR.Engine.Device
import NdimonR.Engine.Handoff
import NdimonR.Engine.Transactions
import NdimonR.Engine.Changes
import NdimonR.Engine.Regions
import NdimonR.Engine.Recovery
import NdimonR.Engine.RecoverLocked
import NdimonR.Engine.Staging
import NdimonR.Engine.ApplyJob
import NdimonR.Engine.Confirm
import NdimonR.Engine.CallsChange
import NdimonR.Engine.Ledger
import NdimonR.Engine.KeptNeverUndone
import NdimonR.Engine.Recoverable
import NdimonR.Engine.Admission
import NdimonR.Engine.OneOwner
import NdimonR.Privd.Schema
import NdimonR.Privd.Manifest
import NdimonR.Privd.Scopes
import NdimonR.Privd.Packages
import NdimonR.Privd.CrashSafe
import NdimonR.Engine.Intent
import NdimonR.Engine.Semantic
import NdimonR.Library.JsonSize
import NdimonR.Engine.IntentRoundTrip
import NdimonR.Privd.Download
import NdimonR.Privd.SignedOnly
import NdimonR.Plugins.Versions
import NdimonR.Plugins.Feed
import NdimonR.Plugins.Session
import NdimonR.Plugins.OnlyItself
import NdimonR.Decoder.AudioSettings
import NdimonR.Decoder.AudioEngine
import NdimonR.Decoder.FollowerConfig
import NdimonR.Decoder.Config
import NdimonR.Decoder.WholeDomains
import NdimonR.Library.JsonText
import NdimonR.Decoder.NdiFollower
import NdimonR.Delivery.Follower
import NdimonR.Delivery.Deliver
import NdimonR.Delivery.Followers
import NdimonR.Delivery.Converges
import NdimonR.Library.Lines
import NdimonR.Backend.Common
import NdimonR.Backend.Networkd
import NdimonR.Backend.NetworkdDocument
import NdimonR.Backend.Accepted
import NdimonR.Backend.NetworkdInverse
import NdimonR.Backend.NetworkdAdoption
import NdimonR.Backend.NetworkdWhole
import NdimonR.Backend.Netplan
import NdimonR.Backend.NetplanInverse
import NdimonR.Backend.Ifupdown
import NdimonR.Backend.IfupdownStanzas
import NdimonR.Backend.IfupdownBlocks
import NdimonR.Backend.IfupdownAdoption
import NdimonR.Backend.IfupdownDirectory
import NdimonR.Backend.IfupdownPlan
import NdimonR.Backend.IfupdownInverse
import NdimonR.Control.Password
import NdimonR.State.Device
import NdimonR.Backend.NetworkManager
import NdimonR.Backend.NetworkManagerAdoption
import NdimonR.Backend.NetworkManagerInverse
import NdimonR.Backend.NetworkManagerRestore
import NdimonR.Backend.NetworkdDrift
import NdimonR.Backend.NetworkdPinned
import NdimonR.Library.JsonRead
import NdimonR.Library.JsonWritten
import NdimonR.Library.Toml
import NdimonR.Render.AudioNodes
import NdimonR.Render.KeyReplaced
import NdimonR.Render.Tessera
import NdimonR.State.AudioCompile
import NdimonR.State.AudioCompiled
import NdimonR.State.AudioMatrix
import NdimonR.State.AudioUndisturbed
import NdimonR.State.ImportTessera
import NdimonR.State.TesseraRoundTrip
import NdimonR.Privd.CpuGivenBack
import NdimonR.Display.DelayedFrames
import NdimonR.Plugins.DebianOrder
import NdimonR.Privd.SchemaMeaning
import NdimonR.State.LegacyTexts
import NdimonR.Display.VectorRows
import NdimonR.Library.JsonOrder
import NdimonR.Library.SortBy
import NdimonR.Library.Threads
import NdimonR.Display.HxFrames
import NdimonR.Display.HxOwnership
import NdimonR.Library.Rounding
import NdimonR.Display.Rects
import NdimonR.Decoder.EventStream
import NdimonR.Decoder.ConnectorMap
import NdimonR.Display.ModeMatch
import NdimonR.Library.Circular
import NdimonR.Decoder.DelaysExactly
import NdimonR.Control.Guessing
import NdimonR.Library.Xml
import NdimonR.Library.JsonSpaced
import NdimonR.Decoder.SdkText
import NdimonR.Decoder.SaysConfigured
import NdimonR.Decoder.LiveGraph
import NdimonR.Decoder.TakesOver
import NdimonR.Decoder.LiveChanges
import NdimonR.Library.JsonEdit
import NdimonR.Compat.Network
import NdimonR.Compat.ViewsInverted
import NdimonR.Render.AudioImport
import NdimonR.State.EndpointEdits
import NdimonR.Library.JsonLength
import NdimonR.State.FlowSize
import NdimonR.Library.Calendar
import NdimonR.Library.ZeroPadded
import NdimonR.State.SnapshotTimes
import NdimonR.Library.SharedRing
import NdimonR.Decoder.DriftCompensator
import NdimonR.Decoder.DriftKept
import NdimonR.Decoder.DriftBounded
import NdimonR.Library.Steps
import NdimonR.Decoder.NDIReceiver
import NdimonR.Decoder.ReceiverInstances
import NdimonR.Decoder.Advertised
import NdimonR.State.TesseraReload
import NdimonR.State.ReloadsExactly
import NdimonR.Decoder.FinderPublishes
import NdimonR.Decoder.RecoveryPaced
import NdimonR.State.AssetsCollected
import NdimonR.State.Imperative
import NdimonR.State.CrashAtomic
import NdimonR.State.InPlay
import NdimonR.State.DecisionsKept
import NdimonR.State.Revisions
import NdimonR.State.RevisionsKept
import NdimonR.Ui.StateStore
import NdimonR.Ui.SnapshotServed
import NdimonR.Ui.StoreConverges
import NdimonR.Control.Sessions
import NdimonR.Control.SessionsGrounded
import NdimonR.Control.PasswordsKept
import NdimonR.State.Outputs
import NdimonR.Control.Supervisor
import NdimonR.Control.OperatorRespected
