import MoonlightWeb.Network.RouterPortSafety
import MoonlightWeb.Deploy.MwProxyOwnership
import MoonlightWeb.Deploy.RendezvousHub
import MoonlightWeb.Server.TunnelPorts
import MoonlightWeb.Server.TunnelBinding
import MoonlightWeb.Server.HomeScreenKeys
import MoonlightWeb.Server.ShareRestart
import MoonlightWeb.Server.ShareAccess
import MoonlightWeb.Common.SignedMessages
import MoonlightWeb.Streaming.FingerprintAgreement
import MoonlightWeb.Bootstrap.CookieJar
import MoonlightWeb.Frontend.TrustOnFirstUse
import MoonlightWeb.Frontend.VideoTransport
import MoonlightWeb.Bootstrap.TunnelMultiplexing
import MoonlightWeb.Streaming.NamedReferences
import MoonlightWeb.Streaming.InputDeadMan
import MoonlightWeb.Streaming.RemovedPads
import MoonlightWeb.NativeHost.ProvenRate
import MoonlightWeb.NativeHost.KeyInjection
import MoonlightWeb.Streaming.GuestInput
import MoonlightWeb.Deploy.ClaimStore
import MoonlightWeb.Deploy.Quota
import MoonlightWeb.Deploy.WebSocketMessages
import MoonlightWeb.NativeHost.SelectionLaws
import MoonlightWeb.NativeHost.RecoveryReach
import MoonlightWeb.NativeHost.VaapiRepair
import MoonlightWeb.Server.ShareAttempts
import MoonlightWeb.Streaming.SignalingBinding
import MoonlightWeb.Server.FramingAgreement
import MoonlightWeb.Backend.DisplayQueue
import MoonlightWeb.Backend.PairingVerdict
import MoonlightWeb.NativeHost.Win32Typing
import MoonlightWeb.Backend.SeatOwnership
import MoonlightWeb.Frontend.DecoderFeed
import MoonlightWeb.Network.RouterPortMemory
import MoonlightWeb.Network.UpdateAttempts
import MoonlightWeb.NativeHost.CadenceAlign
import MoonlightWeb.NativeHost.FrameCadence
import MoonlightWeb.Frontend.ObuStripping
import MoonlightWeb.Frontend.LengthPrefixes
import MoonlightWeb.Frontend.ParameterSetChanges
import MoonlightWeb.Streaming.EmulationAgreement
import MoonlightWeb.NativeHost.NoReorder
import MoonlightWeb.NativeHost.RecentreDetector
import MoonlightWeb.NativeHost.AudioPacer
import MoonlightWeb.NativeHost.EffectiveCadence
import MoonlightWeb.NativeHost.EncodeLoadCap
import MoonlightWeb.Streaming.WheelTravel
import MoonlightWeb.NativeHost.StageStats
import MoonlightWeb.Frontend.AudioProcessor
import MoonlightWeb.Frontend.GamepadManager
import MoonlightWeb.NativeHost.CursorBlend
import MoonlightWeb.NativeHost.BgraToI420
import MoonlightWeb.Server.ConstantTime
import MoonlightWeb.Server.ConnectionBans
import MoonlightWeb.Frontend.StreamResolution
import MoonlightWeb.Frontend.StreamViewTouch
import MoonlightWeb.Frontend.DecodedFrames
import MoonlightWeb.Frontend.StreamViewKeyboard
import MoonlightWeb.Server.PortSearch
import MoonlightWeb.Network.StunClient
import MoonlightWeb.Frontend.JitterController
import MoonlightWeb.Frontend.QualityGovernors
import MoonlightWeb.Frontend.Av1SequenceReading
import MoonlightWeb.Frontend.FramePacer
import MoonlightWeb.Server.RequestGuard
import MoonlightWeb.Backend.VirtualDisplayRules
import MoonlightWeb.Network.UpdateChecker
import MoonlightWeb.Backend.XmlReaders
import MoonlightWeb.Backend.HostPolling
import MoonlightWeb.Backend.HostStore
import MoonlightWeb.NativeHost.FrameForDisplay
import MoonlightWeb.NativeHost.TextDecoding
import MoonlightWeb.NativeHost.HostMute
import MoonlightWeb.Server.CertManager
import MoonlightWeb.Streaming.DeltaGate
import MoonlightWeb.NativeHost.ParameterSets
