import BgDesk.Machine
import BgDesk.BytesCodec
import BgDesk.Unauthorized
import BgDesk.Login
import BgDesk.Authorization
import BgDesk.OneTimePassword
import BgDesk.MuxWindow
import BgDesk.MuxRelay
import BgDesk.MuxFlow
import BgDesk.MuxChannel
import BgDesk.MuxControlled
import BgDesk.LoginFailures
import BgDesk.FileSystem
import BgDesk.FileTransfer
import BgDesk.FileJob
import BgDesk.ReadJobs
import BgDesk.ReadStream
import BgDesk.ReadDrivers
import BgDesk.WriteJobs
import BgDesk.Resume
import BgDesk.MuxLink
import BgDesk.MuxTunnel
import BgDesk.MuxDelivery
import BgDesk.MuxHandle
import BgDesk.Checked
import BgDesk.VideoQos
import BgDesk.FrameRate
import BgDesk.ViewerIndependence
import BgDesk.EncryptedStream
import BgDesk.KeyExchange
import BgDesk.WebRtcFrames
import BgDesk.WebRtcSenders
import BgDesk.WebRtcHandoff
import BgDesk.Utf8
import BgDesk.TerminalOutput
import BgDesk.TerminalSession
import BgDesk.TerminalCleanup
import BgDesk.AudioResampler
import BgDesk.DirectoryTree
import BgDesk.ReceivedFiles
import BgDesk.ClipboardList
import BgDesk.ClipboardFiles
import BgDesk.Downloader
import BgDesk.DrmConn
import BgDesk.DrmCredit
import BgDesk.DrmTopology
import BgDesk.ServiceSnapshot
import BgDesk.AudioHandoff
import BgDesk.FramePacing
import BgDesk.CodecNegotiation
import BgDesk.Json
import BgDesk.UpdateFeed
import BgDesk.PortableLaunch
import BgDesk.PortableFrames
import BgDesk.DisplayGeometry
import BgDesk.DrmProbe
import BgDesk.WaylandLayout
import BgDesk.Frames
import BgDesk.PlaybackBuffer
import BgDesk.PlaybackStream
import BgDesk.CursorShapes
import BgDesk.Shortcuts
import BgDesk.KeyboardGrab
import BgDesk.ViewerCongestion
import BgDesk.BitrateRatio
import BgDesk.RttBaseline
import BgDesk.TerminalBuffer
import BgDesk.AddrMangle
import BgDesk.VersionNumber
import BgDesk.ClipboardSafety
import BgDesk.ClipboardTree
import BgDesk.ClipboardReads
import BgDesk.UpdateVersion
import BgDesk.Base64
import BgDesk.LoginBackoff
import BgDesk.StoredSecrets
import BgDesk.OpenErrors
import BgDesk.SingleFlight
import BgDesk.PackageBlob
import BgDesk.Glob
import BgDesk.IdWhitelist
import BgDesk.RemovalLog
import BgDesk.Mirror
import BgDesk.CursorHotspot
import BgDesk.HotspotSymmetry
import BgDesk.CursorCalibration
import BgDesk.CalibrationHistory
import BgDesk.PointerRemap
import BgDesk.EndlessRun
import BgDesk.RaceOutcome
import BgDesk.PlaybackRecovery
import BgDesk.Registration
import BgDesk.RecordUpload
import BgDesk.Overwrite
import BgDesk.IceRoutes
import BgDesk.UpdateArtifact
import BgDesk.TerminalHelper
