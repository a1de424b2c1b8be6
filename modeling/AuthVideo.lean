import AuthVideo.Theorems.KeyInversion
import AuthVideo.Theorems.HonestRun
import AuthVideo.Theorems.Secrecy
import AuthVideo.Theorems.Answers
import AuthVideo.Theorems.Sessions
import AuthVideo.Theorems.Rejection
import AuthVideo.Theorems.Tampering
import AuthVideo.Theorems.DeviceChecks
import AuthVideo.Theorems.Framing
import AuthVideo.Theorems.Symbolic
import AuthVideo.Theorems.Board
import AuthVideo.Theorems.IFrames
import AuthVideo.Theorems.FrameLaw
import AuthVideo.Theorems.VideoPath
import AuthVideo.Theorems.KeystreamReuse
import AuthVideo.Theorems.Ciphers
import AuthVideo.Theorems.Embedded
import AuthVideo.Theorems.Semigroup
import AuthVideo.Theorems.Reduction
import AuthVideo.Theorems.Store
import AuthVideo.Theorems.Fragments
import AuthVideo.Theorems.Losses
import AuthVideo.Theorems.Pseudonym
import AuthVideo.Theorems.Modular
import AuthVideo.Theorems.NonceRoots
import AuthVideo.Theorems.ZucRegister
import AuthVideo.Theorems.ZucStep
import AuthVideo.Theorems.ZucUnmasked
import AuthVideo.Theorems.Packets
import AuthVideo.Theorems.Untouched
import AuthVideo.Theorems.ClearPrefix
import AuthVideo.Theorems.ReadableIv
import AuthVideo.Theorems.StaleBytes
import AuthVideo.Theorems.LimbOrder
import AuthVideo.Theorems.DecimalBytes
import AuthVideo.Theorems.HexCodec
import AuthVideo.Theorems.Registration
import AuthVideo.Theorems.SelfAuthentication
import AuthVideo.Theorems.TagInputs
import AuthVideo.Theorems.SparseXor
import AuthVideo.Theorems.KeystreamXor
import AuthVideo.Theorems.ModularInverse
import AuthVideo.Theorems.StartCodes
import AuthVideo.Theorems.Primality
import AuthVideo.Theorems.BoardPrimality
import AuthVideo.Theorems.PointMultiplication
import AuthVideo.Theorems.Sm2RoundTrip
import AuthVideo.Theorems.TaskScheduler
import AuthVideo.Theorems.TcpConnection
import AuthVideo.Theorems.H265File
import AuthVideo.Theorems.RtpConnection
import AuthVideo.Theorems.BufferReader
import AuthVideo.Theorems.RtspConnection
import AuthVideo.Theorems.Handshake
