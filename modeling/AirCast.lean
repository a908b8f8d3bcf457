import AirCast.Http.HttpStretches
import AirCast.Http.HttpRequestSegments
import AirCast.Http.HttpResponseCapacity
import AirCast.Http.HttpdTable
import AirCast.Raop.RaopRtpFraming
import AirCast.Mirror.MirrorStream
import AirCast.Mirror.MirrorOrder
import AirCast.Mirror.MirrorKeyOwnership
import AirCast.Raop.RaopHandshakeIsolation
import AirCast.Raop.RaopPasswordGate
import AirCast.Raop.RaopResend
import AirCast.Raop.RaopFlushBarrier
import AirCast.Raop.AirplayPorts
import AirCast.Raop.RaopFieldSizes
import AirCast.Raop.RaopAnswers
import AirCast.Raop.RaopPipelining
import AirCast.Raop.DigestHeader
import AirCast.Raop.FairplaySetup
import AirCast.Raop.RaopBufferSizes
import AirCast.Raop.RaopMailbox
import AirCast.Raop.SdpRecords
import AirCast.Center.RendererLaunches
import AirCast.Center.PlaybackPosition
import AirCast.Mirror.MirrorPicture
import AirCast.Mirror.SpsEncoding
import AirCast.Mirror.SpsOffsets
import AirCast.Mirror.StreamHandover
import AirCast.Mirror.PayloadBounds
import AirCast.Audio.AudioOutput
import AirCast.Audio.DmapDecoder
import AirCast.Crypt.RsaKey
import AirCast.Crypt.RsaPem
import AirCast.Center.SeekTime
import AirCast.Center.TimeReport
import AirCast.Player.MusicPlayEngine
import AirCast.Music.LyricCalls
import AirCast.Hls.HlsPlaylist
import AirCast.Raop.SocketSetup
import AirCast.Center.SongMetadata
import AirCast.Raop.RaopStream
import AirCast.Raop.RaopSlotBounds
import AirCast.Crypt.CtrMode
import AirCast.Mirror.MirrorCipher
