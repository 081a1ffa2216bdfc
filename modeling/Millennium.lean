import Millennium.Star.Trust
import Millennium.System.SafeRemove
import Millennium.System.ConfigLocks
import Millennium.Bindings.ThemeInstaller
import Millennium.Bindings.PluginInstaller
import Millennium.Engine.ReaderThread
import Millennium.Engine.NestedCalls
import Millennium.Engine.PendingCalls
import Millennium.Engine.CdpRequests
import Millennium.Engine.CdpShutdown
import Millennium.Loopback.Conflicts
import Millennium.Loopback.Replacement
import Millennium.Bindings.ConfigUpdates
import Millennium.LuaHost.FrontendCall
import Millennium.Loopback.Url
import Millennium.Util.ArchiveReport
import Millennium.Bindings.ThemeReinstall
import Millennium.Bindings.ProxyPassword
import Millennium.Loopback.Connection
import Millennium.Engine.BackendReady
import Millennium.Starlight.LuaTokens
import Millennium.Engine.TargetUrl
import Millennium.Engine.PluginManager
import Millennium.Util.SemverOrder
import Millennium.LuaHost.EventLoop
import Millennium.Engine.PluginSend
import Millennium.Starlight.PatchesCompose
import Millennium.Starlight.SourceMap
import Millennium.Star.ParityImage
import Millennium.Star.SignKeeps
import Millennium.Star.DecompressExact
import Millennium.Star.Reading
import Millennium.Loopback.PatchRegistry
import Millennium.Engine.PipeReader
import Millennium.Engine.FfiBinder
import Millennium.LuaHost.ConfigCallbacks
import Millennium.Mep.Frames
import Millennium.Mep.LogStream
import Millennium.Mep.Recorders
import Millennium.Bindings.CssParser
import Millennium.Bindings.LibraryUpdater
import Millennium.Engine.Encodings
import Millennium.Mep.CrashEventBus
import Millennium.Mep.ExceptionCapture
import Millennium.Starlight.EventPrinter
import Millennium.Util.CommandLine
import Millennium.Engine.EventListeners
import Millennium.Engine.ThreadPool
import Millennium.Engine.WebkitTargets
import Millennium.LuaHost.Assets
import Millennium.LuaHost.Utils
import Millennium.Starlight.FfiTypes
