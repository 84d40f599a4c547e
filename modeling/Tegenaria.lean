import Tegenaria.Foundation.BoundedBuffer
import Tegenaria.Foundation.Bytes
import Tegenaria.Foundation.Calendar
import Tegenaria.Foundation.Decoder
import Tegenaria.Foundation.Dependency
import Tegenaria.Foundation.Feedback
import Tegenaria.Foundation.FileTree
import Tegenaria.Foundation.Independence
import Tegenaria.Foundation.LockDiscipline
import Tegenaria.Foundation.Loop
import Tegenaria.Foundation.Memory
import Tegenaria.Foundation.Nesting
import Tegenaria.Foundation.Occurrence
import Tegenaria.Foundation.OrderedMap
import Tegenaria.Foundation.Outcome
import Tegenaria.Foundation.PartialTransfer
import Tegenaria.Foundation.PathWalk
import Tegenaria.Foundation.RecordStream
import Tegenaria.Foundation.RefCount
import Tegenaria.Foundation.Responder
import Tegenaria.Foundation.Ring
import Tegenaria.Foundation.Search
import Tegenaria.Foundation.Separator
import Tegenaria.Foundation.Terminator
import Tegenaria.Foundation.Transition
import Tegenaria.Foundation.Traversal
import Tegenaria.Foundation.CrashSafety
import Tegenaria.Foundation.WeightedMean
import Tegenaria.Foundation.Word
import Tegenaria.LibStr.Binary
import Tegenaria.LibStr.Codec
import Tegenaria.LibStr.BinaryPops
import Tegenaria.LibStr.Text
import Tegenaria.LibStr.StringList
import Tegenaria.LibStr.Tokenize
import Tegenaria.LibStr.QuotedTokens
import Tegenaria.LibStr.Pattern
import Tegenaria.LibStr.Money
import Tegenaria.LibStr.MaskEmail
import Tegenaria.LibStr.HtmlText
import Tegenaria.LibStr.Compare
import Tegenaria.LibStr.Find
import Tegenaria.LibStr.Remove
import Tegenaria.LibStr.Cyrillic
import Tegenaria.LibStr.PolishLetters
import Tegenaria.LibStr.Minify
import Tegenaria.LibStr.MinifyReference
import Tegenaria.LibStr.MinifyTokens
import Tegenaria.LibArgs.Args
import Tegenaria.LibArgs.CommandLine
import Tegenaria.LibSSMap.SSMap
import Tegenaria.LibSSMap.SSMapFile
import Tegenaria.LibDebug.State
import Tegenaria.LibCGI.Url
import Tegenaria.LibCGI.UrlLocal
import Tegenaria.LibCGI.UserVars
import Tegenaria.LibCGI.UserData
import Tegenaria.LibCGI.HashArgs
import Tegenaria.LibMath.WeightAvg
import Tegenaria.LibNet.NetStatistics
import Tegenaria.LibNet.NetworkQuality
import Tegenaria.LibNet.Base64
import Tegenaria.LibNet.Atoi
import Tegenaria.LibStr.Parser
import Tegenaria.LibStr.Date
import Tegenaria.LibNet.Address
import Tegenaria.LibNet.Request
import Tegenaria.LibNet.SmtpClient
import Tegenaria.LibNet.SmtpText
import Tegenaria.LibNet.SendMail
import Tegenaria.LibNet.EpollContext
import Tegenaria.LibNet.EpollConnection
import Tegenaria.LibNet.IocpContext
import Tegenaria.LibNet.IocpConnection
import Tegenaria.LibNet.IocpResends
import Tegenaria.LibNet.IocpLifetime
import Tegenaria.LibIpc.IpcServer
import Tegenaria.LibIpc.IpcMessage
import Tegenaria.LibIO.Fifo
import Tegenaria.LibIO.FifoPeek
import Tegenaria.LibIO.Mixer
import Tegenaria.LibIO.MixerDispatch
import Tegenaria.LibIO.MixerShutdown
import Tegenaria.LibIO.MixerSlaves
import Tegenaria.LibIO.MasterTransfer
import Tegenaria.LibLock.RequestPool
import Tegenaria.LibLock.PoolCalls
import Tegenaria.LibLock.PoolThreads
import Tegenaria.LibLock.TimedWait
import Tegenaria.LibJob.Job
import Tegenaria.LibJob.JobLifetime
import Tegenaria.LibProcess.Monitor
import Tegenaria.LibProcess.MonitorReports
import Tegenaria.LibProcess.MonitorTimeouts
import Tegenaria.LibFile.Directory
import Tegenaria.LibFile.TFile
import Tegenaria.LibFile.Recovery
import Tegenaria.LibFile.FileCompare
import Tegenaria.LibFile.OpenFailure
import Tegenaria.LibFile.RecoveryCalls
import Tegenaria.LibFile.RecoveryRestart
import Tegenaria.LibFile.ListDirs
import Tegenaria.LibSftp.Packet
import Tegenaria.LibSftp.Requests
import Tegenaria.LibSftp.Answers
import Tegenaria.LibSftp.Attributes
import Tegenaria.LibSftp.HandleCache
import Tegenaria.LibSftp.CacheLocking
import Tegenaria.LibSftp.CacheThreads
import Tegenaria.LibSftp.CacheTransparency
import Tegenaria.LibSftp.ReadLoop
import Tegenaria.LibSftp.HostileStream
import Tegenaria.LibSftp.FileRead
import Tegenaria.LibSftp.FileWrite
import Tegenaria.LibSftp.Listing
import Tegenaria.LibSftp.HonestListing
import Tegenaria.LibSftp.HonestRead
import Tegenaria.LibSftp.Session
import Tegenaria.LibSftp.SessionAnswers
import Tegenaria.LibSftp.SessionWire
import Tegenaria.LibSftp.TransferJob
import Tegenaria.LibSecure.Acl
import Tegenaria.LibSecure.AclRevocation
import Tegenaria.LibSecure.AclGrammar
import Tegenaria.LibSecure.RandomText
import Tegenaria.LibSecure.Cipher
import Tegenaria.LibSecure.MessageIv
import Tegenaria.LibSecure.Connection
import Tegenaria.LibSecure.Handshake
import Tegenaria.LibVariant.Variant
import Tegenaria.LibVariant.VariantCounts
import Tegenaria.LibVariant.Indexing
import Tegenaria.LibVariant.EscapedText
import Tegenaria.QCBuild.SourceInfo
import Tegenaria.QCBuild.BuildOrder
import Tegenaria.QCBuild.Scan
import Tegenaria.QCBuild.ScanReference
import Tegenaria.QCBuild.ScanProgress
import Tegenaria.QCBuild.SourceFile
import Tegenaria.QCBuild.SourceLines
import Tegenaria.QCBuild.SourceLanguage
import Tegenaria.QCBuild.SourceReuse
import Tegenaria.QCBuild.UsedBy
import Tegenaria.QCBuild.RelativePath
import Tegenaria.QCBuild.PrivateDirs
import Tegenaria.QCBuild.ListComponents
import Tegenaria.QCBuild.ListComponentsFresh
import Tegenaria.QCBuild.AutoDoc
import Tegenaria.QCBuild.AutoDocBlocks
import Tegenaria.QCBuild.AutoDocOutcome
