import Vte.Base.Bytes
import Vte.Base.Blocks
import Vte.Base.Text
import Vte.Base.Runs
import Vte.Base.Ensures
import Vte.Base.Machine
import Vte.Base.Assoc
import Vte.Base.Lexer
import Vte.Base.FlagSets
import Vte.Base.Patterned
import Vte.Base.CInt
import Vte.Base.Multiples
import Vte.Base.Memory
import Vte.Base.CString
import Vte.Base.Bitmap
import Vte.Base.SparseFile
import Vte.Base.Regions
import Vte.Lib.RandomRange
import Vte.Lib.RandomRangeSound
import Vte.Lib.RandomRangell
import Vte.Lib.RandomBit
import Vte.Lib.StrideBounds
import Vte.Lib.Pattern
import Vte.Lib.ParseRanges
import Vte.Lib.DataPattern
import Vte.Lib.DataCheck
import Vte.Fs.Growfiles
import Vte.Fs.GrowfilesCheck
import Vte.Fs.GrowfilesConsumed
import Vte.Fs.Iogen
import Vte.Fs.IogenInside
import Vte.Fs.Ftest01
import Vte.Fs.Ftest04
import Vte.Lib.LioAsync
import Vte.Lib.LioAsyncRuns
import Vte.Lib.LioSync
import Vte.Lib.OpenFlags
import Vte.Lib.Checkpoint
import Vte.Lib.CheckpointSync
import Vte.Lib.WriteLog
import Vte.Lib.WriteLogCodec
import Vte.Lib.WriteLogScan
import Vte.Lib.WriteLogHistory
import Vte.Pan.Scheduler
import Vte.Pan.SchedulerCount
import Vte.Pan.SchedulerExit
import Vte.Pan.SchedulerOrder
import Vte.Pan.Zoo
import Vte.Pan.ZooGetpid
import Vte.Pan.ZooRunning
import Vte.Pan.Symbol
import Vte.Pan.SymbolMap
import Vte.Pan.TagReport
import Vte.Pan.Scan
import Vte.Pan.ScanLines
import Vte.Pan.Verdicts
import Vte.Pan.RoundTrip
import Vte.Lib.TstRes
import Vte.Lib.TstResCondense
import Vte.Lib.TstResAccount
import Vte.Lib.TstResErrno
import Vte.Base.Tiles
import Vte.Disktest.Args
import Vte.Disktest.Buffer
import Vte.Disktest.ExpectedData
import Vte.Disktest.Action
import Vte.Disktest.ActionSlots
import Vte.Disktest.ChildMain
import Vte.Disktest.Parse
import Vte.Disktest.Exclusion
import Vte.Disktest.LinearPass
import Vte.Disktest.InRange
import Vte.Disktest.Positions
import Vte.Disktest.InRangeRuns
import Vte.Disktest.WriteOnce
import Vte.Disktest.CompareLength
import Vte.Fs.DoioWrite
import Vte.Fs.DoioTruth
import Vte.Fs.DoioCache
import Vte.Fs.DoioCacheRuns
import Vte.Pan.Ratchet
import Vte.Pan.Suffix
import Vte.Pan.Splitstr
import Vte.Pan.SchedulerLog
import Vte.Pan.Collection
import Vte.Pan.PcntF
import Vte.Pan.MergeOrder
import Vte.Uart.Transfer
import Vte.Uart.TransferRuns
import Vte.Nfs.LockTests
import Vte.Nfs.LockTestsMaitre
import Vte.Nfs.LockTestsRuns
import Vte.Nfs.LockTestsEnd
import Vte.Nfs.LockTestsWire
import Vte.Lib.SearchPath
import Vte.Lib.GetPath
import Vte.Lib.MountUtils
import Vte.Lib.Kvercmp
import Vte.Lib.TstResFiles
import Vte.Lib.WriteLogTrace
import Vte.Lib.WriteLogStop
import Vte.Lib.WriteLogTrailer
import Vte.Lib.Forker
import Vte.Fs.DoioPatCheck
import Vte.Fs.DoioAlloc
import Vte.Base.Digits
import Vte.Disktest.Strtofft
import Vte.Base.OnesComplement
import Vte.Network.Checksum
import Vte.Network.Echo
import Vte.Network.MldQuery
import Vte.Network.Redirect
import Vte.Network.NsCommon
import Vte.Network.McastJoin
import Vte.Network.TcpServer
import Vte.Lib.SelfExec
import Vte.Lib.BytesByPrefix
import Vte.Realtime.Timespec
import Vte.Mem.NodeCpus
import Vte.Mem.Ksm
import Vte.Base.Occurrences
import Vte.Mem.KsmCounters
import Vte.Base.HeapTree
import Vte.Base.IntLoop
import Vte.Io.Filecmp
import Vte.Tools.Sdimage
import Vte.Realtime.Stats
import Vte.Realtime.StatsHist
import Vte.Base.Words
import Vte.Fs.Inode
import Vte.Fs.InodeTree
import Vte.Fs.InodeCheck
import Vte.Base.Chunks
import Vte.Sched.Handshake
import Vte.Sched.HandshakeTree
import Vte.Sched.HandshakeInv
import Vte.Sched.HandshakeSteps
import Vte.Sched.HandshakeSemaphores
import Vte.Sched.HandshakeKeep
import Vte.Sched.HandshakeRuns
import Vte.Sched.Process
import Vte.Sched.ProcessSlots
import Vte.Sched.ThreadSum
import Vte.Sched.ThreadTree
import Vte.Sched.ThreadTreeInv
import Vte.Sched.ThreadTreeRegister
import Vte.Sched.ThreadTreeTalk
import Vte.Sched.ThreadTreeRuns
import Vte.Tools.Ihex
import Vte.Tools.IhexImage
import Vte.Base.DirTree
import Vte.Controllers.ScanShares
import Vte.Base.FileBlocks
import Vte.Io.AiodioSparse
import Vte.Io.Aiocp
import Vte.Ipc.ShmemTest
import Vte.Ipc.PipeTest
import Vte.Ipc.PipeTestRuns
import Vte.Ipc.PipeTestSound
import Vte.Base.Packets
import Vte.Ipc.Pipeio
import Vte.Ipc.PipeioRuns
import Vte.Ipc.PipeioSound
import Vte.Base.StringCopy
import Vte.Nfs.Netsync
import Vte.Mem.Mmapstress10
import Vte.Mem.Mmapstress10Runs
import Vte.Base.FileTree
import Vte.Lib.Rmobj
import Vte.Lib.RmobjSound
import Vte.Base.Floats
import Vte.Lib.ParseOpts
import Vte.Lib.ParseOptsSound
import Vte.Lib.TestLooping
import Vte.Asrc.OutputBufferSize
import Vte.Asrc.WavConvert
import Vte.Asrc.WavHeader
import Vte.Asrc.WavConvertExact
import Vte.Lib.StringToTokens
import Vte.Lib.PatternArgs
import Vte.Base.Copies
import Vte.Conv.ConvYuv
import Vte.Base.StoreLog
import Vte.Conv.ProcessImg
import Vte.Conv.ToBitmap
import Vte.Conv.ToBitmapCovers
import Vte.Conv.BitmapFormats
import Vte.Conv.RawBitmap
import Vte.Conv.RawInverse
import Vte.Io.DioVectors
import Vte.Io.DioVectorsRuns
import Vte.Io.DioVectorsExact
