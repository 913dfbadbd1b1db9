import JvmTrace.ChannelHandoff
import JvmTrace.ChannelRefinement
import JvmTrace.ChannelWakeups
import JvmTrace.CollectionForms
import JvmTrace.CollectionProgress
import JvmTrace.CollectionResults
import JvmTrace.DynamicSection
import JvmTrace.Elf
import JvmTrace.GcWorker
import JvmTrace.Headcounts
import JvmTrace.HookReentry
import JvmTrace.HsperfdataImage
import JvmTrace.InjectCode
import JvmTrace.Injection
import JvmTrace.LibrarySearch
import JvmTrace.LinkMap
import JvmTrace.LinkMapReads
import JvmTrace.LmapResult
import JvmTrace.MemCounter
import JvmTrace.MemFullerMutex
import JvmTrace.NestedHook
import JvmTrace.OrderedMaps
import JvmTrace.PtraceSession
import JvmTrace.PtraceWrite
import JvmTrace.ReaderHistory
import JvmTrace.RelocationLookup
import JvmTrace.RemoteStrings
import JvmTrace.Rendezvous
import JvmTrace.Safepoint
import JvmTrace.SafepointErrors
import JvmTrace.SafepointProgress
import JvmTrace.ScopedLambda
import JvmTrace.StackTraceCollection
import JvmTrace.StackTraceCollector
import JvmTrace.StackTraceServer
import JvmTrace.SymbolLookup
import JvmTrace.SymbolScan
import JvmTrace.ThreadListing
import JvmTrace.TraceLinkMap
import JvmTrace.TraceLock
import JvmTrace.TraceSearch
import JvmTrace.ZqueueWakeups
