import Aesd.TransitionRuns
import Aesd.ChildWaits
import Aesd.AwaitedChild
import Aesd.CallHistories
import Aesd.DescriptorTable
import Aesd.LogConnection
import Aesd.ExecRedirect
import Aesd.TerminatedMemory
import Aesd.WriterProgram
import Aesd.FinderScript
import Aesd.ThreadSleep
import Aesd.RingWindow
import Aesd.CircularBuffer
import Aesd.ConcatenatedParts
import Aesd.EntryLookup
import Aesd.LookupAbsence
import Aesd.AddValidation
import Aesd.LookupVisits
import Aesd.AddDiagnostics
import Aesd.PayloadOwnership
import Aesd.SeparatedSegments
import Aesd.RecycledSegments
import Aesd.TokenExtraction
import Aesd.ExtractionSplit
import Aesd.PacketDrain
import Aesd.LostLines
import Aesd.ReceiveLoop
import Aesd.ReceiveBuffer
import Aesd.PacketFraming
import Aesd.DrainOutcome
import Aesd.ConnectionCleanup
import Aesd.WriteAll
import Aesd.WriteExactness
import Aesd.PacketAppend
import Aesd.WriteAllReads
import Aesd.CopyCompleteness
import Aesd.SerialLog
import Aesd.PacketSteps
import Aesd.SharedLog
import Aesd.LinkedCells
import Aesd.ServerState
import Aesd.ServerSteps
import Aesd.ServerMoves
import Aesd.HandlerSoundness
import Aesd.ServerLifetimes
import Aesd.TimestampTicks
import Aesd.SignalSafety
import Aesd.DescriptorRelease
import Aesd.ThreadListing
import Aesd.HandlerDispatch
import Aesd.ConnectionOwnership
import Aesd.ThreadTeardown
import Aesd.ShutdownProgress
import Aesd.ClientFaults
import Aesd.SimulatedRuns
import Aesd.HandlerTransitions
import Aesd.LogRefinement
import Aesd.ConnectionRefinement
import Aesd.CutFreeInfixes
import Aesd.PacketProvenance
import Aesd.PacketSchedules
import Aesd.SerialCommits
import Aesd.LogFragments
import Aesd.SectionBounds
import Aesd.ClientDelivery
import Aesd.SectionTotals
import Aesd.HandlerLife
import Aesd.HeldResources
import Aesd.DescriptorUse
import Aesd.BoundedShutdown
import Aesd.ShutdownTermination
import Aesd.TimestampText
import Aesd.LogLines
import Aesd.PaddedDecimals
import Aesd.ThreadNames
import Aesd.LookupStability
import Aesd.BracketedLocks
import Aesd.StartedThreads
