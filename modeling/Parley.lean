import Parley.Fault.Report
import Parley.Main
import Parley.Source.Log
import Parley.Source.Script
import Parley.Store
import Parley.Sync
import Parley.Sync.Step
import Parley.Proofs.ArrivalOrder
import Parley.Proofs.DueFetches
import Parley.Proofs.Fetching
import Parley.Proofs.FixedPoint
import Parley.Proofs.FullReconciliation
import Parley.Proofs.Growth
import Parley.Proofs.History
import Parley.Proofs.InFlight
import Parley.Proofs.IndependentSteps
import Parley.Proofs.InitialBatch
import Parley.Proofs.KnownNames
import Parley.Proofs.LateDuplicates
import Parley.Proofs.LatePatches
import Parley.Proofs.LoadedBundle
import Parley.Proofs.MissingEvents
import Parley.Proofs.OneRecord
import Parley.Proofs.PagingGaps
import Parley.Proofs.PurePaging
import Parley.Proofs.TiedDates
import Parley.Proofs.Transcripts
import Parley.Proofs.Redelivery
import Parley.Proofs.Isolation
import Parley.Proofs.Reading
import Parley.Proofs.Literals
import Parley.Proofs.JsonValues
import Parley.Proofs.JsonText
import Parley.Proofs.Decoding
import Parley.Proofs.BundleText
import Parley.Proofs.Moments
import Parley.Proofs.MemberOrder
import Parley.Proofs.MessageText
import Parley.Proofs.PrintedMessages
import Parley.Proofs.ReadMarks
import Parley.Proofs.Invalidation
import Parley.Proofs.PagingEnds
import Parley.Proofs.ChatViews
import Parley.Proofs.ChosenOptions
import Parley.Proofs.RejectedRecords
import Parley.Proofs.RespelledBundles
