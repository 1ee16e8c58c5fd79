import ShortLinks.Backend
import ShortLinks.Code
import ShortLinks.Code.Draw
import ShortLinks.Code.Sequence
import ShortLinks.Code.Supply
import ShortLinks.CommandLine.Filter
import ShortLinks.CommandLine.Invocation
import ShortLinks.CommandLine.Office
import ShortLinks.CommandLine.Options
import ShortLinks.CommandLine.Run
import ShortLinks.CommandLine.Transcript
import ShortLinks.Database
import ShortLinks.Database.Cell
import ShortLinks.Database.Image
import ShortLinks.Database.Location
import ShortLinks.Database.Migration
import ShortLinks.Database.Table
import ShortLinks.Deletion.Pipeline
import ShortLinks.Deletion.Request
import ShortLinks.Deletion.Schedule
import ShortLinks.Folder
import ShortLinks.Index
import ShortLinks.Journal
import ShortLinks.Journal.Line
import ShortLinks.Json.Fault
import ShortLinks.Json.Number
import ShortLinks.Json.Records
import ShortLinks.Json.Schema
import ShortLinks.Json.Skip
import ShortLinks.Json.Str
import ShortLinks.Keyed
import ShortLinks.Ledger
import ShortLinks.Main
import ShortLinks.Notice
import ShortLinks.Proofs.BatchFailure
import ShortLinks.Proofs.BatchService
import ShortLinks.Proofs.Contention
import ShortLinks.Proofs.DeletionFailure
import ShortLinks.Proofs.Desk
import ShortLinks.Proofs.DrainOutcome
import ShortLinks.Proofs.FirstLines
import ShortLinks.Proofs.History
import ShortLinks.Proofs.IndexTables
import ShortLinks.Proofs.JournalAccount
import ShortLinks.Proofs.JournalCut
import ShortLinks.Proofs.JournalFormat
import ShortLinks.Proofs.JournalLine
import ShortLinks.Proofs.JournalOpening
import ShortLinks.Proofs.JournalReplay
import ShortLinks.Proofs.JournalStages
import ShortLinks.Proofs.JournalTorn
import ShortLinks.Proofs.JsonGrammar
import ShortLinks.Proofs.JsonLayout
import ShortLinks.Proofs.JsonPrefix
import ShortLinks.Proofs.JsonRecords
import ShortLinks.Proofs.JsonSpelling
import ShortLinks.Proofs.JsonText
import ShortLinks.Proofs.LedgerHistory
import ShortLinks.Proofs.LedgerIndex
import ShortLinks.Proofs.LedgerTable
import ShortLinks.Proofs.Lines
import ShortLinks.Proofs.OfficeLedger
import ShortLinks.Proofs.OfficeOrder
import ShortLinks.Proofs.OfficeStanding
import ShortLinks.Proofs.OneStore
import ShortLinks.Proofs.PartialEffect
import ShortLinks.Proofs.PipelineAccount
import ShortLinks.Proofs.PipelineAlone
import ShortLinks.Proofs.PipelineDrain
import ShortLinks.Proofs.PipelineKeeping
import ShortLinks.Proofs.PipelineMoves
import ShortLinks.Proofs.PipelinePressure
import ShortLinks.Proofs.PipelineProgress
import ShortLinks.Proofs.PipelineQuiet
import ShortLinks.Proofs.PipelineStop
import ShortLinks.Proofs.PipelineWeight
import ShortLinks.Proofs.PipelineWorkers
import ShortLinks.Proofs.Reached
import ShortLinks.Proofs.RecordHistory
import ShortLinks.Proofs.Restarts
import ShortLinks.Proofs.SequenceCodes
import ShortLinks.Proofs.SequenceThreads
import ShortLinks.Proofs.SequenceTraffic
import ShortLinks.Proofs.Session
import ShortLinks.Proofs.StoreFile
import ShortLinks.Proofs.StoredKeys
import ShortLinks.Proofs.Tombstones
import ShortLinks.Proofs.Traffic
import ShortLinks.Proofs.Utf8
import ShortLinks.Record
import ShortLinks.Rehearsal.Gate
import ShortLinks.Rehearsal.Play
import ShortLinks.Rehearsal.Step
import ShortLinks.Rehearsal.World
import ShortLinks.Service
import ShortLinks.ServiceError
import ShortLinks.Settings
import ShortLinks.Storage
import ShortLinks.StorageError
import ShortLinks.StoreCall
import ShortLinks.Text.Blank
import ShortLinks.Text.Hex
import ShortLinks.Text.Lines
import ShortLinks.Text.Numbered
import ShortLinks.Text.Quoted
import ShortLinks.Text.Split
import ShortLinks.Text.Utf8
