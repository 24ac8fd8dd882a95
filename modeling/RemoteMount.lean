import RemoteMount.AttributeCache
import RemoteMount.Attributes
import RemoteMount.Bytes
import RemoteMount.Call
import RemoteMount.CallError
import RemoteMount.CommandLine.Options
import RemoteMount.CommandLine.Parser
import RemoteMount.CommandLine.Report
import RemoteMount.CommandLine.Settings
import RemoteMount.Content
import RemoteMount.Errno
import RemoteMount.Filesystem
import RemoteMount.Host.Device
import RemoteMount.Host.FileStore
import RemoteMount.InodeTable
import RemoteMount.KeyMap
import RemoteMount.Listing
import RemoteMount.Main
import RemoteMount.Memory.Device
import RemoteMount.Memory.Tree
import RemoteMount.Mount.Callback
import RemoteMount.Mount.Config
import RemoteMount.Mount.Reply
import RemoteMount.OpenMode
import RemoteMount.Path
import RemoteMount.PathText
import RemoteMount.Policy
import RemoteMount.Program
import RemoteMount.RemoteError
import RemoteMount.Request
import RemoteMount.Scenario.CallSteps
import RemoteMount.Scenario.DeviceSteps
import RemoteMount.Scenario.MountSteps
import RemoteMount.Scenario.Storage
import RemoteMount.Text.Hidden
import RemoteMount.Text.Quoted
import RemoteMount.Text.Utf8
import RemoteMount.Proofs.Paths
import RemoteMount.Proofs.MovedKeys
import RemoteMount.Proofs.Memory.Requests
import RemoteMount.Proofs.Memory.Effects
import RemoteMount.Proofs.CacheAccesses
import RemoteMount.Proofs.Memory.Listings
import RemoteMount.Proofs.Memory.Sessions
import RemoteMount.Proofs.Duties
import RemoteMount.Proofs.Interleaving
import RemoteMount.Proofs.CallDuties
import RemoteMount.Proofs.NamespaceCoherence
import RemoteMount.Proofs.SizeCoherence
import RemoteMount.Proofs.Turns
import RemoteMount.Proofs.SessionCalls
import RemoteMount.Proofs.CacheTransparency
import RemoteMount.Proofs.TruncateFailure
import RemoteMount.Proofs.Ownership
import RemoteMount.Proofs.Memory.Walk
import RemoteMount.Proofs.Memory.Grants
import RemoteMount.Proofs.CallOutcomes
import RemoteMount.Proofs.FileContents
import RemoteMount.Proofs.InodeTables
import RemoteMount.Proofs.InodeRenames
import RemoteMount.Proofs.CachedKinds
import RemoteMount.Proofs.Mount.Answers
import RemoteMount.Proofs.Mount.HeldInodes
import RemoteMount.Proofs.InodeOperations
import RemoteMount.Proofs.Mount.LookupAccounts
import RemoteMount.Proofs.OpenSessions
import RemoteMount.Proofs.Mount.DeadInodes
import RemoteMount.Proofs.Attempts
import RemoteMount.Proofs.FailureReports
import RemoteMount.Proofs.Mount.Steps
import RemoteMount.Proofs.Mount.FailureReplies
import RemoteMount.Proofs.Memory.Disarmed
import RemoteMount.Proofs.Mount.AllOrNothing
import RemoteMount.Proofs.Staleness
import RemoteMount.Proofs.ListingOrder
import RemoteMount.Proofs.ListingCalls
import RemoteMount.Proofs.RepeatedGetattr
import RemoteMount.Proofs.Mount.DirectoryRows
import RemoteMount.Proofs.CacheBlindness
import RemoteMount.Proofs.Mount.MappedPaths
import RemoteMount.Proofs.PathTexts
import RemoteMount.Proofs.Utf8
import RemoteMount.Proofs.WrittenPaths
import RemoteMount.Proofs.PathGrammar
import RemoteMount.Proofs.PolicyRules
import RemoteMount.Proofs.WritableRegions
import RemoteMount.Proofs.Host.Walks
import RemoteMount.Proofs.Host.Stores
import RemoteMount.Proofs.Host.Entries
import RemoteMount.Proofs.Host.Serving
import RemoteMount.Proofs.ExclusiveCreation
import RemoteMount.Proofs.Memory.Renames
import RemoteMount.Proofs.Host.Places
import RemoteMount.Proofs.Host.PlainStores
import RemoteMount.Proofs.Host.Trees
import RemoteMount.Proofs.Host.TreeEffects
import RemoteMount.Proofs.OneFile
import RemoteMount.Proofs.Host.FileCalls
import RemoteMount.Proofs.Host.FreshRecords
import RemoteMount.Proofs.Host.CachedRecords
import RemoteMount.Proofs.Host.FileOutcomes
import RemoteMount.Proofs.Memory.FileOutcomes
import RemoteMount.Proofs.ServiceAgreement
import RemoteMount.Proofs.Host.Roots
import RemoteMount.Proofs.RootSurvival
import RemoteMount.Proofs.CachedPaths
import RemoteMount.Proofs.IndexMoves
import RemoteMount.Proofs.Memory.Capacity
import RemoteMount.Proofs.Memory.Growth
import RemoteMount.Proofs.Memory.WordSums
import RemoteMount.Proofs.Memory.OrderedListings
import RemoteMount.Proofs.Memory.Cursors
import RemoteMount.Proofs.Mount.DirectoryRows
import RemoteMount.Proofs.Mount.KeptEntries
import RemoteMount.Proofs.Mount.DirectoryScans
import RemoteMount.Proofs.Memory.Seeding
