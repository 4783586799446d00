import RemoteWorkspace.Analysis.NoLeakedForward
import RemoteWorkspace.Analysis.StaleAttempts
import RemoteWorkspace.Analysis.DisconnectStaysDown
import RemoteWorkspace.Model.Autoconnect
import RemoteWorkspace.Analysis.FailedMachines
import RemoteWorkspace.Analysis.Autoconnect
import RemoteWorkspace.Analysis.PumpStall
import RemoteWorkspace.Analysis.PipeDemux
import RemoteWorkspace.Analysis.CloseBackend
import RemoteWorkspace.Analysis.InputOrder
import RemoteWorkspace.Analysis.KeystrokeOrder
import RemoteWorkspace.Model.Routing
import RemoteWorkspace.Computation.Segments
import RemoteWorkspace.Analysis.Classify
import RemoteWorkspace.Analysis.InstallFiles
import RemoteWorkspace.Analysis.AgentEndpoint
import RemoteWorkspace.Analysis.ReleaseIntegrity
import RemoteWorkspace.Analysis.CollectedComplete
import RemoteWorkspace.Analysis.ExitOutput
import RemoteWorkspace.Analysis.PipeLoss
import RemoteWorkspace.Analysis.ExitReport
import RemoteWorkspace.Analysis.TerminalTable
import RemoteWorkspace.Analysis.EndReports
import RemoteWorkspace.Analysis.SessionRelease
import RemoteWorkspace.Model.TerminalReads
import RemoteWorkspace.Model.TerminalTool
import RemoteWorkspace.Analysis.TerminalIsolation
import RemoteWorkspace.Analysis.TextWindows
import RemoteWorkspace.Model.FsWrites
import RemoteWorkspace.Analysis.Publications
import RemoteWorkspace.Computation.Tree
import RemoteWorkspace.Model.Anchors
import RemoteWorkspace.Analysis.AnchorScan
import RemoteWorkspace.Analysis.AnchorPersistence
import RemoteWorkspace.Analysis.AnchorNesting
import RemoteWorkspace.Model.AnchorCalls
import RemoteWorkspace.Analysis.AnchorOwners
import RemoteWorkspace.Analysis.HeldOnce
import RemoteWorkspace.Analysis.StoreOrder
import RemoteWorkspace.Analysis.SharedDocuments
import RemoteWorkspace.Analysis.OneRecordAPlace
import RemoteWorkspace.Model.Management
import RemoteWorkspace.Analysis.NoOrphans
import RemoteWorkspace.Model.WorktreeRows
import RemoteWorkspace.Model.WorktreeCalls
import RemoteWorkspace.Analysis.WorktreeEnds
import RemoteWorkspace.Analysis.FailedCalls
import RemoteWorkspace.Analysis.DerivedPaths
import RemoteWorkspace.Analysis.AnchorIds
import RemoteWorkspace.Analysis.RowIds
import RemoteWorkspace.Analysis.OneRow
import RemoteWorkspace.Computation.Symlinks
import RemoteWorkspace.Model.FsPaths
import RemoteWorkspace.Model.RoutingFs
import RemoteWorkspace.Model.GitWorktrees
import RemoteWorkspace.Analysis.FsPaths
import RemoteWorkspace.Analysis.GitListing
import RemoteWorkspace.Analysis.CanonicalRoots
import RemoteWorkspace.Computation.Utf16
import RemoteWorkspace.Model.NodeRequests
import RemoteWorkspace.Analysis.AcceptedTokens
import RemoteWorkspace.Model.RemoteTty
import RemoteWorkspace.Analysis.TtySteps
import RemoteWorkspace.Analysis.PublishedOnce
import RemoteWorkspace.Analysis.LastOutput
import RemoteWorkspace.Analysis.ReleasedSettles
import RemoteWorkspace.Model.ProcessIds
import RemoteWorkspace.Analysis.ReapedTargets
import RemoteWorkspace.Model.SpawnRequest
import RemoteWorkspace.Analysis.FailedSpawns
import RemoteWorkspace.Model.Tunnel
import RemoteWorkspace.Analysis.OwnTunnel
import RemoteWorkspace.Model.NodePatches
import RemoteWorkspace.Analysis.CarriedRecords
import RemoteWorkspace.Analysis.FollowedRecords
import RemoteWorkspace.Computation.Scripts
import RemoteWorkspace.Model.GitCommands
import RemoteWorkspace.Analysis.GitScripts
import RemoteWorkspace.Analysis.MergeUnwinds
import RemoteWorkspace.Analysis.WorktreeChanges
import RemoteWorkspace.Analysis.InputBytes
import RemoteWorkspace.Analysis.TargetKeys
import RemoteWorkspace.Analysis.PosixJoin
import RemoteWorkspace.Analysis.RoutedPaths
import RemoteWorkspace.Analysis.RelativePaths
import RemoteWorkspace.Computation.JsonText
import RemoteWorkspace.Computation.Preorder
import RemoteWorkspace.Analysis.PtcFlatten
import RemoteWorkspace.Analysis.PtcUnflatten
import RemoteWorkspace.Analysis.LosslessCodec
import RemoteWorkspace.Computation.WholeNumbers
import RemoteWorkspace.Computation.JsonSize
import RemoteWorkspace.Model.PtcOutput
import RemoteWorkspace.Analysis.OutputCharges
import RemoteWorkspace.Analysis.OutputBudget
import RemoteWorkspace.Model.PtcBindings
import RemoteWorkspace.Analysis.BindingSettlement
import RemoteWorkspace.Model.PtcHost
import RemoteWorkspace.Analysis.HostChannel
import RemoteWorkspace.Analysis.HonestGaps
import RemoteWorkspace.Analysis.EditedText
import RemoteWorkspace.Analysis.CanonicalTargets
import RemoteWorkspace.Model.LocalGit
import RemoteWorkspace.Analysis.AlikeListings
import RemoteWorkspace.Analysis.RemovalParity
import RemoteWorkspace.Model.RemoteArgv
import RemoteWorkspace.Analysis.InvisibleSandbox
import RemoteWorkspace.Computation.PieceReader
import RemoteWorkspace.Model.JsonRpc
import RemoteWorkspace.Analysis.WireFraming
import RemoteWorkspace.Model.TerminalBridge
import RemoteWorkspace.Analysis.TerminalGeometry
import RemoteWorkspace.Model.TerminalTab
import RemoteWorkspace.Analysis.ReattachedTab
import RemoteWorkspace.Computation.Utf8Cut
import RemoteWorkspace.Analysis.DefaultTail
import RemoteWorkspace.Analysis.PagedReads
import RemoteWorkspace.Analysis.ListedKeys
import RemoteWorkspace.Analysis.LedgerExact
import RemoteWorkspace.Analysis.WindowExact
import RemoteWorkspace.Model.AgentTerminal
import RemoteWorkspace.Analysis.ParkedReads
import RemoteWorkspace.Model.TerminalWaits
import RemoteWorkspace.Analysis.SettledWaits
import RemoteWorkspace.Analysis.ArchiveReader
import RemoteWorkspace.Computation.PercentEncoding
import RemoteWorkspace.Model.ApiPaths
import RemoteWorkspace.Analysis.OpaqueIds
import RemoteWorkspace.Model.TerminalSocket
import RemoteWorkspace.Analysis.SocketOwns
import RemoteWorkspace.Computation.Framing
import RemoteWorkspace.Model.PtcChannel
import RemoteWorkspace.Analysis.FrameChannel
import RemoteWorkspace.Computation.Calendar
import RemoteWorkspace.Model.AgentState
import RemoteWorkspace.Analysis.TimestampCalendar
import RemoteWorkspace.Computation.FrameWriter
import RemoteWorkspace.Model.ServerConnection
import RemoteWorkspace.Analysis.HandshakeGate
import RemoteWorkspace.Analysis.ConnectionAnswers
import RemoteWorkspace.Analysis.ConnectionEnds
import RemoteWorkspace.Computation.JsonValue
import RemoteWorkspace.Model.Wire
import RemoteWorkspace.Analysis.WireRequests
import RemoteWorkspace.Computation.JsonLayout
import RemoteWorkspace.Computation.DurableCopy
import RemoteWorkspace.Model.Documents
import RemoteWorkspace.Analysis.StoredDocuments
import RemoteWorkspace.Model.TabSockets
import RemoteWorkspace.Analysis.TabLifecycle
import RemoteWorkspace.Analysis.TabFrames
import RemoteWorkspace.Model.FsListing
import RemoteWorkspace.Analysis.AgreedListings
import RemoteWorkspace.Computation.Descriptors
import RemoteWorkspace.Model.PtyAllocation
import RemoteWorkspace.Analysis.PtyDescriptors
import RemoteWorkspace.Analysis.PtyReports
