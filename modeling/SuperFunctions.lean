import SuperFunctions.Datafn.Client.PushSafety
import SuperFunctions.Datafn.Server.SequenceUniqueness
import SuperFunctions.Datafn.Sync.Reconcile
import SuperFunctions.Datafn.Sync.CursorStability
import SuperFunctions.Datafn.Sync.NoLostChange
import SuperFunctions.Datafn.Sync.CloneConvergence
import SuperFunctions.Datafn.Sync.AtMostOnce
import SuperFunctions.Datafn.Server.TransactAtomicity
import SuperFunctions.Datafn.Relations.HtreeRuns
import SuperFunctions.Datafn.Client.LocalRouting
import SuperFunctions.Datafn.Server.ShareVisibility
import SuperFunctions.Datafn.Server.PushdownSafety
import SuperFunctions.Datafn.Server.PermissionDirectoryConvergence
import SuperFunctions.Db.NamespaceIsolation
import SuperFunctions.Db.TransactionAtomicity
import SuperFunctions.SearchFn.SearchResults
import SuperFunctions.SearchFn.PersistentRuns
import SuperFunctions.Datafn.Server.AuthCacheTransparency
import SuperFunctions.Datafn.Server.PaginationExhaustive
import SuperFunctions.SearchFn.PostingAgreement
import SuperFunctions.Billfn.UsageMoves
import SuperFunctions.Billfn.AccountPhases
import SuperFunctions.Authfn.PlacementEpochs
import SuperFunctions.Authfn.RequestsOnce
import SuperFunctions.Authfn.RegionOwners
import SuperFunctions.Billfn.EventsConverge
import SuperFunctions.Filefn.QuotaBalance
import SuperFunctions.Mdfn.Outbox
import SuperFunctions.Mdfn.Hash
import SuperFunctions.Authfn.OtpAttempts
import SuperFunctions.Authfn.TwoFactorRuns
import SuperFunctions.Oauth.TokenVaults
import SuperFunctions.Oauth.ConnectionTokens
import SuperFunctions.Mdfn.RemoteUpdatesVetted
import SuperFunctions.Mdfn.DocumentWrites
import SuperFunctions.Mdfn.CollaborationLogComplete
import SuperFunctions.Plugfn.ExecutionExclusion
import SuperFunctions.Middleware.RateLimiterKept
import SuperFunctions.Datafn.Relations.NoDanglingReferences
import SuperFunctions.Secfn.SecretConsistency
import SuperFunctions.Secfn.TokenConfinement
import SuperFunctions.Datafn.Core.LikeMatching
import SuperFunctions.Datafn.Client.BackgroundHydration
import SuperFunctions.Datafn.Server.PullCatchUp
import SuperFunctions.Datafn.Server.PrincipalClosure
import SuperFunctions.SearchFn.SnapshotAgreement
import SuperFunctions.Datafn.Server.SharedWithMe
import SuperFunctions.Uifn.AsyncList
import SuperFunctions.Uifn.Gesture
import SuperFunctions.Uifn.RangeSteps
import SuperFunctions.Uifn.Selection
import SuperFunctions.Uifn.Virtualization
import SuperFunctions.Uifn.ZonedDateTime
import SuperFunctions.Authfn.TotpSecret
import SuperFunctions.Authfn.RateLimit
