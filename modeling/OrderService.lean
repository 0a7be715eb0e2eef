import OrderService.Interleaving.Program
import OrderService.Interleaving.RelyGuarantee
import OrderService.Interleaving.ReadCommitted
import OrderService.Enums
import OrderService.Entities
import OrderService.Tables
import OrderService.Runtime
import OrderService.Repositories
import OrderService.Services.OrderStatus
import OrderService.Responses
import OrderService.Services.Assignment
import OrderService.Services.Finance
import OrderService.Codec.QueryString
import OrderService.Services.Order
import OrderService.Services.Signature
import OrderService.Services.Webhook
import OrderService.Isolation
import OrderService.Rows
import OrderService.PayoutSpec
import OrderService.PayoutDebits
import OrderService.Effects
import OrderService.SettlementEffects
import OrderService.BalanceInvariant
import OrderService.OneWinner
import OrderService.WebhookEffects
import OrderService.StatusGraph
import OrderService.SettlementSpec
import OrderService.SettlementResult
import OrderService.SettledOnce
import OrderService.DeliverySpec
import OrderService.DeliveryAlone
import OrderService.Ledger
import OrderService.WebhookSpec
import OrderService.WebhookFidelity
import OrderService.WebhookRedelivery
import OrderService.SignatureBinding
import OrderService.CallEffects
import OrderService.Interleaving.Retry
import OrderService.Services.Refund
import OrderService.SerialIds
import OrderService.DeliveredSettled
import OrderService.Interleaving.Budget
import OrderService.Ownership
import OrderService.Spending
import OrderService.WebhookOnce
import OrderService.Interleaving.UniqueIndex
import OrderService.UniqueKeys
import OrderService.Interleaving.Growth
import OrderService.Knowledge
import OrderService.LedgerRows
import OrderService.LedgerEffects
import OrderService.LedgerWellFormed
import OrderService.OutboxAtomic
import OrderService.OutboxLoss
import OrderService.Interleaving.Verdict
import OrderService.StockCompensation
import OrderService.Services.CoreClient
import OrderService.StockRetries
import OrderService.Codec.JsonText
import OrderService.Services.Idempotency
import OrderService.IdempotencyOnce
import OrderService.IdempotencyReplay
import OrderService.IdempotencyCrossTalk
import OrderService.PlacementEffects
import OrderService.RoutePermissions
import OrderService.StatusAuthority
import OrderService.TenantWrites
import OrderService.Services.Reads
import OrderService.TenantReads
import OrderService.PayoutReads
import OrderService.Services.Presence
import OrderService.Services.Websocket
import OrderService.Broadcasts
import OrderService.SocketConfidentiality
import OrderService.Services.OutboxDrain
import OrderService.Interleaving.Lawful
import OrderService.OutboxDrainSafety
import OrderService.OutboxDrainRuns
import OrderService.OutboxDelivery
import OrderService.OutboxOrder
import OrderService.Interleaving.Paced
import OrderService.LifecycleInTurn
import OrderService.OrderLifecycle
import OrderService.EarningsOwned
import OrderService.Services.BranchProducts
import OrderService.OrderMoney
import OrderService.EventsHandled
import OrderService.Interleaving.Recorded
import OrderService.OfferHistory
import OrderService.OfferList
import OrderService.OfferWindow
import OrderService.ActiveDelivery
import OrderService.BusySet
import OrderService.Interleaving.OnConflict
import OrderService.Services.Archival
import OrderService.ArchivalCopies
import OrderService.ArchivalOrphans
import OrderService.OrderReadAccess
import OrderService.CancellationWindow
import OrderService.Interleaving.Complete
import OrderService.Services.RefundAmount
import OrderService.RefundRecorded
import OrderService.Services.Sharding
import OrderService.ShardLocality
import OrderService.CursorPagination
import OrderService.Services.OrderListCache
import OrderService.OrderListCoherence
import OrderService.Services.CoreDataCache
import OrderService.ClosedBranches
import OrderService.Interleaving.LastWrite
import OrderService.Services.ProductCache
import OrderService.ProductCacheConverges
import OrderService.PoolDeadlock
import OrderService.PermissionRevocation
import OrderService.SignatureExact
import OrderService.CommitFailures
import OrderService.Interleaving.Answering
import OrderService.CandidateSelection
import OrderService.TickOffers
import OrderService.GoingOffline
import OrderService.ArchivalSweep
import OrderService.Services.ProductPayloads
import OrderService.CompleteProducts
import OrderService.Services.BranchText
import OrderService.BatchBranches
import OrderService.EarningsTotals
import OrderService.OrderHistory
import OrderService.PayoutRetries
import OrderService.RetrySpec
import OrderService.Codec.Calendar
import OrderService.Services.Partitions
import OrderService.MonthPartitions
import OrderService.AccountRows
import OrderService.AccountEffects
import OrderService.OneAccount
import OrderService.RefundBounds
import OrderService.Interleaving.Tickets
import OrderService.OrderNames
import OrderService.PlacedEvents
import OrderService.PlacedOnce
import OrderService.Interleaving.Lockstep
import OrderService.Interleaving.Trimmed
import OrderService.Interleaving.Tracking
import OrderService.RowLocks
import OrderService.LockOrder
import OrderService.CompletedCalls
import OrderService.Books
import OrderService.ArchivedRows
import OrderService.ArchivalTransparency
import OrderService.Records
import OrderService.RecordEffects
import OrderService.RecordsKept
import OrderService.RefundedCharges
