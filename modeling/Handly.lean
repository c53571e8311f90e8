import Handly.Lib.Interleaving
import Handly.Lib.Table
import Handly.Lib.CursorWalk
import Handly.Contracts
import Handly.Orders.OrderState
import Handly.Orders.Pricing
import Handly.Schema
import Handly.Dispatch.Scoring
import Handly.Dispatch.Eligibility
import Handly.Orders.Calls
import Handly.Trust
import Handly.Orders.OrdersService
import Handly.Dispatch.DispatchService
import Handly.Orders.Machine
import Handly.Orders.Statements
import Handly.Orders.Effects
import Handly.Orders.Rows
import Handly.Orders.Knowledge
import Handly.Orders.Quotes
import Handly.Orders.TransitionTable
import Handly.Orders.MasterExclusion
import Handly.Orders.Profiles
import Handly.Orders.Ledger
import Handly.Orders.Bookkeeping
import Handly.Orders.ExactlyOnce
import Handly.Pagination
import Handly.Dispatch.OpenOffers
import Handly.Dispatch.AcceptRace
import Handly.Orders.Records
import Handly.Dispatch.SequentialOffers
import Handly.Dispatch.LiveOffers
import Handly.Dispatch.CascadeRetry
import Handly.Dispatch.AnsweredOnce
import Handly.Dispatch.LateResponses
import Handly.Dispatch.Submissions
import Handly.Payments.DoubleCharge
import Handly.Payments.StuckPayments
import Handly.Payments.Settlement
import Handly.Payments.Webhooks
import Handly.Payments.MoneySplit
import Handly.Payments.ReferralLedger
import Handly.Auth.Activation
import Handly.Auth.Suspension
import Handly.Auth.OneTimeCodes
import Handly.Auth.RefreshRotation
import Handly.Auth.Eviction
import Handly.Auth.Credentials
import Handly.Verifications.LatestRequest
import Handly.Reviews.RatingMean
import Handly.Media.StoredFiles
import Handly.Platform.Assignments
import Handly.Decisions
import Handly.Orders.QuoteBand
import Handly.TrustScore
import Handly.Dispatch.Selection
import Handly.Orders.BookingForm
import Handly.Dispatch.EligibilityQuery
import Handly.Dispatch.CascadeTermination
import Handly.Orders.StatusHistory
import Handly.Auth.AuditTrail
import Handly.Subscriptions.Trials
import Handly.Subscriptions.Premium
import Handly.Orders.SlotTexts
import Handly.PhoneNumbers
import Handly.Auth.Challenges
import Handly.Auth.ReferralForest
import Handly.Platform.QueryTarget
import Handly.Platform.Analytics
import Handly.Users.DefaultAddress
import Handly.Users.ProfileEdits
import Handly.Orders.Draining
import Handly.Payments.Draining
import Handly.Payments.Charges
import Handly.Auth.Draining
import Handly.Orders.Deals
import Handly.Orders.Notices
import Handly.Dispatch.SearchesEnd
import Handly.Auth.LoginLockout
import Handly.Users.FieldCrypto
import Handly.Realtime.LocationRelay
