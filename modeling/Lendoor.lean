import Lendoor.Core.Checked
import Lendoor.Core.Storage
import Lendoor.Core.Runs
import Lendoor.Core.Relational
import Lendoor.Soroban.Host
import Lendoor.Soroban.Token
import Lendoor.LoanManager.Contract
import Lendoor.LoanManager.Accrual
import Lendoor.LoanManager.Effects
import Lendoor.LoanManager.Invariant
import Lendoor.LoanManager.Repayment
import Lendoor.LoanManager.Record
import Lendoor.LoanManager.Admission
import Lendoor.LoanManager.PreLate
import Lendoor.Core.PiecewiseRate
import Lendoor.LoanManager.PartialPayments
import Lendoor.LoanManager.LateFees
import Lendoor.LoanManager.Splitting
import Lendoor.Vault.Contract
import Lendoor.Core.SharePool
import Lendoor.Core.RoundingLeak
import Lendoor.Core.Pool
import Lendoor.Vault.Effects
import Lendoor.System.Machine
import Lendoor.System.Refinement
import Lendoor.System.Accounting
import Lendoor.System.SharePrice
import Lendoor.System.Exit
import Lendoor.System.ShareBounds
import Lendoor.System.Settlement
import Lendoor.System.Cooldown
import Lendoor.System.Donation
import Lendoor.System.Locality
import Lendoor.System.Independence
import Lendoor.System.Healing
import Lendoor.System.Bystander
import Lendoor.System.Authority
import Lendoor.Core.Async
import Lendoor.Core.Exec
import Lendoor.Core.Service
import Lendoor.Core.History
import Lendoor.Core.IsoDate
import Lendoor.Cctp.Message
import Lendoor.Cctp.Transfer
import Lendoor.Cctp.Executor
import Lendoor.Cctp.Delivery
import Lendoor.Cctp.Deposits
import Lendoor.Cctp.Solvency
import Lendoor.Cctp.IrisClient
import Lendoor.Cctp.Evidence
import Lendoor.Core.Paging
import Lendoor.Backend.Strkey
import Lendoor.Backend.Gateway
import Lendoor.Backend.EventScan
import Lendoor.Backend.LoanRows
import Lendoor.Backend.TxQueue
import Lendoor.Backend.Http
import Lendoor.Backend.Kyc
import Lendoor.Backend.Auth
import Lendoor.Backend.Login
import Lendoor.Backend.AccessToken
import Lendoor.Backend.Onboarding
import Lendoor.Backend.StoredEmail
import Lendoor.Core.Parallel
import Lendoor.Core.Retries
import Lendoor.Backend.CreditPolicy
import Lendoor.Backend.PricingTiers
import Lendoor.Backend.CreditLine
import Lendoor.Backend.DefaultPenalty
import Lendoor.Backend.LadderSync
import Lendoor.Core.BigEndian
import Lendoor.Cctp.Codec
import Lendoor.Core.Utf8
import Lendoor.Cctp.HookData
import Lendoor.Cctp.Burn
import Lendoor.Frontend.VaultBalance
import Lendoor.Core.Decimal
import Lendoor.Backend.AmountUnits
import Lendoor.Frontend.Amounts
import Lendoor.Backend.FeeBump
import Lendoor.Core.Crc
import Lendoor.Core.Numerals
import Lendoor.Backend.AccountId
import Lendoor.Backend.PhoneOtp
import Lendoor.Backend.VerifiedPhone
import Lendoor.Core.Attempts
import Lendoor.Backend.WalletLink
import Lendoor.Backend.LinkedWallets
import Lendoor.Backend.LinkProvenance
import Lendoor.Backend.NonceReplay
import Lendoor.Backend.LinkedUser
import Lendoor.Backend.OtpBound
import Lendoor.Backend.RepaymentOrder
import Lendoor.Backend.LiveLoan
import Lendoor.Backend.OpenedScan
import Lendoor.Backend.RowLife
import Lendoor.Backend.CloseAttribution
import Lendoor.Backend.SyncClosings
import Lendoor.Backend.TxSender
import Lendoor.Backend.TxLandings
import Lendoor.Backend.Borrow
import Lendoor.Backend.OpenedTerms
import Lendoor.Backend.OfferPolicy
import Lendoor.Backend.OfferOpens
