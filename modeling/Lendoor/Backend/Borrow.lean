import Lendoor.Core.Service
import Lendoor.Core.Parallel
import Lendoor.LoanManager.Record
import Lendoor.LoanManager.Admission
import Lendoor.Backend.AmountUnits
import Lendoor.Backend.Kyc
import Lendoor.Backend.LoanBook
import Lendoor.Backend.PricingTiers

/-! # Borrowing

`borrow` and the gateway's part of it: what a borrower must have before an offer is written
to the chain, and the terms of the offer. Requests, payments and openings of others go on at
every await. Amounts and rates are exact rationals.
-/

namespace Lendoor.Backend

open Cctp (Text falsy)
open Async (call caught lift settled Exchange)
open AmountUnits (Spells Amount stellarTokenDecimals)

namespace Borrow

/-! ## The request -/

/-- `\d{low,high}` -/
def digitsBetween (low high : Nat) (text : Text) : Bool :=
  text.all Char.isDigit && low ≤ text.length && text.length ≤ high

/-- `/^\d{1,10}(\.\d{1,6})?$/` -/
def amountPattern (text : Text) : Bool :=
  match text.splitOn '.' with
  | [whole] => digitsBetween 1 10 whole
  | [whole, frac] => digitsBetween 1 10 whole && digitsBetween 1 6 frac
  | _ => false

/-- A request as the validation of the API lets it through. -/
structure BorrowLoanDto where
  amountHuman : Text
  receiver : Text
  tenorDays : Int
  validAmount : amountPattern amountHuman = true

/-- The columns of a user that `borrow` reads. -/
structure User where
  id : Nat
  walletAddress : Text
  phone : Option Text
  phoneVerifiedAt : Option Int
  kycStatus : Kyc.KycStatus
  score : Option Nat
  riskPDefault : Option ℚ
  walletQuality : Option WalletQuality
  hadDefaultEver : Bool

structure TieredParams where
  onTimeLoans : Nat
  walletQuality : WalletQuality
  totalRepaidUsd : ℚ
  lateLoans : Nat

structure Offer where
  feeBps : Int
  tenorDays : Int
  maxAmountBase : Int
  minedBlock : Nat

/-- What a request awaits. The last two hand a transaction to the queue. -/
inductive Ask
  | findUser (wallet : Text)
  | readNextBorrowTime (borrower : Text)
  | getChainBlockTimestamp
  | now
  | readCreditLimitOnChain (borrower : Text)
  | countOnTime (userId : Nat)
  | countLate (userId : Nat)
  | sumRepaid (userId : Nat)
  | findRisk (userId : Nat)
  | setLoanOffer (borrower : Text) (tenorDays feeBps : Int) (validUntil : Nat) (maxAmount : Int)
  | setPremiumConfig (borrower : Text) (lateRatePerSecWad : Int)
  deriving DecidableEq

@[reducible] def Answer : Ask → Type
  | .findUser _ => Option User
  | .readNextBorrowTime _ => Nat
  | .getChainBlockTimestamp => Option Nat
  | .now => Nat
  | .readCreditLimitOnChain _ => Int
  | .countOnTime _ => Nat
  | .countLate _ => Nat
  | .sumRepaid _ => ℚ
  | .findRisk _ => Option User
  | .setLoanOffer _ _ _ _ _ => Nat
  | .setPremiumConfig _ _ => Unit

abbrev Program := Async Ask Answer HttpError

abbrev Asked := Exchange Ask Answer HttpError

def badRequest (message : String) : HttpError := ⟨.badRequest, message⟩

/-- What the gateway throws. -/
def rejected (message : String) : HttpError := ⟨.rejected, message⟩

/-- The decimal parser, the accounts of the chain, the date of a message, and
`KYC_GATE_ENABLED`. -/
structure BorrowSdk extends LoanBook.LoanSdk where
  scAddress : Text → Address
  cooldownMessage : Nat → String
  kycGateEnabled : Bool

/-! ## The terms -/

/-- The rate of a month and that of the whole term: longer terms cost more a month. -/
def getRatesForTerm (days : Int) (pDefault : Option ℚ) (params : TieredParams) :
    Except HttpError (ℚ × ℚ) :=
  if days ≤ 0 then .error (badRequest "Invalid tenorDays")
  else
    let baseMonthlyRate :=
      (getTieredMonthlyRate pDefault params.onTimeLoans params.walletQuality params.totalRepaidUsd
      params.lateLoans).monthlyRate
    let relative : ℚ := (days - 14) / 14
    let monthlyRate := max (baseMonthlyRate * (1 + relative * (4 / 10))) 0
    .ok (monthlyRate, monthlyRate * days / 30)

/-- Half up. -/
def toBps (d : ℚ) : Int := ⌊d * 10000 + 1 / 2⌋

def getFeeBpsForTerm (days : Int) (pDefault : Option ℚ) (params : TieredParams) :
    Except HttpError Int :=
  (getRatesForTerm days pDefault params).map fun rates => toBps rates.2

def getTieredPricingContext (userId : Nat) : Program TieredParams := do
  let onTimeLoans : Nat ← call (Ask.countOnTime userId)
  let rawLateLoans : Nat ← call (Ask.countLate userId)
  let totalRepaidUsd : ℚ ← call (Ask.sumRepaid userId)
  let userRow : Option User ← call (Ask.findRisk userId)
  let hadDefaultEver := (userRow.map User.hadDefaultEver).getD false
  pure ⟨onTimeLoans, (userRow.bind User.walletQuality).getD .fea, totalRepaidUsd,
    if hadDefaultEver then rawLateLoans else 0⟩

/-! ## The gateway -/

/-- `createLoanOfferBackend`: the amount is read once more, from the text of the request. -/
def createLoanOfferBackend (amountHuman borrower : Text) (tenorDays feeBps : Int) :
    Program Offer := do
  if isValidStellarPublicKey borrower = false then .throw (rejected "Invalid Stellar account")
  else if tenorDays ≤ 0 then .throw (rejected "Invalid tenorDays")
  else if feeBps ≤ 0 then .throw (rejected "Invalid feeBps")
  else
    match AmountUnits.toUnits (.string amountHuman) stellarTokenDecimals with
    | none => .throw (rejected "SyntaxError")
    | some maxAmount =>
        if maxAmount ≤ 0 then .throw (rejected "Invalid amountHuman")
        else do
          let now : Nat ← call Ask.now
          let minedBlock : Nat ←
            call
            (Ask.setLoanOffer borrower tenorDays feeBps (now / 1000 + 3 * 24 * 60 * 60) maxAmount)
          pure ⟨feeBps, tenorDays, maxAmount, minedBlock⟩

def lateRatePerSecWad : Int := 19290123457

/-! ## `borrow` -/

variable (sdk : BorrowSdk)

def assertKycGate (user : User) : Except HttpError Unit :=
  if sdk.kycGateEnabled = true ∧ user.kycStatus ≠ .approved then .error ⟨.forbidden,
    "Necesitás completar la verificación de identidad (KYC) antes de operar tu línea de crédito."⟩
  else .ok ()

def borrowCooldownError (nextAt now : Nat) : Option HttpError :=
  if nextAt = 0 ∨ nextAt ≤ now then none else some (badRequest (sdk.cooldownMessage nextAt))

/-- The chain's clock, or the server's where it does not answer. -/
def chainNow : Program Nat := do
  let timestamp : Option Nat ← call Ask.getChainBlockTimestamp
  match timestamp with
  | some timestamp => pure timestamp
  | none => do
      let now : Nat ← call Ask.now
      pure (now / 1000)

/-- Where the cooldown cannot be read, the contract is left to check it. -/
def assertNoBorrowCooldown (borrower : Text) : Program Unit := do
  let read : Except HttpError Nat ← caught (Ask.readNextBorrowTime borrower)
  match read with
  | .error _ => pure ()
  | .ok nextAt =>
      if nextAt = 0 then pure ()
      else do
        let now ← chainNow
        match borrowCooldownError sdk nextAt now with
        | some error => .throw error
        | none => pure ()

/-- The limit of the ladder, or the one on the chain where that is lower but not zero. -/
def effectiveLimit (borrower : Text) (ladderLimitUsdc : Nat) : Program ℚ := do
  let read : Except HttpError Int ← caught (Ask.readCreditLimitOnChain borrower)
  match read with
  | .error _ => pure ladderLimitUsdc
  | .ok units =>
      let onChainLimitUsdc : ℚ := units / 10 ^ stellarTokenDecimals
      pure (if 0 < onChainLimitUsdc ∧ onChainLimitUsdc < ladderLimitUsdc then onChainLimitUsdc
        else ladderLimitUsdc)

def User.ladderLimit (user : User) : Nat := (getStepForScore (user.score.getD 1)).limitUsdc

/-- From the checks of the user on. -/
def offerTo (dto : BorrowLoanDto) (borrower : Text) (user : User) : Program Offer := do
  let _ ← assertNoBorrowCooldown sdk borrower
  let limit ← effectiveLimit borrower user.ladderLimit
  let requested ← lift (LoanBook.parseAmountHuman sdk.toLoanSdk dto.amountHuman)
  if limit < requested then .throw (badRequest "Amount exceeds your credit limit")
  else do
    let tieredCtx ← getTieredPricingContext user.id
    let tieredCtx := { tieredCtx with walletQuality := user.walletQuality.getD .fea }
    let feeBps ← lift (getFeeBpsForTerm dto.tenorDays user.riskPDefault tieredCtx)
    match ← (createLoanOfferBackend dto.amountHuman borrower dto.tenorDays feeBps).settled with
    | .error _ => .throw (badRequest "Creating loan offer failed")
    | .ok offer => do
        let _ ← caught (Ask.setPremiumConfig borrower lateRatePerSecWad)
        pure offer

def borrow (dto : BorrowLoanDto) : Program Offer := do
  if dto.amountHuman = [] ∨ dto.receiver = [] then
    .throw (badRequest "Missing amountHuman, receiver or tenorDays")
  else do
    let borrower ← lift (normalizeWallet dto.receiver)
    if dto.tenorDays ≤ 0 then .throw (badRequest "Invalid tenorDays")
    else if dto.tenorDays ∉ [7, 14, 21] then
      .throw
        (badRequest ("Invalid tenorDays: " ++ toString dto.tenorDays ++
        ". Allowed values: 7, 14, 21"))
    else do
      let found : Option User ← call (Ask.findUser borrower)
      match found with
      | none => .throw ⟨.notFound, "User not found"⟩
      | some user =>
          if falsy user.phone = true ∨ user.phoneVerifiedAt = none then
            .throw (badRequest "Phone verification required before requesting loan")
          else do
            let _ ← lift (assertKycGate sdk user)
            offerTo sdk dto borrower user

end Borrow

end Lendoor.Backend
