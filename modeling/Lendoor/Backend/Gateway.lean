import Lendoor.Backend.Strkey
import Lendoor.Core.Paging
import Lendoor.Soroban.Host
import Mathlib.Data.List.Sort

/-! # Event scans of the chain gateway

How the backend reads the loan manager's events: topic filters, the paging loop over
`getEvents`, and the two scans built on it. The RPC server, the SDK's conversions and
the clock are parameters; what the server documents about its answers is a hypothesis.
-/

namespace Lendoor

/-! ## Published events -/

/-- The contract values the two contracts publish, in topics and in tuples. -/
inductive ScVal
  | symbol (name : String)
  | address (address : Address)
  | u32 (n : Nat)
  | u64 (n : Nat)
  | i128 (n : Int)
  deriving DecidableEq, Repr

/-- The value of an event: a single value or a tuple. -/
inductive EventData
  | single (value : ScVal)
  | tuple (items : List ScVal)
  deriving DecidableEq, Repr

namespace Event

/-- The topic list an event is published under. -/
def topics : Event → List ScVal
  | ownerset _ => [.symbol "ownerset"]
  | vaultset _ => [.symbol "vaultset"]
  | riskset account _ => [.symbol "riskset", .address account]
  | offerset borrower _ _ _ => [.symbol "offerset", .address borrower]
  | loanopen borrower _ _ _ => [.symbol "loanopen", .address borrower]
  | loanclos borrower _ => [.symbol "loanclos", .address borrower]
  | default borrower _ => [.symbol "default", .address borrower]
  | premium borrower _ => [.symbol "premium", .address borrower]
  | partpay borrower _ _ _ => [.symbol "partpay", .address borrower]
  | deposit account _ _ => [.symbol "deposit", .address account]
  | depFrom payer beneficiary _ _ => [.symbol "dep_from", .address payer, .address beneficiary]
  | withdraw account _ _ => [.symbol "withdraw", .address account]
  | redeem account _ _ => [.symbol "redeem", .address account]
  | borrow borrower _ _ _ => [.symbol "borrow", .address borrower]
  | repay borrower _ _ => [.symbol "repay", .address borrower]
  | partrepay borrower _ _ _ => [.symbol "partrepay", .address borrower]
  | writeoff borrower _ => [.symbol "writeoff", .address borrower]

/-- The value an event carries. -/
def data : Event → EventData
  | ownerset owner => .single (.address owner)
  | vaultset vault => .single (.address vault)
  | riskset _ limit => .single (.i128 limit)
  | offerset _ tenorDays feeBps maxAmount => .tuple [.u32 tenorDays, .u32 feeBps, .i128 maxAmount]
  | loanopen _ principal amountDue due => .tuple [.i128 principal, .i128 amountDue, .u64 due]
  | loanclos _ paid => .single (.i128 paid)
  | default _ timestamp => .single (.u64 timestamp)
  | premium _ lateRatePerSecWad => .single (.i128 lateRatePerSecWad)
  | partpay _ principalPaid interestPaid amountDue =>
      .tuple [.i128 principalPaid, .i128 interestPaid, .i128 amountDue]
  | deposit _ assets shares => .tuple [.i128 assets, .i128 shares]
  | depFrom _ _ assets shares => .tuple [.i128 assets, .i128 shares]
  | withdraw _ assets shares => .tuple [.i128 assets, .i128 shares]
  | redeem _ assets shares => .tuple [.i128 assets, .i128 shares]
  | borrow _ amount tenorDays feeBps => .tuple [.i128 amount, .u32 tenorDays, .u32 feeBps]
  | repay _ pay fee => .tuple [.i128 pay, .i128 fee]
  | partrepay _ pay fee remaining => .tuple [.i128 pay, .i128 fee, .i128 remaining]
  | writeoff _ amount => .single (.i128 amount)

end Event

namespace Backend

open Cctp (Text JsError)

/-! ## The RPC server -/

/-- An event as the server reports it. The `id` orders the log. -/
structure ContractEvent where
  id : Nat
  contractId : Address
  topic : List ScVal
  value : EventData
  ledger : Nat
  txHash : Text
  ledgerClosedAt : Text
  inSuccessfulContractCall : Bool

/-- A segment of a topic filter. The source writes values in base64 XDR, which
identifies them. -/
inductive Segment
  | wildcard
  | exactly (value : ScVal)
  deriving DecidableEq, Repr

def Segment.accepts : Segment → ScVal → Bool
  | wildcard, _ => true
  | exactly value, topic => value = topic

/-- A topic filter takes topic lists of its own length, segment by segment. -/
def topicMatches (segments : List Segment) (topic : List ScVal) : Bool :=
  segments.length = topic.length &&
    (segments.zip topic).all fun (segment, value) => segment.accepts value

structure EventFilter where
  contractIds : List Address
  topics : List (List Segment)

/-- The outer list of topic filters is a disjunction. -/
def EventFilter.accepts (filter : EventFilter) (e : ContractEvent) : Bool :=
  filter.contractIds.contains e.contractId &&
    filter.topics.any fun segments => topicMatches segments e.topic

/-- Where a request starts reading: at a ledger, with a bound, or behind a cursor. -/
inductive EventRange
  | ledgers (startLedger endLedger : Nat)
  | cursor (cursor : Text)

structure GetEventsRequest where
  filters : List EventFilter
  range : EventRange
  limit : Nat

structure GetEventsResponse where
  events : List ContractEvent
  cursor : Text

/-- A server, with the event its cursors stand on and the last ledger an `endLedger`
admits. -/
structure Rpc where
  getEvents : GetEventsRequest → GetEventsResponse
  eventId : Text → Nat
  lastLedger : Nat → Nat

namespace Rpc

variable (rpc : Rpc)

def inRange (range : EventRange) (e : ContractEvent) : Bool :=
  match range with
  | .ledgers startLedger endLedger => startLedger ≤ e.ledger && e.ledger ≤ rpc.lastLedger endLedger
  | .cursor cursor => rpc.eventId cursor < e.id

def selects (request : GetEventsRequest) (e : ContractEvent) : Bool :=
  request.filters.any (fun filter => filter.accepts e) && rpc.inRange request.range e

/-- What `getEvents` documents over a log: a page holds the first `limit` events the
request selects, and the cursor of a full page stands on its last event. -/
structure Documented (log : List ContractEvent) : Prop where
  lastLedger_le : ∀ ledger, rpc.lastLedger ledger ≤ ledger
  ids : KeysGrow ContractEvent.id log
  ledgers : log.Pairwise fun e e' => e.ledger ≤ e'.ledger
  page : ∀ request, (rpc.getEvents request).events =
    (log.filter (rpc.selects request)).take request.limit
  cursor : ∀ request e, (rpc.getEvents request).events.length = request.limit →
    (rpc.getEvents request).events.getLast? = some e →
      (rpc.getEvents request).cursor ≠ [] ∧ rpc.eventId (rpc.getEvents request).cursor = e.id

end Rpc

/-! ## The gateway -/

/-- What the gateway is configured with and calls: the server, the loan manager's
address, the SDK's conversions and the platform's dates in milliseconds. -/
structure Gateway where
  rpc : Rpc
  sorobanLoanManager : Address
  scAddress : Text → Except JsError ScVal
  nativeText : ScVal → Text
  dateParse : Text → Option Int
  now : Int

structure ChainLoanOpenedEvent where
  borrower : Text
  principal : Int
  amountDue : Int
  due : Nat
  feeBps : Int
  ledger : Nat
  txHash : Text
  timestamp : Int
  deriving DecidableEq, Repr

structure ChainLoanClosedEvent where
  borrower : Text
  amountPaid : Int
  txHash : Text
  ledger : Nat
  timestamp : Int
  deriving DecidableEq, Repr

def eventTopic (value : String) : Segment := .exactly (.symbol value)

def pageLimit : Nat := 1000

namespace Gateway

variable (g : Gateway)

/-- Seconds, or the current second where the server's date does not parse. -/
def eventTimestamp (ledgerClosedAt : Text) : Int :=
  match g.dateParse ledgerClosedAt with
  | some parsed => parsed / 1000
  | none => g.now / 1000

/-- `cursor ? { cursor } : { startLedger, endLedger }` -/
def requestRange (startLedger endLedger : Nat) : Option Text → EventRange
  | some cursor => .cursor cursor
  | none => .ledgers startLedger endLedger

/-- The `do … while` loop of `getContractEvents`, with what it has collected. It runs
for at most `fuel` requests. -/
def fetchPages (filters : List EventFilter) (startLedger endLedger : Nat) :
    Nat → Option Text → List ContractEvent → Option (List ContractEvent)
  | 0, _, _ => none
  | fuel + 1, cursor, events =>
      let response := g.rpc.getEvents
        ⟨filters, requestRange startLedger endLedger cursor, pageLimit⟩
      let events := events ++ response.events
      if response.cursor = [] ∨ some response.cursor = cursor then some events
      else if response.events.length = pageLimit then
        fetchPages filters startLedger endLedger fuel (some response.cursor) events
      else some events

def getContractEvents (fuel startLedger endLedger : Nat) (topics : List (List Segment)) :
    Option (List ContractEvent) :=
  g.fetchPages [⟨[g.sorobanLoanManager], topics⟩] startLedger endLedger fuel none []

/-- `String(topics[1])` -/
def topicText (topic : Option ScVal) : Text :=
  match topic with
  | some value => g.nativeText value
  | none => "undefined".toList

/-- An event read as an opened loan. Destructuring any other value throws. -/
def loanOpenedOf (e : ContractEvent) : Except JsError ChainLoanOpenedEvent :=
  match e.value with
  | .tuple [.i128 principal, .i128 amountDue, .u64 due] =>
      let feeBps := if 0 < principal then ((amountDue - principal) * 10000).tdiv principal else 0
      .ok ⟨g.topicText e.topic[1]?, principal, amountDue, due, feeBps, e.ledger, e.txHash,
        g.eventTimestamp e.ledgerClosedAt⟩
  | _ => .error (thrown "event value is not iterable")

def getLoanOpenedEvents (fuel fromLedger toLedger : Nat) :
    Option (Except JsError (List ChainLoanOpenedEvent)) :=
  (g.getContractEvents fuel fromLedger toLedger [[eventTopic "loanopen"]]).map fun events =>
    (events.filter (·.inSuccessfulContractCall)).mapM g.loanOpenedOf

/-- Newest first, by timestamp and then by ledger. -/
def newestFirst (a b : ContractEvent × Int) : Prop :=
  b.2 < a.2 ∨ b.2 = a.2 ∧ b.1.ledger ≤ a.1.ledger

instance newestFirst_decidable : DecidableRel newestFirst :=
  fun _ _ => inferInstanceAs (Decidable (_ ∨ _ ∧ _))

/-- The newest matching event of those fetched, if any. -/
def newestClosed (borrower : Text) (loanStartUnix : Int) (events : List ContractEvent) :
    Except JsError (Option ChainLoanClosedEvent) :=
  let stamped := (events.filter (·.inSuccessfulContractCall)).map fun e =>
    (e, g.eventTimestamp e.ledgerClosedAt)
  let found := (stamped.filter fun m => loanStartUnix ≤ m.2).insertionSort newestFirst
  match found.head? with
  | none => .ok none
  | some (e, timestamp) =>
      match e.value with
      | .single (.i128 amountPaid) =>
          .ok (some ⟨borrower, amountPaid, e.txHash, e.ledger, timestamp⟩)
      | _ => .error (thrown "event value is not an amount")

def findLoanClosedEvent (fuel : Nat) (borrower : Text) (loanStartAt : Int) (currentLedger : Nat) :
    Option (Except JsError (Option ChainLoanClosedEvent)) :=
  match assertStellarAccount borrower with
  | .error error => some (.error error)
  | .ok () =>
      let loanStartUnix := loanStartAt / 1000
      let startLedger := currentLedger - 100000
      match g.scAddress borrower with
      | .error error => some (.error error)
      | .ok address =>
          (g.getContractEvents fuel startLedger currentLedger
            [[eventTopic "loanclos"], [.exactly address]]).map
              (g.newestClosed borrower loanStartUnix)

end Gateway

end Backend

end Lendoor
