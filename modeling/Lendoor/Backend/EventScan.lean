import Lendoor.Backend.Gateway

/-! # What the event scans return

Against a server that answers as documented the paging loop ends, and what it returns
depends on the first page alone: a page that is not full is the whole answer, and after
a full page the bound on the ledgers is gone. The two scans of the gateway ask with
topic filters of one segment, and no event of the loan manager is published under such
a list with the topics they name.
-/

namespace Lendoor.Backend

open Cctp (Text JsError)

variable {g : Gateway} {log : List ContractEvent} {filters : List EventFilter}

namespace Rpc

/-- The events of the log that a request of the loop selects. -/
def selected (rpc : Rpc) (log : List ContractEvent) (filters : List EventFilter)
    (range : EventRange) : List ContractEvent :=
  log.filter (rpc.selects ⟨filters, range, pageLimit⟩)

variable {rpc : Rpc} {range : EventRange} {e : ContractEvent}

theorem mem_selected :
    e ∈ rpc.selected log filters range ↔
      e ∈ log ∧ filters.any (fun filter => filter.accepts e) = true ∧
        rpc.inRange range e = true := by
  simp [selected, selects]

namespace Documented

theorem page_eq (hrpc : rpc.Documented log) (filters : List EventFilter) (range : EventRange) :
    (rpc.getEvents ⟨filters, range, pageLimit⟩).events =
      (rpc.selected log filters range).take pageLimit :=
  hrpc.page ⟨filters, range, pageLimit⟩

/-- A page that is not full is everything the request selects. -/
theorem short_page (hrpc : rpc.Documented log)
    (hshort : (rpc.getEvents ⟨filters, range, pageLimit⟩).events.length ≠ pageLimit) :
    (rpc.getEvents ⟨filters, range, pageLimit⟩).events = rpc.selected log filters range := by
  rw [hrpc.page_eq, List.length_take] at hshort
  rw [hrpc.page_eq, List.take_of_length_le (by omega)]

/-- The cursor of a full page stands on an event of it, which separates the page from
what the request selects behind it. -/
theorem full_page (hrpc : rpc.Documented log)
    (hfull : (rpc.getEvents ⟨filters, range, pageLimit⟩).events.length = pageLimit) :
    (rpc.getEvents ⟨filters, range, pageLimit⟩).cursor ≠ [] ∧
      ∃ e ∈ rpc.selected log filters range,
        rpc.eventId (rpc.getEvents ⟨filters, range, pageLimit⟩).cursor = e.id ∧
        (rpc.selected log filters range).filter (fun e' => e'.id ≤ e.id) =
          (rpc.selected log filters range).take pageLimit ∧
        (rpc.selected log filters range).filter (fun e' => e.id < e'.id) =
          (rpc.selected log filters range).drop pageLimit := by
  have hpage := hrpc.page_eq filters range
  have hgrow : KeysGrow ContractEvent.id (rpc.selected log filters range) := hrpc.ids.filter _
  cases hlast : (rpc.getEvents ⟨filters, range, pageLimit⟩).events.getLast? with
  | none =>
      rw [List.getLast?_eq_none_iff.mp hlast] at hfull
      exact absurd hfull (by decide)
  | some e =>
      rcases hrpc.cursor _ e hfull hlast with ⟨hcursor, hid⟩
      rw [hpage] at hlast
      have hmem : e ∈ rpc.selected log filters range :=
        List.mem_of_mem_take (List.mem_of_getLast? hlast)
      exact ⟨hcursor, e, hmem, hid, hgrow.upto_page hlast, hgrow.after_page hlast⟩

/-- Later events are not of earlier ledgers. -/
theorem ledger_le (hrpc : rpc.Documented log) {e e' : ContractEvent} (he : e ∈ log) (he' : e' ∈ log)
    (hid : e.id ≤ e'.id) : e.ledger ≤ e'.ledger := by
  have hforward : log.Pairwise fun x y => x.id ≤ y.id → x.ledger ≤ y.ledger := by
    refine List.Pairwise.imp ?_ hrpc.ledgers
    intro x y hle _
    exact hle
  have hbackward : log.Pairwise (flip fun x y => x.id ≤ y.id → x.ledger ≤ y.ledger) := by
    refine List.Pairwise.imp ?_ hrpc.ids
    intro x y hlt hle
    omega
  exact hforward.forall_of_forall_of_flip (fun x _ _ => le_rfl) hbackward he he' hid

end Documented

/-- A server that answers from a log, with cursors in unary. -/
def ofLog (log : List ContractEvent) : Rpc :=
  let cursors : Rpc := ⟨fun _ => ⟨[], []⟩, fun cursor => cursor.length - 1, fun ledger => ledger⟩
  { cursors with
    getEvents := fun request =>
      let events := (log.filter (cursors.selects request)).take request.limit
      ⟨events, match events.getLast? with
        | some e => List.replicate (e.id + 1) '0'
        | none => []⟩ }

theorem ofLog_documented (hids : KeysGrow ContractEvent.id log)
    (hledgers : log.Pairwise fun e e' => e.ledger ≤ e'.ledger) : (ofLog log).Documented log where
  lastLedger_le := fun _ => le_rfl
  ids := hids
  ledgers := hledgers
  page := fun _ => rfl
  cursor := by
    intro request e _ hlast
    have hcursor : ((ofLog log).getEvents request).cursor = List.replicate (e.id + 1) '0' := by
      change (match ((ofLog log).getEvents request).events.getLast? with
        | some e => List.replicate (e.id + 1) '0'
        | none => []) = _
      rw [hlast]
    rw [hcursor]
    exact ⟨by simp, by simp [ofLog]⟩

end Rpc

namespace Gateway

/-- Behind a cursor the loop collects everything that is left. The induction is on the
fuel: a full page leaves fewer events behind the next cursor. -/
theorem fetchPages_behind (hrpc : g.rpc.Documented log) (startLedger endLedger : Nat) :
    ∀ (fuel : Nat) (cursor : Text) (events : List ContractEvent),
      (g.rpc.selected log filters (.cursor cursor)).length < fuel →
        g.fetchPages filters startLedger endLedger fuel (some cursor) events =
          some (events ++ g.rpc.selected log filters (.cursor cursor)) := by
  intro fuel
  induction fuel with
  | zero =>
      intro cursor events hfuel
      omega
  | succ fuel ih =>
      intro cursor events hfuel
      rw [fetchPages, requestRange]
      by_cases hfull :
          (g.rpc.getEvents ⟨filters, .cursor cursor, pageLimit⟩).events.length = pageLimit
      · rcases hrpc.full_page hfull with ⟨hne, e, hmem, hid, -, hbehind⟩
        have hpast := (Rpc.mem_selected.mp hmem).2.2
        simp only [Rpc.inRange, decide_eq_true_eq] at hpast
        have hnext : g.rpc.selected log filters
              (.cursor (g.rpc.getEvents ⟨filters, .cursor cursor, pageLimit⟩).cursor) =
            (g.rpc.selected log filters (.cursor cursor)).drop pageLimit := by
          rw [← hbehind, Rpc.selected, Rpc.selected, List.filter_filter]
          apply List.filter_congr
          intro e' _
          simp only [Rpc.selects, Rpc.inRange, hid]
          by_cases hlt : e.id < e'.id
          · have hlt' : g.rpc.eventId cursor < e'.id := by omega
            simp [hlt, hlt']
          · simp [hlt]
        have hstale :
            ¬((g.rpc.getEvents ⟨filters, .cursor cursor, pageLimit⟩).cursor = [] ∨
              some (g.rpc.getEvents ⟨filters, .cursor cursor, pageLimit⟩).cursor =
              some cursor) := by
          rintro (h | h)
          · exact hne h
          · rw [Option.some.inj h] at hid
            omega
        simp only [if_neg hstale, if_pos hfull]
        have hlen := congrArg List.length (hrpc.page_eq filters (.cursor cursor))
        rw [hfull, List.length_take] at hlen
        rw [ih _ _ (by
          rw [hnext, List.length_drop]
          have hpos : 0 < pageLimit := by decide
          omega)]
        rw [hnext, hrpc.page_eq, List.append_assoc, List.take_append_drop]
      · simp only [if_neg hfull, ite_self]
        rw [hrpc.short_page hfull]

/-- The events a filter list accepts from a ledger on, without an upper bound. -/
def acceptedFrom (log : List ContractEvent) (filters : List EventFilter) (startLedger : Nat) :
    List ContractEvent :=
  log.filter fun e =>
    filters.any (fun filter => filter.accepts e) && decide (startLedger ≤ e.ledger)

/-- What the loop returns. Short of a full page it is the window that was asked for.
After a full page the loop goes on behind a cursor, without `endLedger`, and returns
everything from `startLedger` on. -/
theorem fetchPages_eq (hrpc : g.rpc.Documented log) {fuel startLedger endLedger : Nat}
    (hfuel : log.length + 1 < fuel) :
    g.fetchPages filters startLedger endLedger fuel none [] =
      some (if (g.rpc.selected log filters (.ledgers startLedger endLedger)).length < pageLimit
        then g.rpc.selected log filters (.ledgers startLedger endLedger)
        else acceptedFrom log filters startLedger) := by
  obtain ⟨fuel, rfl⟩ : ∃ n, fuel = n + 1 := ⟨fuel - 1, by omega⟩
  rw [fetchPages, requestRange]
  have hlen := congrArg List.length (hrpc.page_eq filters (.ledgers startLedger endLedger))
  rw [List.length_take] at hlen
  by_cases hfull :
      (g.rpc.getEvents ⟨filters, .ledgers startLedger endLedger, pageLimit⟩).events.length =
      pageLimit
  · rcases hrpc.full_page hfull with ⟨hne, e, hmem, hid, hupto, -⟩
    rcases Rpc.mem_selected.mp hmem with ⟨helog, -, hrange⟩
    simp only [Rpc.inRange, Bool.and_eq_true, decide_eq_true_eq] at hrange
    have hstale :
        ¬((g.rpc.getEvents ⟨filters, .ledgers startLedger endLedger, pageLimit⟩).cursor = [] ∨
          some (g.rpc.getEvents ⟨filters, .ledgers startLedger endLedger, pageLimit⟩).cursor =
            none) := by
      rintro (h | h)
      · exact hne h
      · exact absurd h (by simp)
    have hwindow : ¬(g.rpc.selected log filters (.ledgers startLedger endLedger)).length <
        pageLimit := by
      rw [hfull] at hlen
      omega
    -- the events of the log up to the cursor are the page, those behind it are the rest
    have hfront : (acceptedFrom log filters startLedger).filter (fun e' => e'.id ≤ e.id) =
        (g.rpc.selected log filters (.ledgers startLedger endLedger)).filter
          (fun e' => e'.id ≤ e.id) := by
      rw [acceptedFrom, Rpc.selected, List.filter_filter, List.filter_filter]
      apply List.filter_congr
      intro e' he'
      simp only [Rpc.selects, Rpc.inRange]
      by_cases hle : e'.id ≤ e.id
      · have hledger := hrpc.ledger_le he' helog hle
        have hbound : e'.ledger ≤ g.rpc.lastLedger endLedger := by omega
        simp [hle, hbound]
      · simp [hle]
    have hback : (acceptedFrom log filters startLedger).filter (fun e' => e.id < e'.id) =
        g.rpc.selected log filters (.cursor
          (g.rpc.getEvents ⟨filters, .ledgers startLedger endLedger, pageLimit⟩).cursor) := by
      rw [acceptedFrom, Rpc.selected, List.filter_filter]
      apply List.filter_congr
      intro e' he'
      simp only [Rpc.selects, Rpc.inRange, hid]
      by_cases hlt : e.id < e'.id
      · have hledger := hrpc.ledger_le helog he' (by omega)
        have hbound : startLedger ≤ e'.ledger := by omega
        simp [hlt, hbound]
      · simp [hlt]
    have hgrow : KeysGrow ContractEvent.id (acceptedFrom log filters startLedger) :=
      hrpc.ids.filter _
    have hbehind : (g.rpc.selected log filters (.cursor
        (g.rpc.getEvents ⟨filters, .ledgers startLedger endLedger, pageLimit⟩).cursor)).length <
        fuel := by
      have hle := List.length_filter_le (g.rpc.selects ⟨filters, .cursor
        (g.rpc.getEvents ⟨filters, .ledgers startLedger endLedger, pageLimit⟩).cursor,
        pageLimit⟩) log
      rw [Rpc.selected]
      omega
    simp only [if_neg hstale, if_pos hfull, if_neg hwindow, List.nil_append]
    rw [fetchPages_behind hrpc _ _ _ _ _ hbehind, hgrow.split_at_key e.id, hfront, hback, hupto,
      hrpc.page_eq]
  · have hwindow : (g.rpc.selected log filters (.ledgers startLedger endLedger)).length <
        pageLimit := by
      have hne : ¬min pageLimit
          (g.rpc.selected log filters (.ledgers startLedger endLedger)).length =
          pageLimit := by
        rw [← hlen]
        exact hfull
      omega
    simp only [if_neg hfull, if_pos hwindow, List.nil_append, ite_self]
    rw [hrpc.short_page hfull]

/-- With fuel to spare the loop answers the same. -/
theorem fetchPages_mono {startLedger endLedger : Nat} {result : List ContractEvent} :
    ∀ (fuel : Nat) (cursor : Option Text) (events : List ContractEvent),
      g.fetchPages filters startLedger endLedger fuel cursor events = some result →
        ∀ more, g.fetchPages filters startLedger endLedger (fuel + more) cursor events =
          some result := by
  intro fuel
  induction fuel with
  | zero =>
      intro cursor events h
      simp [fetchPages] at h
  | succ fuel ih =>
      intro cursor events h more
      rw [Nat.add_right_comm]
      simp only [fetchPages] at h ⊢
      split at h
      · rename_i hstale
        rw [if_pos hstale]
        exact h
      · rename_i hstale
        rw [if_neg hstale]
        split at h
        · rename_i hfull
          rw [if_pos hfull]
          exact ih _ _ h more
        · rename_i hfull
          rw [if_neg hfull]
          exact h

/-- Where nothing in the log is accepted, the loop ends with nothing. -/
theorem fetchPages_nothing (hrpc : g.rpc.Documented log) {startLedger endLedger : Nat}
    (hnone : ∀ e ∈ log, filters.any (fun filter => filter.accepts e) = false) :
    g.fetchPages filters startLedger endLedger (log.length + 2) none [] = some [] := by
  have hempty : g.rpc.selected log filters (.ledgers startLedger endLedger) = [] := by
    rw [List.eq_nil_iff_forall_not_mem]
    intro e he
    rcases Rpc.mem_selected.mp he with ⟨hmem, haccepts, -⟩
    rw [hnone e hmem] at haccepts
    exact absurd haccepts (by decide)
  rw [fetchPages_eq hrpc (by omega), hempty]
  rfl

/-- It cannot end with anything else. -/
theorem fetchPages_only_nothing (hrpc : g.rpc.Documented log) {startLedger endLedger : Nat}
    (hnone : ∀ e ∈ log, filters.any (fun filter => filter.accepts e) = false) {fuel : Nat}
    {result : List ContractEvent}
    (h : g.fetchPages filters startLedger endLedger fuel none [] = some result) : result = [] := by
  have hmore := fetchPages_mono _ _ _ h (log.length + 2)
  have hends : g.fetchPages filters startLedger endLedger (log.length + 2) none [] = some [] :=
    fetchPages_nothing hrpc hnone
  have hnothing := fetchPages_mono _ _ _ hends fuel
  rw [Nat.add_comm, hnothing] at hmore
  exact (Option.some.inj hmore).symm

end Gateway

/-! ## The loan manager's events -/

namespace Gateway

/-- Every event of the loan manager is one of those the contracts publish. -/
def Publishes (g : Gateway) (log : List ContractEvent) : Prop :=
  ∀ e ∈ log, e.contractId = g.sorobanLoanManager →
    ∃ event : Event, e.topic = event.topics ∧ e.value = event.data

/-- A `loanopen` or `loanclos` event of the loan manager, by its topic list. -/
def Topics (g : Gateway) (symbol : String) (borrower : Address) (e : ContractEvent) : Prop :=
  e.contractId = g.sorobanLoanManager ∧ e.topic = [.symbol symbol, .address borrower]

theorem topicMatches_single {segment : Segment} {topic : List ScVal}
    (h : topicMatches [segment] topic = true) :
    ∃ value, topic = [value] ∧ segment.accepts value = true := by
  cases topic with
  | nil => simp [topicMatches] at h
  | cons value rest =>
      cases rest with
      | nil => exact ⟨value, rfl, by simpa [topicMatches] using h⟩
      | cons _ _ => simp [topicMatches] at h

/-- The only topic lists of one segment belong to the two settings of the owner. -/
theorem topics_single {event : Event} {value : ScVal} (h : event.topics = [value]) :
    value = .symbol "ownerset" ∨ value = .symbol "vaultset" := by
  cases event <;> simp [Event.topics] at h <;> simp [← h]

/-- A list of one-segment filters takes no event of the loan manager, unless it names
one of the owner's settings. -/
theorem accepts_nothing (hlog : g.Publishes log) {topics : List (List Segment)}
    (hsingle : ∀ segments ∈ topics, ∃ value, segments = [.exactly value] ∧
      value ≠ .symbol "ownerset" ∧ value ≠ .symbol "vaultset") :
    ∀ e ∈ log, ([⟨[g.sorobanLoanManager], topics⟩] : List EventFilter).any
      (fun filter => filter.accepts e) = false := by
  intro e he
  by_contra haccepts
  simp only [List.any_cons, List.any_nil, Bool.or_false, Bool.not_eq_false, EventFilter.accepts,
    Bool.and_eq_true, List.contains_iff_mem, List.mem_singleton, List.any_eq_true] at haccepts
  rcases haccepts with ⟨hcontract, segments, hmem, hmatch⟩
  rcases hsingle segments hmem with ⟨value, rfl, howner, hvault⟩
  rcases hlog e he hcontract with ⟨event, htopic, -⟩
  rcases topicMatches_single hmatch with ⟨topic, htopic', hvalue⟩
  have htopic'' : value = topic := by simpa [Segment.accepts] using hvalue
  rcases topics_single (htopic.symm.trans htopic') with h | h
  · exact howner (htopic''.trans h)
  · exact hvault (htopic''.trans h)

/-- The successful `loanopen` events of a range of ledgers. -/
def openedIn (g : Gateway) (log : List ContractEvent) (fromLedger toLedger : Nat) :
    List ContractEvent :=
  log.filter fun e => e.contractId = g.sorobanLoanManager ∧
    e.topic.head? = some (.symbol "loanopen") ∧ e.inSuccessfulContractCall = true ∧
    fromLedger ≤ e.ledger ∧ e.ledger ≤ toLedger

/-- `getLoanOpenedEvents` returns the successful openings of the range, each once. -/
def ReturnsOpened (g : Gateway) (log : List ContractEvent) (fromLedger toLedger : Nat) : Prop :=
  ∃ fuel found expected, g.getLoanOpenedEvents fuel fromLedger toLedger = some (.ok found) ∧
    (g.openedIn log fromLedger toLedger).mapM g.loanOpenedOf = .ok expected ∧ found.Perm expected

/-- A loan of the borrower was closed within the last 100000 ledgers, at or after the
given time. -/
def ClosedSince (g : Gateway) (log : List ContractEvent) (borrower : Address) (loanStartAt : Int)
    (currentLedger : Nat) : Prop :=
  ∃ e ∈ log, g.Topics "loanclos" borrower e ∧ e.inSuccessfulContractCall = true ∧
    currentLedger - 100000 ≤ e.ledger ∧ e.ledger ≤ currentLedger ∧
    loanStartAt ≤ 1000 * g.eventTimestamp e.ledgerClosedAt

/-- `findLoanClosedEvent` returns `null`. -/
def FindsNone (g : Gateway) (borrower : Text) (loanStartAt : Int) (currentLedger : Nat) : Prop :=
  ∃ fuel, g.findLoanClosedEvent fuel borrower loanStartAt currentLedger = some (.ok none)

theorem opened_filter_nothing (hlog : g.Publishes log) :
    ∀ e ∈ log, ([⟨[g.sorobanLoanManager], [[eventTopic "loanopen"]]⟩] : List EventFilter).any
      (fun filter => filter.accepts e) = false := by
  apply accepts_nothing hlog
  intro segments hmem
  rw [List.mem_singleton.mp hmem]
  exact ⟨_, rfl, by decide, by decide⟩

theorem closed_filter_nothing (hlog : g.Publishes log) (borrower : Address) :
    ∀ e ∈ log, ([⟨[g.sorobanLoanManager],
      [[eventTopic "loanclos"], [.exactly (.address borrower)]]⟩] : List EventFilter).any
        (fun filter => filter.accepts e) = false := by
  apply accepts_nothing hlog
  intro segments hmem
  rcases List.mem_cons.mp hmem with rfl | hmem
  · exact ⟨_, rfl, by decide, by decide⟩
  · rw [List.mem_singleton.mp hmem]
    exact ⟨_, rfl, by simp, by simp⟩

/-- Whatever the fuel, the scan of openings comes back empty, and some fuel suffices. -/
theorem getLoanOpenedEvents_eq (hrpc : g.rpc.Documented log) (hlog : g.Publishes log)
    (fromLedger toLedger : Nat) :
    (∀ fuel found, g.getLoanOpenedEvents fuel fromLedger toLedger = some found → found = .ok []) ∧
      g.getLoanOpenedEvents (log.length + 2) fromLedger toLedger = some (.ok []) := by
  constructor
  · intro fuel found h
    rcases Option.map_eq_some_iff.mp h with ⟨events, hfetch, hfound⟩
    rw [fetchPages_only_nothing hrpc (opened_filter_nothing hlog) hfetch] at hfound
    exact hfound.symm
  · rw [getLoanOpenedEvents, getContractEvents,
      fetchPages_nothing hrpc (opened_filter_nothing hlog)]
    rfl

/-- The scan for a closing of an account comes back with `null`. -/
theorem findLoanClosedEvent_null (hrpc : g.rpc.Documented log) (hlog : g.Publishes log)
    {borrower : Text} {address : Address} (hsc : g.scAddress borrower = .ok (.address address))
    (hvalid : isValidStellarPublicKey borrower = true) (loanStartAt : Int) (currentLedger : Nat) :
    g.FindsNone borrower loanStartAt currentLedger := by
  have hfetch : g.getContractEvents (log.length + 2) (currentLedger - 100000) currentLedger
      [[eventTopic "loanclos"], [.exactly (.address address)]] = some [] :=
    fetchPages_nothing hrpc (closed_filter_nothing hlog address)
  refine ⟨log.length + 2, ?_⟩
  simp only [findLoanClosedEvent, assertStellarAccount_ok hvalid, hsc, hfetch, Option.map_some]
  rfl

theorem findLoanClosedEvent_account {borrower : Text} {loanStartAt : Int} {currentLedger : Nat}
    (h : g.FindsNone borrower loanStartAt currentLedger) :
    isValidStellarPublicKey borrower = true := by
  rcases h with ⟨fuel, h⟩
  by_contra hinvalid
  have hassert : assertStellarAccount borrower =
      .error (thrown ("Invalid Stellar account: " ++ String.ofList borrower)) :=
    panicIf_eq_error.mpr ⟨by simpa using hinvalid, rfl⟩
  simp [findLoanClosedEvent, hassert] at h

/-- The two scans see the loan events of the log exactly where there are none to see:
the openings of a range come back complete iff the range has none, and a closing is
found, or the account rejected, iff no account's closing lies in the window. -/
theorem scans_see_iff (hrpc : g.rpc.Documented log) (hlog : g.Publishes log) :
    (∀ fromLedger toLedger, fromLedger ≤ toLedger →
      (g.ReturnsOpened log fromLedger toLedger ↔ g.openedIn log fromLedger toLedger = [])) ∧
    ∀ borrower address loanStartAt currentLedger, g.scAddress borrower = .ok (.address address) →
      ((g.ClosedSince log address loanStartAt currentLedger →
          ¬g.FindsNone borrower loanStartAt currentLedger) ↔
        ¬(g.ClosedSince log address loanStartAt currentLedger ∧
          isValidStellarPublicKey borrower = true)) := by
  constructor
  · intro fromLedger toLedger _
    rcases getLoanOpenedEvents_eq hrpc hlog fromLedger toLedger with ⟨hnothing, hreturns⟩
    constructor
    · rintro ⟨fuel, found, expected, hfound, hexpected, hperm⟩
      rw [Except.ok.inj (hnothing fuel _ hfound)] at hperm
      rw [List.nil_perm.mp hperm] at hexpected
      cases hopened : g.openedIn log fromLedger toLedger with
      | nil => rfl
      | cons e rest =>
          rw [hopened, List.mapM_cons] at hexpected
          rcases bind_eq_ok.mp hexpected with ⟨_, -, htail⟩
          rcases bind_eq_ok.mp htail with ⟨_, -, hcons⟩
          exact absurd (pure_eq_ok.mp hcons) (by simp)
    · intro hopened
      refine ⟨_, [], [], hreturns, ?_, List.Perm.refl []⟩
      rw [hopened]
      rfl
  · intro borrower address loanStartAt currentLedger hsc
    constructor
    · rintro h ⟨hclosed, hvalid⟩
      exact h hclosed (findLoanClosedEvent_null hrpc hlog hsc hvalid loanStartAt currentLedger)
    · intro h hclosed hnone
      exact h ⟨hclosed, findLoanClosedEvent_account hnone⟩

end Gateway

/-! ### A log with one loan -/

def sampleAccount : Text := "GAAAAAAAAAAAAAAAAAAAAAAAAAAAAAAAAAAAAAAAAAAAAAAAAAAAAWHF".toList

/-- An account borrows in ledger 1 and repays in ledger 2. -/
def sampleLog : List ContractEvent :=
  [⟨1, ⟨0⟩, (Event.loanopen ⟨1⟩ 1000 1010 604800).topics,
    (Event.loanopen ⟨1⟩ 1000 1010 604800).data,
      1, ['a'], [], true⟩,
    ⟨2, ⟨0⟩, (Event.loanclos ⟨1⟩ 1010).topics, (Event.loanclos ⟨1⟩ 1010).data, 2, ['b'], [], true⟩]

def sampleGateway : Gateway where
  rpc := Rpc.ofLog sampleLog
  sorobanLoanManager := ⟨0⟩
  scAddress := fun address =>
    if address = sampleAccount then .ok (.address ⟨1⟩)
    else .error (thrown "Unsupported address type")
  nativeText := fun value => if value = .address ⟨1⟩ then sampleAccount else []
  dateParse := fun _ => some 0
  now := 0

theorem sampleLog_documented : sampleGateway.rpc.Documented sampleLog :=
  Rpc.ofLog_documented (by simp [KeysGrow, sampleLog]) (by simp [sampleLog])

theorem sampleLog_published : sampleGateway.Publishes sampleLog := by
  intro e he _
  rcases List.mem_cons.mp he with rfl | he
  · exact ⟨.loanopen ⟨1⟩ 1000 1010 604800, rfl, rfl⟩
  · rw [List.mem_singleton.mp he]
    exact ⟨.loanclos ⟨1⟩ 1010, rfl, rfl⟩

theorem sampleLog_closed : sampleGateway.ClosedSince sampleLog ⟨1⟩ 0 2 :=
  ⟨_, List.mem_cons_of_mem _ List.mem_cons_self, ⟨rfl, rfl⟩, rfl, by decide, by decide, by decide⟩

/-- Of this log neither scan sees anything. -/
theorem scans_see_nothing :
    sampleGateway.rpc.Documented sampleLog ∧ sampleGateway.Publishes sampleLog ∧
      ¬sampleGateway.ReturnsOpened sampleLog 1 2 ∧
      sampleGateway.ClosedSince sampleLog ⟨1⟩ 0 2 ∧ sampleGateway.FindsNone sampleAccount 0 2 := by
  refine ⟨sampleLog_documented, sampleLog_published, ?_, sampleLog_closed, 4, by decide +kernel⟩
  rintro ⟨fuel, found, expected, hfound, hexpected, hperm⟩
  have hnothing := (Gateway.getLoanOpenedEvents_eq sampleLog_documented sampleLog_published 1 2).1
  rw [Except.ok.inj (hnothing fuel _ hfound), List.nil_perm] at hperm
  rw [hperm] at hexpected
  exact absurd hexpected (by decide +kernel)

theorem scans_see_iff_sample :
    (sampleGateway.ReturnsOpened sampleLog 1 2 ↔ sampleGateway.openedIn sampleLog 1 2 = []) ∧
      ((sampleGateway.ClosedSince sampleLog ⟨1⟩ 0 2 → ¬sampleGateway.FindsNone sampleAccount 0 2) ↔
        ¬(sampleGateway.ClosedSince sampleLog ⟨1⟩ 0 2 ∧
          isValidStellarPublicKey sampleAccount = true)) :=
  have h := Gateway.scans_see_iff sampleLog_documented sampleLog_published
  ⟨h.1 1 2 (by decide), h.2 sampleAccount ⟨1⟩ 0 2 (by decide +kernel)⟩

end Lendoor.Backend
