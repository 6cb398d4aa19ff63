import Aetelier.WssEvents

/-!
# The settlement poller

Hyperliquid does not stream funding settlements. The adapter's task spawns a
poller beside its socket that asks the venue for the settlements of every
symbol since `start_ms`, once at its start and then shortly after each full
hour, and sends them into the channel the socket's frames go through. The
window begins an hour before the poller's start, and an hour before the end of
the cycle for the next one, so each cycle asks again for what the one before
it was given.

A fetch that fails is tried once more; a symbol that fails twice is skipped
until the next cycle.
-/

/-- A row of the venue's funding history. -/
structure HyperliquidFundingHistoryRow where
  /-- Wire symbol. -/
  coin : String
  /-- Rate, as text. -/
  fundingRate : String
  /-- Premium, as text. -/
  premium : Option String
  /-- Settlement time. -/
  time : ℕ
deriving DecidableEq, Repr

/-- Where the poller is in its loop. -/
inductive PollerPhase where
  /-- The symbols still to fetch, and the failed attempts at the first. -/
  | fetching (todo : List String) (attempts : ℕ)
  /-- Asleep until the next hour. -/
  | waiting
deriving DecidableEq, Repr

/-- **The poller.** -/
structure SettlementPoller where
  /-- The symbols it polls. -/
  symbols : List String
  /-- The first time it asks for, in milliseconds. -/
  startMs : ℕ
  /-- Where it is. -/
  phase : PollerPhase
deriving DecidableEq, Repr

namespace SettlementPoller

/-- How far back the first cycle asks. -/
def settlementBackfillMs : ℕ := 3600 * 1000

/-- How far back every later cycle asks. -/
def settlementOverlapMs : ℕ := 3600 * 1000

/-- A poller that starts. -/
def spawn (symbols : List String) (nowUs : ℕ) : SettlementPoller where
  symbols := symbols
  startMs := nowUs / 1000 - settlementBackfillMs
  phase := .fetching symbols 0

/-- The settlements of a response. A row whose symbol or rate does not read is
skipped. -/
def settlementsOf (x : Crates) (u : Unicode) (rttUs localTsUs : ℕ)
    (rows : List HyperliquidFundingHistoryRow) : List FundingSettlement :=
  rows.filterMap (fun row => do
    let pair ← (SymbolCodec.bareCoin "USDC").decode u row.coin
    let rate ← (x.fromStr row.fundingRate).toOption
    some {
      fundingTimeUs := epochToUs row.time
      localTsUs := localTsUs
      rttUs := rttUs
      pair := pair
      fundingRate := rate
      premium := row.premium.bind (fun p => (x.fromStr p).toOption)
      exchange := "hyperliquid" })

/-- A fetch ends: what it sends, and where the poller goes on. -/
def fetched (p : SettlementPoller) (x : Crates) (u : Unicode) (rttUs localTsUs : ℕ)
    (response : Except String (List HyperliquidFundingHistoryRow)) :
    SettlementPoller × List FundingSettlement :=
  match p.phase with
  | .fetching (symbol :: rest) attempts =>
    match response with
    | .ok rows => ({ p with phase := .fetching rest 0 }, settlementsOf x u rttUs localTsUs rows)
    | .error _ =>
      if attempts + 1 < 2 then
        ({ p with phase := .fetching (symbol :: rest) (attempts + 1) }, [])
      else ({ p with phase := .fetching rest 0 }, [])
  | _ => (p, [])

/-- Every symbol has been tried: the window moves and the poller goes to
sleep. -/
def endCycle (p : SettlementPoller) (nowUs : ℕ) : SettlementPoller :=
  match p.phase with
  | .fetching [] _ => { p with startMs := nowUs / 1000 - settlementOverlapMs, phase := .waiting }
  | _ => p

/-- The hour has struck. -/
def wake (p : SettlementPoller) : SettlementPoller :=
  match p.phase with
  | .waiting => { p with phase := .fetching p.symbols 0 }
  | _ => p

end SettlementPoller
