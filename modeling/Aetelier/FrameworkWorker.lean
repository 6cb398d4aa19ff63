import Aetelier.MarketCalls
import Aetelier.SourceRuntime

/-!
# The framework worker

The worker of a source runs one connection after another. In its loop it
takes the events the runtime of the connection emits, the prints its
reconcile task recovered over REST, the ticks of an external clock and its
commands, and calls the synchronizer. Around the connections it keeps a gap
window: it opens when a connection ends without a stop and closes at the
first event of a later one, or at the stop, and is then recorded as an
incident. At a recovery it also triggers the reconcile task, which fetches
what the venue traded after the last position the worker has noted.

The worker is a machine over these inputs whose effects are the calls of the
synchronizer, the triggers and the incidents. The handling of an event is two
functions, since the reconcile task runs beside the worker and may look
between them: `arrive` closes the gap window, `handle` feeds the
synchronizer. Left out is what none of this depends on: counters, latency
averages, the published status, the estimate of possibly dropped trades.
-/

/-- Parse a decimal `u64`: digits after an optional plus sign, in range. -/
def parseU64 (s : String) : Option ℕ :=
  let digits := match s.toList with
    | '+' :: rest => rest
    | cs => cs
  if digits.isEmpty ∨ ¬ digits.all Char.isDigit then none
  else
    let n := digits.foldl (fun n c => 10 * n + (c.toNat - '0'.toNat)) 0
    if n < 2 ^ 64 then some n else none

/-- Append to a bounded queue; the oldest entry goes if it is too long. -/
def pushRing (capacity : ℕ) (order : List ℕ) (id : ℕ) : List ℕ :=
  if capacity < (order ++ [id]).length then (order ++ [id]).tail else order ++ [id]

/-- The trade ids the live stream has delivered, on venues that replay trades
at a resubscribe. The source keeps them in a queue and in a set of the same
elements. -/
structure SeenTradeIds where
  /-- The ids, oldest first. -/
  order : List ℕ
  /-- How many are kept. -/
  capacity : ℕ

namespace SeenTradeIds

/-- No id yet. -/
def withCapacity (capacity : ℕ) : SeenTradeIds := ⟨[], capacity⟩

/-- Note an id; `false` if it is known. -/
def insert (seen : SeenTradeIds) (id : ℕ) : SeenTradeIds × Bool :=
  if id ∈ seen.order then (seen, false)
  else ({ seen with order := pushRing seen.capacity seen.order id }, true)

end SeenTradeIds

/-- Ids kept to recognize a replay. -/
def replayDedupCapacity : ℕ := 4096

/-- Ids kept to recognize a recovered print. -/
def recentIdsCapacity : ℕ := 2048

/-- A position in the trades of a venue. -/
structure TradePos where
  /-- Venue id. -/
  id : ℕ := 0
  /-- Venue timestamp. -/
  tsUs : ℕ := 0
deriving DecidableEq, Repr

/-- Why a gap window opened. -/
inductive GapCause where
  | resync
  | disconnect
deriving DecidableEq, Repr

/-- An open gap window. -/
structure GapWindow where
  /-- When it opened. -/
  openedUs : ℕ
  /-- Why. -/
  cause : GapCause
deriving DecidableEq, Repr

/-- **A recorded gap incident.** -/
structure GapIncident where
  /-- When the gap opened. -/
  openedEpochUs : ℕ
  /-- When the recovery was proven, or the worker stopped. -/
  closedEpochUs : ℕ
  /-- Its length. -/
  windowUs : ℕ
  /-- Why it opened. -/
  cause : GapCause
  /-- Exchange of the worker. -/
  exchange : String
  /-- Wire symbol of the worker. -/
  symbol : String
deriving DecidableEq, Repr

/-- What does not change while a worker runs. -/
structure WorkerConfig where
  /-- Name of the exchange. -/
  exchange : String
  /-- Wire symbol. -/
  symbol : String
  /-- The clock of the synchronizer is an external one. -/
  externalClock : Bool
  /-- The venue replays trades at a resubscribe. -/
  resubscribeReplaysTrades : Bool
  /-- A reconcile task is running. -/
  reconcileActive : Bool

/-- What the loop of a worker waits for. -/
inductive WorkerInput where
  /-- A connection was started. -/
  | connected
  /-- The runtime emitted an event. -/
  | event (ev : ReconstructedEvent) (nowUs : ℕ)
  /-- The reconcile task recovered a print. -/
  | recovered (trade : Trade)
  /-- The external clock ticked. -/
  | timer (nowUs : ℕ)
  | pause
  | resume
  /-- The connection ended and another will be made. -/
  | connectionLost (outcome : RuntimeOutcome) (nowUs : ℕ)
  /-- The worker leaves its loops for good. -/
  | stopped (nowUs : ℕ)

/-- What a worker does. -/
inductive WorkerEffect where
  /-- A call of the synchronizer. -/
  | call (c : MarketSynchronizer.Call)
  /-- The reconcile task is triggered. -/
  | trigger
  /-- A gap incident is recorded. -/
  | incident (i : GapIncident)
  /-- The synchronizer is closed. -/
  | finalize

/-- **The state of a worker.** -/
structure FrameworkWorker where
  /-- Events are taken and dropped. -/
  paused : Bool
  /-- The current connection has emitted an event. -/
  connectionLive : Bool
  /-- The open gap window. -/
  gapOpen : Option GapWindow
  /-- The replay filter, where the venue needs one. -/
  seenTradeIds : Option SeenTradeIds
  /-- The position of each pair after which REST fetches resume. -/
  lastPos : HashMap TradingPair TradePos
  /-- Ids delivered lately. -/
  recentIds : List ℕ
  /-- The worker has stopped. -/
  ended : Bool

namespace FrameworkWorker

variable (cfg : WorkerConfig)

/-- A worker before its first connection. -/
def start (hasher : RandomState TradingPair) : FrameworkWorker where
  paused := false
  connectionLive := false
  gapOpen := none
  seenTradeIds :=
    if cfg.resubscribeReplaysTrades then some (.withCapacity replayDedupCapacity) else none
  lastPos := HashMap.empty hasher
  recentIds := []
  ended := false

/-- The incident of a window that closes. -/
def incidentOf (g : GapWindow) (nowUs : ℕ) : GapIncident where
  openedEpochUs := g.openedUs
  closedEpochUs := nowUs
  windowUs := nowUs - g.openedUs
  cause := g.cause
  exchange := cfg.exchange
  symbol := cfg.symbol

/-- **The first event of a connection proves the recovery**: an open gap
window is recorded and the reconcile task triggered. -/
def arrive (w : FrameworkWorker) (nowUs : ℕ) : FrameworkWorker × List WorkerEffect :=
  if w.connectionLive then (w, [])
  else
    match w.gapOpen with
    | none => ({ w with connectionLive := true }, [])
    | some g =>
      ({ w with connectionLive := true, gapOpen := none },
        (if cfg.reconcileActive then [.trigger] else []) ++ [.incident (incidentOf cfg g nowUs)])

/-- Emit what the synchronizer has buffered, unless a timer does. -/
def drainAndEmit : List WorkerEffect := if cfg.externalClock then [] else [.call .drain]

/-- Deliver a live print: note its position and its id for the reconciler,
and feed it. -/
def deliverLive (w : FrameworkWorker) (trade : Trade) : FrameworkWorker × List WorkerEffect :=
  match cfg.reconcileActive, parseU64 trade.id with
  | true, some idn =>
    ({ w with
        lastPos := w.lastPos.insert trade.pair ⟨idn, trade.sourceTradeTsUs⟩
        recentIds := pushRing recentIdsCapacity w.recentIds idn },
      [.call (.onTrade trade)])
  | _, _ => (w, [.call (.onTrade trade)])

/-- A live print: dropped where the replay filter knows it. -/
def onLiveTrade (w : FrameworkWorker) (trade : Trade) : FrameworkWorker × List WorkerEffect :=
  match w.seenTradeIds, parseU64 trade.id with
  | some seen, some tid =>
    let r := seen.insert tid
    if r.2 then
      let d := { w with seenTradeIds := some r.1 }.deliverLive cfg trade
      (d.1, d.2 ++ drainAndEmit cfg)
    else (w, [])
  | _, _ =>
    let d := w.deliverLive cfg trade
    (d.1, d.2 ++ drainAndEmit cfg)

/-- Feed an event to the synchronizer. -/
def handle (w : FrameworkWorker) (ev : ReconstructedEvent) : FrameworkWorker × List WorkerEffect :=
  if w.paused then (w, [])
  else
    match ev with
    | .book pair tsUs book => (w, .call (.onOrderbook pair tsUs book) :: drainAndEmit cfg)
    | .fundingRate fr => (w, .call (.onFunding fr) :: drainAndEmit cfg)
    | .openInterest oi => (w, .call (.onOpenInterest oi) :: drainAndEmit cfg)
    | .fundingSettlement fs => (w, .call (.onFundingSettlement fs) :: drainAndEmit cfg)
    | .trade trade => w.onLiveTrade cfg trade

/-- A recovered print: dropped if its id was delivered lately, else fed, its
id noted and the position moved forward. An id that does not parse reads as
zero, and zero is never a duplicate. -/
def onRecovered (w : FrameworkWorker) (trade : Trade) : FrameworkWorker × List WorkerEffect :=
  let idn := (parseU64 trade.id).getD 0
  if w.paused ∨ (idn ≠ 0 ∧ idn ∈ w.recentIds) then (w, [])
  else
    let noted : FrameworkWorker :=
      if idn = 0 then w
      else
        { w with
          recentIds := pushRing recentIdsCapacity w.recentIds idn
          lastPos :=
            if ((w.lastPos.get? trade.pair).getD {}).id < idn then
              w.lastPos.insert trade.pair ⟨idn, trade.sourceTradeTsUs⟩
            else w.lastPos.insert trade.pair ((w.lastPos.get? trade.pair).getD {}) }
    (noted, [.call (.onTrade { trade with origin := .rest })])

/-- The gap window opens, unless it is open. -/
def openGap (w : FrameworkWorker) (outcome : RuntimeOutcome) (nowUs : ℕ) : FrameworkWorker :=
  match w.gapOpen with
  | some _ => w
  | none =>
    { w with
      gapOpen := some ⟨nowUs, if outcome = .resyncRequired then .resync else .disconnect⟩ }

/-- The stop: a gap that is open is recorded up to now, and the synchronizer
is closed and drained. -/
def stop (w : FrameworkWorker) (nowUs : ℕ) : FrameworkWorker × List WorkerEffect :=
  ({ w with gapOpen := none, ended := true },
    (w.gapOpen.toList.map (fun g => .incident (incidentOf cfg g nowUs)))
      ++ [.finalize, .call .drain])

/-- **One turn.** Without a reconcile task no print is recovered. -/
def step (w : FrameworkWorker) (input : WorkerInput) : FrameworkWorker × List WorkerEffect :=
  if w.ended then (w, [])
  else
    match input with
    | .connected => ({ w with connectionLive := false }, [])
    | .event ev nowUs =>
      let r := w.arrive cfg nowUs
      let h := r.1.handle cfg ev
      (h.1, r.2 ++ h.2)
    | .recovered trade => if cfg.reconcileActive then w.onRecovered trade else (w, [])
    | .timer nowUs =>
      if cfg.externalClock ∧ w.paused = false then (w, [.call (.onTime nowUs), .call .drain])
      else (w, [])
    | .pause => ({ w with paused := true }, [])
    | .resume => ({ w with paused := false }, [])
    | .connectionLost outcome nowUs => (w.openGap outcome nowUs, [])
    | .stopped nowUs => w.stop cfg nowUs

/-- The worker as a machine. -/
def machine : Machine FrameworkWorker WorkerInput WorkerEffect := ⟨step cfg⟩

/-! ## What closes a window -/

section Window

variable {cfg}

/-- What is fed changes the filter, the positions and the ids, and nothing
else. -/
theorem handle_frame (w : FrameworkWorker) (ev : ReconstructedEvent) :
    ∃ seen pos ids, (w.handle cfg ev).1
      = { w with seenTradeIds := seen, lastPos := pos, recentIds := ids } := by
  have hdeliver : ∀ (v : FrameworkWorker) t, ∃ pos ids,
      (v.deliverLive cfg t).1 = { v with lastPos := pos, recentIds := ids } := by
    intro v t
    unfold deliverLive
    split <;> exact ⟨_, _, rfl⟩
  unfold handle
  split
  · exact ⟨_, _, _, rfl⟩
  · cases ev with
    | trade t =>
      unfold onLiveTrade
      dsimp only
      split
      · next seen tid _ _ =>
        split
        · obtain ⟨pos, ids, h⟩ := hdeliver { w with seenTradeIds := some (seen.insert tid).1 } t
          exact ⟨_, pos, ids, h⟩
        · exact ⟨_, _, _, rfl⟩
      · obtain ⟨pos, ids, h⟩ := hdeliver w t
        exact ⟨_, pos, ids, h⟩
    | _ => exact ⟨_, _, _, rfl⟩

/-- What is fed are calls of the synchronizer. -/
theorem call_of_mem_handle {w : FrameworkWorker} {ev : ReconstructedEvent} {e : WorkerEffect}
    (h : e ∈ (w.handle cfg ev).2) : ∃ c, e = .call c := by
  have hdrain : ∀ e ∈ drainAndEmit cfg, ∃ c, e = .call c := by
    intro e he
    unfold drainAndEmit at he
    split at he
    · exact nomatch he
    · exact ⟨_, List.mem_singleton.mp he⟩
  have hone : ∀ c, ∀ e ∈ WorkerEffect.call c :: drainAndEmit cfg, ∃ c, e = .call c := by
    intro c e he
    exact (List.mem_cons.mp he).elim (fun he => ⟨c, he⟩) (hdrain e)
  have hdeliver : ∀ (v : FrameworkWorker) t,
      ∀ e ∈ (v.deliverLive cfg t).2 ++ drainAndEmit cfg, ∃ c, e = .call c := by
    intro v t
    unfold deliverLive
    split <;> exact hone _
  unfold handle at h
  split at h
  · exact nomatch h
  · cases ev with
    | trade t =>
      dsimp only at h
      unfold onLiveTrade at h
      split at h
      · dsimp only at h
        split at h
        · exact hdeliver _ t e h
        · exact nomatch h
      · exact hdeliver w t e h
    | _ => exact hone _ e h

/-- A recovered print changes the positions and the ids. -/
theorem onRecovered_frame (w : FrameworkWorker) (t : Trade) :
    ∃ pos ids, (w.onRecovered t).1 = { w with lastPos := pos, recentIds := ids } := by
  unfold onRecovered
  dsimp only
  split
  · exact ⟨_, _, rfl⟩
  · split <;> exact ⟨_, _, rfl⟩

/-- Neither the window nor the end of the worker depends on what it feeds. -/
theorem window_handle (w : FrameworkWorker) (ev : ReconstructedEvent) :
    (w.handle cfg ev).1.gapOpen = w.gapOpen ∧ (w.handle cfg ev).1.ended = w.ended := by
  obtain ⟨seen, pos, ids, h⟩ := handle_frame w ev
  rw [h]
  exact ⟨rfl, rfl⟩

theorem window_onRecovered (w : FrameworkWorker) (t : Trade) :
    (w.onRecovered t).1.gapOpen = w.gapOpen ∧ (w.onRecovered t).1.ended = w.ended := by
  obtain ⟨pos, ids, h⟩ := w.onRecovered_frame t
  rw [h]
  exact ⟨rfl, rfl⟩

theorem ended_arrive (w : FrameworkWorker) (nowUs : ℕ) :
    (w.arrive cfg nowUs).1.ended = w.ended := by
  unfold arrive
  split
  · rfl
  · split <;> rfl

/-- **A worker that has ended has no window open.** -/
theorem gapOpen_of_ended {w : FrameworkWorker} (h : w.ended = true → w.gapOpen = none)
    (input : WorkerInput) (hended : (w.step cfg input).1.ended = true) :
    (w.step cfg input).1.gapOpen = none := by
  unfold step at hended ⊢
  split
  · next hover => exact h hover
  · next hrunning =>
    rw [if_neg hrunning] at hended
    -- nothing but the stop ends it, and the stop closes the window
    cases input with
    | stopped nowUs => rfl
    | event ev nowUs =>
      rw [(window_handle _ ev).2, ended_arrive] at hended
      exact absurd hended hrunning
    | recovered t =>
      dsimp only at hended
      split at hended
      · exact absurd ((window_onRecovered w t).2 ▸ hended) hrunning
      · exact absurd hended hrunning
    | timer nowUs =>
      dsimp only at hended
      split at hended <;> exact absurd hended hrunning
    | connectionLost outcome nowUs =>
      dsimp only [openGap] at hended
      split at hended <;> exact absurd hended hrunning
    | _ => exact absurd hended hrunning

end Window

/-! ## A sample -/

/-- A worker with a reconcile task, on a venue that does not replay trades. -/
def reconciling : WorkerConfig where
  exchange := "binance"
  symbol := "BTCUSDT"
  externalClock := false
  resubscribeReplaysTrades := false
  reconcileActive := true

/-- The sample pair. -/
def btc : TradingPair := ⟨"BTC", "USDT"⟩

/-- A print of it. -/
def btcPrint (id : String) : Trade where
  sourceTradeTsUs := 7
  pair := btc
  side := .buy
  amount := ⟨1, 0⟩
  price := ⟨100, 0⟩
  exchange := "binance"
  id := id

end FrameworkWorker
