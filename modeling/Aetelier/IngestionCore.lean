import Aetelier.ReconnectPolicy
import Aetelier.Teardown
import Mathlib.Data.List.Induction

/-!
# The ingestion core

The core of the legacy workers keeps one client of an exchange running. It connects,
classifies each event into topics and sends it once for each topic; when the client
ends or is silent for too long it asks the reconnect policy, waits, and connects
again. On the way it keeps books: how many messages it sent, for each topic how many
and after which silences, how often it reconnected, and which states the connection
went through.

All of these are facts about the run. The messages are the classified
events in order (`IngestionCore.messages_accounted`), and the states follow each other
as connections do, with one entry for each reconnection (`IngestionCore.diagram_run`).

Instants are in nanoseconds. The third-party payload of an event is a parameter; what
the classification reads of it is not.
-/

/-! ## Topics -/

/-- The data types of a configuration. -/
structure DataTypesSection where
  orderbook : Bool
  /-- The depth of the book. -/
  orderbookDepth : ℕ
  trades : Bool
  liquidations : Bool
  fundingRates : Bool
  openInterest : Bool
deriving DecidableEq, Repr

namespace Topic

/-- The topic of a book. -/
def orderbook (depth : ℕ) (symbol : String) : String :=
  "orderbook." ++ toString depth ++ "." ++ symbol

/-- The topic of the trades. -/
def trade (symbol : String) : String := "trade.all." ++ symbol

/-- The topic of the liquidations. -/
def liquidation (symbol : String) : String := "liquidation.all." ++ symbol

/-- The topic of the funding rates. -/
def funding (symbol : String) : String := "funding.all." ++ symbol

/-- The topic of the open interest. -/
def openInterest (symbol : String) : String := "open_interest.all." ++ symbol

end Topic

namespace DataTypesSection

/-- A topic, if its data type is enabled. -/
def topicIf (enabled : Bool) (topic : String) : List String := if enabled then [topic] else []

/-- The topics of a configuration. -/
def wssTopicNames (dt : DataTypesSection) (symbol : String) : List String :=
  topicIf dt.orderbook (Topic.orderbook dt.orderbookDepth symbol)
    ++ topicIf dt.trades (Topic.trade symbol)
    ++ topicIf dt.liquidations (Topic.liquidation symbol)
    ++ topicIf dt.fundingRates (Topic.funding symbol)
    ++ topicIf dt.openInterest (Topic.openInterest symbol)

end DataTypesSection

/-! ## Events -/

/-- The events of Bybit. -/
inductive BybitEventKind where
  | tradeData
  | liquidationData
  | orderbookData
  /-- A ticker, and whether it has a funding rate and an open interest. -/
  | tickerData (fundingRate openInterest : Bool)
deriving DecidableEq, Repr

/-- The events of Coinbase. -/
inductive CoinbaseEventKind where
  | orderbookData
  | tradeData
  | heartbeat
  | sequenced
deriving DecidableEq, Repr

/-- The events of Binance. -/
inductive BinanceEventKind where
  | depthUpdate
  | depthSnapshot
  | tradeData
deriving DecidableEq, Repr

/-- The events of Kraken, OKX and Gate.io. -/
inductive BookTradeKind where
  | orderbookData
  | tradeData
deriving DecidableEq, Repr

/-- What the classification reads of an event. -/
inductive ExchangeEventKind where
  | bybit (event : BybitEventKind)
  | coinbase (event : CoinbaseEventKind)
  | kraken (event : BookTradeKind)
  | binance (event : BinanceEventKind)
  | okx (event : BookTradeKind)
  | gateio (event : BookTradeKind)
deriving DecidableEq, Repr

/-- An event of an exchange, and what else it holds. -/
structure RawEvent (P : Type) where
  kind : ExchangeEventKind
  payload : P

namespace DataTypesSection

variable (dt : DataTypesSection) (symbol : String) (obDepth : ℕ)

/-- The topic of a book or of a trade. -/
def classifyBookTrade (event : BookTradeKind) : List String :=
  match event with
  | .orderbookData => topicIf dt.orderbook (Topic.orderbook obDepth symbol)
  | .tradeData => topicIf dt.trades (Topic.trade symbol)

/-- The topics of an event of Bybit; a ticker may have two. -/
def classifyBybit : BybitEventKind → List String
  | .orderbookData => topicIf dt.orderbook (Topic.orderbook obDepth symbol)
  | .tradeData => topicIf dt.trades (Topic.trade symbol)
  | .liquidationData => topicIf dt.liquidations (Topic.liquidation symbol)
  | .tickerData fundingRate openInterest =>
    topicIf (dt.fundingRates && fundingRate) (Topic.funding symbol)
      ++ topicIf (dt.openInterest && openInterest) (Topic.openInterest symbol)

def classifyCoinbase : CoinbaseEventKind → List String
  | .orderbookData => dt.classifyBookTrade symbol obDepth .orderbookData
  | .tradeData => dt.classifyBookTrade symbol obDepth .tradeData
  | .heartbeat => []
  | .sequenced => []

def classifyKraken (event : BookTradeKind) : List String :=
  dt.classifyBookTrade symbol obDepth event

def classifyBinance : BinanceEventKind → List String
  | .depthUpdate => dt.classifyBookTrade symbol obDepth .orderbookData
  | .depthSnapshot => dt.classifyBookTrade symbol obDepth .orderbookData
  | .tradeData => dt.classifyBookTrade symbol obDepth .tradeData

def classifyOkx (event : BookTradeKind) : List String :=
  dt.classifyBookTrade symbol obDepth event

def classifyGate (event : BookTradeKind) : List String :=
  dt.classifyBookTrade symbol obDepth event

/-- **The topics of an event.** -/
def classifyEvent : ExchangeEventKind → List String
  | .bybit event => dt.classifyBybit symbol obDepth event
  | .coinbase event => dt.classifyCoinbase symbol obDepth event
  | .kraken event => dt.classifyKraken symbol obDepth event
  | .binance event => dt.classifyBinance symbol obDepth event
  | .okx event => dt.classifyOkx symbol obDepth event
  | .gateio event => dt.classifyGate symbol obDepth event

end DataTypesSection

namespace DataTypesSection

theorem mem_topicIf {enabled : Bool} {topic t : String} :
    t ∈ topicIf enabled topic ↔ enabled = true ∧ t = topic := by
  unfold topicIf
  cases enabled with
  | true => exact List.mem_singleton.trans (and_iff_right rfl).symm
  | false => exact ⟨fun h => absurd h List.not_mem_nil, fun h => Bool.noConfusion h.1⟩

theorem mem_wssTopicNames {dt : DataTypesSection} {symbol t : String} :
    t ∈ dt.wssTopicNames symbol ↔
      (dt.orderbook = true ∧ t = Topic.orderbook dt.orderbookDepth symbol)
        ∨ (dt.trades = true ∧ t = Topic.trade symbol)
        ∨ (dt.liquidations = true ∧ t = Topic.liquidation symbol)
        ∨ (dt.fundingRates = true ∧ t = Topic.funding symbol)
        ∨ (dt.openInterest = true ∧ t = Topic.openInterest symbol) := by
  unfold wssTopicNames
  simp only [List.mem_append, mem_topicIf, or_assoc]

theorem mem_of_classifyBookTrade {dt : DataTypesSection} {symbol t : String}
    (event : BookTradeKind) (h : t ∈ dt.classifyBookTrade symbol dt.orderbookDepth event) :
    t ∈ dt.wssTopicNames symbol := by
  rw [mem_wssTopicNames]
  cases event with
  | orderbookData => exact .inl (mem_topicIf.mp h)
  | tradeData => exact .inr (.inl (mem_topicIf.mp h))

/-- **An event is classified into topics of the configuration.** -/
theorem classifyEvent_subset (dt : DataTypesSection) (symbol : String)
    (event : ExchangeEventKind) :
    dt.classifyEvent symbol dt.orderbookDepth event ⊆ dt.wssTopicNames symbol := by
  intro t h
  cases event with
  | bybit event =>
    rw [mem_wssTopicNames]
    cases event with
    | orderbookData => exact .inl (mem_topicIf.mp h)
    | tradeData => exact .inr (.inl (mem_topicIf.mp h))
    | liquidationData => exact .inr (.inr (.inl (mem_topicIf.mp h)))
    | tickerData fundingRate openInterest =>
      rcases List.mem_append.mp h with h | h
      · obtain ⟨hon, rfl⟩ := mem_topicIf.mp h
        exact .inr (.inr (.inr (.inl ⟨(Bool.and_eq_true_iff.mp hon).1, rfl⟩)))
      · obtain ⟨hon, rfl⟩ := mem_topicIf.mp h
        exact .inr (.inr (.inr (.inr ⟨(Bool.and_eq_true_iff.mp hon).1, rfl⟩)))
  | coinbase event =>
    cases event with
    | orderbookData => exact mem_of_classifyBookTrade .orderbookData h
    | tradeData => exact mem_of_classifyBookTrade .tradeData h
    | heartbeat => exact absurd h List.not_mem_nil
    | sequenced => exact absurd h List.not_mem_nil
  | binance event =>
    cases event with
    | tradeData => exact mem_of_classifyBookTrade .tradeData h
    | _ => exact mem_of_classifyBookTrade .orderbookData h
  | _ event => exact mem_of_classifyBookTrade event h

/-- The topics of a configuration are different. -/
theorem nodup_wssTopicNames (dt : DataTypesSection) (symbol : String) :
    (dt.wssTopicNames symbol).Nodup := by
  have hsub : (dt.wssTopicNames symbol).Sublist
      [Topic.orderbook dt.orderbookDepth symbol, Topic.trade symbol, Topic.liquidation symbol,
        Topic.funding symbol, Topic.openInterest symbol] := by
    have hone : ∀ (enabled : Bool) (topic : String), (topicIf enabled topic).Sublist [topic] := by
      intro enabled topic
      cases enabled with
      | true => exact List.Sublist.refl _
      | false => exact List.nil_sublist _
    exact ((((hone _ _).append (hone _ _)).append (hone _ _)).append (hone _ _)).append (hone _ _)
  refine hsub.nodup (List.Nodup.of_map (fun topic => topic.toList.take 2) ?_)
  -- two letters tell them apart
  have hbegins : [Topic.orderbook dt.orderbookDepth symbol, Topic.trade symbol,
      Topic.liquidation symbol, Topic.funding symbol, Topic.openInterest symbol].map
        (fun topic => topic.toList.take 2)
      = [['o', 'r'], ['t', 'r'], ['l', 'i'], ['f', 'u'], ['o', 'p']] := by
    unfold Topic.orderbook Topic.trade Topic.liquidation Topic.funding Topic.openInterest
    simp only [List.map_cons, List.map_nil, String.toList_append, List.append_assoc]
    rfl
  rw [hbegins]
  decide

end DataTypesSection

/-! ## Silences -/

/-- **The silences of a topic.** -/
structure GapDetector where
  topic : String
  /-- When the last event was. -/
  lastEventAt : Option ℕ
  /-- Longer than this is a gap. -/
  silenceThreshold : ℕ
  totalGapMs : ℕ
  gapCount : ℕ

namespace GapDetector

/-- No event yet. -/
def new (silenceThreshold : ℕ) (topic : String) : GapDetector :=
  ⟨topic, none, silenceThreshold, 0, 0⟩

/-- The gap an event ends, in milliseconds. -/
def gapAt (d : GapDetector) (nowNs : ℕ) : Option ℕ :=
  d.lastEventAt.bind (fun prev =>
    if d.silenceThreshold < nowNs - prev then some ((nowNs - prev) / nsPerMs) else none)

/-- An event, and the gap it ends. -/
def recordEvent (d : GapDetector) (nowNs : ℕ) : GapDetector × Option ℕ :=
  ({ d with
      lastEventAt := some nowNs
      totalGapMs := d.totalGapMs + (d.gapAt nowNs).getD 0
      gapCount := d.gapCount + (d.gapAt nowNs).toList.length },
    d.gapAt nowNs)

end GapDetector

/-- The detectors of a core, one for each topic. -/
abbrev GapDetectorSet := List GapDetector

namespace GapDetectorSet

/-- One detector for each topic. -/
def new (topics : List String) (silenceThreshold : ℕ) : GapDetectorSet :=
  topics.map (GapDetector.new silenceThreshold)

/-- An event of a topic. -/
def recordEvent (gaps : GapDetectorSet) (nowNs : ℕ) (topic : String) : GapDetectorSet :=
  gaps.map (fun d => if d.topic = topic then (d.recordEvent nowNs).1 else d)

end GapDetectorSet

/-! ## The states of a connection -/

/-- **Where a connection is.** -/
inductive ConnectionState where
  | disconnected
  | connecting
  | authenticating
  | subscribing
  | streaming
  | paused
  | reconnecting (attempt : ℕ)
deriving DecidableEq, Repr

/-- A change of the state. -/
structure StateTransition where
  atNs : ℕ
  fromState : ConnectionState
  toState : ConnectionState
  reason : String
  /-- How long the state before lasted. -/
  durationInPrev : ℕ
deriving DecidableEq, Repr

/-- **The manager of a connection**: its state, and the policy that says how to
reconnect. -/
structure ConnectionManager where
  state : ConnectionState
  stateEnteredAt : ℕ
  policy : ReconnectPolicy
  transitions : List StateTransition

namespace ConnectionManager

/-- Before any connection. -/
def new (policy : ReconnectPolicy) (nowNs : ℕ) : ConnectionManager :=
  ⟨.disconnected, nowNs, policy, []⟩

/-- Go over to a state. -/
def transition (m : ConnectionManager) (nowNs : ℕ) (newState : ConnectionState)
    (reason : String) : ConnectionManager :=
  { m with
    state := newState
    stateEnteredAt := nowNs
    transitions := m.transitions ++
      [⟨nowNs, m.state, newState, reason, nowNs - m.stateEnteredAt⟩] }

/-- The first event has come. -/
def onConnected (m : ConnectionManager) : ConnectionManager :=
  { m with policy := m.policy.onConnected }

/-- A connection has ended: note it, and ask the policy. -/
def onDisconnect (m : ConnectionManager) (loggedNs askedNs : ℕ) (draw : Draw)
    (reason : DisconnectReason) : Option (ConnectionManager × ReconnectAction) :=
  let m := m.transition loggedNs (.reconnecting (m.policy.consecutiveFailures + 1)) reason.display
  (m.policy.nextAction askedNs draw reason).map (fun r => ({ m with policy := r.1 }, r.2))

end ConnectionManager

/-! ## The core -/

/-- What a core is given. -/
structure IngestionConfig where
  exchange : String
  symbol : String
  datatypes : DataTypesSection
  gapThreshold : ℕ
  stalenessTimeout : ℕ
  policy : ReconnectPolicy

/-- Where the core is. -/
inductive IngestionPhase where
  /-- It receives events; the first is still to come, or has come. -/
  | receiving (firstEvent : Bool) (lastActivity : ℕ)
  /-- It waits to reconnect. -/
  | waiting
  | stopped
  /-- The policy could draw no jitter. -/
  | panicked
deriving DecidableEq, Repr

/-- **The core.** -/
structure IngestionCore where
  phase : IngestionPhase
  manager : ConnectionManager
  gaps : GapDetectorSet
  totalEvents : ℕ
  reconnectCount : ℕ
  eventsByTopic : String → ℕ
  errors : List String

/-- What the core finds when it is to connect: the clock at each of its looks. -/
structure ConnectEnv where
  /-- Shutdown is signalled. -/
  shutdown : Bool
  connectingNs : ℕ
  subscribingNs : ℕ
  /-- When the silence timer is set. -/
  watchedNs : ℕ

/-- What the core finds when a connection has ended. -/
structure DisconnectEnv where
  /-- Shutdown is signalled before the policy is asked. -/
  shutdown : Bool
  loggedNs : ℕ
  /-- When the policy is asked. -/
  askedNs : ℕ
  draw : Draw
  /-- When a wait for an open circuit begins. -/
  waitsNs : ℕ
  /-- What it finds if it connects again at once. -/
  next : ConnectEnv

/-- An event as the core finds it. -/
structure EventArrival (P : Type) where
  event : RawEvent P
  /-- When the silence timer is set back. -/
  activityNs : ℕ
  /-- When the first event is logged. -/
  streamingNs : ℕ
  receivedAtUs : ℕ
  /-- When the so-manieth of its messages has been sent. -/
  sentNs : ℕ → ℕ
  /-- After so many sends the worker is gone. -/
  room : Option ℕ

/-- What reaches the core. -/
inductive IngestionInput (P : Type) where
  | event (a : EventArrival P)
  /-- The client has ended. -/
  | clientEnded (reason : DisconnectReason) (env : DisconnectEnv)
  /-- The silence timer. -/
  | silence (firedNs : ℕ) (env : DisconnectEnv)
  | shutdown
  /-- The wait is over. -/
  | waitOver (env : ConnectEnv)

namespace IngestionCore

variable {P : Type} (cfg : IngestionConfig)

/-- The topics of an event. -/
def topicsOf (event : RawEvent P) : List String :=
  cfg.datatypes.classifyEvent cfg.symbol cfg.datatypes.orderbookDepth event.kind

/-- The message of an event for a topic. -/
def messageOf (a : EventArrival P) (topic : String) : TopicMessage (RawEvent P) where
  topic := topic
  receivedAtUs := a.receivedAtUs
  exchange := cfg.exchange
  payload := a.event

/-- The messages of an event. -/
def messagesOf (a : EventArrival P) : List (TopicMessage (RawEvent P)) :=
  (topicsOf cfg a.event).map (messageOf cfg a)

/-- Connect. -/
def connect (c : IngestionCore) (env : ConnectEnv) : IngestionCore :=
  { c with
    phase := .receiving true env.watchedNs
    manager := (c.manager.transition env.connectingNs .connecting
      "initiating connection").transition env.subscribingNs .subscribing
        "exchange client spawned, awaiting first event" }

/-- A core at the head of its loop. -/
def head (c : IngestionCore) (env : ConnectEnv) : IngestionCore :=
  if env.shutdown then { c with phase := .stopped } else c.connect env

/-- A core that is started. -/
def start (nowNs : ℕ) (env : ConnectEnv) : IngestionCore :=
  head
    { phase := .waiting
      manager := .new cfg.policy nowNs
      gaps := .new (cfg.datatypes.wssTopicNames cfg.symbol) cfg.gapThreshold
      totalEvents := 0
      reconnectCount := 0
      eventsByTopic := fun _ => 0
      errors := [] }
    env

/-- A message of this topic has been sent, at this time. -/
def record (c : IngestionCore) (p : String × ℕ) : IngestionCore :=
  { c with
    gaps := c.gaps.recordEvent p.2 p.1
    eventsByTopic := Function.update c.eventsByTopic p.1 (c.eventsByTopic p.1 + 1)
    totalEvents := c.totalEvents + 1 }

/-- The topics of an event that are sent. -/
def sentTopics (a : EventArrival P) : List String :=
  match a.room with
  | none => topicsOf cfg a.event
  | some n => (topicsOf cfg a.event).take n

/-- The same, and when each of them was sent. -/
def sentAt (a : EventArrival P) : List (String × ℕ) :=
  (sentTopics cfg a).zipIdx.map (fun p => (p.1, a.sentNs p.2))

/-- The worker is gone before all is sent. -/
def isCutOff (a : EventArrival P) : Bool := a.room.any (fun n => n < (topicsOf cfg a.event).length)

/-- An event has come. -/
def onEvent (c : IngestionCore) (firstEvent : Bool) (a : EventArrival P) :
    IngestionCore × List (TopicMessage (RawEvent P)) :=
  let c := if firstEvent then
      { c with
        manager :=
          (c.manager.transition a.streamingNs .streaming "first event received").onConnected }
    else c
  let c := (sentAt cfg a).foldl record c
  ({ c with phase := if isCutOff cfg a then .stopped else .receiving false a.activityNs },
    (sentTopics cfg a).map (messageOf cfg a))

/-- The text of a wait. -/
def retryText (delayNs attempt : ℕ) (reason : DisconnectReason) : String :=
  "reconnecting in " ++ DisconnectReason.debugDuration delayNs ++ " (attempt " ++ toString attempt
    ++ "): " ++ reason.display

/-- Follow the policy. -/
def follow (c : IngestionCore) (reason : DisconnectReason) (env : DisconnectEnv) :
    ReconnectAction → IngestionCore
  | .retryAfter delayNs =>
    { c with
      phase := .waiting
      errors := c.errors ++
        [retryText delayNs c.manager.policy.consecutiveFailures reason] }
  | .retryImmediately => c.head env.next
  | .giveUp text => { c with phase := .stopped, errors := c.errors ++ ["giving up: " ++ text] }
  | .circuitOpen untilNs =>
    { c with
      phase := .waiting
      errors := c.errors ++ ["circuit breaker open, waiting "
        ++ DisconnectReason.debugDuration (untilNs - env.waitsNs)] }

/-- A connection has ended. -/
def onDisconnect (c : IngestionCore) (reason : DisconnectReason) (env : DisconnectEnv) :
    IngestionCore :=
  if env.shutdown then { c with phase := .stopped }
  else
    match c.manager.onDisconnect env.loggedNs env.askedNs env.draw reason with
    | none => { c with phase := .panicked }
    | some r =>
      { c with reconnectCount := c.reconnectCount + 1, manager := r.1 }.follow reason env r.2

/-- **One turn of the core.** -/
def step (c : IngestionCore) (i : IngestionInput P) :
    IngestionCore × List (TopicMessage (RawEvent P)) :=
  match c.phase, i with
  | .receiving firstEvent _, .event a => c.onEvent cfg firstEvent a
  | .receiving _ _, .clientEnded reason env => (c.onDisconnect reason env, [])
  | .receiving _ lastActivity, .silence firedNs env =>
    if lastActivity + cfg.stalenessTimeout ≤ firedNs then
      (c.onDisconnect (.staleConnection cfg.stalenessTimeout) env, [])
    else (c, [])
  | .receiving _ _, .shutdown => ({ c with phase := .stopped }, [])
  | .waiting, .shutdown => ({ c with phase := .stopped }, [])
  | .waiting, .waitOver env => (c.head env, [])
  | _, _ => (c, [])

/-- The core as a machine. -/
def machine : Machine IngestionCore (IngestionInput P) (TopicMessage (RawEvent P)) := ⟨step cfg⟩

/-! ## What is sent -/

variable {cfg}

/-- The event a turn takes. -/
def taken (c : IngestionCore) (i : IngestionInput P) : Option (EventArrival P) :=
  match c.phase, i with
  | .receiving _ _, .event a => some a
  | _, _ => none

variable (cfg) in
/-- The events a run takes. -/
def arrivals (c : IngestionCore) (is : List (IngestionInput P)) : List (EventArrival P) :=
  (machine cfg).collect taken c is

variable (cfg) in
/-- When messages of a topic were sent. -/
def touches (topic : String) (as : List (EventArrival P)) : List ℕ :=
  as.flatMap (fun a => (sentAt cfg a).filterMap (fun p => if p.1 = topic then some p.2 else none))

end IngestionCore

namespace GapDetector

/-- The detector after events at these times. -/
def after (silenceThreshold : ℕ) (topic : String) (times : List ℕ) : GapDetector :=
  times.foldl (fun d nowNs => (d.recordEvent nowNs).1) (new silenceThreshold topic)

/-- The times between one event and the next. -/
def silences : List ℕ → List ℕ
  | a :: b :: times => (b - a) :: silences (b :: times)
  | _ => []

/-- The gaps between events at these times, in milliseconds. -/
def gapsOf (silenceThreshold : ℕ) (times : List ℕ) : List ℕ :=
  ((silences times).filter (silenceThreshold < ·)).map (· / nsPerMs)

theorem silences_concat (times : List ℕ) (a b : ℕ) :
    silences (times ++ [a] ++ [b]) = silences (times ++ [a]) ++ [b - a] := by
  induction times with
  | nil => rfl
  | cons x times ih =>
    cases times with
    | nil => rfl
    | cons y times => exact congrArg ((y - x) :: ·) ih

/-- **A detector counts the gaps**, and adds them up. -/
theorem after_spec (silenceThreshold : ℕ) (topic : String) (times : List ℕ) :
    (after silenceThreshold topic times).topic = topic
      ∧ (after silenceThreshold topic times).silenceThreshold = silenceThreshold
      ∧ (after silenceThreshold topic times).lastEventAt = times.getLast?
      ∧ (after silenceThreshold topic times).gapCount = (gapsOf silenceThreshold times).length
      ∧ (after silenceThreshold topic times).totalGapMs = (gapsOf silenceThreshold times).sum := by
  induction times using List.reverseRecOn with
  | nil => exact ⟨rfl, rfl, rfl, rfl, rfl⟩
  | append_singleton times b ih =>
    obtain ⟨htopic, hthreshold, hlast, hcount, htotal⟩ := ih
    have hafter : after silenceThreshold topic (times ++ [b])
        = ((after silenceThreshold topic times).recordEvent b).1 :=
      List.foldl_concat _ _ _ _
    have hgap : gapsOf silenceThreshold (times ++ [b]) = gapsOf silenceThreshold times
        ++ ((after silenceThreshold topic times).gapAt b).toList := by
      unfold gapAt
      rw [hlast, hthreshold]
      cases times using List.reverseRecOn with
      | nil => rfl
      | append_singleton times a =>
        rw [List.getLast?_concat]
        unfold gapsOf
        rw [silences_concat, List.filter_append, List.map_append, Option.bind_some,
          List.append_right_inj, List.filter_singleton]
        by_cases hlong : silenceThreshold < b - a
        · rw [if_pos hlong, decide_eq_true hlong]
          rfl
        · rw [if_neg hlong, decide_eq_false hlong]
          rfl
    rw [hafter, hgap, List.getLast?_concat, List.length_append, List.sum_append]
    refine ⟨htopic, hthreshold, rfl, ?_, ?_⟩
    · rw [← hcount]
      rfl
    · rw [← htotal]
      show _ + _ = _ + _
      cases (after silenceThreshold topic times).gapAt b <;> rfl

end GapDetector

namespace IngestionCore

variable {P : Type} {cfg : IngestionConfig}

/-- What a run that has taken these events and sent these messages has noted. -/
structure Accounts (cfg : IngestionConfig) (c : IngestionCore) (taken : List (EventArrival P))
    (sent : List (TopicMessage (RawEvent P))) : Prop where
  /-- The messages are those of the events. -/
  ordered : sent <+: taken.flatMap (messagesOf cfg)
  /-- All of them, if the worker was there for each. -/
  whole : (∀ a ∈ taken, isCutOff cfg a = false) → sent = taken.flatMap (messagesOf cfg)
  /-- A worker that is gone stops the core. -/
  served : c.phase ≠ .stopped → ∀ a ∈ taken, isCutOff cfg a = false
  total_eq : c.totalEvents = sent.length
  byTopic_eq : ∀ t, c.eventsByTopic t = sent.countP (fun m => decide (m.topic = t))
  gaps_eq : c.gaps = (cfg.datatypes.wssTopicNames cfg.symbol).map
    (fun t => GapDetector.after cfg.gapThreshold t (touches cfg t taken))

/-- The core's notes on what it sent. -/
structure SameNotes (c c' : IngestionCore) : Prop where
  total_eq : c'.totalEvents = c.totalEvents
  byTopic_eq : c'.eventsByTopic = c.eventsByTopic
  gaps_eq : c'.gaps = c.gaps

theorem SameNotes.trans {c c' c'' : IngestionCore} (h : SameNotes c c') (h' : SameNotes c' c'') :
    SameNotes c c'' :=
  ⟨h'.total_eq.trans h.total_eq, h'.byTopic_eq.trans h.byTopic_eq, h'.gaps_eq.trans h.gaps_eq⟩

theorem sameNotes_head (c : IngestionCore) (env : ConnectEnv) : SameNotes c (c.head env) := by
  unfold head
  split <;> exact ⟨rfl, rfl, rfl⟩

theorem sameNotes_follow (c : IngestionCore) (reason : DisconnectReason) (env : DisconnectEnv)
    (action : ReconnectAction) : SameNotes c (c.follow reason env action) := by
  cases action with
  | retryImmediately => exact sameNotes_head c _
  | _ => exact ⟨rfl, rfl, rfl⟩

theorem sameNotes_onDisconnect (c : IngestionCore) (reason : DisconnectReason)
    (env : DisconnectEnv) : SameNotes c (c.onDisconnect reason env) := by
  unfold onDisconnect
  split
  · exact ⟨rfl, rfl, rfl⟩
  · split
    · exact ⟨rfl, rfl, rfl⟩
    · next r _ =>
      have hcount : SameNotes c
          { c with reconnectCount := c.reconnectCount + 1, manager := r.1 } := ⟨rfl, rfl, rfl⟩
      exact hcount.trans (sameNotes_follow _ reason env r.2)

/-- What messages of these topics, sent at these times, add to the notes. -/
theorem record_foldl (c : IngestionCore) (sent : List (String × ℕ)) :
    (sent.foldl record c).totalEvents = c.totalEvents + sent.length
      ∧ (∀ t, (sent.foldl record c).eventsByTopic t
        = c.eventsByTopic t + sent.countP (fun p => decide (p.1 = t)))
      ∧ (sent.foldl record c).gaps = c.gaps.map (fun d =>
        (sent.filterMap (fun p => if p.1 = d.topic then some p.2 else none)).foldl
          (fun d n => (d.recordEvent n).1) d) := by
  induction sent generalizing c with
  | nil => exact ⟨rfl, fun t => rfl, (List.map_id _).symm⟩
  | cons p sent ih =>
    obtain ⟨htotal, hby, hgaps⟩ := ih (c.record p)
    rw [List.foldl_cons]
    refine ⟨?_, fun t => ?_, ?_⟩
    · rw [htotal, List.length_cons]
      show c.totalEvents + 1 + _ = _
      omega
    · rw [hby, List.countP_cons]
      show Function.update c.eventsByTopic p.1 (c.eventsByTopic p.1 + 1) t + _ = _
      by_cases htopic : p.1 = t
      · rw [htopic, Function.update_self, decide_eq_true rfl, if_pos rfl]
        omega
      · rw [Function.update_of_ne (Ne.symm htopic), decide_eq_false htopic,
          if_neg Bool.false_ne_true]
        rfl
    · rw [hgaps]
      show (c.gaps.map _).map _ = _
      rw [List.map_map]
      refine List.map_congr_left (fun d _ => ?_)
      rw [Function.comp_apply, List.filterMap_cons]
      by_cases htopic : d.topic = p.1
      · rw [if_pos htopic, if_pos htopic.symm, List.foldl_cons]
        rfl
      · rw [if_neg htopic, if_neg (Ne.symm htopic)]

theorem map_fst_sentAt (a : EventArrival P) :
    (sentAt cfg a).map Prod.fst = sentTopics cfg a := by
  unfold sentAt
  rw [List.map_map]
  exact List.zipIdx_map_fst 0 _

/-- What of an event is sent are its messages, or a beginning of them. -/
theorem sentTopics_begins (a : EventArrival P) : sentTopics cfg a <+: topicsOf cfg a.event := by
  unfold sentTopics
  split
  · exact List.prefix_rfl
  · exact List.take_prefix _ _

theorem sentTopics_of_not_isCutOff {a : EventArrival P} (h : isCutOff cfg a = false) :
    sentTopics cfg a = topicsOf cfg a.event := by
  unfold isCutOff at h
  unfold sentTopics
  cases hroom : a.room with
  | none => rfl
  | some n =>
    rw [hroom, Option.any_some, decide_eq_false_iff_not, not_lt] at h
    exact List.take_of_length_le h

/-- Nothing taken, nothing sent. -/
theorem Accounts.quiet {c c' : IngestionCore} {taken : List (EventArrival P)}
    {sent : List (TopicMessage (RawEvent P))} (h : Accounts cfg c taken sent)
    (hsame : SameNotes c c') (hphase : c.phase = .stopped → c'.phase = .stopped) :
    Accounts cfg c' taken sent where
  ordered := h.ordered
  whole := h.whole
  served := fun hgo => h.served (fun hstop => hgo (hphase hstop))
  total_eq := hsame.total_eq.trans h.total_eq
  byTopic_eq := fun t => (congrFun hsame.byTopic_eq t).trans (h.byTopic_eq t)
  gaps_eq := hsame.gaps_eq.trans h.gaps_eq

/-- The event of a turn, its messages and their notes. -/
theorem Accounts.event {c : IngestionCore} {taken : List (EventArrival P)}
    {sent : List (TopicMessage (RawEvent P))} (h : Accounts cfg c taken sent)
    (hgoes : c.phase ≠ .stopped) (firstEvent : Bool) (a : EventArrival P) :
    Accounts cfg (c.onEvent cfg firstEvent a).1 (taken ++ [a])
      (sent ++ (c.onEvent cfg firstEvent a).2) := by
  have hserved := h.served hgoes
  have hsent := h.whole hserved
  have hmessages : (c.onEvent cfg firstEvent a).2 = (sentTopics cfg a).map (messageOf cfg a) := rfl
  have hlength : (sentAt cfg a).length = (sentTopics cfg a).length := by
    rw [← map_fst_sentAt, List.length_map]
  -- the first event only moves the manager
  obtain ⟨htotal, hby, hgaps⟩ : (c.onEvent cfg firstEvent a).1.totalEvents
        = c.totalEvents + (sentAt cfg a).length
      ∧ (∀ t, (c.onEvent cfg firstEvent a).1.eventsByTopic t
        = c.eventsByTopic t + (sentAt cfg a).countP (fun p => decide (p.1 = t)))
      ∧ (c.onEvent cfg firstEvent a).1.gaps = c.gaps.map (fun d =>
        ((sentAt cfg a).filterMap (fun p => if p.1 = d.topic then some p.2 else none)).foldl
          (fun d n => (d.recordEvent n).1) d) := by
    cases firstEvent with
    | true =>
      exact record_foldl { c with manager := (c.manager.transition a.streamingNs .streaming
        "first event received").onConnected } (sentAt cfg a)
    | false => exact record_foldl c (sentAt cfg a)
  refine ⟨?_, fun hall => ?_, fun hstop => ?_, ?_, fun t => ?_, ?_⟩
  · rw [hmessages, hsent, List.flatMap_append, List.flatMap_singleton]
    exact (List.prefix_append_right_inj _).mpr ((sentTopics_begins a).map _)
  · have hcut := hall a (List.mem_append_right _ (List.mem_singleton.mpr rfl))
    rw [hmessages, hsent, List.flatMap_append, List.flatMap_singleton,
      sentTopics_of_not_isCutOff hcut]
    rfl
  · intro b hb
    rcases List.mem_append.mp hb with hb | hb
    · exact hserved b hb
    · obtain rfl := List.mem_singleton.mp hb
      cases hcut : isCutOff cfg b with
      | false => rfl
      | true => exact absurd (if_pos hcut) hstop
  · rw [htotal, hlength, h.total_eq, hmessages, List.length_append, List.length_map]
  · have hcount : (sentAt cfg a).countP (fun p => decide (p.1 = t))
        = (sentTopics cfg a).countP (fun u => decide (u = t)) := by
      rw [← map_fst_sentAt, List.countP_map]
      rfl
    rw [hby, hcount, h.byTopic_eq, hmessages, List.countP_append, List.countP_map]
    rfl
  · rw [hgaps, h.gaps_eq, List.map_map]
    refine List.map_congr_left (fun t _ => ?_)
    rw [Function.comp_apply, (GapDetector.after_spec _ t _).1]
    unfold touches GapDetector.after
    rw [List.flatMap_append, List.flatMap_singleton, List.foldl_append]

/-- **One turn of the core** keeps its accounts. -/
theorem Accounts.step {c : IngestionCore} {taken : List (EventArrival P)}
    {sent : List (TopicMessage (RawEvent P))} (h : Accounts cfg c taken sent)
    (i : IngestionInput P) :
    Accounts cfg (c.step cfg i).1 (taken ++ (c.taken i).toList) (sent ++ (c.step cfg i).2) := by
  have hnone : ∀ {c' : IngestionCore}, SameNotes c c' →
      (c.phase = .stopped → c'.phase = .stopped) →
      Accounts cfg c' (taken ++ (none : Option (EventArrival P)).toList) (sent ++ []) := by
    intro c' hsame hphase
    rw [Option.toList_none, List.append_nil, List.append_nil]
    exact h.quiet hsame hphase
  unfold IngestionCore.step IngestionCore.taken
  cases hphase : c.phase with
  | receiving firstEvent lastActivity =>
    have hgoes : ∀ {c' : IngestionCore}, c.phase = .stopped → c'.phase = .stopped := by
      intro c' hstop
      rw [hphase] at hstop
      cases hstop
    cases i with
    | event a => exact h.event (fun hstop => by rw [hphase] at hstop; cases hstop) firstEvent a
    | clientEnded reason env => exact hnone (sameNotes_onDisconnect c reason env) hgoes
    | silence firedNs env =>
      dsimp only
      split
      · exact hnone (sameNotes_onDisconnect c _ env) hgoes
      · exact hnone ⟨rfl, rfl, rfl⟩ hgoes
    | shutdown => exact hnone ⟨rfl, rfl, rfl⟩ hgoes
    | waitOver env => exact hnone ⟨rfl, rfl, rfl⟩ hgoes
  | waiting =>
    have hgoes : ∀ {c' : IngestionCore}, c.phase = .stopped → c'.phase = .stopped := by
      intro c' hstop
      rw [hphase] at hstop
      cases hstop
    cases i with
    | waitOver env => exact hnone (sameNotes_head c env) hgoes
    | _ => exact hnone ⟨rfl, rfl, rfl⟩ hgoes
  | stopped => exact hnone ⟨rfl, rfl, rfl⟩ (fun _ => hphase)
  | panicked => exact hnone ⟨rfl, rfl, rfl⟩ id

theorem accounts_start (nowNs : ℕ) (env : ConnectEnv) :
    Accounts (P := P) cfg (start cfg nowNs env) [] [] := by
  have hbefore : Accounts (P := P) cfg
      { phase := .waiting
        manager := .new cfg.policy nowNs
        gaps := .new (cfg.datatypes.wssTopicNames cfg.symbol) cfg.gapThreshold
        totalEvents := 0
        reconnectCount := 0
        eventsByTopic := fun _ => 0
        errors := [] } [] [] :=
    ⟨List.prefix_rfl, fun _ => rfl, fun _ a ha => absurd ha List.not_mem_nil, rfl, fun _ => rfl,
      rfl⟩
  exact hbefore.quiet (sameNotes_head _ env) (fun hstop => by cases hstop)

theorem sum_indicator (topics : List String) (u : String) :
    (topics.map (fun t => if decide (u = t) = true then 1 else 0)).sum = topics.count u := by
  induction topics with
  | nil => rfl
  | cons t topics ih =>
    rw [List.map_cons, List.sum_cons, ih, List.count_cons, Nat.add_comm]
    by_cases h : u = t
    · rw [if_pos (decide_eq_true h), if_pos (beq_iff_eq.mpr h.symm)]
    · rw [if_neg (fun hd => h (of_decide_eq_true hd)), if_neg (fun hd => h (beq_iff_eq.mp hd).symm)]

/-- The counts of different topics that cover all messages add up to their number. -/
theorem sum_counts {topics : List String} (hnodup : topics.Nodup)
    {sent : List (TopicMessage (RawEvent P))} (hmem : ∀ m ∈ sent, m.topic ∈ topics) :
    (topics.map (fun t => sent.countP (fun m => decide (m.topic = t)))).sum = sent.length := by
  induction sent with
  | nil => exact List.sum_eq_zero (fun n hn => by
      obtain ⟨t, -, rfl⟩ := List.mem_map.mp hn
      rfl)
  | cons m sent ih =>
    have hrest := ih (fun m' hm' => hmem m' (List.mem_cons_of_mem _ hm'))
    have hone : (topics.map (fun t => if decide (m.topic = t) = true then 1 else 0)).sum = 1 :=
      (sum_indicator topics m.topic).trans
        (List.count_eq_one_of_mem hnodup (hmem m List.mem_cons_self))
    simp only [List.countP_cons, List.sum_map_add, hrest, hone, List.length_cons]

/-- **The core sends what it receives, and counts it.** After any run the messages it has
sent are a beginning of those of the events it has taken, one for each topic of each, in
order, and all of them if the worker was there for each; each is of a topic of the
configuration. The total is their number, the counts by topic are their numbers and
add up to it, and each detector has counted the gaps between the messages of its
topic. -/
theorem messages_accounted (nowNs : ℕ) (env : ConnectEnv) (is : List (IngestionInput P)) :
    Accounts cfg ((machine cfg).run (start cfg nowNs env) is).1
        (arrivals cfg (start cfg nowNs env) is)
        ((machine cfg).run (start cfg nowNs env) is).2
      ∧ (∀ m ∈ ((machine cfg).run (start cfg nowNs env) is).2,
        m.topic ∈ cfg.datatypes.wssTopicNames cfg.symbol)
      ∧ ((cfg.datatypes.wssTopicNames cfg.symbol).map
          ((machine cfg).run (start cfg nowNs env) is).1.eventsByTopic).sum
        = ((machine cfg).run (start cfg nowNs env) is).1.totalEvents
      ∧ ∀ d ∈ ((machine cfg).run (start cfg nowNs env) is).1.gaps,
        d.gapCount = (GapDetector.gapsOf cfg.gapThreshold
          (touches cfg d.topic (arrivals cfg (start cfg nowNs env) is))).length
        ∧ d.totalGapMs = (GapDetector.gapsOf cfg.gapThreshold
          (touches cfg d.topic (arrivals cfg (start cfg nowNs env) is))).sum := by
  have hacc : Accounts cfg ((machine cfg).run (start cfg nowNs env) is).1
      (arrivals cfg (start cfg nowNs env) is)
      ((machine cfg).run (start cfg nowNs env) is).2 := by
    induction is using List.reverseRecOn with
    | nil => exact accounts_start nowNs env
    | append_singleton is i ih =>
      have htaken : arrivals cfg (start cfg nowNs env) (is ++ [i])
          = arrivals cfg (start cfg nowNs env) is
            ++ (((machine cfg).run (start cfg nowNs env) is).1.taken i).toList :=
        (machine cfg).collect_append_singleton _ _ is i
      have hone := ih.step i
      rw [htaken, Machine.run_append]
      show Accounts cfg (((machine cfg).run (start cfg nowNs env) is).1.step cfg i).1 _
        (_ ++ ((((machine cfg).run (start cfg nowNs env) is).1.step cfg i).2 ++ []))
      rw [List.append_nil]
      exact hone
  have hmem : ∀ m ∈ ((machine cfg).run (start cfg nowNs env) is).2,
      m.topic ∈ cfg.datatypes.wssTopicNames cfg.symbol := by
    intro m hm
    obtain ⟨a, -, ha⟩ := List.mem_flatMap.mp (hacc.ordered.subset hm)
    obtain ⟨t, ht, rfl⟩ := List.mem_map.mp ha
    exact cfg.datatypes.classifyEvent_subset cfg.symbol a.event.kind ht
  refine ⟨hacc, hmem, ?_, fun d hd => ?_⟩
  · rw [hacc.total_eq, ← sum_counts (cfg.datatypes.nodup_wssTopicNames cfg.symbol) hmem]
    exact congrArg List.sum (List.map_congr_left (fun t _ => hacc.byTopic_eq t))
  · rw [hacc.gaps_eq] at hd
    obtain ⟨t, -, rfl⟩ := List.mem_map.mp hd
    obtain ⟨htopic, -, -, hcount, htotal⟩ := GapDetector.after_spec cfg.gapThreshold t
      (touches cfg t (arrivals cfg (start cfg nowNs env) is))
    rw [htopic]
    exact ⟨hcount, htotal⟩

end IngestionCore

/-! ## The states of a run -/

namespace ConnectionState

/-- **A state may follow another**, and with which attempt. -/
def Follows : ConnectionState → ConnectionState → Prop
  | .disconnected, .connecting => True
  | .connecting, .subscribing => True
  | .subscribing, .streaming => True
  | .subscribing, .reconnecting attempt => 0 < attempt
  | .streaming, .reconnecting attempt => attempt = 1
  | .reconnecting _, .connecting => True
  | _, _ => False

/-- A connection can be made from here. -/
def isIdle : ConnectionState → Bool
  | .disconnected => true
  | .reconnecting _ => true
  | _ => false

theorem follows_connecting {s : ConnectionState} (h : s.isIdle = true) :
    s.Follows .connecting := by
  cases s with
  | disconnected => trivial
  | reconnecting attempt => trivial
  | _ => exact Bool.noConfusion h

end ConnectionState

namespace StateTransition

def isReconnecting (x : StateTransition) : Bool :=
  match x.toState with
  | .reconnecting _ => true
  | _ => false

/-- **A log leads from one state to another**, each entered at a time: each entry begins
where the one before ended, says how long that state lasted, and goes where it
may. -/
def LeadsTo : ConnectionState → ℕ → List StateTransition → ConnectionState → ℕ → Prop
  | s, enteredAt, [], t, thenAt => s = t ∧ enteredAt = thenAt
  | s, enteredAt, x :: log, t, thenAt =>
    x.fromState = s ∧ s.Follows x.toState ∧ x.durationInPrev = x.atNs - enteredAt
      ∧ LeadsTo x.toState x.atNs log t thenAt

theorem LeadsTo.concat {s t : ConnectionState} {enteredAt thenAt : ℕ}
    {log : List StateTransition} (h : LeadsTo s enteredAt log t thenAt) {x : StateTransition}
    (hfrom : x.fromState = t) (hto : t.Follows x.toState)
    (hlasted : x.durationInPrev = x.atNs - thenAt) :
    LeadsTo s enteredAt (log ++ [x]) x.toState x.atNs := by
  induction log generalizing s enteredAt with
  | nil =>
    obtain ⟨rfl, rfl⟩ := h
    exact ⟨hfrom, hto, hlasted, rfl, rfl⟩
  | cons y log ih =>
    obtain ⟨hyfrom, hyto, hylasted, hrest⟩ := h
    exact ⟨hyfrom, hyto, hylasted, ih hrest⟩

end StateTransition

namespace ConnectionManager

open StateTransition

/-- The log of a manager leads to its state, and has so many reconnections. -/
structure Tracks (startNs reconnections : ℕ) (m : ConnectionManager) : Prop where
  leads : LeadsTo .disconnected startNs m.transitions m.state m.stateEnteredAt
  count_eq : m.transitions.countP isReconnecting = reconnections

theorem tracks_new (policy : ReconnectPolicy) (nowNs : ℕ) : Tracks nowNs 0 (new policy nowNs) :=
  ⟨⟨rfl, rfl⟩, rfl⟩

theorem Tracks.transition {startNs reconnections : ℕ} {m : ConnectionManager}
    (h : Tracks startNs reconnections m) (nowNs : ℕ) {newState : ConnectionState}
    (hto : m.state.Follows newState) (reason : String) :
    Tracks startNs (reconnections + (isReconnecting ⟨nowNs, m.state, newState, reason,
      nowNs - m.stateEnteredAt⟩).toNat) (m.transition nowNs newState reason) := by
  refine ⟨h.leads.concat rfl hto rfl, ?_⟩
  show (m.transitions ++ [_]).countP isReconnecting = _
  rw [List.countP_append, h.count_eq, List.countP_singleton]
  cases isReconnecting ⟨nowNs, m.state, newState, reason, nowNs - m.stateEnteredAt⟩ <;> rfl

end ConnectionManager

namespace IngestionCore

open ConnectionManager StateTransition

/-- What the phase of a core says of its connection. -/
def Stands (c : IngestionCore) : Prop :=
  match c.phase with
  | .receiving true _ => c.manager.state = .subscribing
  | .receiving false _ =>
    c.manager.state = .streaming ∧ c.manager.policy.consecutiveFailures = 0
  | .waiting => c.manager.state.isIdle = true
  | .stopped => True
  | .panicked => True

/-- A core whose log is sound. -/
structure Diagram (startNs : ℕ) (c : IngestionCore) : Prop where
  tracks : Tracks startNs c.reconnectCount c.manager
  stands : c.Stands
  /-- Not every reconnection is an error. -/
  errors_le : c.errors.length ≤ c.reconnectCount

variable {startNs : ℕ}

/-- A core at the head of its loop connects. -/
theorem diagram_head {c : IngestionCore} (htracks : Tracks startNs c.reconnectCount c.manager)
    (hidle : c.manager.state.isIdle = true) (herrors : c.errors.length ≤ c.reconnectCount)
    (env : ConnectEnv) : Diagram startNs (c.head env) := by
  unfold IngestionCore.head
  split
  · exact ⟨htracks, trivial, herrors⟩
  · have hconnecting := htracks.transition env.connectingNs
      (ConnectionState.follows_connecting hidle) "initiating connection"
    have hfollows : ConnectionState.connecting.Follows .subscribing := trivial
    exact ⟨hconnecting.transition env.subscribingNs hfollows
      "exchange client spawned, awaiting first event", rfl, herrors⟩

/-- A connection that is made may end in a reconnection. -/
theorem follows_reconnecting {c : IngestionCore} (h : c.Stands) {firstEvent : Bool}
    {lastActivity : ℕ} (hphase : c.phase = .receiving firstEvent lastActivity) :
    c.manager.state.Follows (.reconnecting (c.manager.policy.consecutiveFailures + 1)) := by
  unfold Stands at h
  rw [hphase] at h
  cases firstEvent with
  | true =>
    rw [h]
    exact Nat.succ_pos _
  | false =>
    rw [h.1]
    exact congrArg (· + 1) h.2

theorem Diagram.onDisconnect {c : IngestionCore} (h : Diagram startNs c) {firstEvent : Bool}
    {lastActivity : ℕ} (hphase : c.phase = .receiving firstEvent lastActivity)
    (reason : DisconnectReason) (env : DisconnectEnv) :
    Diagram startNs (c.onDisconnect reason env) := by
  unfold IngestionCore.onDisconnect
  split
  · exact ⟨h.tracks, trivial, h.errors_le⟩
  · split
    · exact ⟨h.tracks, trivial, h.errors_le⟩
    · next r hr =>
      have hone := h.tracks.transition env.loggedNs (follows_reconnecting h.stands hphase)
        reason.display
      -- what the policy changes is not in the log
      obtain ⟨p, -, rfl⟩ := Option.map_eq_some_iff.mp hr
      have htracks : Tracks startNs (c.reconnectCount + 1)
          { c.manager.transition env.loggedNs
              (.reconnecting (c.manager.policy.consecutiveFailures + 1)) reason.display with
            policy := p.1 } := ⟨hone.leads, hone.count_eq⟩
      have herrors := h.errors_le
      cases p.2 with
      | retryAfter delayNs =>
        refine ⟨htracks, rfl, ?_⟩
        show (c.errors ++ [_]).length ≤ c.reconnectCount + 1
        rw [List.length_append]
        exact Nat.succ_le_succ herrors
      | retryImmediately =>
        show Diagram startNs ({ c with
          reconnectCount := c.reconnectCount + 1, manager := _ }.head env.next)
        exact diagram_head htracks rfl (Nat.le_succ_of_le herrors) env.next
      | giveUp text =>
        refine ⟨htracks, trivial, ?_⟩
        show (c.errors ++ [_]).length ≤ c.reconnectCount + 1
        rw [List.length_append]
        exact Nat.succ_le_succ herrors
      | circuitOpen untilNs =>
        refine ⟨htracks, rfl, ?_⟩
        show (c.errors ++ [_]).length ≤ c.reconnectCount + 1
        rw [List.length_append]
        exact Nat.succ_le_succ herrors

/-- Sending touches neither the log nor the errors. -/
theorem record_foldl_frame (c : IngestionCore) (sent : List (String × ℕ)) :
    (sent.foldl record c).manager = c.manager
      ∧ (sent.foldl record c).reconnectCount = c.reconnectCount
      ∧ (sent.foldl record c).errors = c.errors := by
  induction sent generalizing c with
  | nil => exact ⟨rfl, rfl, rfl⟩
  | cons p sent ih => exact ih (c.record p)

theorem Diagram.onEvent {c : IngestionCore} (h : Diagram startNs c) {firstEvent : Bool}
    {lastActivity : ℕ} (hphase : c.phase = .receiving firstEvent lastActivity)
    (a : EventArrival P) : Diagram startNs (c.onEvent cfg firstEvent a).1 := by
  have hstands := h.stands
  unfold Stands at hstands
  rw [hphase] at hstands
  have hdone : ∀ c' : IngestionCore, Tracks startNs c'.reconnectCount c'.manager →
      c'.manager.state = .streaming ∧ c'.manager.policy.consecutiveFailures = 0 →
      c'.errors.length ≤ c'.reconnectCount →
      Diagram startNs { (sentAt cfg a).foldl record c' with
        phase := if isCutOff cfg a then .stopped else .receiving false a.activityNs } := by
    intro c' htracks hstreaming herrors
    obtain ⟨hmanager, hcount, herr⟩ := record_foldl_frame c' (sentAt cfg a)
    refine ⟨?_, ?_, ?_⟩
    · show Tracks startNs ((sentAt cfg a).foldl _ c').reconnectCount
        ((sentAt cfg a).foldl _ c').manager
      rw [hmanager, hcount]
      exact htracks
    · unfold Stands
      dsimp only
      rw [hmanager]
      cases isCutOff cfg a with
      | true => trivial
      | false => exact hstreaming
    · show ((sentAt cfg a).foldl _ c').errors.length
        ≤ ((sentAt cfg a).foldl _ c').reconnectCount
      rw [hcount, herr]
      exact herrors
  cases firstEvent with
  | true =>
    have hfollows : c.manager.state.Follows .streaming := by
      rw [show c.manager.state = .subscribing from hstands]
      trivial
    have hone := h.tracks.transition a.streamingNs hfollows "first event received"
    exact hdone { c with manager := _ } ⟨hone.leads, hone.count_eq⟩ ⟨rfl, rfl⟩ h.errors_le
  | false => exact hdone c h.tracks hstands h.errors_le

/-- **One turn of the core** keeps its log sound. -/
theorem Diagram.step {c : IngestionCore} (h : Diagram startNs c) (i : IngestionInput P) :
    Diagram startNs (c.step cfg i).1 := by
  have hstopped : Diagram startNs { c with phase := .stopped } :=
    ⟨h.tracks, trivial, h.errors_le⟩
  unfold IngestionCore.step
  cases hphase : c.phase with
  | receiving firstEvent lastActivity =>
    cases i with
    | event a => exact h.onEvent hphase a
    | clientEnded reason env => exact h.onDisconnect hphase reason env
    | silence firedNs env =>
      dsimp only
      split
      · exact h.onDisconnect hphase _ env
      · exact h
    | shutdown => exact hstopped
    | waitOver env => exact h
  | waiting =>
    cases i with
    | waitOver env =>
      have hidle := h.stands
      unfold Stands at hidle
      rw [hphase] at hidle
      exact diagram_head h.tracks hidle h.errors_le env
    | shutdown => exact hstopped
    | _ => exact h
  | _ => exact h

/-- **The states of a connection follow each other as connections do.** After any run
the log leads from the initial state to the present one without a break: each entry
begins where and when the one before ended, and goes where the diagram allows – a
stream is lost only to a first attempt to reconnect, and a reconnection connects and
subscribes before it streams. The reconnections are counted by the entries. -/
theorem diagram_run (nowNs : ℕ) (env : ConnectEnv) (is : List (IngestionInput P)) :
    Diagram nowNs ((machine cfg).run (start cfg nowNs env) is).1 := by
  induction is using List.reverseRecOn with
  | nil =>
    unfold start
    exact diagram_head (tracks_new cfg.policy nowNs) rfl (le_refl 0) env
  | append_singleton is i ih =>
    rw [Machine.run_append_singleton]
    exact ih.step i

end IngestionCore
