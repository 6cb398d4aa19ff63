import Aetelier.IngestionCore

/-!
# The data worker and its topics

A data worker publishes what it receives on channels, one for each topic, and keeps
no books. There are two families of channels: the raw one for the classified events
of the ingestion core, and the domain one for the normalized events of the
framework. A worker is configured for one of them and builds the sinks of that one.

On the framework path it runs one adapter after the other, until it is stopped or the
source is exhausted, and publishes each event whose data type is enabled unless it is
paused (`DataWorker.domain_published`). If it is configured for the framework path and the
venue does not serve it, it takes the legacy path instead, with the sinks of the other:
it goes on counting what it receives, and publishes nothing (`RawDataWorker.raw_published`).

Left out are the subscribers of a channel, the rates and latencies of the status, and
the sinks an embedding application adds.
-/

/-! ## Channels -/

/-- **The channels of a registry**, with what was published on each. -/
structure TopicChannels (M : Type) where
  publishers : String → Option (List M)

namespace TopicChannels

variable {M : Type}

/-- One channel for each topic. -/
def ofTopics (topics : List String) : TopicChannels M :=
  ⟨fun topic => if topic ∈ topics then some [] else none⟩

/-- Publish on a topic; an unknown one is an error. -/
def publish (r : TopicChannels M) (topic : String) (msg : M) : Except String (TopicChannels M) :=
  match r.publishers topic with
  | none => .error ("unknown topic: " ++ topic)
  | some published =>
    .ok ⟨Function.update r.publishers topic (some (published ++ [msg]))⟩

end TopicChannels

/-- **A sink that publishes on channels.** -/
structure TopicSink (M : Type) where
  registry : TopicChannels M
  eventsEmitted : ℕ
  eventsDropped : ℕ

namespace TopicSink

variable {M : Type}

def new (registry : TopicChannels M) : TopicSink M := ⟨registry, 0, 0⟩

/-- Publish, and count. -/
def emit (s : TopicSink M) (topic : String) (msg : M) : TopicSink M :=
  match s.registry.publish topic msg with
  | .ok registry => { s with registry := registry, eventsEmitted := s.eventsEmitted + 1 }
  | .error _ => { s with eventsDropped := s.eventsDropped + 1 }

/-- Publish one message after the other. -/
def emitAll (s : TopicSink M) (msgs : List (String × M)) : TopicSink M :=
  msgs.foldl (fun s m => s.emit m.1 m.2) s

/-- **What was published on the channels of some topics**: on each of them the
messages of the topic, and all others were dropped. -/
structure Holds (topics : List String) (s : TopicSink M) (msgs : List (String × M)) : Prop where
  published : ∀ topic, s.registry.publishers topic =
    if topic ∈ topics then some ((msgs.filter (fun m => decide (m.1 = topic))).map Prod.snd)
    else none
  emitted_eq : s.eventsEmitted = msgs.countP (fun m => decide (m.1 ∈ topics))
  dropped_eq : s.eventsDropped = msgs.countP (fun m => decide (m.1 ∉ topics))

theorem holds_new (topics : List String) : Holds topics (new (.ofTopics topics) : TopicSink M) [] :=
  ⟨fun _ => rfl, rfl, rfl⟩

theorem Holds.emit {topics : List String} {s : TopicSink M} {msgs : List (String × M)}
    (h : Holds topics s msgs) (m : String × M) :
    Holds topics (s.emit m.1 m.2) (msgs ++ [m]) := by
  have hpub := h.published m.1
  unfold TopicSink.emit TopicChannels.publish
  by_cases hmem : m.1 ∈ topics
  · rw [if_pos hmem] at hpub
    rw [hpub]
    refine ⟨fun topic => ?_, ?_, ?_⟩
    · show Function.update s.registry.publishers m.1 _ topic = _
      rw [List.filter_append, List.map_append]
      by_cases htopic : topic = m.1
      · rw [htopic, Function.update_self, if_pos hmem, List.filter_singleton,
          decide_eq_true rfl]
        rfl
      · rw [Function.update_of_ne htopic, h.published, List.filter_singleton,
          decide_eq_false (Ne.symm htopic)]
        exact (congrArg (fun l => if topic ∈ topics then some l else none)
          (List.append_nil _)).symm
    · rw [List.countP_append, List.countP_singleton, if_pos (decide_eq_true hmem), ← h.emitted_eq]
    · rw [List.countP_append, List.countP_singleton,
        if_neg (fun hd => (of_decide_eq_true hd : m.1 ∉ topics) hmem), ← h.dropped_eq]
      rfl
  · rw [if_neg hmem] at hpub
    rw [hpub]
    refine ⟨fun topic => ?_, ?_, ?_⟩
    · show s.registry.publishers topic = _
      rw [h.published, List.filter_append, List.map_append]
      by_cases hin : topic ∈ topics
      · have hne : m.1 ≠ topic := fun heq => hmem (heq ▸ hin)
        rw [if_pos hin, if_pos hin, List.filter_singleton, decide_eq_false hne]
        exact congrArg some (List.append_nil _).symm
      · rw [if_neg hin, if_neg hin]
    · rw [List.countP_append, List.countP_singleton,
        if_neg (fun hd => hmem (of_decide_eq_true hd)), ← h.emitted_eq]
      rfl
    · rw [List.countP_append, List.countP_singleton, if_pos (decide_eq_true hmem), ← h.dropped_eq]

/-- **A sink holds what it was given.** -/
theorem holds_emitAll (topics : List String) (msgs : List (String × M)) :
    Holds topics ((new (.ofTopics topics)).emitAll msgs) msgs := by
  induction msgs using List.reverseRecOn with
  | nil => exact holds_new topics
  | append_singleton msgs m ih =>
    unfold emitAll
    rw [List.foldl_concat]
    exact ih.emit m

end TopicSink

/-! ## Sinks -/

/-- A normalized event on its channel. -/
structure DomainTopicMessage where
  topic : String
  receivedAtUs : ℕ
  exchange : String
  payload : DomainEvent

/-- An entry of the output section. -/
inductive OutputSinkConfig where
  | channel
  | terminal
  | parquet (dir : String)
deriving DecidableEq, Repr

/-- **A sink of a data worker.** -/
inductive DataSink (P : Type) where
  /-- The raw channels. -/
  | channel (sink : TopicSink (TopicMessage (RawEvent P)))
  /-- The log; it counts. -/
  | terminal (events : ℕ)
  /-- The domain channels, with the name of the exchange. -/
  | domainChannel (exchange : String) (sink : TopicSink DomainTopicMessage)

/-- What a data worker is configured with. -/
structure DataWorkerConfig where
  exchange : String
  symbol : String
  datatypes : DataTypesSection
  output : List OutputSinkConfig
  frameworkIngest : Bool
  /-- The framework has an adapter of the exchange. -/
  registered : Bool
  /-- The data types it serves. -/
  supported : List DeclaredDatatype

namespace DataTypesSection

/-- The topics of the domain family: there are no liquidations among them. -/
def domainTopicNames (dt : DataTypesSection) (symbol : String) : List String :=
  topicIf dt.orderbook (Topic.orderbook dt.orderbookDepth symbol)
    ++ topicIf dt.trades (Topic.trade symbol)
    ++ topicIf dt.fundingRates (Topic.funding symbol)
    ++ topicIf dt.openInterest (Topic.openInterest symbol)

/-- The topic of a normalized event, if its data type is enabled. -/
def domainTopic (dt : DataTypesSection) (symbol : String) : DomainEvent → Option String
  | .book _ => if dt.orderbook then some (Topic.orderbook dt.orderbookDepth symbol) else none
  | .trade _ _ => if dt.trades then some (Topic.trade symbol) else none
  | .fundingRate _ => if dt.fundingRates then some (Topic.funding symbol) else none
  | .fundingSettlement _ => if dt.fundingRates then some (Topic.funding symbol) else none
  | .openInterest _ => if dt.openInterest then some (Topic.openInterest symbol) else none
  | .connectionGap _ => none

/-- **A normalized event goes to a topic that exists.** -/
theorem domainTopic_mem {dt : DataTypesSection} {symbol topic : String} {ev : DomainEvent}
    (h : dt.domainTopic symbol ev = some topic) : topic ∈ dt.domainTopicNames symbol := by
  have hif : ∀ {enabled : Bool} {name : String},
      (if enabled then some name else none) = some topic → topic ∈ topicIf enabled name := by
    intro enabled name hname
    cases enabled with
    | true => exact List.mem_singleton.mpr (Option.some.inj hname).symm
    | false => cases hname
  unfold domainTopicNames
  simp only [List.mem_append]
  cases ev with
  | book delta => exact .inl (.inl (.inl (hif h)))
  | trade trade sequence => exact .inl (.inl (.inr (hif h)))
  | fundingRate fr => exact .inl (.inr (hif h))
  | fundingSettlement fs => exact .inl (.inr (hif h))
  | openInterest oi => exact .inr (hif h)
  | connectionGap dropped => cases h

end DataTypesSection

namespace DataWorkerConfig

variable (P : Type)

/-- The sinks of some entries. A channel entry takes the registry, if there is one; a
Parquet entry cannot be served. -/
def buildSinks : Option (TopicChannels (TopicMessage (RawEvent P))) → List OutputSinkConfig →
    Except String (List (DataSink P))
  | _, [] => .ok []
  | some registry, .channel :: rest =>
    (buildSinks none rest).map (.channel (.new registry) :: ·)
  | none, .channel :: rest => buildSinks none rest
  | registry, .terminal :: rest => (buildSinks registry rest).map (.terminal 0 :: ·)
  | _, .parquet dir :: _ =>
    .error ("config declares a Parquet output sink (dir = " ++ dir ++ ") but no "
      ++ "SnapshotFlusher was provided — the data would be silently dropped. "
      ++ "Provide a flusher (e.g. \x60ParquetSnapshotFlusher\x60 from aetelier-io via "
      ++ "\x60MarketWorker::from_config_with_flusher\x60), build with the \x60parquet\x60 "
      ++ "feature, or remove the Parquet sink from the config.")

/-- The entry asks for channels. -/
def hasChannel (cfg : DataWorkerConfig) : Bool := cfg.output.any (· == .channel)

/-- The registry of the raw family is built for the legacy path only. -/
def rawRegistry (cfg : DataWorkerConfig) :
    Option (TopicChannels (TopicMessage (RawEvent P))) :=
  if cfg.hasChannel && !cfg.frameworkIngest then
    some (.ofTopics (cfg.datatypes.wssTopicNames cfg.symbol))
  else none

/-- The entries that are served by the raw family. -/
def rawOutput (cfg : DataWorkerConfig) : List OutputSinkConfig :=
  if cfg.frameworkIngest then cfg.output.filter (· != .channel) else cfg.output

/-- The sink of the domain family, on the framework path. -/
def domainSinks (cfg : DataWorkerConfig) : List (DataSink P) :=
  if cfg.frameworkIngest && cfg.hasChannel then
    [.domainChannel cfg.exchange
      (.new (.ofTopics (cfg.datatypes.domainTopicNames cfg.symbol)))]
  else []

/-- **The sinks of a worker.** -/
def sinks (cfg : DataWorkerConfig) : Except String (List (DataSink P)) :=
  (buildSinks P (cfg.rawRegistry P) cfg.rawOutput).map (· ++ cfg.domainSinks P)

/-- The worker takes the framework path. -/
def useFrameworkPath (cfg : DataWorkerConfig) : Bool :=
  cfg.frameworkIngest && cfg.registered &&
    !((cfg.datatypes.liquidations && !decide (.liquidations ∈ cfg.supported))
      || (cfg.datatypes.fundingRates && !decide (.fundingRates ∈ cfg.supported))
      || (cfg.datatypes.openInterest && !decide (.openInterest ∈ cfg.supported)))

end DataWorkerConfig

/-- The exchange an event is of. -/
def ExchangeEventKind.exchange : ExchangeEventKind → String
  | .bybit _ => "bybit"
  | .coinbase _ => "coinbase"
  | .kraken _ => "kraken"
  | .binance _ => "binance"
  | .okx _ => "okx"
  | .gateio _ => "gateio"

namespace DataSink

variable {P : Type}

/-- A raw event. The channels stamp it with the exchange it is of. -/
def emitRaw (topic : String) (event : RawEvent P) (receivedAtUs : ℕ) : DataSink P → DataSink P
  | .channel sink =>
    .channel (sink.emit topic
      { topic := topic
        receivedAtUs := receivedAtUs
        exchange := event.kind.exchange
        payload := event })
  | .terminal events => .terminal (events + 1)
  | .domainChannel exchange sink => .domainChannel exchange sink

/-- A normalized event. -/
def emitDomain (topic : String) (ev : DomainEvent) (receivedAtUs : ℕ) : DataSink P → DataSink P
  | .channel sink => .channel sink
  | .terminal events => .terminal events
  | .domainChannel exchange sink =>
    .domainChannel exchange (sink.emit topic ⟨topic, receivedAtUs, exchange, ev⟩)

end DataSink

/-! ## The framework path -/

/-- A command to a worker. -/
inductive WorkerCommand where
  | pause
  | resume
  | stop
  | restart
deriving DecidableEq, Repr

/-- Where the worker is. -/
inductive DataWorkerPhase where
  /-- It takes events of its adapter. -/
  | streaming
  /-- It waits for the adapter to end. -/
  | joining
  /-- It waits to start another. -/
  | backingOff
  | ended
deriving DecidableEq, Repr

/-- **The worker on the framework path.** -/
structure DataWorker (P : Type) where
  phase : DataWorkerPhase
  sinks : List (DataSink P)
  paused : Bool
  stopped : Bool
  connectionState : ConnectionState
  totalEvents : ℕ
  reconnects : ℕ

/-- What reaches it. -/
inductive DataWorkerInput where
  | event (ev : DomainEvent) (nowUs : ℕ)
  /-- The channel of the adapter is closed. -/
  | streamEnd
  | command (c : WorkerCommand)
  | shutdown
  | statusTick
  /-- The adapter has ended. -/
  | joined (exit : TaskExit) (shutdown : Bool)
  /-- The wait is over. -/
  | waitOver (shutdown : Bool)

/-- What it does. -/
inductive DataWorkerEffect where
  /-- Start an adapter. -/
  | spawn
  | gap (dropped : ℕ)
  /-- Publish the status. -/
  | status (state : ConnectionState) (totalEvents reconnects : ℕ)
  | backoff (ms : ℕ)
deriving DecidableEq, Repr

/-- The wait before a reconnection. -/
def dataWorkerBackoffMs (reconnects : ℕ) : ℕ := min (250 * 2 ^ min reconnects 5) 8000

namespace DataWorker

variable {P : Type} (cfg : DataWorkerConfig)

/-- Start an adapter, unless the worker is to end. -/
def head (w : DataWorker P) (shutdown : Bool) : DataWorker P × List DataWorkerEffect :=
  if w.stopped || shutdown then ({ w with phase := .ended }, [])
  else
    ({ w with
        phase := .streaming
        connectionState := match w.connectionState with
          | .reconnecting attempt => .reconnecting attempt
          | _ => .connecting },
      [.spawn])

/-- A worker that is run with these sinks. -/
def start (sinks : List (DataSink P)) (shutdown : Bool) : DataWorker P × List DataWorkerEffect :=
  head
    { phase := .backingOff
      sinks := sinks
      paused := false
      stopped := false
      connectionState := .connecting
      totalEvents := 0
      reconnects := 0 }
    shutdown

/-- Publish an event on its topic. -/
def publish (sinks : List (DataSink P)) (ev : DomainEvent) (nowUs : ℕ) : List (DataSink P) :=
  match cfg.datatypes.domainTopic cfg.symbol ev with
  | none => sinks
  | some topic => sinks.map (DataSink.emitDomain topic ev nowUs)

/-- An event of the adapter. A gap cannot be repaired: the worker waits for the
adapter to end. -/
def onEvent (w : DataWorker P) (ev : DomainEvent) (nowUs : ℕ) :
    DataWorker P × List DataWorkerEffect :=
  match ev with
  | .connectionGap dropped => ({ w with phase := .joining }, [.gap dropped])
  | ev =>
    ({ w with
        totalEvents := w.totalEvents + 1
        connectionState := .streaming
        sinks := if w.paused then w.sinks else publish cfg w.sinks ev nowUs }, [])

def onCommand (w : DataWorker P) : WorkerCommand → DataWorker P
  | .pause => { w with paused := true, connectionState := .paused }
  | .resume => { w with paused := false, connectionState := .streaming }
  | .stop => { w with stopped := true, phase := .joining }
  | .restart => { w with stopped := true, phase := .joining }

/-- The adapter has ended. -/
def onJoined (w : DataWorker P) (exit : TaskExit) (shutdown : Bool) :
    DataWorker P × List DataWorkerEffect :=
  if exit = .exhausted then ({ w with phase := .ended }, [])
  else if w.stopped || shutdown then ({ w with phase := .ended }, [])
  else
    ({ w with
        phase := .backingOff
        reconnects := w.reconnects + 1
        connectionState := .reconnecting (w.reconnects + 1) },
      [.backoff (dataWorkerBackoffMs (w.reconnects + 1))])

/-- **One turn of the worker.** -/
def step (w : DataWorker P) (i : DataWorkerInput) : DataWorker P × List DataWorkerEffect :=
  match w.phase, i with
  | .streaming, .event ev nowUs => w.onEvent cfg ev nowUs
  | .streaming, .streamEnd => ({ w with phase := .joining }, [])
  | .streaming, .command c => (w.onCommand c, [])
  | .streaming, .shutdown => ({ w with stopped := true, phase := .joining }, [])
  | .streaming, .statusTick => (w, [.status w.connectionState w.totalEvents w.reconnects])
  | .joining, .joined exit shutdown => w.onJoined exit shutdown
  | .backingOff, .waitOver shutdown => w.head shutdown
  | _, _ => (w, [])

/-- The worker as a machine. -/
def machine : Machine (DataWorker P) DataWorkerInput DataWorkerEffect := ⟨step cfg⟩

end DataWorker

/-! ## What the framework path publishes -/

namespace DataWorkerConfig

variable {P : Type}

/-- The sinks that are built of the entries are new, and the raw channels among them are
those of the registry. -/
theorem mem_buildSinks {registry : Option (TopicChannels (TopicMessage (RawEvent P)))}
    {entries : List OutputSinkConfig} {sinks : List (DataSink P)}
    (h : buildSinks P registry entries = .ok sinks) {s : DataSink P} (hs : s ∈ sinks) :
    s = .terminal 0 ∨ ∃ r, registry = some r ∧ s = .channel (.new r) := by
  induction entries generalizing registry sinks with
  | nil =>
    unfold buildSinks at h
    obtain rfl := Except.ok.inj h
    exact absurd hs List.not_mem_nil
  | cons entry rest ih =>
    cases entry with
    | channel =>
      cases registry with
      | none => exact ih h hs
      | some r =>
        unfold buildSinks at h
        cases hrest : buildSinks P none rest with
        | error e =>
          rw [hrest] at h
          cases h
        | ok others =>
          rw [hrest] at h
          obtain rfl := Except.ok.inj h
          rcases List.mem_cons.mp hs with rfl | hs
          · exact .inr ⟨r, rfl, rfl⟩
          · rcases ih hrest hs with hterminal | ⟨r', hr', -⟩
            · exact .inl hterminal
            · cases hr'
    | terminal =>
      unfold buildSinks at h
      cases hrest : buildSinks P registry rest with
      | error e =>
        rw [hrest] at h
        cases h
      | ok others =>
        rw [hrest] at h
        obtain rfl := Except.ok.inj h
        rcases List.mem_cons.mp hs with rfl | hs
        · exact .inl rfl
        · exact ih hrest hs
    | parquet dir =>
      unfold buildSinks at h
      cases h

/-- **A worker has the channels of one family.** -/
theorem mem_sinks {cfg : DataWorkerConfig} {sinks : List (DataSink P)}
    (h : cfg.sinks P = .ok sinks) {s : DataSink P} (hs : s ∈ sinks) :
    s = .terminal 0
      ∨ cfg.frameworkIngest = false
        ∧ s = .channel (.new (.ofTopics (cfg.datatypes.wssTopicNames cfg.symbol)))
      ∨ cfg.frameworkIngest = true ∧ s = .domainChannel cfg.exchange
        (.new (.ofTopics (cfg.datatypes.domainTopicNames cfg.symbol))) := by
  unfold DataWorkerConfig.sinks at h
  cases hbuilt : buildSinks P (cfg.rawRegistry P) cfg.rawOutput with
  | error e =>
    rw [hbuilt] at h
    cases h
  | ok built =>
    rw [hbuilt] at h
    obtain rfl := Except.ok.inj h
    rcases List.mem_append.mp hs with hs | hs
    · rcases mem_buildSinks hbuilt hs with hterminal | ⟨r, hr, rfl⟩
      · exact .inl hterminal
      · unfold rawRegistry at hr
        split at hr
        · next hraw =>
          obtain rfl := Option.some.inj hr
          rw [Bool.and_eq_true, Bool.not_eq_true'] at hraw
          exact .inr (.inl ⟨hraw.2, rfl⟩)
        · cases hr
    · unfold domainSinks at hs
      split at hs
      · next hdomain =>
        rw [Bool.and_eq_true] at hdomain
        exact .inr (.inr ⟨hdomain.1, List.mem_singleton.mp hs⟩)
      · exact absurd hs List.not_mem_nil

/-- **The channels of the domain family are there**, if a channel is asked for. -/
theorem mem_domainSink {cfg : DataWorkerConfig} {sinks : List (DataSink P)}
    (h : cfg.sinks P = .ok sinks) (hdomain : cfg.frameworkIngest = true)
    (hchannel : cfg.hasChannel = true) :
    .domainChannel cfg.exchange (.new (.ofTopics (cfg.datatypes.domainTopicNames cfg.symbol)))
      ∈ sinks := by
  unfold DataWorkerConfig.sinks at h
  cases hbuilt : buildSinks P (cfg.rawRegistry P) cfg.rawOutput with
  | error e =>
    rw [hbuilt] at h
    cases h
  | ok built =>
    rw [hbuilt] at h
    obtain rfl := Except.ok.inj h
    refine List.mem_append_right _ ?_
    unfold domainSinks
    rw [hdomain, hchannel]
    exact List.mem_singleton.mpr rfl

/-- An entry that asks for channels gets those of the registry. -/
theorem mem_buildSinks_of_channel {r : TopicChannels (TopicMessage (RawEvent P))}
    {entries : List OutputSinkConfig} {sinks : List (DataSink P)}
    (h : buildSinks P (some r) entries = .ok sinks) (hchannel : .channel ∈ entries) :
    .channel (.new r) ∈ sinks := by
  induction entries generalizing sinks with
  | nil => exact absurd hchannel List.not_mem_nil
  | cons entry rest ih =>
    cases entry with
    | channel =>
      unfold buildSinks at h
      cases hrest : buildSinks P none rest with
      | error e =>
        rw [hrest] at h
        cases h
      | ok others =>
        rw [hrest] at h
        obtain rfl := Except.ok.inj h
        exact List.mem_cons_self
    | terminal =>
      unfold buildSinks at h
      cases hrest : buildSinks P (some r) rest with
      | error e =>
        rw [hrest] at h
        cases h
      | ok others =>
        rw [hrest] at h
        obtain rfl := Except.ok.inj h
        refine List.mem_cons_of_mem _ (ih hrest ?_)
        rcases List.mem_cons.mp hchannel with heq | hmem
        · cases heq
        · exact hmem
    | parquet dir =>
      unfold buildSinks at h
      cases h

/-- **The channels of the raw family are there**, if a channel is asked for. -/
theorem mem_rawSink {cfg : DataWorkerConfig} {sinks : List (DataSink P)}
    (h : cfg.sinks P = .ok sinks) (hraw : cfg.frameworkIngest = false)
    (hchannel : cfg.hasChannel = true) :
    .channel (.new (.ofTopics (cfg.datatypes.wssTopicNames cfg.symbol))) ∈ sinks := by
  have hregistry : cfg.rawRegistry P
      = some (.ofTopics (cfg.datatypes.wssTopicNames cfg.symbol)) := by
    unfold rawRegistry
    rw [hraw, hchannel]
    rfl
  have houtput : cfg.rawOutput = cfg.output := by
    unfold rawOutput
    rw [hraw, if_neg Bool.false_ne_true]
  have hmem : .channel ∈ cfg.output := by
    obtain ⟨entry, hentry, heq⟩ := List.any_eq_true.mp hchannel
    rw [← eq_of_beq heq]
    exact hentry
  unfold DataWorkerConfig.sinks at h
  rw [hregistry, houtput] at h
  cases hbuilt : buildSinks P (some (.ofTopics (cfg.datatypes.wssTopicNames cfg.symbol)))
      cfg.output with
  | error e =>
    rw [hbuilt] at h
    cases h
  | ok built =>
    rw [hbuilt] at h
    obtain rfl := Except.ok.inj h
    exact List.mem_append_left _ (mem_buildSinks_of_channel hbuilt hmem)

theorem frameworkIngest_of_useFrameworkPath {cfg : DataWorkerConfig}
    (h : cfg.useFrameworkPath = true) : cfg.frameworkIngest = true := by
  unfold useFrameworkPath at h
  rw [Bool.and_eq_true, Bool.and_eq_true] at h
  exact h.1.1

/-- **A worker falls back** if the framework does not serve its exchange, or not all it is
asked for. -/
theorem unserved_of_fallsBack {cfg : DataWorkerConfig} (hframework : cfg.frameworkIngest = true)
    (h : cfg.useFrameworkPath = false) :
    ¬ (cfg.registered = true ∧ ∀ d, (d = .liquidations ∧ cfg.datatypes.liquidations = true
      ∨ d = .fundingRates ∧ cfg.datatypes.fundingRates = true
      ∨ d = .openInterest ∧ cfg.datatypes.openInterest = true) → d ∈ cfg.supported) := by
  rintro ⟨hregistered, hserved⟩
  unfold useFrameworkPath at h
  rw [hframework, hregistered, Bool.and_self, Bool.true_and, Bool.not_eq_false',
    Bool.or_eq_true, Bool.or_eq_true, Bool.and_eq_true, Bool.and_eq_true, Bool.and_eq_true] at h
  have hnot : ∀ {d : DeclaredDatatype}, (!decide (d ∈ cfg.supported)) = true →
      d ∉ cfg.supported := by
    intro d hd
    rw [Bool.not_eq_true'] at hd
    exact of_decide_eq_false hd
  rcases h with (⟨hon, hoff⟩ | ⟨hon, hoff⟩) | ⟨hon, hoff⟩
  · exact hnot hoff (hserved _ (.inl ⟨rfl, hon⟩))
  · exact hnot hoff (hserved _ (.inr (.inl ⟨rfl, hon⟩)))
  · exact hnot hoff (hserved _ (.inr (.inr ⟨rfl, hon⟩)))

end DataWorkerConfig

namespace DataSink

variable {P : Type}

/-- The messages a domain sink makes of events on topics. -/
def domainMessages (exchange : String) (emissions : List (String × DomainEvent × ℕ)) :
    List (String × DomainTopicMessage) :=
  emissions.map (fun e => (e.1, ⟨e.1, e.2.2, exchange, e.2.1⟩))

/-- A sink after events on topics. -/
def afterDomain (s : DataSink P) (emissions : List (String × DomainEvent × ℕ)) : DataSink P :=
  emissions.foldl (fun s e => s.emitDomain e.1 e.2.1 e.2.2) s

theorem afterDomain_concat (s : DataSink P) (emissions : List (String × DomainEvent × ℕ))
    (e : String × DomainEvent × ℕ) :
    s.afterDomain (emissions ++ [e]) = (s.afterDomain emissions).emitDomain e.1 e.2.1 e.2.2 :=
  List.foldl_concat _ _ _ _

theorem afterDomain_domainChannel (exchange : String) (sink : TopicSink DomainTopicMessage)
    (emissions : List (String × DomainEvent × ℕ)) :
    (domainChannel exchange sink : DataSink P).afterDomain emissions
      = .domainChannel exchange (sink.emitAll (domainMessages exchange emissions)) := by
  induction emissions generalizing sink with
  | nil => rfl
  | cons e emissions ih => exact ih _

theorem afterDomain_terminal (events : ℕ) (emissions : List (String × DomainEvent × ℕ)) :
    (terminal events : DataSink P).afterDomain emissions = .terminal events := by
  induction emissions with
  | nil => rfl
  | cons e emissions ih => exact ih

end DataSink

namespace DataWorker

variable {P : Type} {cfg : DataWorkerConfig}

/-- The event a turn takes. -/
def taken (w : DataWorker P) (i : DataWorkerInput) : Option DomainEvent :=
  match w.phase, i with
  | .streaming, .event (.connectionGap _) _ => none
  | .streaming, .event ev _ => some ev
  | _, _ => none

variable (cfg) in
/-- What a turn publishes, and on which topic. -/
def emission (w : DataWorker P) (i : DataWorkerInput) : Option (String × DomainEvent × ℕ) :=
  match w.phase, i with
  | .streaming, .event ev nowUs =>
    if w.paused then none
    else (cfg.datatypes.domainTopic cfg.symbol ev).map (fun topic => (topic, ev, nowUs))
  | _, _ => none

/-- The wait of an effect. -/
def backoff? : DataWorkerEffect → Option ℕ
  | .backoff ms => some ms
  | _ => none

/-- The waits of so many reconnections. -/
def backoffsUpTo (reconnects : ℕ) : List ℕ :=
  (List.range reconnects).map (fun n => dataWorkerBackoffMs (n + 1))

/-- What a worker has done since it had these sinks. -/
structure Accounts (before : List (DataSink P)) (w : DataWorker P) (took : List DomainEvent)
    (emissions : List (String × DomainEvent × ℕ)) (effects : List DataWorkerEffect) : Prop where
  sinks_eq : w.sinks = before.map (fun s => s.afterDomain emissions)
  total_eq : w.totalEvents = took.length
  backoffs_eq : effects.filterMap backoff? = backoffsUpTo w.reconnects

/-- A turn that takes no event and asks for no wait. -/
theorem Accounts.quiet {before : List (DataSink P)} {w w' : DataWorker P}
    {took : List DomainEvent} {emissions : List (String × DomainEvent × ℕ)}
    {effects more : List DataWorkerEffect} (h : Accounts before w took emissions effects)
    (hsinks : w'.sinks = w.sinks) (htotal : w'.totalEvents = w.totalEvents)
    (hreconnects : w'.reconnects = w.reconnects) (hmore : more.filterMap backoff? = []) :
    Accounts before w' (took ++ []) (emissions ++ []) (effects ++ more) := by
  rw [List.append_nil, List.append_nil]
  refine ⟨hsinks.trans h.sinks_eq, htotal.trans h.total_eq, ?_⟩
  rw [List.filterMap_append, hmore, List.append_nil, hreconnects]
  exact h.backoffs_eq

theorem Accounts.head {before : List (DataSink P)} {w : DataWorker P} {took : List DomainEvent}
    {emissions : List (String × DomainEvent × ℕ)} {effects : List DataWorkerEffect}
    (h : Accounts before w took emissions effects) (shutdown : Bool) :
    Accounts before (w.head shutdown).1 (took ++ []) (emissions ++ [])
      (effects ++ (w.head shutdown).2) := by
  unfold DataWorker.head
  split <;> exact h.quiet rfl rfl rfl rfl

/-- An event that is taken. -/
theorem Accounts.event {before : List (DataSink P)} {w w' : DataWorker P}
    {took : List DomainEvent} {emissions : List (String × DomainEvent × ℕ)}
    {effects : List DataWorkerEffect} (h : Accounts before w took emissions effects)
    {ev : DomainEvent} {nowUs : ℕ}
    (hsinks : w'.sinks = if w.paused then w.sinks else publish cfg w.sinks ev nowUs)
    (htotal : w'.totalEvents = w.totalEvents + 1) (hreconnects : w'.reconnects = w.reconnects) :
    Accounts before w' (took ++ [ev])
      (emissions ++ (if w.paused then none
        else (cfg.datatypes.domainTopic cfg.symbol ev).map
          (fun topic => (topic, ev, nowUs))).toList)
      (effects ++ []) := by
  refine ⟨?_, ?_, ?_⟩
  · rw [hsinks, h.sinks_eq]
    cases w.paused with
    | true => exact (congrArg (fun l => before.map (fun s => s.afterDomain l))
        (List.append_nil emissions)).symm
    | false =>
      rw [if_neg Bool.false_ne_true, if_neg Bool.false_ne_true]
      unfold publish
      cases cfg.datatypes.domainTopic cfg.symbol ev with
      | none => exact (congrArg (fun l => before.map (fun s => s.afterDomain l))
          (List.append_nil emissions)).symm
      | some topic =>
        show (before.map _).map _ = _
        rw [List.map_map]
        refine List.map_congr_left (fun s _ => ?_)
        exact (DataSink.afterDomain_concat s emissions (topic, ev, nowUs)).symm
  · rw [htotal, h.total_eq, List.length_append]
    rfl
  · rw [List.append_nil, hreconnects]
    exact h.backoffs_eq

variable (cfg) in
/-- **One turn of the worker** keeps its accounts. -/
theorem Accounts.step {before : List (DataSink P)} {w : DataWorker P} {took : List DomainEvent}
    {emissions : List (String × DomainEvent × ℕ)} {effects : List DataWorkerEffect}
    (h : Accounts before w took emissions effects) (i : DataWorkerInput) :
    Accounts before (w.step cfg i).1 (took ++ (w.taken i).toList)
      (emissions ++ (w.emission cfg i).toList) (effects ++ (w.step cfg i).2) := by
  unfold DataWorker.step DataWorker.taken emission
  cases hphase : w.phase with
  | streaming =>
    cases i with
    | event ev nowUs =>
      cases ev with
      | connectionGap dropped =>
        have hnone : (if w.paused then none else (cfg.datatypes.domainTopic cfg.symbol
            (.connectionGap dropped)).map (fun topic =>
              (topic, DomainEvent.connectionGap dropped, nowUs))) = none := ite_self none
        dsimp only
        rw [hnone]
        exact h.quiet rfl rfl rfl rfl
      | _ => exact h.event rfl rfl rfl
    | command c =>
      cases c <;> exact h.quiet rfl rfl rfl rfl
    | _ => exact h.quiet rfl rfl rfl rfl
  | joining =>
    cases i with
    | joined exit shutdown =>
      dsimp only
      unfold onJoined
      split
      · exact h.quiet rfl rfl rfl rfl
      · split
        · exact h.quiet rfl rfl rfl rfl
        · rw [Option.toList_none, Option.toList_none, List.append_nil, List.append_nil]
          refine ⟨h.sinks_eq, h.total_eq, ?_⟩
          rw [List.filterMap_append, h.backoffs_eq]
          unfold backoffsUpTo
          rw [List.range_succ, List.map_append]
          rfl
    | _ => exact h.quiet rfl rfl rfl rfl
  | backingOff =>
    cases i with
    | waitOver shutdown => exact h.head shutdown
    | _ => exact h.quiet rfl rfl rfl rfl
  | ended => exact h.quiet rfl rfl rfl rfl

theorem accounts_start (sinks : List (DataSink P)) (shutdown : Bool) :
    Accounts sinks (start sinks shutdown).1 [] [] (start sinks shutdown).2 := by
  have hbefore : Accounts sinks
      { phase := .backingOff
        sinks := sinks
        paused := false
        stopped := false
        connectionState := .connecting
        totalEvents := 0
        reconnects := 0 } [] [] [] := ⟨(List.map_id _).symm, rfl, rfl⟩
  exact hbefore.head shutdown

variable (cfg) in
theorem accounts_run (sinks : List (DataSink P)) (shutdown : Bool) (is : List DataWorkerInput) :
    Accounts sinks ((machine cfg).run (start sinks shutdown).1 is).1
      ((machine cfg).collect taken (start sinks shutdown).1 is)
      ((machine cfg).collect (emission cfg) (start sinks shutdown).1 is)
      ((start sinks shutdown).2 ++ ((machine cfg).run (start sinks shutdown).1 is).2) := by
  induction is using List.reverseRecOn with
  | nil =>
    rw [Machine.run_nil, List.append_nil]
    exact accounts_start sinks shutdown
  | append_singleton is i ih =>
    have hone := Accounts.step cfg ih i
    rw [Machine.collect_append_singleton, Machine.collect_append_singleton, Machine.run_append,
      ← List.append_assoc]
    show Accounts sinks (((machine cfg).run (start sinks shutdown).1 is).1.step cfg i).1 _ _
      (_ ++ ((((machine cfg).run (start sinks shutdown).1 is).1.step cfg i).2 ++ []))
    rw [List.append_nil]
    exact hone

/-- What is published goes to a topic that exists. -/
theorem topic_of_mem_emissions {w : DataWorker P} {is : List DataWorkerInput}
    {e : String × DomainEvent × ℕ} (h : e ∈ (machine cfg).collect (emission cfg) w is) :
    e.1 ∈ cfg.datatypes.domainTopicNames cfg.symbol := by
  have hone : ∀ (w : DataWorker P) (i : DataWorkerInput), e ∈ (w.emission cfg i).toList →
      e.1 ∈ cfg.datatypes.domainTopicNames cfg.symbol := by
    intro w i he
    rw [Option.mem_toList] at he
    unfold emission at he
    split at he
    · split at he
      · cases he
      · obtain ⟨topic, htopic, rfl⟩ := Option.map_eq_some_iff.mp he
        exact DataTypesSection.domainTopic_mem htopic
    · cases he
  induction is generalizing w with
  | nil => exact absurd h List.not_mem_nil
  | cons i is ih =>
    rcases List.mem_append.mp h with h | h
    · exact hone w i h
    · exact ih h

/-- **The framework path publishes what it receives.** After any run of a worker that takes
the framework path, with the sinks of its configuration: each sink is there and has been
handed what was to be published, and only that. If channels are asked for, the domain sink
has published, on the channel of each topic, the events of that topic that came while the
worker was not paused, in order, stamped with its exchange, and has dropped none; the only
other sinks are logs, which have taken none. The total counts the events, those during a
pause too, and the waits are those of the schedule. -/
theorem domain_published {sinks : List (DataSink P)} (hsinks : cfg.sinks P = .ok sinks)
    (hpath : cfg.useFrameworkPath = true) (shutdown : Bool) (is : List DataWorkerInput) :
    ((machine cfg).run (start sinks shutdown).1 is).1.sinks
        = sinks.map (fun s => s.afterDomain
          ((machine cfg).collect (emission cfg) (start sinks shutdown).1 is))
      ∧ (cfg.hasChannel = true → ∃ sink,
        .domainChannel cfg.exchange sink ∈ ((machine cfg).run (start sinks shutdown).1 is).1.sinks)
      ∧ (∀ s ∈ ((machine cfg).run (start sinks shutdown).1 is).1.sinks,
        s = .terminal 0
          ∨ ∃ sink, s = .domainChannel cfg.exchange sink
            ∧ sink.Holds (cfg.datatypes.domainTopicNames cfg.symbol)
              (DataSink.domainMessages cfg.exchange
                ((machine cfg).collect (emission cfg) (start sinks shutdown).1 is))
            ∧ sink.eventsDropped = 0)
      ∧ ((machine cfg).run (start sinks shutdown).1 is).1.totalEvents
        = ((machine cfg).collect taken (start sinks shutdown).1 is).length
      ∧ ((start sinks shutdown).2
          ++ ((machine cfg).run (start sinks shutdown).1 is).2).filterMap backoff?
        = backoffsUpTo ((machine cfg).run (start sinks shutdown).1 is).1.reconnects := by
  have hacc := accounts_run cfg sinks shutdown is
  have hframework := DataWorkerConfig.frameworkIngest_of_useFrameworkPath hpath
  refine ⟨hacc.sinks_eq, fun hchannel => ?_, fun s hs => ?_, hacc.total_eq, hacc.backoffs_eq⟩
  · rw [hacc.sinks_eq]
    exact ⟨_, List.mem_map.mpr ⟨_, DataWorkerConfig.mem_domainSink hsinks hframework hchannel,
      DataSink.afterDomain_domainChannel _ _ _⟩⟩
  · rw [hacc.sinks_eq] at hs
    obtain ⟨s, hbefore, rfl⟩ := List.mem_map.mp hs
    rcases DataWorkerConfig.mem_sinks hsinks hbefore with rfl | ⟨hraw, -⟩ | ⟨-, rfl⟩
    · exact .inl (DataSink.afterDomain_terminal _ _)
    · rw [hframework] at hraw
      cases hraw
    · have hholds := TopicSink.holds_emitAll (cfg.datatypes.domainTopicNames cfg.symbol)
        (DataSink.domainMessages cfg.exchange
          ((machine cfg).collect (emission cfg) (start sinks shutdown).1 is))
      refine .inr ⟨_, DataSink.afterDomain_domainChannel _ _ _, hholds, ?_⟩
      rw [hholds.dropped_eq, List.countP_eq_zero]
      -- every topic of an event is one of the channels
      intro m hm hnot
      obtain ⟨e, he, rfl⟩ := List.mem_map.mp hm
      exact of_decide_eq_true hnot (topic_of_mem_emissions he)

/-- A worker on the framework path, with books and trades on channels. -/
def bookAndTrades : DataWorkerConfig where
  exchange := "bybit"
  symbol := "BTCUSDT"
  datatypes := ⟨true, 50, true, false, false, false⟩
  output := [.channel]
  frameworkIngest := true
  registered := true
  supported := [.orderbook, .trades]

/-- The sink of its channels. -/
def bookAndTradesSink : DataSink Unit :=
  .domainChannel "bybit" (.new (.ofTopics (bookAndTrades.datatypes.domainTopicNames "BTCUSDT")))

/-- Two prints, the second during a pause. -/
def printAndPause : List DataWorkerInput :=
  [.event (.trade (FrameworkWorker.btcPrint "1") none) 1, .command .pause,
    .event (.trade (FrameworkWorker.btcPrint "2") none) 2]

theorem domain_published_bookAndTrades :
    (∃ sink, .domainChannel "bybit" sink
        ∈ ((machine bookAndTrades).run (start [bookAndTradesSink] false).1 printAndPause).1.sinks
      ∧ sink.registry.publishers "trade.all.BTCUSDT"
        = some [⟨"trade.all.BTCUSDT", 1, "bybit", .trade (FrameworkWorker.btcPrint "1") none⟩]
      ∧ sink.registry.publishers "orderbook.50.BTCUSDT" = some []
      ∧ sink.eventsDropped = 0)
    ∧ ((machine bookAndTrades).run (start [bookAndTradesSink] false).1
        printAndPause).1.totalEvents = 2 := by
  obtain ⟨-, hthere, hsinks, htotal, -⟩ :=
    @domain_published Unit bookAndTrades [bookAndTradesSink] rfl rfl false printAndPause
  obtain ⟨sink, hmem⟩ := hthere rfl
  refine ⟨⟨sink, hmem, ?_⟩, htotal⟩
  rcases hsinks _ hmem with hterminal | ⟨sink', heq, hholds, hdropped⟩
  · cases hterminal
  · cases heq
    exact ⟨hholds.published _, hholds.published _, hdropped⟩

end DataWorker

/-! ## The legacy path -/

/-- **The worker on the legacy path.** -/
structure RawDataWorker (P : Type) where
  /-- It has left its loop. -/
  isOver : Bool
  sinks : List (DataSink P)
  paused : Bool
  connectionState : ConnectionState
  totalEvents : ℕ

/-- What reaches it. -/
inductive RawDataWorkerInput (P : Type) where
  | message (msg : TopicMessage (RawEvent P))
  /-- The pipeline has ended. -/
  | pipelineEnd
  | command (c : WorkerCommand)
  | statusTick

namespace RawDataWorker

variable {P : Type}

/-- A worker that is run with these sinks. -/
def start (sinks : List (DataSink P)) : RawDataWorker P where
  isOver := false
  sinks := sinks
  paused := false
  connectionState := .connecting
  totalEvents := 0

/-- A message of the pipeline. -/
def onMessage (w : RawDataWorker P) (msg : TopicMessage (RawEvent P)) : RawDataWorker P :=
  { w with
    sinks := if w.paused then w.sinks
      else w.sinks.map (DataSink.emitRaw msg.topic msg.payload msg.receivedAtUs)
    totalEvents := w.totalEvents + 1
    connectionState := if w.connectionState = .connecting then .streaming else w.connectionState }

def onCommand (w : RawDataWorker P) : WorkerCommand → RawDataWorker P
  | .pause => { w with paused := true, connectionState := .paused }
  | .resume => { w with paused := false, connectionState := .streaming }
  | .stop => { w with isOver := true }
  | .restart => { w with isOver := true }

/-- **One turn of the worker.** -/
def step (w : RawDataWorker P) (i : RawDataWorkerInput P) :
    RawDataWorker P × List DataWorkerEffect :=
  if w.isOver then (w, [])
  else
    match i with
    | .message msg => (w.onMessage msg, [])
    | .pipelineEnd => ({ w with isOver := true }, [])
    | .command c => (w.onCommand c, [])
    | .statusTick => (w, [.status w.connectionState w.totalEvents 0])

/-- The worker as a machine. -/
def machine : Machine (RawDataWorker P) (RawDataWorkerInput P) DataWorkerEffect := ⟨step⟩

/-- The message a turn takes. -/
def taken (w : RawDataWorker P) (i : RawDataWorkerInput P) :
    Option (TopicMessage (RawEvent P)) :=
  match w.isOver, i with
  | false, .message msg => some msg
  | _, _ => none

/-- The message a turn hands to the sinks. -/
def handed (w : RawDataWorker P) (i : RawDataWorkerInput P) :
    Option (TopicMessage (RawEvent P)) :=
  if w.paused then none else w.taken i

end RawDataWorker

namespace DataSink

variable {P : Type}

/-- The messages a raw sink makes of those it is handed: each is stamped anew. -/
def rawMessages (msgs : List (TopicMessage (RawEvent P))) :
    List (String × TopicMessage (RawEvent P)) :=
  msgs.map (fun m => (m.topic, { m with exchange := m.payload.kind.exchange }))

/-- A sink after raw messages. -/
def afterRaw (s : DataSink P) (msgs : List (TopicMessage (RawEvent P))) : DataSink P :=
  msgs.foldl (fun s m => s.emitRaw m.topic m.payload m.receivedAtUs) s

theorem afterRaw_concat (s : DataSink P) (msgs : List (TopicMessage (RawEvent P)))
    (msg : TopicMessage (RawEvent P)) :
    s.afterRaw (msgs ++ [msg])
      = (s.afterRaw msgs).emitRaw msg.topic msg.payload msg.receivedAtUs :=
  List.foldl_concat _ _ _ _

theorem afterRaw_channel (sink : TopicSink (TopicMessage (RawEvent P)))
    (msgs : List (TopicMessage (RawEvent P))) :
    (channel sink).afterRaw msgs = .channel (sink.emitAll (rawMessages msgs)) := by
  induction msgs generalizing sink with
  | nil => rfl
  | cons msg msgs ih => exact ih _

theorem afterRaw_terminal (events : ℕ) (msgs : List (TopicMessage (RawEvent P))) :
    (terminal events).afterRaw msgs = .terminal (events + msgs.length) := by
  induction msgs generalizing events with
  | nil => rfl
  | cons msg msgs ih =>
    refine (ih (events + 1)).trans ?_
    rw [List.length_cons, Nat.add_assoc, Nat.add_comm 1]

theorem afterRaw_domainChannel (exchange : String) (sink : TopicSink DomainTopicMessage)
    (msgs : List (TopicMessage (RawEvent P))) :
    (domainChannel exchange sink).afterRaw msgs = .domainChannel exchange sink := by
  induction msgs with
  | nil => rfl
  | cons msg msgs ih => exact ih

end DataSink

namespace RawDataWorker

variable {P : Type}

/-- What a worker has done since it had these sinks. -/
structure Accounts (before : List (DataSink P)) (w : RawDataWorker P)
    (took handedOn : List (TopicMessage (RawEvent P))) : Prop where
  sinks_eq : w.sinks = before.map (fun s => s.afterRaw handedOn)
  total_eq : w.totalEvents = took.length

/-- **One turn of the worker** keeps its accounts. -/
theorem Accounts.step {before : List (DataSink P)} {w : RawDataWorker P}
    {took handedOn : List (TopicMessage (RawEvent P))} (h : Accounts before w took handedOn)
    (i : RawDataWorkerInput P) :
    Accounts before (w.step i).1 (took ++ (w.taken i).toList)
      (handedOn ++ (w.handed i).toList) := by
  have hquiet : ∀ {w' : RawDataWorker P}, w'.sinks = w.sinks → w'.totalEvents = w.totalEvents →
      w.taken i = none →
      Accounts before w' (took ++ (w.taken i).toList) (handedOn ++ (w.handed i).toList) := by
    intro w' hsinks htotal hnone
    unfold handed
    rw [hnone, ite_self, Option.toList_none, List.append_nil, List.append_nil]
    exact ⟨hsinks.trans h.sinks_eq, htotal.trans h.total_eq⟩
  unfold RawDataWorker.step
  cases hover : w.isOver with
  | true =>
    have hnone : w.taken i = none := by
      unfold taken
      rw [hover]
    exact hquiet rfl rfl hnone
  | false =>
    rw [if_neg Bool.false_ne_true]
    cases i with
    | message msg =>
      have htaken : w.taken (.message msg) = some msg := by
        unfold taken
        rw [hover]
      unfold handed
      rw [htaken]
      refine ⟨?_, ?_⟩
      · show (if w.paused then w.sinks
          else w.sinks.map (DataSink.emitRaw msg.topic msg.payload msg.receivedAtUs)) = _
        rw [h.sinks_eq]
        cases w.paused with
        | true => exact (congrArg (fun l => before.map (fun s => s.afterRaw l))
            (List.append_nil handedOn)).symm
        | false =>
          rw [if_neg Bool.false_ne_true, if_neg Bool.false_ne_true, List.map_map]
          refine List.map_congr_left (fun s _ => ?_)
          exact (DataSink.afterRaw_concat s handedOn msg).symm
      · rw [List.length_append, ← h.total_eq]
        rfl
    | command c =>
      have hnone : w.taken (.command c) = none := by
        unfold taken
        rw [hover]
      cases c <;> exact hquiet rfl rfl hnone
    | _ =>
      refine hquiet rfl rfl ?_
      unfold taken
      rw [hover]

theorem accounts_run (sinks : List (DataSink P)) (is : List (RawDataWorkerInput P)) :
    Accounts sinks (machine.run (start sinks) is).1 (machine.collect taken (start sinks) is)
      (machine.collect handed (start sinks) is) := by
  induction is using List.reverseRecOn with
  | nil => exact ⟨(List.map_id _).symm, rfl⟩
  | append_singleton is i ih =>
    rw [Machine.collect_append_singleton, Machine.collect_append_singleton,
      Machine.run_append_singleton]
    exact ih.step i

/-- **The legacy path publishes what it receives, or nothing at all.** After any run of a
worker that takes the legacy path, with the sinks of its configuration: each sink is there
and has been handed what was to be published, and only that. If channels are asked for, the
raw sink of a worker configured for this path has published, on the channel of each topic,
the messages of that topic that came while the worker was not paused, stamped with the
exchange they are of, and dropped those of other topics. But a worker that is configured for
the framework and falls back has no raw sink: the channels it is asked for are there, and
nothing is published on them. The total counts the messages either way. -/
theorem raw_published {cfg : DataWorkerConfig} {sinks : List (DataSink P)}
    (hsinks : cfg.sinks P = .ok sinks) (hpath : cfg.useFrameworkPath = false)
    (is : List (RawDataWorkerInput P)) :
    (machine.run (start sinks) is).1.sinks
        = sinks.map (fun s => s.afterRaw (machine.collect handed (start sinks) is))
      ∧ (cfg.hasChannel = true → cfg.frameworkIngest = false →
        ∃ sink, .channel sink ∈ (machine.run (start sinks) is).1.sinks)
      ∧ (cfg.hasChannel = true → cfg.frameworkIngest = true →
        (¬ (cfg.registered = true ∧ ∀ d, (d = .liquidations ∧ cfg.datatypes.liquidations = true
            ∨ d = .fundingRates ∧ cfg.datatypes.fundingRates = true
            ∨ d = .openInterest ∧ cfg.datatypes.openInterest = true) → d ∈ cfg.supported))
          ∧ .domainChannel cfg.exchange
              (.new (.ofTopics (cfg.datatypes.domainTopicNames cfg.symbol)))
            ∈ (machine.run (start sinks) is).1.sinks)
      ∧ (∀ s ∈ (machine.run (start sinks) is).1.sinks,
        s = .terminal (machine.collect handed (start sinks) is).length
          ∨ cfg.frameworkIngest = false ∧ (∃ sink, s = .channel sink
            ∧ sink.Holds (cfg.datatypes.wssTopicNames cfg.symbol)
              (DataSink.rawMessages (machine.collect handed (start sinks) is)))
          ∨ cfg.frameworkIngest = true ∧ s = .domainChannel cfg.exchange
            (.new (.ofTopics (cfg.datatypes.domainTopicNames cfg.symbol))))
      ∧ (machine.run (start sinks) is).1.totalEvents
        = (machine.collect taken (start sinks) is).length := by
  have hacc := accounts_run sinks is
  refine ⟨hacc.sinks_eq, fun hchannel hraw => ?_, fun hchannel hframework => ⟨?_, ?_⟩,
    fun s hs => ?_, hacc.total_eq⟩
  · rw [hacc.sinks_eq]
    exact ⟨_, List.mem_map.mpr ⟨_, DataWorkerConfig.mem_rawSink hsinks hraw hchannel,
      DataSink.afterRaw_channel _ _⟩⟩
  · exact DataWorkerConfig.unserved_of_fallsBack hframework hpath
  · rw [hacc.sinks_eq]
    exact List.mem_map.mpr ⟨_, DataWorkerConfig.mem_domainSink hsinks hframework hchannel,
      DataSink.afterRaw_domainChannel _ _ _⟩
  · rw [hacc.sinks_eq] at hs
    obtain ⟨s, hbefore, rfl⟩ := List.mem_map.mp hs
    rcases DataWorkerConfig.mem_sinks hsinks hbefore with rfl | ⟨hraw, rfl⟩ | ⟨hdomain, rfl⟩
    · refine .inl ?_
      rw [DataSink.afterRaw_terminal, Nat.zero_add]
    · exact .inr (.inl ⟨hraw, _, DataSink.afterRaw_channel _ _, TopicSink.holds_emitAll _ _⟩)
    · exact .inr (.inr ⟨hdomain, DataSink.afterRaw_domainChannel _ _ _⟩)

/-- The same worker on the legacy path. -/
def rawBookAndTrades : DataWorkerConfig :=
  { DataWorker.bookAndTrades with frameworkIngest := false }

/-- The same worker, asked for liquidations too, which its adapter does not serve. -/
def fallingBack : DataWorkerConfig :=
  { DataWorker.bookAndTrades with datatypes := ⟨true, 50, true, true, false, false⟩ }

/-- A print of another worker's exchange. -/
def strayPrint : TopicMessage (RawEvent Unit) where
  topic := "trade.all.BTCUSDT"
  receivedAtUs := 1
  exchange := "bybit-eu"
  payload := ⟨.bybit .tradeData, ()⟩

/-- The raw sink of the first. -/
def rawSink : DataSink Unit :=
  .channel (.new (.ofTopics (rawBookAndTrades.datatypes.wssTopicNames "BTCUSDT")))

/-- The domain sink of the second. -/
def unusedSink : DataSink Unit :=
  .domainChannel "bybit" (.new (.ofTopics (fallingBack.datatypes.domainTopicNames "BTCUSDT")))

theorem raw_published_rawBookAndTrades :
    ((∃ sink, .channel sink ∈ (machine.run (start [rawSink]) [.message strayPrint]).1.sinks
        ∧ sink.registry.publishers "trade.all.BTCUSDT"
          = some [⟨"trade.all.BTCUSDT", 1, "bybit", ⟨.bybit .tradeData, ()⟩⟩])
      ∧ (machine.run (start [rawSink]) [.message strayPrint]).1.totalEvents = 1)
    ∧ unusedSink ∈ (machine.run (start [unusedSink]) [.message strayPrint]).1.sinks
      ∧ (machine.run (start [unusedSink]) [.message strayPrint]).1.totalEvents = 1 := by
  obtain ⟨-, hthere, -, hsinks, htotal⟩ :=
    @raw_published Unit rawBookAndTrades [rawSink] rfl rfl [.message strayPrint]
  obtain ⟨-, -, hunused, -, htotal'⟩ :=
    @raw_published Unit fallingBack [unusedSink] rfl rfl [.message strayPrint]
  obtain ⟨sink, hmem⟩ := hthere rfl rfl
  refine ⟨⟨⟨sink, hmem, ?_⟩, htotal⟩, (hunused rfl rfl).2, htotal'⟩
  rcases hsinks _ hmem with hterminal | ⟨-, sink', heq, hholds⟩ | ⟨hframework, -⟩
  · cases hterminal
  · cases heq
    exact hholds.published _
  · cases hframework

end RawDataWorker
