import Aetelier.WssEvents
import Aetelier.Teardown

/-!
# The Binance book initializer

The stage between the Binance socket and the worker holds order book messages
back until the REST snapshot it asked for at its start has resolved, then
writes the snapshot, replays what it held less the updates the snapshot
covers, and from there on passes everything through. Its module documentation
promises validated deltas after the snapshot and a return to buffering when
the socket reconnects.

Neither is in the code: the first update id of a replayed message is read and
dropped, no message is compared with the one before it, a reconnect of the
core happens upstream on the same channel and the stage is told nothing of
it, and a snapshot that cannot be fetched opens the gate with no snapshot at
all. So the stage keeps a chain where it is fed one and makes none where it is
not: `BookInitializer.validated_iff` says exactly which inputs those are.
-/

/-- A message of a venue client. -/
abbrev ExchangeMessage := TopicMessage ExchangeEvent

/-- How the snapshot fetch ends. -/
inductive FetchResult where
  /-- The snapshot. -/
  | snapshot (snap : BinanceDepthSnapshot)
  /-- The request failed. -/
  | failed
  /-- The fetch task panicked. -/
  | panicked

/-- What happens to the stage. -/
inductive StageInput where
  /-- A message of the core. -/
  | received (msg : ExchangeMessage)
  /-- The core closed the channel. -/
  | closed
  /-- The snapshot fetch resolves, at a wall-clock time. -/
  | fetched (result : FetchResult) (nowUs : ℕ)
  /-- The shutdown flag was written. -/
  | shutdownChanged (value : Bool)
  /-- The core lost its socket and opened another one. Nothing is sent to
  the stage. -/
  | reconnected

namespace BookInitializer

/-- The last update id of a depth update. The source reads the first one as
well where it replays its buffer, and does not use it. -/
def extractLastUpdateId (msg : ExchangeMessage) : Option ℕ :=
  match msg.payload with
  | .binance (.depthUpdate upd) => some upd.lastUpdateId
  | _ => none

/-- The message that carries the snapshot. -/
def synthesizeSnapshotMsg (snapshot : BinanceDepthSnapshot) (topic : String) (nowUs : ℕ) :
    ExchangeMessage where
  topic := topic
  receivedAtUs := nowUs
  exchange := "binance"
  payload := .binance (.depthSnapshot snapshot)

/-- What the stage makes of the end of the fetch. -/
def resultOf (obTopic : String) (nowUs : ℕ) : FetchResult → SnapshotResult ExchangeMessage
  | .snapshot snap => .ok (synthesizeSnapshotMsg snap obTopic nowUs) snap.lastUpdateId
  | .failed => .failed
  | .panicked => .panicked

/-- The stage, with what it reads of a message. -/
def pipeline (obTopic : String) :
    EventPipeline ExchangeMessage (InitState ExchangeMessage) (SnapshotResult ExchangeMessage) :=
  .bookInitializer extractLastUpdateId obTopic

/-- One turn of the stage's loop: its state, none once the loop has ended, and
what it sends on. A receiver that is gone in the middle of a turn leaves the
first part of what the turn sends. -/
def turn (obTopic : String) :
    Option (InitState ExchangeMessage) → StageInput →
      Option (InitState ExchangeMessage) × List ExchangeMessage
  | none, _ => (none, [])
  | some s, .received msg =>
    (some ((pipeline obTopic).onMessage s msg).1, ((pipeline obTopic).onMessage s msg).2)
  | some _, .closed => (none, [])
  | some s, .fetched result nowUs =>
    match (pipeline obTopic).onResult s (resultOf obTopic nowUs result) with
    | some (s', msgs) => (some s', msgs)
    | none => (none, [])
  | some s, .shutdownChanged value => (if value then none else some s, [])
  | some s, .reconnected => (some s, [])

/-- The stage over a run. -/
def stage (obTopic : String) :
    Machine (Option (InitState ExchangeMessage)) StageInput ExchangeMessage := ⟨turn obTopic⟩

/-- What a new stage sends over a run. -/
def sent (obTopic : String) (inputs : List StageInput) : List ExchangeMessage :=
  ((stage obTopic).run (some (.buffering [])) inputs).2

/-! ## The chain a consumer needs -/

/-- Where a consumer of the order book topic stands. -/
inductive ChainState where
  /-- It has seen no snapshot. -/
  | unsynced
  /-- It has the snapshot with an id, and no update since. -/
  | bridging (snapId : ℕ)
  /-- It has an update with a last id. -/
  | chained (last : ℕ)
deriving DecidableEq, Repr

/-- An update continues what the consumer has. -/
def ChainState.Allows : ChainState → BinanceDepthUpdate → Prop
  | unsynced, _ => False
  | bridging s, upd => upd.firstUpdateId ≤ s + 1 ∧ s + 1 ≤ upd.lastUpdateId
  | chained last, upd => upd.firstUpdateId = last + 1

instance (m : ChainState) (upd : BinanceDepthUpdate) : Decidable (m.Allows upd) := by
  cases m <;> unfold ChainState.Allows <;> infer_instance

/-- The depth update a message on the order book topic carries. -/
def update? (obTopic : String) (msg : ExchangeMessage) : Option BinanceDepthUpdate :=
  match msg.payload with
  | .binance (.depthUpdate upd) => if msg.topic = obTopic then some upd else none
  | _ => none

/-- The snapshot a message on the order book topic carries. -/
def snapshot? (obTopic : String) (msg : ExchangeMessage) : Option BinanceDepthSnapshot :=
  match msg.payload with
  | .binance (.depthSnapshot snap) => if msg.topic = obTopic then some snap else none
  | _ => none

/-- **Validated deltas**: no update before a snapshot, the first one after a
snapshot bridges it, and every other one begins where the one before it
ended. -/
def chainMonitor (obTopic : String) : Monitor ChainState ExchangeMessage where
  next m msg :=
    match update? obTopic msg, snapshot? obTopic msg with
    | some upd, _ => .chained upd.lastUpdateId
    | none, some snap => .bridging snap.lastUpdateId
    | none, none => m
  ok m msg := ∀ upd ∈ update? obTopic msg, m.Allows upd

/-- The updates of a list of messages. -/
def obUpdates (obTopic : String) (msgs : List ExchangeMessage) : List BinanceDepthUpdate :=
  msgs.filterMap (update? obTopic)

theorem obUpdates_append (obTopic : String) (msgs msgs' : List ExchangeMessage) :
    obUpdates obTopic (msgs ++ msgs') = obUpdates obTopic msgs ++ obUpdates obTopic msgs' :=
  List.filterMap_append

theorem obUpdates_singleton (obTopic : String) (msg : ExchangeMessage) :
    obUpdates obTopic [msg] = (update? obTopic msg).toList := by
  unfold obUpdates
  rw [List.filterMap_cons]
  cases update? obTopic msg <;> rfl

/-- A message that carries neither leaves the consumer where it is. -/
theorem chainMonitor_other {obTopic : String} {msg : ExchangeMessage} {m : ChainState}
    (hupd : update? obTopic msg = none) (hsnap : snapshot? obTopic msg = none) :
    (chainMonitor obTopic).ok m msg ∧ (chainMonitor obTopic).next m msg = m := by
  constructor
  · intro upd h
    rw [hupd] at h
    cases h
  · unfold chainMonitor
    dsimp only
    rw [hupd, hsnap]

/-- A list of updates continues what the consumer has. -/
def ChainState.Follows (m : ChainState) : List BinanceDepthUpdate → Prop
  | [] => True
  | upd :: rest => m.Allows upd ∧ (ChainState.chained upd.lastUpdateId).Follows rest

/-- **A gapless list after a snapshot**: the first update bridges it, and the
updates are linked. -/
def ChainsFrom (snapId : ℕ) (upds : List BinanceDepthUpdate) : Prop :=
  (∀ upd ∈ upds.head?, upd.firstUpdateId ≤ snapId + 1 ∧ snapId + 1 ≤ upd.lastUpdateId) ∧
    upds.IsChain (fun a b => b.firstUpdateId = a.lastUpdateId + 1)

theorem ChainState.follows_unsynced (upds : List BinanceDepthUpdate) :
    ChainState.unsynced.Follows upds ↔ upds = [] := by
  cases upds with
  | nil => exact iff_of_true trivial rfl
  | cons upd rest => exact iff_of_false (fun h => h.1) (List.cons_ne_nil _ _)

theorem ChainState.follows_chained (upd : BinanceDepthUpdate) (rest : List BinanceDepthUpdate) :
    (ChainState.chained upd.lastUpdateId).Follows rest
      ↔ (upd :: rest).IsChain (fun a b => b.firstUpdateId = a.lastUpdateId + 1) := by
  induction rest generalizing upd with
  | nil => exact iff_of_true trivial (.singleton upd)
  | cons next rest ih =>
    rw [List.isChain_cons_cons, ← ih next]
    rfl

theorem ChainState.follows_bridging (snapId : ℕ) (upds : List BinanceDepthUpdate) :
    (ChainState.bridging snapId).Follows upds ↔ ChainsFrom snapId upds := by
  unfold ChainsFrom
  cases upds with
  | nil => exact iff_of_true trivial ⟨fun upd h => (by cases h), .nil⟩
  | cons upd rest =>
    rw [← follows_chained]
    simp only [List.head?_cons, Option.mem_some_iff, forall_eq']
    rfl

/-- Messages without a snapshot pass exactly if their updates continue what
the consumer has. -/
theorem accepts_iff_follows {obTopic : String} {msgs : List ExchangeMessage}
    (hsnap : ∀ msg ∈ msgs, snapshot? obTopic msg = none) (m : ChainState) :
    (chainMonitor obTopic).Accepts m msgs ↔ m.Follows (obUpdates obTopic msgs) := by
  induction msgs generalizing m with
  | nil => exact Iff.rfl
  | cons msg rest ih =>
    have hrest := ih (fun x hx => hsnap x (List.mem_cons_of_mem _ hx))
    have hnone := hsnap msg List.mem_cons_self
    unfold obUpdates at hrest ⊢
    rw [Monitor.accepts_cons, hrest, List.filterMap_cons]
    unfold chainMonitor
    dsimp only
    rw [hnone]
    cases update? obTopic msg with
    | none => exact and_iff_right (fun upd h => by cases h)
    | some upd =>
      refine and_congr_left' ⟨fun h => h upd rfl, fun h upd' h' => ?_⟩
      cases h'
      exact h

/-! ## What is fed to the stage -/

/-- The updates that reach a stage which no longer holds anything back. -/
def passedOn (obTopic : String) : List StageInput → List BinanceDepthUpdate
  | [] => []
  | .received msg :: rest => (update? obTopic msg).toList ++ passedOn obTopic rest
  | .closed :: _ => []
  | .shutdownChanged value :: rest => if value then [] else passedOn obTopic rest
  | .fetched _ _ :: rest => passedOn obTopic rest
  | .reconnected :: rest => passedOn obTopic rest

/-- **The feed is gapless by itself.** Given the updates held so far: a fetch
that fails finds none held and none to come, and a snapshot finds that the
held ones it does not cover, with all that come after it, are linked and
bridge it. -/
def GaplessFeed (obTopic : String) (held : List BinanceDepthUpdate) : List StageInput → Prop
  | [] => True
  | .received msg :: rest => GaplessFeed obTopic (held ++ (update? obTopic msg).toList) rest
  | .closed :: _ => True
  | .shutdownChanged value :: rest => value = true ∨ GaplessFeed obTopic held rest
  | .fetched result _ :: rest =>
    match result with
    | .snapshot snap => ChainsFrom snap.lastUpdateId
        (held.filter (fun upd => snap.lastUpdateId < upd.lastUpdateId) ++ passedOn obTopic rest)
    | .failed => held = [] ∧ passedOn obTopic rest = []
    | .panicked => True
  | .reconnected :: rest => GaplessFeed obTopic held rest

/-! ## The stage against the chain -/

section Stage

variable {obTopic : String}

/-- A stage that has ended sends nothing. -/
theorem run_ended (inputs : List StageInput) : ((stage obTopic).run none inputs).2 = [] := by
  induction inputs with
  | nil => rfl
  | cons input rest ih => exact ih

/-- A message of another topic goes straight through. -/
theorem onMessage_other {msg : ExchangeMessage} (ht : msg.topic ≠ obTopic)
    (s : InitState ExchangeMessage) : (pipeline obTopic).onMessage s msg = (s, [msg]) :=
  if_pos ht

/-- A book message goes straight through a synced stage. -/
theorem onMessage_synced (obTopic : String) (msg : ExchangeMessage) (last : ℕ) :
    ∃ last', (pipeline obTopic).onMessage (.synced last) msg = (.synced last', [msg]) := by
  by_cases ht : msg.topic = obTopic
  · exact ⟨(extractLastUpdateId msg).getD last, if_neg (not_not.mpr ht)⟩
  · exact ⟨last, onMessage_other ht _⟩

/-- A book message is held by a buffering stage. -/
theorem onMessage_buffering {msg : ExchangeMessage} (ht : msg.topic = obTopic)
    (buffer : List ExchangeMessage) :
    (pipeline obTopic).onMessage (.buffering buffer) msg = (.buffering (buffer ++ [msg]), []) :=
  if_neg (not_not.mpr ht)

/-- **A synced stage passes everything through.** -/
theorem run_synced (inputs : List StageInput) (last : ℕ)
    (hdecoder : ∀ msg, .received msg ∈ inputs → snapshot? obTopic msg = none) :
    (∀ msg ∈ ((stage obTopic).run (some (.synced last)) inputs).2, snapshot? obTopic msg = none) ∧
      obUpdates obTopic ((stage obTopic).run (some (.synced last)) inputs).2
        = passedOn obTopic inputs := by
  induction inputs generalizing last with
  | nil => exact ⟨fun msg h => absurd h List.not_mem_nil, rfl⟩
  | cons input rest ih =>
    have hrest := fun last => ih last (fun msg h => hdecoder msg (List.mem_cons_of_mem _ h))
    have hended : (∀ msg ∈ ((stage obTopic).run none rest).2, snapshot? obTopic msg = none) ∧
        obUpdates obTopic ((stage obTopic).run none rest).2 = [] := by
      rw [run_ended]
      exact ⟨fun msg h => absurd h List.not_mem_nil, rfl⟩
    cases input with
    | received msg =>
      obtain ⟨last', hstep⟩ := onMessage_synced obTopic msg last
      have hrun : ((stage obTopic).run (some (.synced last)) (.received msg :: rest)).2
          = [msg] ++ ((stage obTopic).run (some (.synced last')) rest).2 := by
        show ((pipeline obTopic).onMessage _ msg).2
          ++ ((stage obTopic).run (some ((pipeline obTopic).onMessage _ msg).1) rest).2 = _
        rw [hstep]
      rw [hrun]
      refine ⟨fun x hx => ?_, ?_⟩
      · rcases List.mem_cons.mp hx with rfl | hx
        · exact hdecoder x List.mem_cons_self
        · exact (hrest last').1 x hx
      · rw [obUpdates_append, obUpdates_singleton, (hrest last').2]
        rfl
    | closed => exact hended
    | fetched result nowUs => exact hrest last
    | shutdownChanged value =>
      cases value with
      | false => exact hrest last
      | true => exact hended
    | reconnected => exact hrest last

/-- What survives of the buffered updates. -/
theorem obUpdates_survives (snapId : ℕ) (buffer : List ExchangeMessage) :
    obUpdates obTopic (buffer.filter (fun msg => !(extractLastUpdateId msg).any (· ≤ snapId)))
      = (obUpdates obTopic buffer).filter (fun upd => snapId < upd.lastUpdateId) := by
  have hmsg : ∀ msg : ExchangeMessage, ∀ upd, update? obTopic msg = some upd →
      extractLastUpdateId msg = some upd.lastUpdateId := by
    intro msg upd h
    unfold update? at h
    split at h
    · next upd' hpayload =>
      split at h
      · cases h
        unfold extractLastUpdateId
        rw [hpayload]
      · cases h
    · cases h
  unfold obUpdates
  induction buffer with
  | nil => rfl
  | cons msg rest ih =>
    rw [List.filter_cons, List.filterMap_cons]
    cases hupd : update? obTopic msg with
    | none =>
      split
      · rw [List.filterMap_cons, hupd, ih]
      · exact ih
    | some upd =>
      have hkeep : (!(extractLastUpdateId msg).any (· ≤ snapId))
          = decide (snapId < upd.lastUpdateId) := by
        rw [hmsg msg upd hupd, Option.any_some, ← decide_not]
        exact decide_eq_decide.mpr not_le
      rw [hkeep, List.filter_cons]
      split
      · rw [List.filterMap_cons, hupd, ih]
      · exact ih

/-- What is sent on after the held messages passes exactly if the updates held
and the updates to come continue what the consumer has. -/
theorem accepts_synced {inputs : List StageInput} {held : List ExchangeMessage}
    (hheld : ∀ msg ∈ held, snapshot? obTopic msg = none)
    (hdecoder : ∀ msg, .received msg ∈ inputs → snapshot? obTopic msg = none) (last : ℕ)
    (m : ChainState) :
    (chainMonitor obTopic).Accepts m
        (held ++ ((stage obTopic).run (some (.synced last)) inputs).2)
      ↔ m.Follows (obUpdates obTopic held ++ passedOn obTopic inputs) := by
  obtain ⟨hsnap, hupds⟩ := run_synced inputs last hdecoder
  rw [accepts_iff_follows (fun msg h => ?_), obUpdates_append, hupds]
  rcases List.mem_append.mp h with h | h
  · exact hheld msg h
  · exact hsnap msg h

/-- **What a buffering stage sends passes exactly if its feed is gapless.** -/
theorem accepts_buffering (inputs : List StageInput) (buffer : List ExchangeMessage)
    (hbuffer : ∀ msg ∈ buffer, snapshot? obTopic msg = none)
    (hdecoder : ∀ msg, .received msg ∈ inputs → snapshot? obTopic msg = none) :
    (chainMonitor obTopic).Accepts .unsynced
        ((stage obTopic).run (some (.buffering buffer)) inputs).2
      ↔ GaplessFeed obTopic (obUpdates obTopic buffer) inputs := by
  induction inputs generalizing buffer with
  | nil => exact Iff.rfl
  | cons input rest ih =>
    have hrest : ∀ msg, .received msg ∈ rest → snapshot? obTopic msg = none :=
      fun msg h => hdecoder msg (List.mem_cons_of_mem _ h)
    have hended : (chainMonitor obTopic).Accepts .unsynced ((stage obTopic).run none rest).2 := by
      rw [run_ended]
      exact trivial
    cases input with
    | received msg =>
      have hmsg := hdecoder msg List.mem_cons_self
      show (chainMonitor obTopic).Accepts .unsynced (((pipeline obTopic).onMessage _ msg).2
        ++ ((stage obTopic).run (some ((pipeline obTopic).onMessage _ msg).1) rest).2)
          ↔ GaplessFeed obTopic (_ ++ (update? obTopic msg).toList) rest
      by_cases ht : msg.topic = obTopic
      · have hbuffer' : ∀ x ∈ buffer ++ [msg], snapshot? obTopic x = none := fun x hx => by
          rcases List.mem_append.mp hx with hx | hx
          · exact hbuffer x hx
          · rw [List.mem_singleton.mp hx]
            exact hmsg
        rw [onMessage_buffering ht, ← obUpdates_singleton, ← obUpdates_append]
        exact ih (buffer ++ [msg]) hbuffer' hrest
      · have hnone : update? obTopic msg = none := by
          unfold update?
          split <;> simp [ht]
        obtain ⟨hok, hnext⟩ := chainMonitor_other (m := .unsynced) hnone hmsg
        rw [onMessage_other ht, hnone, Option.toList_none, List.append_nil, List.singleton_append,
          Monitor.accepts_cons, hnext, and_iff_right hok]
        exact ih buffer hbuffer hrest
    | closed => exact iff_of_true hended trivial
    | fetched result nowUs =>
      cases result with
      | snapshot snap =>
        show (chainMonitor obTopic).Accepts .unsynced (synthesizeSnapshotMsg snap obTopic nowUs
          :: (buffer.filter _ ++ ((stage obTopic).run (some (.synced snap.lastUpdateId)) rest).2))
            ↔ ChainsFrom _ _
        have hpass : (chainMonitor obTopic).ok .unsynced
              (synthesizeSnapshotMsg snap obTopic nowUs) ∧
            (chainMonitor obTopic).next .unsynced (synthesizeSnapshotMsg snap obTopic nowUs)
              = .bridging snap.lastUpdateId := by
          simp [chainMonitor, update?, snapshot?, synthesizeSnapshotMsg]
        rw [Monitor.accepts_cons, hpass.2, and_iff_right hpass.1,
          accepts_synced (fun msg h => hbuffer msg (List.mem_filter.mp h).1) hrest,
          ChainState.follows_bridging, obUpdates_survives]
      | failed =>
        show (chainMonitor obTopic).Accepts .unsynced
          (buffer ++ ((stage obTopic).run (some (.synced 0)) rest).2) ↔ _ ∧ _
        rw [accepts_synced hbuffer hrest, ChainState.follows_unsynced, List.append_eq_nil_iff]
      | panicked => exact iff_of_true hended trivial
    | shutdownChanged value =>
      cases value with
      | false => exact (ih buffer hbuffer hrest).trans (or_iff_right Bool.false_ne_true).symm
      | true => exact iff_of_true hended (Or.inl rfl)
    | reconnected => exact ih buffer hbuffer hrest

end Stage

/-- **The stage forwards validated deltas exactly where it is fed them.** The
decoder makes no snapshots; apart from that, over every sequence of messages,
losses and reconnects, and every time and outcome of the fetch, what a new
stage sends is a chain after a snapshot exactly if the feed itself is gapless
from that snapshot on. -/
theorem validated_iff {obTopic : String} {inputs : List StageInput}
    (hdecoder : ∀ msg, .received msg ∈ inputs → snapshot? obTopic msg = none) :
    (chainMonitor obTopic).Accepts .unsynced (sent obTopic inputs)
      ↔ GaplessFeed obTopic [] inputs :=
  accepts_buffering inputs [] (fun _ h => absurd h List.not_mem_nil) hdecoder

/-- A depth update with the given ids, on the order book topic. -/
def depthUpdateMsg (firstId lastId : ℕ) : ExchangeMessage where
  topic := "orderbook.50.BTCUSDT"
  receivedAtUs := 1700000000000000
  exchange := "binance"
  payload := .binance (.depthUpdate ⟨1700000000000, "BTCUSDT", firstId, lastId, [], []⟩)

/-- Two stale updates and one that bridges are held when the snapshot
resolves, and the next one is linked. -/
theorem validated_iff_linked :
    (chainMonitor "orderbook.50.BTCUSDT").Accepts .unsynced (sent "orderbook.50.BTCUSDT"
      [.received (depthUpdateMsg 90 95), .received (depthUpdateMsg 96 100),
        .received (depthUpdateMsg 101 105), .fetched (.snapshot ⟨100, [], []⟩) 1700000000100000,
        .received (depthUpdateMsg 106 110)]) := by
  refine (validated_iff (fun msg h => ?_)).mpr ?_
  · simp only [List.mem_cons, List.not_mem_nil, StageInput.received.injEq, reduceCtorEq, or_false,
      false_or] at h
    obtain rfl | rfl | rfl | rfl := h <;> rfl
  · exact ⟨by decide, .cons_cons (by decide) (.singleton _)⟩

/-- After a synced start the core reconnects, and the updates from 106 to 120
are lost with the old socket: the next one is forwarded all the same. -/
theorem not_validated_reconnect :
    ¬ (chainMonitor "orderbook.50.BTCUSDT").Accepts .unsynced (sent "orderbook.50.BTCUSDT"
      [.fetched (.snapshot ⟨100, [], []⟩) 1700000000100000, .received (depthUpdateMsg 101 105),
        .reconnected, .received (depthUpdateMsg 121 125)]) := by
  intro h
  exact absurd (h.2.2.1 ⟨1700000000000, "BTCUSDT", 121, 125, [], []⟩ rfl) (by decide)

end BookInitializer
