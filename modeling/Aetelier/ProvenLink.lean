import Aetelier.FrameworkWorker
import Aetelier.ReconnectLoop
import Aetelier.Trace

/-!
# What proves a link

The worker takes the first reconstructed event of a connection for a proof
that the connection works: it tells the reconnect policy, closes the gap
window that is open and triggers the reconcile task. But a reconstructed event
does not say where it comes from. The socket's frames go through the channel
the settlement poller of Hyperliquid sends into, and a book that is seeded
over REST is emitted when its seed has come. Either may be there before the
socket has delivered anything, or even connected.

Poller, socket, runtime, worker and policy are one machine here, which knows
of every event the path it came by. The worker is right about its connection
(`LinkSystem.oneProof`) as long as the first event that the runtime of each
connection emits is one of its socket, and `LinkSystem.socketFirst_iff` says
when it is.
-/

/-- The path an event came by. -/
inductive EventPath where
  /-- A frame of the connection's own socket. -/
  | socket
  /-- The settlement poller. -/
  | poller
  /-- A seed fetched over REST. -/
  | seed
deriving DecidableEq

/-- What a run is given. -/
structure LinkConfig where
  runtime : RuntimeConfig
  worker : WorkerConfig
  policy : ReconnectPolicy
  /-- The adapter has a settlement poller. -/
  polls : Bool

/-- **A worker, its policy and the tasks of its connection.** -/
structure LinkSystem where
  /-- The runtime of the connection. -/
  runtime : SourceRuntime
  /-- The events sent to the runtime, with their paths. -/
  dev : List (EventPath × DomainEvent)
  /-- The events the runtime has emitted, with their paths. -/
  recon : List (EventPath × ReconstructedEvent)
  /-- The worker. -/
  worker : FrameworkWorker
  /-- Its reconnect loop. -/
  loop : ReconnectLoop
  /-- The path of the first event emitted on this connection. -/
  first : Option EventPath
  /-- An event of the socket has reached the worker on this connection. -/
  reached : Bool
  /-- The policy and the gap window that the connection found. -/
  found : ReconnectPolicy × Option GapWindow

/-- What can happen. -/
inductive LinkInput where
  /-- The socket's task sends an event. -/
  | frame (ev : DomainEvent)
  /-- The poller sends a settlement. -/
  | polled (fs : FundingSettlement)
  /-- The runtime takes the oldest event. -/
  | routed (nowUs : ℕ)
  /-- The runtime takes anything else. -/
  | looped (body : InputBody) (nowUs : ℕ)
  /-- The worker takes the oldest event. -/
  | taken (nowUs : ℕ)
  /-- The worker takes a recovered print, a tick, a pause or a resume. -/
  | other (input : WorkerInput)
  /-- The connection has ended, and the worker asks its policy. -/
  | ended (exit : AdapterExit) (lastedNs : ℕ) (draw : Draw) (nowUs : ℕ)
  /-- The sleep is over, and the next connection is made. -/
  | woke (lateNs : ℕ) (hasher : RandomState TradingPair) (nowUs : ℕ)
  /-- The worker is stopped. -/
  | stopped (nowUs : ℕ)

/-- What the worker does. -/
inductive LinkEffect where
  /-- A connection is attempted. -/
  | connected
  /-- An event reaches the worker. -/
  | took (path : EventPath)
  /-- The policy is told that the connection works. -/
  | confirmed
  /-- The reconcile task is triggered. -/
  | triggered
  /-- The gap window is closed. -/
  | closed (i : GapIncident)

/-- What the reconnect loop says of the policy. -/
def LinkEffect.ofLoop : LoopEffect → Option LinkEffect
  | .recovered => some .confirmed
  | _ => none

/-- What the worker says of the gap. -/
def LinkEffect.ofWorker : WorkerEffect → Option LinkEffect
  | .trigger => some .triggered
  | .incident i => some (.closed i)
  | _ => none

namespace LinkSystem

variable (cfg : LinkConfig)

/-- The first connection. -/
def start (carry hasher : RandomState TradingPair) (nowUs : ℕ) : LinkSystem where
  runtime := (SourceRuntime.start cfg.runtime hasher nowUs [cfg.worker.symbol]).1
  dev := []
  recon := []
  worker := ((FrameworkWorker.start cfg.worker carry).step cfg.worker .connected).1
  loop := .start cfg.policy
  first := none
  reached := false
  found := (cfg.policy, none)

/-- The runtime takes an input that came by a path. -/
def runOn (s : LinkSystem) (path : EventPath) (body : InputBody) (nowUs : ℕ) : LinkSystem :=
  let r := s.runtime.step cfg.runtime ⟨body, nowUs, none⟩
  { s with
    runtime := r.1
    recon := s.recon ++ (Effect.events r.2).map (fun ev => (path, ev))
    first := s.first.or ((Effect.events r.2).head?.map (fun _ => path)) }

/-- The worker takes an event. -/
def take (s : LinkSystem) (path : EventPath) (ev : ReconstructedEvent) (nowUs : ℕ) :
    LinkSystem × List LinkEffect :=
  let w := s.worker.step cfg.worker (.event ev nowUs)
  let l := s.loop.step .event
  ({ s with worker := w.1, loop := l.1, reached := s.reached || path = .socket },
    .took path :: (l.2.filterMap LinkEffect.ofLoop ++ w.2.filterMap LinkEffect.ofWorker))

/-- The worker leaves a connection that has ended. The incident it records
when it gives up for good proves nothing. -/
def leave (s : LinkSystem) (outcome : RuntimeOutcome) (exit : AdapterExit) (lastedNs : ℕ)
    (draw : Draw) (nowUs : ℕ) : LinkSystem :=
  let loop := (s.loop.step (.ended exit lastedNs draw)).1
  let lost :=
    if exit = .exhausted then s.worker
    else (s.worker.step cfg.worker (.connectionLost outcome nowUs)).1
  { s with
    loop := loop
    worker :=
      if loop.phase = .stopped then (lost.step cfg.worker (.stopped nowUs)).1 else lost }

/-- **One step.** A step that is not possible does nothing. The poller is
spawned only where funding rates are declared. -/
def step (s : LinkSystem) (i : LinkInput) : LinkSystem × List LinkEffect :=
  match s.loop.phase, i with
  | .connected, .frame ev => ({ s with dev := s.dev ++ [(.socket, ev)] }, [])
  | .connected, .polled fs =>
    if cfg.polls ∧ .fundingRates ∈ cfg.runtime.declared then
      ({ s with dev := s.dev ++ [(.poller, .fundingSettlement fs)] }, [])
    else (s, [])
  | .connected, .routed nowUs =>
    match s.dev with
    | [] => (s, [])
    | (path, ev) :: rest => ({ s with dev := rest }.runOn cfg path (.event ev) nowUs, [])
  | .connected, .looped body nowUs =>
    match body with
    | .event _ => (s, [])
    -- the stream of events ends behind the last of them
    | .eventsClosed =>
      if s.dev.isEmpty then (s.runOn cfg .seed .eventsClosed nowUs, []) else (s, [])
    | body => (s.runOn cfg .seed body nowUs, [])
  | .connected, .taken nowUs =>
    match s.recon with
    | [] => (s, [])
    | (path, ev) :: rest => { s with recon := rest }.take cfg path ev nowUs
  | .connected, .other input =>
    match input with
    | .recovered _ | .timer _ | .pause | .resume =>
      let w := s.worker.step cfg.worker input
      ({ s with worker := w.1 }, w.2.filterMap LinkEffect.ofWorker)
    | _ => (s, [])
  | .connected, .ended exit lastedNs draw nowUs =>
    match s.recon, s.runtime.outcome with
    | [], some outcome => (s.leave cfg outcome exit lastedNs draw nowUs, [])
    | _, _ => (s, [])
  | .waiting _, .woke lateNs hasher nowUs =>
    ({ runtime := (SourceRuntime.start cfg.runtime hasher nowUs [cfg.worker.symbol]).1
       dev := []
       recon := []
       worker := (s.worker.step cfg.worker .connected).1
       loop := (s.loop.step (.wake lateNs)).1
       first := none
       reached := false
       found := (s.loop.policy, s.worker.gapOpen) }, [.connected])
  | _, .stopped nowUs =>
    ({ s with
        loop := (s.loop.step .stop).1
        worker := (s.worker.step cfg.worker (.stopped nowUs)).1 }, [])
  | _, _ => (s, [])

/-- The system as a machine. -/
def machine : Machine LinkSystem LinkInput LinkEffect := ⟨step cfg⟩

/-! ## What the worker should and does know -/

/-- **Only the new socket proves recovery**: on every connection, an event of
its socket has reached the worker before the policy is told, the window closed
or the reconcile task triggered. -/
def oneProof : Monitor Bool LinkEffect where
  next reached
    | .connected => false
    | .took .socket => true
    | _ => reached
  ok reached
    | .confirmed | .triggered | .closed _ => reached = true
    | _ => True

/-- **A connection without a frame changes nothing**: as long as no event of
its socket has reached the worker, policy and gap window are what the
connection found. -/
def Untouched (s : LinkSystem) : Prop :=
  s.loop.phase = .connected → s.reached = false →
    s.loop.policy = s.found.1 ∧ s.worker.gapOpen = s.found.2

/-- The first event emitted on the connection is one of its socket. -/
def SocketFirst (s : LinkSystem) : Prop := ∀ path ∈ s.first, path = .socket

/-- A seed that comes for a pair is taken: a fetch is in flight for the pair,
and the snapshot applies to its book. -/
def seeds (s : LinkSystem) (pair : TradingPair) (seed : NormalizedDelta) : Bool :=
  (s.runtime.books.get? pair).any (fun b => b.seeding &&
    (b.book.apply cfg.runtime.crates cfg.runtime.unicode (seed.canonical pair)).2.isOk)

/-- A step that emits what did not come by the socket: the runtime takes a
settlement of the poller, or a seed. -/
def Foreign (s : LinkSystem) : LinkInput → Prop
  | .routed _ => s.runtime.eventsDone = false ∧ s.dev.head?.map Prod.fst = some .poller
  | .looped (.fetched pair (.ok seed)) _ => s.seeds cfg pair seed = true
  | _ => False

/-- **Nothing but the socket is first**: as long as a connection's runtime
has emitted nothing, it takes no settlement of the poller and no seed. -/
def Proves (s : LinkSystem) (i : LinkInput) : Prop :=
  s.loop.phase = .connected → s.runtime.outcome = none → s.first = none → ¬ s.Foreign cfg i

end LinkSystem

/-! ## What the runtime emits -/

section Emits

variable {rc : RuntimeConfig}

theorem Effect.events_append (a b : List Effect) :
    Effect.events (a ++ b) = Effect.events a ++ Effect.events b := List.filterMap_append

theorem SourceRuntime.events_abandoned (r : SourceRuntime) : Effect.events r.abandoned = [] := by
  unfold abandoned
  split <;> rfl

/-- A turn of a loop that is not over emits what its input does. -/
theorem SourceRuntime.events_step {r : SourceRuntime} (hr : r.outcome = none) (body : InputBody)
    (nowUs : ℕ) :
    Effect.events (r.step rc ⟨body, nowUs, none⟩).2
      = Effect.events (r.handle rc nowUs body).2 := by
  unfold step
  rw [hr]
  show Effect.events (_ ++ _) = _
  rw [Effect.events_append, events_abandoned, List.append_nil]

/-- A runtime that is over emits nothing. -/
theorem SourceRuntime.events_step_of_over {r : SourceRuntime} (hr : r.outcome ≠ none)
    (input : Input) : Effect.events (r.step rc input).2 = [] := by
  unfold step
  rw [if_pos (Option.isSome_iff_ne_none.mpr hr)]
  rfl

theorem PairBook.events_requestReseed (b : PairBook) (pair : TradingPair) :
    Effect.events (b.requestReseed rc pair).2 = [] := by
  unfold requestReseed
  split <;> rfl

/-- A fetch that failed emits nothing. -/
theorem PairBook.events_onFetched_error (b : PairBook) (pair : TradingPair) (nowUs : ℕ)
    (e : String) : Effect.events (b.onFetched rc pair nowUs (.error e)).effects = [] := by
  unfold onFetched
  dsimp only
  split
  · exact events_requestReseed _ pair
  · rfl

/-- A seed emits the book if it applies to it. -/
theorem PairBook.events_applySeed (b : PairBook) (pair : TradingPair) (nowUs : ℕ)
    (seed : NormalizedDelta) :
    Effect.events (b.applySeed rc pair nowUs seed).effects = []
      ↔ (b.book.apply rc.crates rc.unicode (seed.canonical pair)).2.isOk = false := by
  unfold applySeed
  dsimp only
  split
  · next book e happly =>
    rw [happly]
    refine iff_of_true ?_ rfl
    split
    · exact events_requestReseed _ pair
    · rfl
  · next book output happly =>
    rw [happly]
    refine iff_of_false ?_ Bool.noConfusion
    split <;> exact List.cons_ne_nil _ _

end Emits

namespace LinkSystem

variable {cfg : LinkConfig} {s : LinkSystem}

/-- A seed that comes for a pair emits the book exactly if it is taken. -/
theorem events_seed (pair : TradingPair) (seed : NormalizedDelta) (nowUs : ℕ) :
    Effect.events (s.runtime.handle cfg.runtime nowUs (.fetched pair (.ok seed))).2 = []
      ↔ s.seeds cfg pair seed = false := by
  unfold SourceRuntime.handle SourceRuntime.fetching seeds
  dsimp only
  cases hb : s.runtime.books.get? pair with
  | none => exact iff_of_true rfl rfl
  | some b =>
    cases hseeding : b.seeding with
    | false => simp [hseeding, Effect.events]
    | true =>
      simp only [Option.any_some, hseeding, if_true, Bool.true_and, SourceRuntime.onPair, hb]
      exact PairBook.events_applySeed { b with seeding := false } pair nowUs seed

/-- Nothing else that is no event emits anything. -/
theorem events_quiet {body : InputBody} (hevent : ∀ ev, body ≠ .event ev)
    (hseed : ∀ pair seed, body ≠ .fetched pair (.ok seed)) (nowUs : ℕ) :
    Effect.events (s.runtime.handle cfg.runtime nowUs body).2 = [] := by
  cases body with
  | event ev => exact absurd rfl (hevent ev)
  | fetched pair result =>
    cases result with
    | ok seed => exact absurd rfl (hseed pair seed)
    | error e =>
      unfold SourceRuntime.handle SourceRuntime.onPair
      dsimp only
      split
      · split
        · rfl
        · exact PairBook.events_onFetched_error _ pair nowUs e
      · rfl
  | eventsClosed => rfl
  | seedDeadline =>
    unfold SourceRuntime.handle
    dsimp only
    split <;> rfl
  | shutdown => rfl

/-- A settlement of the poller is emitted as long as the stream is open. -/
theorem events_settlement (hdeclared : .fundingRates ∈ cfg.runtime.declared)
    (fs : FundingSettlement) (nowUs : ℕ) :
    Effect.events (s.runtime.handle cfg.runtime nowUs (.event (.fundingSettlement fs))).2 = []
      ↔ ¬ s.runtime.eventsDone = false := by
  unfold SourceRuntime.handle SourceRuntime.handleEvent SourceRuntime.declaredOnly
  dsimp only
  cases s.runtime.eventsDone with
  | true => exact iff_of_true rfl Bool.noConfusion
  | false =>
    rw [if_pos hdeclared]
    exact iff_of_false (List.cons_ne_nil _ _) (not_not_intro rfl)

/-! ## What the first event of a connection is -/

/-- What is on its way to the runtime: events of the socket, and settlements
where they are declared. -/
def Sent (cfg : LinkConfig) (s : LinkSystem) : Prop :=
  ∀ entry ∈ s.dev, entry.1 = .socket ∨
    ∃ fs, entry = (.poller, .fundingSettlement fs) ∧ .fundingRates ∈ cfg.runtime.declared

/-- An input of the runtime keeps the socket first exactly if it came by the
socket, or is not the first to emit. -/
theorem socketFirst_runOn (h : s.SocketFirst) (path : EventPath) (body : InputBody) (nowUs : ℕ) :
    (s.runOn cfg path body nowUs).SocketFirst ↔ (s.first = none → path ≠ .socket →
      Effect.events (s.runtime.step cfg.runtime ⟨body, nowUs, none⟩).2 = []) := by
  show (∀ p ∈ s.first.or _, p = EventPath.socket) ↔ _
  cases hfirst : s.first with
  | some p =>
    refine iff_of_true (fun q hq => ?_) (fun hnone => nomatch hnone)
    obtain rfl := Option.mem_some_iff.mp hq
    exact h p hfirst
  | none =>
    rw [Option.none_or]
    cases Effect.events (s.runtime.step cfg.runtime ⟨body, nowUs, none⟩).2 with
    | nil => exact iff_of_true (fun q hq => nomatch hq) (fun _ _ => rfl)
    | cons ev rest =>
      constructor
      · intro hall _ hpath
        exact absurd (hall path rfl) hpath
      · intro hpath q hq
        obtain rfl := Option.mem_some_iff.mp hq
        by_contra hne
        exact List.cons_ne_nil _ _ (hpath rfl hne)

/-- What the runtime has not been given comes from the two tasks. -/
theorem sent_step (h : s.Sent cfg) (i : LinkInput) : (s.step cfg i).1.Sent cfg := by
  have hmem : ∀ entry, (entry.1 = EventPath.socket ∨ ∃ fs,
      entry = (EventPath.poller, DomainEvent.fundingSettlement fs) ∧
        .fundingRates ∈ cfg.runtime.declared) →
      ∀ e ∈ s.dev ++ [entry], e.1 = EventPath.socket ∨ ∃ fs,
        e = (EventPath.poller, DomainEvent.fundingSettlement fs) ∧
          .fundingRates ∈ cfg.runtime.declared := by
    intro entry hentry e he
    rcases List.mem_append.mp he with he | he
    · exact h e he
    · rw [List.mem_singleton.mp he]
      exact hentry
  unfold step
  split
  · exact hmem _ (Or.inl rfl)
  · split
    · next hpolls => exact hmem _ (Or.inr ⟨_, rfl, hpolls.2⟩)
    · exact h
  · split
    · exact h
    · next hdev =>
      intro e he
      exact h e (hdev ▸ List.mem_cons_of_mem _ he)
  · split
    · exact h
    · split <;> exact h
    · exact h
  · split <;> exact h
  · split <;> exact h
  · split <;> exact h
  · exact fun e he => absurd he List.not_mem_nil
  · exact h
  · exact h

/-- The runtime takes the oldest event. -/
theorem socketFirst_routed (hsent : s.Sent cfg) (h : s.SocketFirst)
    (hphase : s.loop.phase = .connected) (nowUs : ℕ) :
    (s.step cfg (.routed nowUs)).1.SocketFirst ↔ s.Proves cfg (.routed nowUs) := by
  have hstep : (s.step cfg (.routed nowUs)).1 = match s.dev with
      | [] => s
      | (path, ev) :: rest => { s with dev := rest }.runOn cfg path (.event ev) nowUs := by
    unfold step
    rw [hphase]
    dsimp only
    split <;> rfl
  rw [hstep]
  unfold Proves Foreign
  cases hdev : s.dev with
  | nil => exact iff_of_true h (fun _ _ _ hforeign => nomatch hforeign.2)
  | cons entry rest =>
    obtain ⟨path, ev⟩ := entry
    refine (socketFirst_runOn (s := { s with dev := rest }) h path (.event ev) nowUs).trans ?_
    show (s.first = none → path ≠ .socket →
        Effect.events (s.runtime.step cfg.runtime ⟨.event ev, nowUs, none⟩).2 = []) ↔
      (_ → _ → s.first = none → ¬ (_ ∧ some path = some .poller))
    rcases hsent (path, ev) (hdev ▸ List.mem_cons_self) with hpath | ⟨fs, hentry, hdeclared⟩
    · obtain rfl : path = .socket := hpath
      exact iff_of_true (fun _ hne => absurd rfl hne) (fun _ _ _ hforeign => nomatch hforeign.2)
    · obtain ⟨rfl, rfl⟩ := Prod.mk.inj hentry
      by_cases hrunning : s.runtime.outcome = none
      · rw [SourceRuntime.events_step hrunning, events_settlement hdeclared]
        constructor
        · exact fun hquiet _ _ hfirst hforeign => hquiet hfirst EventPath.noConfusion hforeign.1
        · exact fun hproves hfirst _ hdone => hproves hphase hrunning hfirst ⟨hdone, rfl⟩
      · exact iff_of_true (fun _ _ => SourceRuntime.events_step_of_over hrunning _)
          (fun _ hnone => absurd hnone hrunning)

/-- The runtime takes anything else. -/
theorem socketFirst_looped (h : s.SocketFirst) (hphase : s.loop.phase = .connected)
    (body : InputBody) (nowUs : ℕ) :
    (s.step cfg (.looped body nowUs)).1.SocketFirst ↔ s.Proves cfg (.looped body nowUs) := by
  have hquiet : (∀ ev, body ≠ .event ev) → (∀ pair seed, body ≠ .fetched pair (.ok seed)) →
      (s.runOn cfg .seed body nowUs).SocketFirst := by
    refine fun hevent hseed => (socketFirst_runOn h _ body nowUs).mpr (fun _ _ => ?_)
    by_cases hrunning : s.runtime.outcome = none
    · rw [SourceRuntime.events_step hrunning]
      exact events_quiet hevent hseed nowUs
    · exact SourceRuntime.events_step_of_over hrunning _
  unfold Proves Foreign step
  rw [hphase]
  cases body with
  | event ev => exact iff_of_true h (fun _ _ _ => not_false)
  | eventsClosed =>
    refine iff_of_true ?_ (fun _ _ _ => not_false)
    dsimp only
    split
    · exact hquiet (by rintro _ ⟨⟩) (by rintro _ _ ⟨⟩)
    · exact h
  | fetched pair result =>
    cases result with
    | error e =>
      exact iff_of_true (hquiet (by rintro _ ⟨⟩) (by rintro _ _ ⟨⟩)) (fun _ _ _ => not_false)
    | ok seed =>
      refine (socketFirst_runOn h _ _ nowUs).trans ?_
      by_cases hrunning : s.runtime.outcome = none
      · rw [SourceRuntime.events_step hrunning, events_seed]
        constructor
        · exact fun hquiet _ _ hfirst =>
            Bool.eq_false_iff.mp (hquiet hfirst EventPath.noConfusion)
        · exact fun hproves hfirst _ => Bool.eq_false_iff.mpr (hproves rfl hrunning hfirst)
      · exact iff_of_true (fun _ _ => SourceRuntime.events_step_of_over hrunning _)
          (fun _ hnone => absurd hnone hrunning)
  | _ =>
    exact iff_of_true (hquiet (by rintro _ ⟨⟩) (by rintro _ _ ⟨⟩)) (fun _ _ _ => not_false)

/-- A step that is none of the runtime's leaves the first event, or begins a
connection without one. -/
theorem first_step {i : LinkInput} (hrouted : ∀ nowUs, i ≠ .routed nowUs)
    (hlooped : ∀ body nowUs, i ≠ .looped body nowUs) :
    (s.step cfg i).1.first = s.first ∨ (s.step cfg i).1.first = none := by
  unfold step
  split
  · exact Or.inl rfl
  · split <;> exact Or.inl rfl
  · exact absurd rfl (hrouted _)
  · exact absurd rfl (hlooped _ _)
  · split <;> exact Or.inl rfl
  · split <;> exact Or.inl rfl
  · split <;> exact Or.inl rfl
  · exact Or.inr rfl
  · exact Or.inl rfl
  · exact Or.inl rfl

/-- Between connections the runtime takes nothing. -/
theorem step_apart (hphase : s.loop.phase ≠ .connected) (body : InputBody) (nowUs : ℕ) :
    s.step cfg (.routed nowUs) = (s, []) ∧ s.step cfg (.looped body nowUs) = (s, []) := by
  unfold step
  cases hp : s.loop.phase with
  | connected => exact absurd hp hphase
  | waiting untilNs => exact ⟨rfl, rfl⟩
  | stopped => exact ⟨rfl, rfl⟩

/-- **One step** keeps the socket first exactly if it does not emit first what
did not come by the socket. -/
theorem socketFirst_step_iff (hsent : s.Sent cfg) (h : s.SocketFirst) (i : LinkInput) :
    (s.step cfg i).1.SocketFirst ↔ s.Proves cfg i := by
  have hother : (∀ nowUs, i ≠ .routed nowUs) → (∀ body nowUs, i ≠ .looped body nowUs) →
      (s.step cfg i).1.SocketFirst := by
    intro hrouted hlooped path hpath
    rcases first_step hrouted hlooped with hfirst | hfirst <;> rw [hfirst] at hpath
    · exact h path hpath
    · exact nomatch hpath
  have hapart : ∀ body nowUs, s.loop.phase ≠ .connected →
      (s.step cfg (.routed nowUs)).1.SocketFirst ∧
        (s.step cfg (.looped body nowUs)).1.SocketFirst := by
    intro body nowUs hphase
    rw [(step_apart hphase body nowUs).1, (step_apart hphase body nowUs).2]
    exact ⟨h, h⟩
  cases i with
  | routed nowUs =>
    by_cases hphase : s.loop.phase = .connected
    · exact socketFirst_routed hsent h hphase nowUs
    · exact iff_of_true (hapart .shutdown nowUs hphase).1 (fun hp => absurd hp hphase)
  | looped body nowUs =>
    by_cases hphase : s.loop.phase = .connected
    · exact socketFirst_looped h hphase body nowUs
    · exact iff_of_true (hapart body nowUs hphase).2 (fun hp => absurd hp hphase)
  | _ => exact iff_of_true (hother (by rintro _ ⟨⟩) (by rintro _ _ ⟨⟩)) (fun _ _ _ => not_false)

/-- **On every connection of a run the first event is one of its socket**
exactly if no step emits another one first. -/
theorem socketFirst_iff (hsent : s.Sent cfg) (h : s.SocketFirst) (inputs : List LinkInput) :
    (∀ pre, pre <+: inputs → ((machine cfg).run s pre).1.SocketFirst)
      ↔ (machine cfg).Meets (Proves cfg) s inputs :=
  (machine cfg).forall_prefix_iff_meets (I := Sent cfg) (S := SocketFirst) (P := Proves cfg)
    (fun _ i hI => sent_step hI i) (fun _ i hI hS => socketFirst_step_iff hI hS i) hsent h inputs

/-! ## What the worker knows of its connection -/

/-- **The worker is right about its connection**: it is live only when an
event of its socket has come, and as long as it is not, the event it takes
next is the connection's first, and policy and window are untouched. -/
structure Linked (s : LinkSystem) : Prop where
  running : s.loop.phase ≠ .stopped → s.worker.ended = false
  live : s.loop.phase = .connected → s.worker.connectionLive = s.loop.connectionLive
  line : s.loop.phase = .connected → s.loop.connectionLive = false →
    s.recon.head?.map Prod.fst = s.first
  proven : s.loop.phase = .connected → s.loop.connectionLive = true → s.reached = true
  untouched : s.loop.phase = .connected → s.loop.connectionLive = false →
    s.loop.policy = s.found.1 ∧ s.worker.gapOpen = s.found.2

theorem Linked.to_untouched (h : s.Linked) : s.Untouched := by
  intro hphase hreached
  refine h.untouched hphase (Bool.eq_false_iff.mpr (fun hlive => ?_))
  rw [h.proven hphase hlive] at hreached
  exact Bool.noConfusion hreached

/-- What a step of the tasks or of the runtime leaves alone. -/
theorem Linked.of_tasks {t : LinkSystem} (h : s.Linked) (hworker : t.worker = s.worker)
    (hloop : t.loop = s.loop) (hreached : t.reached = s.reached) (hfound : t.found = s.found)
    (hline : s.recon.head?.map Prod.fst = s.first → t.recon.head?.map Prod.fst = t.first) :
    t.Linked := by
  constructor
  · rw [hloop, hworker]
    exact h.running
  · rw [hloop, hworker]
    exact h.live
  · rw [hloop]
    exact fun hphase hlive => hline (h.line hphase hlive)
  · rw [hloop, hreached]
    exact h.proven
  · rw [hloop, hworker, hfound]
    exact h.untouched

theorem Linked.runOn (h : s.Linked) (path : EventPath) (body : InputBody) (nowUs : ℕ) :
    (s.runOn cfg path body nowUs).Linked := by
  refine h.of_tasks rfl rfl rfl rfl (fun hline => ?_)
  unfold LinkSystem.runOn
  dsimp only
  rw [← hline, List.head?_append, Option.map_or, List.head?_map, Option.map_map]
  rfl

/-- An event makes the connection live. -/
theorem live_event (wc : WorkerConfig) {w : FrameworkWorker} (hended : w.ended = false)
    (ev : ReconstructedEvent) (nowUs : ℕ) :
    (w.step wc (.event ev nowUs)).1.connectionLive = true ∧
      (w.step wc (.event ev nowUs)).1.ended = false := by
  have hstep : (w.step wc (.event ev nowUs)).1 = ((w.arrive wc nowUs).1.handle wc ev).1 := by
    unfold FrameworkWorker.step
    rw [hended]
    rfl
  obtain ⟨seen, pos, ids, hframe⟩ :=
    (w.arrive wc nowUs).1.handle_frame ev
  rw [hstep, hframe]
  refine ⟨?_, (FrameworkWorker.ended_arrive w nowUs).trans hended⟩
  show (w.arrive wc nowUs).1.connectionLive = true
  unfold FrameworkWorker.arrive
  split
  · assumption
  · split <;> rfl

/-- **An event is taken by a worker that is right**, which stays right if the
first event of the connection is one of its socket. -/
theorem Linked.take {path : EventPath} {ev : ReconstructedEvent}
    {rest : List (EventPath × ReconstructedEvent)} (h : s.Linked) (hfirst : s.SocketFirst)
    (hphase : s.loop.phase = .connected) (hrecon : s.recon = (path, ev) :: rest) (nowUs : ℕ) :
    ({ s with recon := rest }.take cfg path ev nowUs).1.Linked := by
  have hended : s.worker.ended = false := h.running (by rw [hphase]; exact LoopPhase.noConfusion)
  obtain ⟨hlive, hrunning⟩ := live_event cfg.worker hended ev nowUs
  have hloop : (s.loop.step .event).1.connectionLive = true := by
    unfold ReconnectLoop.step ReconnectLoop.onEvent
    rw [hphase]
    dsimp only
    split
    · assumption
    · rfl
  have hreached : (s.reached || decide (path = .socket)) = true := by
    rw [Bool.or_eq_true]
    cases hwas : s.loop.connectionLive with
    | true => exact Or.inl (h.proven hphase hwas)
    | false =>
      have hhead := h.line hphase hwas
      rw [hrecon] at hhead
      exact Or.inr (decide_eq_true (hfirst path hhead.symm))
  constructor
  · exact fun _ => hrunning
  · exact fun _ => hlive.trans hloop.symm
  · exact fun _ hnot => Bool.noConfusion (hloop.symm.trans hnot)
  · exact fun _ _ => hreached
  · exact fun _ hnot => Bool.noConfusion (hloop.symm.trans hnot)

/-- A print that is recovered, a tick, a pause and a resume leave the worker's
idea of its connection. -/
theorem other_frame (wc : WorkerConfig) (w : FrameworkWorker) {input : WorkerInput}
    (h : (∃ t, input = .recovered t) ∨ (∃ nowUs, input = .timer nowUs) ∨ input = .pause ∨
      input = .resume) :
    (w.step wc input).1.gapOpen = w.gapOpen ∧ (w.step wc input).1.ended = w.ended ∧
      (w.step wc input).1.connectionLive = w.connectionLive ∧
      (w.step wc input).2.filterMap LinkEffect.ofWorker = [] := by
  unfold FrameworkWorker.step
  split
  · exact ⟨rfl, rfl, rfl, rfl⟩
  · rcases h with ⟨t, rfl⟩ | ⟨nowUs, rfl⟩ | rfl | rfl
    · dsimp only
      split
      · obtain ⟨pos, ids, hframe⟩ := w.onRecovered_frame t
        rw [hframe]
        refine ⟨rfl, rfl, rfl, ?_⟩
        unfold FrameworkWorker.onRecovered
        dsimp only
        split <;> rfl
      · exact ⟨rfl, rfl, rfl, rfl⟩
    · dsimp only
      split <;> exact ⟨rfl, rfl, rfl, rfl⟩
    all_goals exact ⟨rfl, rfl, rfl, rfl⟩

theorem Linked.of_other (h : s.Linked) {input : WorkerInput}
    (hinput : (∃ t, input = .recovered t) ∨ (∃ nowUs, input = .timer nowUs) ∨ input = .pause ∨
      input = .resume) :
    ({ s with worker := (s.worker.step cfg.worker input).1 } : LinkSystem).Linked := by
  obtain ⟨hgap, hended, hlive, -⟩ := other_frame cfg.worker s.worker hinput
  exact ⟨fun hp => hended.trans (h.running hp), fun hp => hlive.trans (h.live hp), h.line,
    h.proven, fun hp hl => ⟨(h.untouched hp hl).1, hgap.trans (h.untouched hp hl).2⟩⟩

/-- A connection that has ended is followed by a sleep or by nothing. -/
theorem phase_ended (hphase : s.loop.phase = .connected) (exit : AdapterExit) (lastedNs : ℕ)
    (draw : Draw) : (s.loop.step (.ended exit lastedNs draw)).1.phase ≠ .connected := by
  unfold ReconnectLoop.step ReconnectLoop.onEnded
  rw [hphase]
  dsimp only
  split
  · exact LoopPhase.noConfusion
  · cases s.loop.policy.nextAction (s.loop.nowNs + lastedNs) draw exit.policyReason with
    | none => exact LoopPhase.noConfusion
    | some r =>
      obtain ⟨policy, action⟩ := r
      cases action <;> exact LoopPhase.noConfusion

theorem Linked.leave (h : s.Linked) (hphase : s.loop.phase = .connected)
    (outcome : RuntimeOutcome) (exit : AdapterExit) (lastedNs : ℕ) (draw : Draw) (nowUs : ℕ) :
    (s.leave cfg outcome exit lastedNs draw nowUs).Linked := by
  have hended : s.worker.ended = false := h.running (by rw [hphase]; exact LoopPhase.noConfusion)
  have hnot := phase_ended hphase exit lastedNs draw
  refine ⟨fun hp => ?_, fun hp => absurd hp hnot, fun hp => absurd hp hnot,
    fun hp => absurd hp hnot, fun hp => absurd hp hnot⟩
  unfold LinkSystem.leave at hp ⊢
  dsimp only at hp ⊢
  rw [if_neg hp]
  split
  · exact hended
  · unfold FrameworkWorker.step
    rw [hended]
    show (s.worker.openGap outcome nowUs).ended = false
    unfold FrameworkWorker.openGap
    split <;> exact hended

/-- **One step keeps the worker right** as long as the first event of each
connection is one of its socket. -/
theorem linked_step (h : s.Linked) (hfirst : s.SocketFirst) (i : LinkInput) :
    (s.step cfg i).1.Linked := by
  unfold step
  split
  · exact h.of_tasks rfl rfl rfl rfl id
  · split
    · exact h.of_tasks rfl rfl rfl rfl id
    · exact h
  · split
    · exact h
    · next path ev rest hdev =>
      have hrest : ({ s with dev := rest } : LinkSystem).Linked := h.of_tasks rfl rfl rfl rfl id
      exact hrest.runOn _ _ _
  · split
    · exact h
    · split
      · exact h.runOn _ _ _
      · exact h
    · exact h.runOn _ _ _
  · next hphase =>
    split
    · exact h
    · next hrecon => exact h.take hfirst hphase hrecon _
  · split
    · exact h.of_other (Or.inl ⟨_, rfl⟩)
    · exact h.of_other (Or.inr (Or.inl ⟨_, rfl⟩))
    · exact h.of_other (Or.inr (Or.inr (Or.inl rfl)))
    · exact h.of_other (Or.inr (Or.inr (Or.inr rfl)))
    · exact h
  · next hphase =>
    split
    · exact h.leave hphase _ _ _ _ _
    · exact h
  · next hphase =>
    have hended : s.worker.ended = false := h.running (by rw [hphase]; exact LoopPhase.noConfusion)
    unfold ReconnectLoop.step FrameworkWorker.step
    rw [hphase, hended]
    exact ⟨fun _ => rfl, fun _ => rfl, fun _ _ => rfl, fun _ hlive => Bool.noConfusion hlive,
      fun _ _ => ⟨rfl, rfl⟩⟩
  · have hstopped : (s.loop.step .stop).1.phase = .stopped := by
      unfold ReconnectLoop.step
      cases hphase : s.loop.phase <;> rfl
    have hnot : (s.loop.step .stop).1.phase ≠ .connected := by
      rw [hstopped]
      exact LoopPhase.noConfusion
    exact ⟨fun hp => absurd hstopped hp, fun hp => absurd hp hnot, fun hp => absurd hp hnot,
      fun hp => absurd hp hnot, fun hp => absurd hp hnot⟩
  · exact h

/-! ## What the worker does -/

/-- After an event of the socket everything is in order. -/
theorem accepts_reached {t : List LinkEffect}
    (ht : ∀ e ∈ t, e = .confirmed ∨ e = .triggered ∨ ∃ i, e = .closed i) :
    oneProof.Accepts true t ∧ oneProof.after true t = true := by
  induction t with
  | nil => exact ⟨trivial, rfl⟩
  | cons e t ih =>
    obtain ⟨hacc, hafter⟩ := ih (fun e he => ht e (List.mem_cons_of_mem _ he))
    rcases ht e List.mem_cons_self with rfl | rfl | ⟨i, rfl⟩ <;> exact ⟨⟨rfl, hacc⟩, hafter⟩

theorem mem_ofLoop {l : List LoopEffect} {e : LinkEffect}
    (h : e ∈ l.filterMap LinkEffect.ofLoop) : e = .confirmed := by
  obtain ⟨x, -, hx⟩ := List.mem_filterMap.mp h
  cases x with
  | recovered => exact (Option.some.inj hx).symm
  | _ => exact nomatch hx

theorem mem_ofWorker {l : List WorkerEffect} {e : LinkEffect}
    (h : e ∈ l.filterMap LinkEffect.ofWorker) : e = .triggered ∨ ∃ i, e = .closed i := by
  obtain ⟨x, -, hx⟩ := List.mem_filterMap.mp h
  cases x with
  | trigger => exact Or.inl (Option.some.inj hx).symm
  | incident i => exact Or.inr ⟨i, (Option.some.inj hx).symm⟩
  | _ => exact nomatch hx

/-- What is fed closes no window. -/
theorem ofWorker_handle (wc : WorkerConfig) (w : FrameworkWorker) (ev : ReconstructedEvent) :
    (w.handle wc ev).2.filterMap LinkEffect.ofWorker = [] := by
  refine List.filterMap_eq_nil_iff.mpr (fun e he => ?_)
  obtain ⟨c, rfl⟩ := FrameworkWorker.call_of_mem_handle he
  rfl

/-- **A worker that is right does nothing before its time.** -/
theorem Linked.accepts_take {path : EventPath} {ev : ReconstructedEvent}
    {rest : List (EventPath × ReconstructedEvent)} (h : s.Linked) (hfirst : s.SocketFirst)
    (hphase : s.loop.phase = .connected) (hrecon : s.recon = (path, ev) :: rest) (nowUs : ℕ) :
    oneProof.Accepts s.reached ({ s with recon := rest }.take cfg path ev nowUs).2 ∧
      oneProof.after s.reached ({ s with recon := rest }.take cfg path ev nowUs).2
        = (s.reached || decide (path = .socket)) := by
  have hended : s.worker.ended = false := h.running (by rw [hphase]; exact LoopPhase.noConfusion)
  have hnext : oneProof.next s.reached (.took path) = (s.reached || decide (path = .socket)) := by
    cases path with
    | socket => exact (Bool.or_true _).symm
    | _ => exact (Bool.or_false _).symm
  unfold LinkSystem.take
  rw [Monitor.accepts_cons, Monitor.after_cons, hnext]
  cases hlive : s.loop.connectionLive with
  | true =>
    have hloop : (s.loop.step .event).2 = [] := by
      unfold ReconnectLoop.step ReconnectLoop.onEvent
      rw [hphase]
      dsimp only
      rw [if_pos hlive]
    have hworker : (s.worker.step cfg.worker (.event ev nowUs)).2.filterMap LinkEffect.ofWorker
        = [] := by
      have harrive : s.worker.arrive cfg.worker nowUs = (s.worker, []) := by
        unfold FrameworkWorker.arrive
        rw [if_pos ((h.live hphase).trans hlive)]
      unfold FrameworkWorker.step
      simp only [hended, harrive, Bool.false_eq_true, if_false, List.nil_append]
      exact ofWorker_handle cfg.worker s.worker ev
    dsimp only
    rw [hloop, hworker]
    exact ⟨⟨trivial, trivial⟩, rfl⟩
  | false =>
    have hhead := h.line hphase hlive
    rw [hrecon] at hhead
    obtain rfl : path = .socket := hfirst path hhead.symm
    rw [decide_eq_true rfl, Bool.or_true]
    obtain ⟨hacc, hafter⟩ := accepts_reached
      (t := (s.loop.step .event).2.filterMap LinkEffect.ofLoop
        ++ (s.worker.step cfg.worker (.event ev nowUs)).2.filterMap LinkEffect.ofWorker)
      (fun e he => (List.mem_append.mp he).imp mem_ofLoop mem_ofWorker)
    exact ⟨⟨trivial, hacc⟩, hafter⟩

/-- **One step**: what the worker does is in order, and the monitor stays in
step. -/
theorem accepts_step (h : s.Linked) (hfirst : s.SocketFirst) (i : LinkInput) :
    oneProof.Accepts s.reached (s.step cfg i).2 ∧
      oneProof.after s.reached (s.step cfg i).2 = (s.step cfg i).1.reached := by
  unfold step
  split
  · exact ⟨trivial, rfl⟩
  · split <;> exact ⟨trivial, rfl⟩
  · split <;> exact ⟨trivial, rfl⟩
  · split
    · exact ⟨trivial, rfl⟩
    · split <;> exact ⟨trivial, rfl⟩
    · exact ⟨trivial, rfl⟩
  · next hphase =>
    split
    · exact ⟨trivial, rfl⟩
    · next hrecon => exact h.accepts_take hfirst hphase hrecon _
  · have hquiet : ∀ {input : WorkerInput}, ((∃ t, input = .recovered t) ∨
        (∃ nowUs, input = .timer nowUs) ∨ input = .pause ∨ input = .resume) →
        oneProof.Accepts s.reached
            ((s.worker.step cfg.worker input).2.filterMap LinkEffect.ofWorker) ∧
          oneProof.after s.reached
            ((s.worker.step cfg.worker input).2.filterMap LinkEffect.ofWorker) = s.reached := by
      intro input hinput
      rw [(other_frame cfg.worker s.worker hinput).2.2.2]
      exact ⟨trivial, rfl⟩
    split
    · exact hquiet (Or.inl ⟨_, rfl⟩)
    · exact hquiet (Or.inr (Or.inl ⟨_, rfl⟩))
    · exact hquiet (Or.inr (Or.inr (Or.inl rfl)))
    · exact hquiet (Or.inr (Or.inr (Or.inr rfl)))
    · exact ⟨trivial, rfl⟩
  · split <;> exact ⟨trivial, rfl⟩
  · exact ⟨⟨trivial, trivial⟩, rfl⟩
  · exact ⟨trivial, rfl⟩
  · exact ⟨trivial, rfl⟩

/-! ## Whole runs -/

theorem linked_start (cfg : LinkConfig) (carry hasher : RandomState TradingPair) (nowUs : ℕ) :
    (start cfg carry hasher nowUs).Linked := by
  refine ⟨fun _ => rfl, fun _ => rfl, fun _ _ => rfl, fun _ hlive => Bool.noConfusion hlive,
    fun _ _ => ⟨rfl, rfl⟩⟩

/-- **Only the new socket proves recovery** as long as no connection's first
event comes from the poller or from a seed. -/
theorem only_socket_proves (cfg : LinkConfig) (carry hasher : RandomState TradingPair) (nowUs : ℕ)
    (inputs : List LinkInput)
    (h : (machine cfg).Meets (Proves cfg) (start cfg carry hasher nowUs) inputs) :
    oneProof.Accepts false ((machine cfg).run (start cfg carry hasher nowUs) inputs).2 ∧
      ∀ pre, pre <+: inputs →
        ((machine cfg).run (start cfg carry hasher nowUs) pre).1.Untouched := by
  have hsent : (start cfg carry hasher nowUs).Sent cfg := fun _ he => absurd he List.not_mem_nil
  have hfirst : (start cfg carry hasher nowUs).SocketFirst := fun _ hp => nomatch hp
  have hlinked := linked_start cfg carry hasher nowUs
  constructor
  · refine (machine cfg).accepts_of_invariant oneProof
      (I := fun _ s m => s.reached = m ∧ s.Sent cfg ∧ s.SocketFirst ∧ s.Linked) ?_
      ⟨rfl, hsent, hfirst, hlinked⟩ h
    rintro - s m i ⟨rfl, hs, hf, hl⟩ hi
    obtain ⟨hacc, hafter⟩ : oneProof.Accepts s.reached (s.step cfg i).2 ∧ _ :=
      accepts_step hl hf i
    exact ⟨hacc, hafter.symm, sent_step hs i, (socketFirst_step_iff hs hf i).mpr hi,
      linked_step hl hf i⟩
  · intro pre hpre
    refine (((machine cfg).forall_prefix_iff_meets (I := Sent cfg)
      (S := fun s => s.SocketFirst ∧ s.Linked) (P := Proves cfg) (fun _ i hI => sent_step hI i)
      (fun s i hI hS => ?_) hsent ⟨hfirst, hlinked⟩ inputs).mpr h pre hpre).2.to_untouched
    rw [← socketFirst_step_iff hI hS.1 i]
    exact and_iff_left (linked_step hS.2 hS.1 i)

/-! ### A socket that is refused -/

instance (reached : Bool) (e : LinkEffect) : Decidable (oneProof.ok reached e) :=
  match e with
  | .connected | .took _ => .isTrue trivial
  | .confirmed | .triggered | .closed _ => inferInstanceAs (Decidable (reached = true))

instance (s : LinkSystem) (i : LinkInput) : Decidable (s.Foreign cfg i) :=
  match i with
  | .routed _ => inferInstanceAs (Decidable (_ ∧ _))
  | .looped (.fetched _ (.ok _)) _ => inferInstanceAs (Decidable (_ = true))
  | .looped (.fetched _ (.error _)) _ | .looped (.event _) _ | .looped .eventsClosed _
  | .looped .seedDeadline _ | .looped .shutdown _ | .frame _ | .polled _ | .taken _ | .other _
  | .ended .. | .woke .. | .stopped _ => .isFalse not_false

instance (s : LinkSystem) (i : LinkInput) : Decidable (s.Proves cfg i) :=
  inferInstanceAs (Decidable (_ → _ → _ → _))

/-- A worker for SOL on Hyperliquid that reconciles. -/
def solLink : LinkConfig where
  runtime := ⟨Crates.plain, ⟨id, id⟩, "hyperliquid", .bareCoin "USDC", .fullRefresh,
    .restSnapshot, none, [.trades, .fundingRates], false⟩
  worker := ⟨"hyperliquid", "SOL", false, true, true⟩
  policy := ReconnectLoop.oneFailurePolicy
  polls := true

/-- The settlement of noon, received at half past twelve. -/
def noonSettlement : FundingSettlement where
  fundingTimeUs := 1694865600000000
  localTsUs := 1694867400080000
  rttUs := 80000
  pair := ⟨"SOL", "USDC"⟩
  fundingRate := ⟨125, 7⟩
  premium := none
  exchange := "hyperliquid"

/-- The first connection is refused, and the next one is made. -/
def refusedOnce : List LinkInput :=
  [.looped .eventsClosed 10,
    .ended (.failed (.transportError "connection refused")) 10 ReconnectPolicy.middle 10,
    .woke 0 .table 20]

/-- A print of SOL. -/
def solTrade : Trade where
  sourceTradeTsUs := 21
  pair := ⟨"SOL", "USDC"⟩
  side := .buy
  amount := ⟨1, 0⟩
  price := ⟨100, 0⟩
  exchange := "hyperliquid"
  id := "1"

/-- The socket delivers a print, and then the poller its settlement. -/
def printFirst : List LinkInput :=
  refusedOnce ++ [.frame (.trade solTrade none), .polled noonSettlement, .routed 22, .taken 22,
    .routed 23, .taken 23]

theorem only_socket_proves_printFirst :
    (machine solLink).Meets (Proves solLink) (start solLink .table .table 0) printFirst ∧
      oneProof.Accepts false
        ((machine solLink).run (start solLink .table .table 0) printFirst).2 := by
  have h : (machine solLink).Meets (Proves solLink) (start solLink .table .table 0)
      printFirst := by decide
  exact ⟨h, (only_socket_proves solLink .table .table 0 printFirst h).1⟩

/-- The poller's settlement comes, and the socket nothing. -/
def settlementOnly : List LinkInput :=
  refusedOnce ++ [.polled noonSettlement, .routed 22, .taken 22]

/-- **A settlement proves a dead socket.** -/
theorem not_only_socket_proves :
    ¬ (oneProof.Accepts false
        ((machine solLink).run (start solLink .table .table 0) settlementOnly).2 ∨
      ((machine solLink).run (start solLink .table .table 0) settlementOnly).1.Untouched) := by
  rintro (hacc | huntouched)
  · revert hacc
    decide
  · have hgap := (huntouched (by decide) (by decide)).2
    revert hgap
    decide

end LinkSystem
