import Aetelier.Driver
import Aetelier.ReconnectLoop

/-!
# Resyncs and the backoff ladder

A runtime whose book cannot be repaired in place ends with the request for a
resync, and so does one that is told of a gap of the connection. Its end of
the channel goes with it. The drive loop of the adapter notices at its next
send, which fails, and takes that for a stop: it reports that it has
completed. The worker makes a clean close of it, and the policy retries a clean
close at once and does not count it. The runtime, for its part, relies on the
backoff of the worker to pace the resyncs.

The drive loop, the runtime and the reconnect loop are one machine here. Its
steps are those of a schedule without a stop: connections are made, end and
are made again. A resync is followed by a pause on the ladder where the
transport has failed by itself before the drive loop noticed, and no event of
a connection has set the ladder back (`ResyncSystem.laddered_of_failed`).
-/

/-- What an ended transport makes of the adapter task: a clean close, or a
receiver that is gone, is a natural end. -/
def exitToTask (reason : DisconnectReason) : AdapterExit :=
  match reason with
  | .cleanClose => .completed
  | .receiverDropped => .completed
  | other => .failed other

/-- The same with the reason as a text. -/
def AdapterExit.toTaskExit : AdapterExit → TaskExit
  | completed => .completed
  | drainTimedOut => .drainTimedOut
  | failed reason => .failed reason.display
  | exhausted => .exhausted

namespace ReconnectPolicy

/-- **The ladder**: the delay after so many retries in a row. -/
def rungDelay (p : ReconnectPolicy) (n : ℕ) : ℕ := min (p.initialDelay * 2 ^ n) p.maxDelay

theorem rungDelay_zero (p : ReconnectPolicy) : p.rungDelay 0 = p.initialDelay := by
  unfold rungDelay
  rw [pow_zero, mul_one, min_eq_left p.initialDelay_le]

/-- The next rung is twice as high, up to the longest delay. -/
theorem rungDelay_succ (p : ReconnectPolicy) (n : ℕ) :
    p.rungDelay (n + 1) = min (p.rungDelay n * 2) p.maxDelay := by
  unfold rungDelay
  rw [pow_succ, ← mul_assoc]
  omega

end ReconnectPolicy

variable {E : Type}

/-- What does not change while a worker runs. -/
structure ResyncConfig (E : Type) where
  /-- The drive loop of its adapter. -/
  driver : DriverConfig E
  /-- The runtime. -/
  runtime : RuntimeConfig
  /-- Wire symbol. -/
  symbol : String

/-- **A worker and its connection.** -/
structure ResyncSystem (E : Type) where
  /-- The drive loop and its channel to the runtime. -/
  driver : Driver E
  /-- Why the transport has ended, once it has. -/
  transportReason : Option DisconnectReason
  /-- The runtime. -/
  runtime : SourceRuntime
  /-- What it emits, on its way to the worker. -/
  out : Outlet ReconstructedEvent
  /-- The reconnect loop of the worker. -/
  loop : ReconnectLoop

/-- A step of a schedule. -/
inductive ResyncStep (E : Type) where
  /-- The transport decodes an event. -/
  | decode (ev : E)
  /-- It ends. -/
  | transportEnd (reason : DisconnectReason)
  /-- The drive loop takes an event out of the raw buffer, or sees its end. -/
  | driverTake
  /-- It sends a domain event. -/
  | driverSend
  /-- The runtime takes an event. -/
  | runtimeTake (nowUs : ℕ)
  /-- It takes a seed, the deadline of one, or the end of the events. -/
  | runtimeOther (body : InputBody) (nowUs : ℕ)
  /-- It sends an event it has emitted. -/
  | runtimeEmit
  /-- The worker takes an event. -/
  | workerTake
  /-- It finds the channel closed, joins the other two and asks its policy. -/
  | join (lastedNs : ℕ) (draw : Draw)
  /-- It connects again. -/
  | reconnect (lateNs : ℕ) (hasher : RandomState TradingPair) (nowUs : ℕ)

/-- **A reconnect**: how many there were before, how the runtime ended, and what
the policy decided. -/
structure Reconnection where
  /-- The reconnects before. -/
  round : ℕ
  /-- How the runtime ended. -/
  outcome : Option RuntimeOutcome
  /-- The decision. -/
  decision : Decision

/-- **A reconnect that is paced by the ladder**: the worker waits, and while the
breaker is closed it waits for the delay of the rung, with no more than the
jitter on top. -/
def Reconnection.Laddered (r : Reconnection) : Prop :=
  ∃ after action, r.decision.result = some (after, action) ∧
    ∀ w, action.waitNs r.decision.nowNs = some w → 0 < w ∧
      (r.decision.before.circuitState = .closed → action = .retryAfter w →
        ∃ delayMs, w = delayMs * nsPerMs ∧
          min (r.decision.before.rungDelay r.round / nsPerMs
            * r.decision.reason.suggestedDelayFactor) longestDelayMs ≤ delayMs ∧
          (delayMs : ℚ≥0) ≤ (r.decision.before.rungDelay r.round / nsPerMs
              * r.decision.reason.suggestedDelayFactor : ℕ)
            * (1 + r.decision.before.jitterFactor))

namespace ResyncSystem

variable (c : ResyncConfig E)

/-- A connection that is being made. -/
def connect (loop : ReconnectLoop) (hasher : RandomState TradingPair) (nowUs : ℕ) :
    ResyncSystem E where
  driver := Driver.start
  transportReason := none
  runtime := (SourceRuntime.start c.runtime hasher nowUs [c.symbol]).1
  out := .empty
  loop := loop

/-- The runtime has returned, and dropped its ends of both channels. -/
def isOver (s : ResyncSystem E) : Bool :=
  s.runtime.outcome.isSome && s.out.hand.isEmpty

/-- The runtime takes an input. -/
def stepRuntime (s : ResyncSystem E) (body : InputBody) (nowUs : ℕ) : ResyncSystem E :=
  let r := s.runtime.step c.runtime ⟨body, nowUs, none⟩
  { s with runtime := r.1, out := s.out.load (Effect.events r.2) }

/-- How the adapter task has ended: a failure is that of the transport. -/
def adapterExit (s : ResyncSystem E) : AdapterExit :=
  match s.driver.phase, s.transportReason with
  | .exited (.failed _), some reason => exitToTask reason
  | .exited .exhausted, _ => .exhausted
  | .exited .drainTimedOut, _ => .drainTimedOut
  | _, _ => .completed

/-- The decision among the effects of the reconnect loop. -/
def decisions (effects : List LoopEffect) : List Decision :=
  effects.filterMap (fun
    | .decided d => some d
    | _ => none)

/-- The worker has left its inner loop, and both tasks are over. -/
def canJoin (s : ResyncSystem E) : Bool :=
  s.isOver && s.out.queue.isEmpty && s.driver.isOver && decide (s.loop.phase = .connected)

/-- **One step of the schedule.** A step that is not possible does
nothing. -/
def step (s : ResyncSystem E) (i : ResyncStep E) : ResyncSystem E × List Reconnection :=
  match i with
  | .decode ev => ({ s with driver := s.driver.step c.driver false s.isOver (.decode ev) }, [])
  | .transportEnd reason =>
    ({ s with
        driver := s.driver.step c.driver false s.isOver
          (.transportEnd (exitToTask reason).toTaskExit)
        transportReason := s.transportReason.or (some reason) }, [])
  | .driverTake => ({ s with driver := s.driver.step c.driver false s.isOver .take }, [])
  | .driverSend => ({ s with driver := s.driver.step c.driver false s.isOver .send }, [])
  | .runtimeTake nowUs =>
    match s.runtime.outcome, s.out.hand, s.driver.out.queue with
    | none, [], ev :: _ =>
      ({ s with driver := { s.driver with out := s.driver.out.pop } }.stepRuntime c (.event ev)
        nowUs, [])
    | _, _, _ => (s, [])
  | .runtimeOther body nowUs =>
    match s.runtime.outcome, s.out.hand, body with
    | none, [], .fetched .. => (s.stepRuntime c body nowUs, [])
    | none, [], .seedDeadline => (s.stepRuntime c body nowUs, [])
    | none, [], .eventsClosed =>
      if s.driver.isOver ∧ s.driver.out.queue = [] then (s.stepRuntime c body nowUs, [])
      else (s, [])
    | _, _, _ => (s, [])
  | .runtimeEmit => ({ s with out := s.out.push c.driver.capacity }, [])
  | .workerTake =>
    match s.out.queue with
    | _ :: _ => ({ s with out := s.out.pop, loop := (s.loop.step .event).1 }, [])
    | [] => (s, [])
  | .join lastedNs draw =>
    if s.canJoin then
      let r := s.loop.step (.ended s.adapterExit lastedNs draw)
      ({ s with loop := r.1 },
        (decisions r.2).map (fun d => ⟨s.loop.reconnects, s.runtime.outcome, d⟩))
    else (s, [])
  | .reconnect lateNs hasher nowUs =>
    match s.loop.phase with
    | .waiting _ => (connect c (s.loop.step (.wake lateNs)).1 hasher nowUs, [])
    | _ => (s, [])

/-- The worker and its connections as a machine. -/
def machine : Machine (ResyncSystem E) (ResyncStep E) Reconnection := ⟨step c⟩

/-- **A step that keeps to the ladder.** A connection ends for a reason with a
factor – its transport has failed before the drive loop noticed the end of the
runtime –, or with the end of the worker, and the delay that is due is not
empty; and an event arrives only while the ladder stands at its first rung. -/
def KeepsLadder (s : ResyncSystem E) : ResyncStep E → Prop
  | .workerTake => s.out.queue ≠ [] →
    s.loop.policy.rungDelay s.loop.reconnects = s.loop.policy.initialDelay
  | .join lastedNs _ => s.canJoin = true →
    s.loop.policy.givesUp s.adapterExit.policyReason = true ∨
      match s.loop.policy.circuitState with
      | .closed => 0 < s.adapterExit.policyReason.suggestedDelayFactor ∧
          if s.loop.policy.isLast then 0 < s.loop.policy.maxDelay
          else nsPerMs ≤ s.loop.policy.currentDelay
      | .open => (∃ untilNs ∈ s.loop.policy.cooldownUntil, s.loop.nowNs + lastedNs < untilNs) ∨
          0 < s.loop.policy.initialDelay
      | .halfOpen => 0 < s.loop.policy.cooldownDuration ∧ 0 < s.loop.policy.maxDelay
  | _ => True

/-! ## The ladder -/

variable {c}

/-- **The policy stands on the rung of the retries so far**, as long as its
breaker is closed. -/
def OnLadder (w : ReconnectLoop) : Prop :=
  w.phase ≠ .stopped → w.policy.circuitState = .closed →
    w.policy.currentDelay = w.policy.rungDelay w.reconnects

theorem onLadder_of_stopped {w : ReconnectLoop} (h : w.phase = .stopped) : OnLadder w :=
  fun hrunning => absurd h hrunning

/-- An event at the first rung leaves the policy there. -/
theorem onLadder_event {w : ReconnectLoop} (h : OnLadder w)
    (hfirst : w.policy.rungDelay w.reconnects = w.policy.initialDelay) :
    OnLadder (w.step .event).1 := by
  rcases w.step_cases .event with ⟨hphase, -⟩ | ⟨exit, lastedNs, draw, -, hi⟩ |
    ⟨untilNs, lateNs, -, hi⟩ | ⟨-, hpolicy, hstay⟩
  · rw [ReconnectLoop.step_event hphase]
    unfold ReconnectLoop.onEvent
    split <;> exact fun _ _ => hfirst.symm
  · cases hi
  · cases hi
  · rcases hstay with hstay | hstop
    · rw [hstay]
      exact h
    · exact onLadder_of_stopped hstop

/-- **A decision on the ladder**: the end of a connection that keeps to it. -/
theorem laddered_of_onEnded {w : ReconnectLoop} (h : OnLadder w) (hphase : w.phase = .connected)
    (exit : AdapterExit) (lastedNs : ℕ) (draw : Draw) (outcome : Option RuntimeOutcome)
    (hkeeps : w.policy.givesUp exit.policyReason = true ∨
      match w.policy.circuitState with
      | .closed => 0 < exit.policyReason.suggestedDelayFactor ∧
          if w.policy.isLast then 0 < w.policy.maxDelay else nsPerMs ≤ w.policy.currentDelay
      | .open => (∃ untilNs ∈ w.policy.cooldownUntil, w.nowNs + lastedNs < untilNs) ∨
          0 < w.policy.initialDelay
      | .halfOpen => 0 < w.policy.cooldownDuration ∧ 0 < w.policy.maxDelay) :
    OnLadder (w.onEnded exit lastedNs draw).1 ∧
      ∀ d ∈ decisions (w.onEnded exit lastedNs draw).2,
        Reconnection.Laddered ⟨w.reconnects, outcome, d⟩ := by
  rcases w.onEnded_cases exit lastedNs draw with hend | ⟨hpanic, hend⟩ |
    ⟨after, action, hans, hend⟩
  · rw [hend]
    exact ⟨onLadder_of_stopped rfl, fun d hd => absurd hd List.not_mem_nil⟩
  · -- nothing is drawn for an empty delay
    obtain ⟨hup, hclosed, hlast, hshort⟩ := ReconnectPolicy.nextAction_eq_none hpanic
    rw [hup, or_iff_right Bool.false_ne_true, hclosed, hlast] at hkeeps
    exact absurd hkeeps.2 (Nat.not_le.mpr hshort)
  · rw [hend]
    have hone : ∀ d' : Decision, (∀ d ∈ decisions [.decided d'],
        Reconnection.Laddered ⟨w.reconnects, outcome, d⟩)
        ↔ Reconnection.Laddered ⟨w.reconnects, outcome, d'⟩ := fun d' => List.forall_mem_singleton
    rw [hone]
    have hrunning : w.phase ≠ .stopped := fun hstop => by rw [hphase] at hstop; cases hstop
    -- a wait of the breaker has only to be positive
    have htripped : ∀ {n : ℕ}, action.waitNs (w.nowNs + lastedNs) = some n → 0 < n →
        (w.policy.circuitState = .closed → action ≠ .retryAfter n) →
        Reconnection.Laddered ⟨w.reconnects, outcome,
          ⟨w.policy, w.nowNs + lastedNs, exit.policyReason, some (after, action)⟩⟩ := by
      intro n hwait hpos hother
      refine ⟨after, action, rfl, fun n' hn' => ?_⟩
      obtain rfl := Option.some.inj (hwait.symm.trans hn')
      exact ⟨hpos, fun hclosed hsame => absurd hsame (hother hclosed)⟩
    cases hans with
    | gaveUp hup =>
      exact ⟨onLadder_of_stopped rfl, _, _, rfl, fun n hn => by cases hn⟩
    | atOnce hup hclosed hfactor =>
      rw [hup, or_iff_right Bool.false_ne_true, hclosed] at hkeeps
      exact absurd hfactor hkeeps.1.ne'
    | rung hup hclosed hpos hlast delayMs hle hge =>
      rw [hup, or_iff_right Bool.false_ne_true, hclosed, hlast] at hkeeps
      have hstands := h hrunning hclosed
      have hbase : w.policy.baseMs exit.policyReason
          = w.policy.rungDelay w.reconnects / nsPerMs * exit.policyReason.suggestedDelayFactor := by
        unfold ReconnectPolicy.baseMs
        rw [hstands]
      refine ⟨fun _ _ => ?_, _, _, rfl, fun n hn => ?_⟩
      · show min (w.policy.currentDelay * 2) w.policy.maxDelay
          = w.policy.rungDelay (w.reconnects + 1)
        rw [hstands, ReconnectPolicy.rungDelay_succ]
      · obtain rfl := Option.some.inj hn
        have hlong : 0 < delayMs := by
          refine lt_of_lt_of_le (lt_min ?_ (by decide)) hle
          exact (ReconnectPolicy.baseMs_pos_iff hpos).mpr hkeeps.2
        refine ⟨Nat.mul_pos hlong (by decide), fun _ _ => ⟨delayMs, rfl, hbase ▸ hle, ?_⟩⟩
        rw [mul_add, mul_one]
        exact hbase ▸ hge
    | opened hup hclosed hlast =>
      rw [hup, or_iff_right Bool.false_ne_true, hclosed, hlast] at hkeeps
      refine ⟨fun _ hc => (by cases hc), htripped rfl ?_ (fun _ hsame => by cases hsame)⟩
      rw [Nat.add_sub_cancel_left]
      exact Nat.mul_pos hkeeps.2 (by decide)
    | cooling hup hopen untilNs huntil hlt =>
      refine ⟨fun _ hc => absurd (hopen.symm.trans hc) (by decide),
        htripped rfl (Nat.sub_pos_of_lt hlt) (fun _ hsame => by cases hsame)⟩
    | halfOpened hup hopen hover =>
      rw [hup, or_iff_right Bool.false_ne_true, hopen] at hkeeps
      refine ⟨fun _ hc => (by cases hc), htripped rfl ?_
        (fun hc => absurd (hopen.symm.trans hc) (by decide))⟩
      refine hkeeps.resolve_left ?_
      rintro ⟨untilNs, huntil, hlt⟩
      exact absurd (hover untilNs huntil) (Nat.not_le.mpr hlt)
    | reopened hup hhalf =>
      rw [hup, or_iff_right Bool.false_ne_true, hhalf] at hkeeps
      refine ⟨fun _ hc => (by cases hc), htripped rfl ?_ (fun _ hsame => by cases hsame)⟩
      rw [Nat.add_sub_cancel_left]
      exact lt_min (Nat.mul_pos hkeeps.1 (by decide)) (Nat.mul_pos hkeeps.2 (by decide))

/-- **One step keeps to the ladder.** -/
theorem onLadder_step {s : ResyncSystem E} (h : OnLadder s.loop) {i : ResyncStep E}
    (hi : s.KeepsLadder i) :
    OnLadder (s.step c i).1.loop ∧ ∀ r ∈ (s.step c i).2, r.Laddered := by
  have hquiet : ∀ r ∈ ([] : List Reconnection), r.Laddered :=
    fun r hr => absurd hr List.not_mem_nil
  unfold step
  cases i with
  | workerTake =>
    dsimp only
    split
    · next ev rest hqueue =>
      refine ⟨onLadder_event h (hi ?_), hquiet⟩
      rw [hqueue]
      exact List.cons_ne_nil _ _
    · exact ⟨h, hquiet⟩
  | join lastedNs draw =>
    dsimp only
    split
    · next hjoin =>
      have hphase : s.loop.phase = .connected := by
        unfold canJoin at hjoin
        exact of_decide_eq_true (Bool.and_eq_true_iff.mp hjoin).2
      rw [ReconnectLoop.step_ended hphase]
      obtain ⟨hladder, hall⟩ := laddered_of_onEnded h hphase s.adapterExit lastedNs draw
        s.runtime.outcome (hi hjoin)
      exact ⟨hladder, List.forall_mem_map.mpr hall⟩
    · exact ⟨h, hquiet⟩
  | reconnect lateNs hasher nowUs =>
    dsimp only
    split
    · next untilNs hphase =>
      refine ⟨?_, hquiet⟩
      show OnLadder (s.loop.step (.wake lateNs)).1
      rw [ReconnectLoop.step_wake hphase]
      refine fun _ hclosed => h (fun hstop => ?_) hclosed
      rw [hphase] at hstop
      cases hstop
    · exact ⟨h, hquiet⟩
  | runtimeTake nowUs =>
    dsimp only
    split <;> exact ⟨h, hquiet⟩
  | runtimeOther body nowUs =>
    dsimp only
    split
    · exact ⟨h, hquiet⟩
    · exact ⟨h, hquiet⟩
    · split <;> exact ⟨h, hquiet⟩
    · exact ⟨h, hquiet⟩
  | _ => exact ⟨h, hquiet⟩

variable (c) in
/-- **The reconnects of a worker are paced by the ladder** in every run, for
every configuration, whose steps keep to it. -/
theorem laddered_of_failed {settings : ReconnectSection} {p : ReconnectPolicy}
    (hp : settings.frameworkReconnectPolicy = some p) (hasher : RandomState TradingPair)
    (nowUs : ℕ) (steps : List (ResyncStep E))
    (hsteps : (machine c).Meets KeepsLadder (connect c (.start p) hasher nowUs) steps) :
    ∀ r ∈ ((machine c).run (connect c (.start p) hasher nowUs) steps).2, r.Laddered := by
  refine ((machine c).forall_of_invariant (I := fun s => OnLadder s.loop)
    (fun s i h hi => onLadder_step h hi) (fun _ _ => ?_) hsteps).2
  -- the first connection starts at the first rung
  show p.currentDelay = p.rungDelay 0
  rw [ReconnectPolicy.rungDelay_zero]
  exact (ReconnectLoop.fresh_of_frameworkReconnectPolicy hp).2.2

/-! ## A sample -/

section Sample

/-- A worker of a venue that numbers all frames of a socket; its decoder yields
domain events. -/
def gapWorker : ResyncConfig DomainEvent where
  driver := ⟨fun ev => [ev], defaultRawBuffer, 64⟩
  runtime := ⟨Crates.plain, ⟨id, id⟩, "coinbase", .hyphen, .seqDelta .monotonic .wssSelfSeed,
    .resubscribe, none, [.orderbook], false⟩
  symbol := "BTC-USD"

/-- The default policy of a worker. -/
def workerPolicy : ReconnectPolicy :=
  { ReconnectPolicy.byDefault with jitterFactor := (1 / 2 : ℚ).toNNRat }

/-- Its first connection. -/
abbrev firstConnection : ResyncSystem DomainEvent :=
  connect gapWorker (.start workerPolicy) RandomState.table 0

/-- The venue has dropped messages, and the runtime is told. -/
def gapArrives : List (ResyncStep DomainEvent) :=
  [.decode (.connectionGap 3), .driverTake, .driverSend]

/-- The runtime ends, and the drive loop notices at its next send. -/
def resyncAtOnce : List (ResyncStep DomainEvent) :=
  gapArrives ++ .runtimeTake 1 :: gapArrives ++ [.join 0 ReconnectPolicy.middle]

/-- How the reconnects of a run went. -/
def paces (rs : List Reconnection) : List (Option RuntimeOutcome × Option ReconnectAction) :=
  rs.map (fun r => (r.outcome, r.decision.result.map Prod.snd))

/-- **A resync that is followed by no pause.** -/
theorem not_laddered_resyncAtOnce :
    ¬ ∀ r ∈ ((machine gapWorker).run firstConnection resyncAtOnce).2,
      r.outcome = some .resyncRequired → r.Laddered := by
  have hrun : paces ((machine gapWorker).run firstConnection resyncAtOnce).2
      = [(some .resyncRequired, some .retryImmediately)] := by decide
  obtain ⟨r, hr, hpace⟩ : ∃ r ∈ ((machine gapWorker).run firstConnection resyncAtOnce).2,
      (r.outcome, r.decision.result.map Prod.snd)
        = (some .resyncRequired, some .retryImmediately) := by
    refine List.mem_map.mp ?_
    show _ ∈ paces _
    rw [hrun]
    exact List.mem_singleton.mpr rfl
  obtain ⟨hresync, himm⟩ := Prod.mk.inj hpace
  intro h
  obtain ⟨after, action, hresult, hwait⟩ := h r hr hresync
  rw [hresult] at himm
  obtain rfl : action = .retryImmediately := Option.some.inj himm
  exact lt_irrefl 0 (hwait 0 rfl).1

/-- The transport fails before the runtime takes the gap. -/
def resyncAfterFailure : List (ResyncStep DomainEvent) :=
  gapArrives ++ [.transportEnd (.transportError "connection reset"), .driverTake, .runtimeTake 1,
    .join 0 ReconnectPolicy.middle]

/-- And again on the next connection. -/
def resyncTwice : List (ResyncStep DomainEvent) :=
  resyncAfterFailure ++ .reconnect 0 RandomState.table 0 :: resyncAfterFailure

/-- The second resync is on the ladder, too. -/
theorem keepsLadder_second :
    ((machine gapWorker).run firstConnection (resyncTwice.take 14)).1.KeepsLadder
      (.join 0 ReconnectPolicy.middle) := by
  have hclosed : ((machine gapWorker).run firstConnection
      (resyncTwice.take 14)).1.loop.policy.circuitState = .closed := by decide +kernel
  unfold KeepsLadder
  dsimp only
  rw [hclosed]
  exact fun _ => Or.inr ⟨by decide +kernel, by decide +kernel⟩

/-- The resyncs are followed by the first two pauses of the ladder. -/
theorem laddered_resyncTwice :
    (∀ r ∈ ((machine gapWorker).run firstConnection resyncTwice).2, r.Laddered) ∧
      paces ((machine gapWorker).run firstConnection resyncTwice).2
        = [(some .resyncRequired, some (.retryAfter 2500000000)),
          (some .resyncRequired, some (.retryAfter 5000000000))] := by
  have hpolicy : ({} : ReconnectSection).frameworkReconnectPolicy = some workerPolicy := rfl
  refine ⟨laddered_of_failed gapWorker hpolicy RandomState.table 0 resyncTwice ?_,
    by decide +kernel⟩
  have hlast : resyncTwice = resyncTwice.take 14 ++ [.join 0 ReconnectPolicy.middle] := rfl
  rw [hlast]
  refine Machine.meets_append_singleton ⟨trivial, trivial, trivial, trivial, trivial, trivial,
    fun _ => Or.inr ?_, trivial, trivial, trivial, trivial, trivial, trivial, trivial, trivial⟩
    keepsLadder_second
  show 0 < _ ∧ if _ then 0 < _ else nsPerMs ≤ _
  exact ⟨by decide, by decide⟩

end Sample

end ResyncSystem
