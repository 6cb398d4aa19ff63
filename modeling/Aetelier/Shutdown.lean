import Aetelier.Driver
import Aetelier.FrameworkWorker
import Aetelier.TradeCarry

/-!
# Graceful shutdown

The drive loop, the runtime and the worker watch one shutdown signal, each
for itself. The drive loop answers it by sending what its buffer still holds.
The runtime looks at the signal before anything else, so once it is given the
runtime takes no event any more and drops its end of the channel: the drain
fails at its first send, and the loop reports that it has completed. The
worker, in turn, may see the signal before it has taken what the runtime
emitted.

The three are one machine whose inputs are the steps of a schedule, up to the
close of the synchronizer. Ghosts record what was decoded, what the runtime
took, what it emitted and the calls by which the worker fed the synchronizer.
Nothing is lost when the signal is given while nothing is on its way to the
runtime and the worker leaves its loop when nothing is on its way to it
(`ShutdownSystem.fed_of_orderly`). On a venue that replays prints at a
resubscribe, a print the worker has fed before is held back by its replay
filter; the filter is a machine of its own (`ReconstructedEvent.replayFilter`).
-/

variable {E : Type}

/-! ## What a worker feeds -/

namespace ReconstructedEvent

/-- The call that feeds an event to the synchronizer. -/
def call : ReconstructedEvent → MarketSynchronizer.Call
  | .book pair tsUs ob => .onOrderbook pair tsUs ob
  | .trade t => .onTrade t
  | .fundingRate fr => .onFunding fr
  | .openInterest oi => .onOpenInterest oi
  | .fundingSettlement fs => .onFundingSettlement fs

/-- The number by which a replay of an event is known: the id of a print, if
it is one. -/
def replayId : ReconstructedEvent → Option ℕ
  | .trade t => parseU64 t.id
  | _ => none

/-- An event at the replay filter: it passes unless its number is known. -/
def passFilter (seen : Option SeenTradeIds) (ev : ReconstructedEvent) :
    Option SeenTradeIds × List ReconstructedEvent :=
  match seen, ev.replayId with
  | some seen, some id =>
    (some (seen.insert id).1, if (seen.insert id).2 then [ev] else [])
  | seen, _ => (seen, [ev])

/-- The replay filter as a machine. -/
def replayFilter : Machine (Option SeenTradeIds) ReconstructedEvent ReconstructedEvent :=
  ⟨passFilter⟩

theorem passFilter_of_some {s : SeenTradeIds} {ev : ReconstructedEvent} {id : ℕ}
    (hid : ev.replayId = some id) :
    passFilter (some s) ev = (some (s.insert id).1, if (s.insert id).2 then [ev] else []) := by
  unfold passFilter
  rw [hid]

/-- An event without a number passes. -/
theorem passFilter_of_none {seen : Option SeenTradeIds} {ev : ReconstructedEvent}
    (h : seen = none ∨ ev.replayId = none) : passFilter seen ev = (seen, [ev]) := by
  unfold passFilter
  split
  · next hid =>
    rcases h with h | h
    · cases h
    · rw [hid] at h
      cases h
  · rfl

/-- The filter knows a number. -/
def Known (seen : Option SeenTradeIds) (id : ℕ) : Prop := ∃ s, seen = some s ∧ id ∈ s.order

end ReconstructedEvent

/-- The call of an effect that feeds an event to the synchronizer. -/
def WorkerEffect.feed : WorkerEffect → Option MarketSynchronizer.Call
  | .call .drain => none
  | .call (.onTime _) => none
  | .call c => some c
  | _ => none

namespace FrameworkWorker

variable {cfg : WorkerConfig} {w : FrameworkWorker}

theorem feed_drainAndEmit (cfg : WorkerConfig) :
    (drainAndEmit cfg).filterMap WorkerEffect.feed = [] := by
  unfold drainAndEmit
  split <;> rfl

theorem feed_arrive (cfg : WorkerConfig) (w : FrameworkWorker) (nowUs : ℕ) :
    (w.arrive cfg nowUs).2.filterMap WorkerEffect.feed = [] := by
  unfold arrive
  split
  · rfl
  · split
    · rfl
    · dsimp only
      split <;> rfl

theorem arrive_keeps (cfg : WorkerConfig) (w : FrameworkWorker) (nowUs : ℕ) :
    (w.arrive cfg nowUs).1.paused = w.paused ∧
      (w.arrive cfg nowUs).1.seenTradeIds = w.seenTradeIds := by
  unfold arrive
  split
  · exact ⟨rfl, rfl⟩
  · split <;> exact ⟨rfl, rfl⟩

theorem deliverLive_frame (cfg : WorkerConfig) (w : FrameworkWorker) (trade : Trade) :
    (w.deliverLive cfg trade).1.seenTradeIds = w.seenTradeIds ∧
      (w.deliverLive cfg trade).2 = [.call (.onTrade trade)] := by
  unfold deliverLive
  split <;> exact ⟨rfl, rfl⟩

/-- **What a worker that is not paused makes of an event**: what passes its
replay filter is fed. -/
theorem feed_handle (h : w.paused = false) (ev : ReconstructedEvent) :
    (w.handle cfg ev).1.seenTradeIds = (ReconstructedEvent.passFilter w.seenTradeIds ev).1 ∧
      (w.handle cfg ev).2.filterMap WorkerEffect.feed
        = (ReconstructedEvent.passFilter w.seenTradeIds ev).2.map ReconstructedEvent.call := by
  have hone : ∀ c : MarketSynchronizer.Call, WorkerEffect.feed (.call c) = some c →
      (WorkerEffect.call c :: drainAndEmit cfg).filterMap WorkerEffect.feed = [c] := by
    intro c hc
    rw [List.filterMap_cons_some hc, feed_drainAndEmit]
  have hdeliver : ∀ (v : FrameworkWorker) (t : Trade),
      ((v.deliverLive cfg t).2 ++ drainAndEmit cfg).filterMap WorkerEffect.feed
        = [.onTrade t] := by
    intro v t
    rw [(deliverLive_frame cfg v t).2]
    exact hone _ rfl
  unfold handle
  rw [if_neg (by rw [h]; exact Bool.false_ne_true)]
  cases ev with
  | trade t =>
    dsimp only
    unfold onLiveTrade
    split
    · next seen tid hseen htid =>
      have hid : (ReconstructedEvent.trade t).replayId = some tid := htid
      rw [hseen, ReconstructedEvent.passFilter_of_some hid]
      dsimp only
      split
      · exact ⟨(deliverLive_frame cfg _ t).1, hdeliver _ t⟩
      · next hknown =>
        refine ⟨?_, rfl⟩
        -- a number that is known leaves the filter as it is
        unfold SeenTradeIds.insert at hknown ⊢
        split
        · exact hseen
        · next hnew =>
          rw [if_neg hnew] at hknown
          exact absurd rfl hknown
    · next hnone =>
      have hfree : w.seenTradeIds = none ∨ (ReconstructedEvent.trade t).replayId = none := by
        cases hseen : w.seenTradeIds with
        | none => exact Or.inl rfl
        | some seen =>
          exact Or.inr (Option.eq_none_iff_forall_not_mem.mpr
            (fun id hid => hnone seen id hseen hid))
      rw [ReconstructedEvent.passFilter_of_none hfree]
      exact ⟨(deliverLive_frame cfg w t).1, hdeliver w t⟩
  | _ =>
    rw [ReconstructedEvent.passFilter_of_none (Or.inr rfl)]
    exact ⟨rfl, hone _ rfl⟩

/-- The same of a turn of a worker that runs. -/
theorem feed_step_event (hended : w.ended = false) (h : w.paused = false)
    (ev : ReconstructedEvent) (nowUs : ℕ) :
    (w.step cfg (.event ev nowUs)).1.seenTradeIds
        = (ReconstructedEvent.passFilter w.seenTradeIds ev).1 ∧
      (w.step cfg (.event ev nowUs)).2.filterMap WorkerEffect.feed
        = (ReconstructedEvent.passFilter w.seenTradeIds ev).2.map ReconstructedEvent.call := by
  obtain ⟨hpaused, hseen⟩ := arrive_keeps cfg w nowUs
  unfold step
  rw [if_neg (by rw [hended]; exact Bool.false_ne_true)]
  dsimp only
  rw [List.filterMap_append, feed_arrive, List.nil_append, ← hseen]
  exact feed_handle (hpaused.trans h) ev

/-- An event does not end a worker. -/
theorem ended_step_event (ev : ReconstructedEvent) (nowUs : ℕ) :
    (w.step cfg (.event ev nowUs)).1.ended = w.ended := by
  unfold step
  split
  · rfl
  · exact (window_handle _ ev).2.trans (ended_arrive w nowUs)

end FrameworkWorker

/-! ## The three tasks -/

/-- **The three tasks of a connection**, and the signal. -/
structure ShutdownSystem (E : Type) where
  /-- The drive loop and its channel to the runtime. -/
  driver : Driver E
  /-- The runtime. -/
  runtime : SourceRuntime
  /-- What it emits, on its way to the worker. -/
  out : Outlet ReconstructedEvent
  /-- The worker. -/
  worker : FrameworkWorker
  /-- The worker is in its loop. -/
  inLoop : Bool
  /-- Shutdown is signalled. -/
  signalled : Bool
  /-- The synchronizer is closed, and this was the exit of the adapter. -/
  finalized : Option TaskExit
  /-- Everything decoded. -/
  decoded : List E
  /-- The domain events the runtime took. -/
  handled : List DomainEvent
  /-- The events it emitted. -/
  emitted : List ReconstructedEvent
  /-- The calls by which the worker fed events to the synchronizer. -/
  fed : List MarketSynchronizer.Call

/-- A step of a schedule. -/
inductive ShutdownStep (E : Type) where
  /-- Shutdown is signalled. -/
  | signal
  /-- The drive loop or its transport. -/
  | driver (i : DriverStep E)
  /-- The runtime takes an event. -/
  | runtimeTake (nowUs : ℕ)
  /-- It takes a seed, the deadline of one, or the end of the events. -/
  | runtimeOther (body : InputBody) (nowUs : ℕ)
  /-- It sends an event it has emitted. -/
  | runtimeEmit
  /-- It sees shutdown. -/
  | runtimeStop
  /-- The worker takes an event. -/
  | workerTake (nowUs : ℕ)
  /-- It is paused or resumed. -/
  | workerPause (paused : Bool)
  /-- It sees shutdown. -/
  | workerStop
  /-- It finds the channel closed. -/
  | workerLeave
  /-- It has joined the other two and closes the synchronizer. -/
  | finalize (nowUs : ℕ)

namespace ShutdownSystem

variable (dc : DriverConfig E) (rc : RuntimeConfig) (wc : WorkerConfig)

/-- A connection that a worker makes. -/
def start (w : FrameworkWorker) (carry : TradeSeqCarry) (hasher : RandomState TradingPair)
    (nowUs : ℕ) : ShutdownSystem E where
  driver := Driver.start
  runtime := (SourceRuntime.connect rc hasher nowUs [wc.symbol] carry).1
  out := .empty
  worker := (w.step wc .connected).1
  inLoop := true
  signalled := false
  finalized := none
  decoded := []
  handled := []
  emitted := []
  fed := []

/-- The runtime has returned, and dropped its ends of both channels. -/
def isOver (s : ShutdownSystem E) : Bool :=
  s.runtime.outcome.isSome && s.out.hand.isEmpty

/-- The runtime is in its select, and shutdown is not signalled: the arm of
the signal comes first. -/
def isReading (s : ShutdownSystem E) : Bool :=
  !s.signalled && s.runtime.outcome.isNone && s.out.hand.isEmpty

/-- The runtime takes an input. -/
def stepRuntime (s : ShutdownSystem E) (body : InputBody) (nowUs : ℕ) : ShutdownSystem E :=
  let r := s.runtime.step rc ⟨body, nowUs, none⟩
  { s with
    runtime := r.1
    out := s.out.load (Effect.events r.2)
    emitted := s.emitted ++ Effect.events r.2 }

/-- **One step of the schedule.** A step that is not possible does
nothing. -/
def step (s : ShutdownSystem E) (i : ShutdownStep E) : ShutdownSystem E × List Unit :=
  match i with
  | .signal => ({ s with signalled := true }, [])
  | .driver i =>
    ({ s with
        driver := s.driver.step dc s.signalled s.isOver i
        decoded := s.decoded ++ s.driver.accepted dc i }, [])
  | .runtimeTake nowUs =>
    match s.isReading, s.driver.out.queue with
    | true, ev :: _ =>
      ({ s with
          driver := { s.driver with out := s.driver.out.pop }
          handled := s.handled ++ [ev] }.stepRuntime rc (.event ev) nowUs, [])
    | _, _ => (s, [])
  | .runtimeOther body nowUs =>
    match s.isReading, body with
    | true, .fetched .. => (s.stepRuntime rc body nowUs, [])
    | true, .seedDeadline => (s.stepRuntime rc body nowUs, [])
    | true, .eventsClosed =>
      if s.driver.isOver ∧ s.driver.out.queue = [] then (s.stepRuntime rc body nowUs, [])
      else (s, [])
    | _, _ => (s, [])
  | .runtimeEmit =>
    if s.out.hand = [] then (s, [])
    else if s.inLoop then ({ s with out := s.out.push dc.capacity }, [])
    else
      -- the receiver is gone: the send fails and the run ends
      ({ s with
          runtime := { s.runtime with outcome := some .finished }
          out := { s.out with hand := [] } }, [])
  | .runtimeStop =>
    if s.signalled ∧ s.runtime.outcome = none ∧ s.out.hand = [] then
      ({ s with runtime := (s.runtime.step rc ⟨.shutdown, 0, none⟩).1 }, [])
    else (s, [])
  | .workerTake nowUs =>
    match s.inLoop, s.out.queue with
    | true, ev :: _ =>
      let r := s.worker.step wc (.event ev nowUs)
      ({ s with
          out := s.out.pop
          worker := r.1
          fed := s.fed ++ r.2.filterMap WorkerEffect.feed }, [])
    | _, _ => (s, [])
  | .workerPause paused =>
    ({ s with worker := (s.worker.step wc (if paused then .pause else .resume)).1 }, [])
  | .workerStop => if s.signalled then ({ s with inLoop := false }, []) else (s, [])
  | .workerLeave =>
    if s.isOver ∧ s.out.queue = [] then ({ s with inLoop := false }, []) else (s, [])
  | .finalize nowUs =>
    match s.inLoop, s.driver.phase, s.finalized with
    | false, .exited e, none =>
      if s.signalled ∧ s.isOver then
        ({ s with finalized := some e, worker := (s.worker.step wc (.stopped nowUs)).1 }, [])
      else (s, [])
    | _, _, _ => (s, [])

/-- The three tasks as a machine. -/
def machine : Machine (ShutdownSystem E) (ShutdownStep E) Unit := ⟨step dc rc wc⟩

/-! ## When nothing is lost -/

/-- **An orderly step.** Shutdown is signalled while nothing is on its way to
the runtime, and nothing is decoded afterwards; a run that ends by itself
leaves nothing either; the worker sees the signal when nothing is on its way
to it, and takes no event while paused. -/
def Orderly (s : ShutdownSystem E) : ShutdownStep E → Prop
  | .signal => s.driver.pending dc = []
  | .driver i => (s.signalled = false ∧ s.runtime.outcome = none) ∨
      (s.driver.accepted dc i).flatMap dc.normalize = []
  | .runtimeTake nowUs => ∀ ev ∈ s.driver.out.queue.head?,
      (s.runtime.step rc ⟨.event ev, nowUs, none⟩).1.outcome ≠ none → s.driver.pending dc = [ev]
  | .runtimeOther body nowUs =>
      (s.runtime.step rc ⟨body, nowUs, none⟩).1.outcome ≠ none → s.driver.pending dc = []
  | .workerTake _ => s.worker.paused = false
  | .workerStop => s.out.content = []
  | _ => True

/-- **Nothing is lost**: the runtime took all that was decoded, in order; what
it emitted was fed in order, less what the replay filter of the worker held
back; and it held back only prints of a number it knew from an earlier
connection or that was fed on this one. -/
structure NothingLost (seen : Option SeenTradeIds) (s : ShutdownSystem E) : Prop where
  handled : s.handled = s.decoded.flatMap dc.normalize
  fed : s.fed = (ReconstructedEvent.replayFilter.run seen s.emitted).2.map ReconstructedEvent.call
  reached : ∀ ev ∈ s.emitted, ev.call ∈ s.fed ∨ ∃ id, ev.replayId = some id ∧
    (ReconstructedEvent.Known seen id ∨
      ∃ ev' : ReconstructedEvent, ev'.call ∈ s.fed ∧ ev'.replayId = some id)

variable {dc rc wc} {seen : Option SeenTradeIds}

variable (dc seen) in
/-- **The account of what was decoded**: what the runtime took, then what is on
its way to it; and of what it emitted: what the worker took and fed, then what
is on its way. Nothing is on its way to a task that reads no more. -/
structure Accounted (s : ShutdownSystem E) : Prop where
  upstream : s.decoded.flatMap dc.normalize = s.handled ++ s.driver.pending dc
  settled : s.signalled = true ∨ s.runtime.outcome ≠ none → s.driver.pending dc = []
  downstream : ∃ taken, s.emitted = taken ++ s.out.content ∧
    s.fed = (ReconstructedEvent.replayFilter.run seen taken).2.map ReconstructedEvent.call ∧
    s.worker.seenTradeIds = (ReconstructedEvent.replayFilter.run seen taken).1
  running : s.finalized = none → s.worker.ended = false
  left : s.inLoop = false →
    s.out.content = [] ∧ (s.signalled = true ∨ s.runtime.outcome ≠ none)
  closed : s.finalized ≠ none → s.signalled = true ∧ s.inLoop = false

/-- A step of the drive loop. -/
theorem Accounted.driver {s : ShutdownSystem E} (h : Accounted dc seen s) {i : DriverStep E}
    (hi : s.Orderly dc rc (.driver i)) : Accounted dc seen (s.step dc rc wc (.driver i)).1 := by
  by_cases hquiet : s.signalled = true ∨ s.runtime.outcome ≠ none
  · -- nothing is on its way, and nothing that matters is decoded
    have hnone : (s.driver.accepted dc i).flatMap dc.normalize = [] := by
      refine hi.resolve_left (fun hrun => ?_)
      rcases hquiet with hsig | hout
      · exact Bool.noConfusion (hsig.symm.trans hrun.1)
      · exact hout hrun.2
    have hpending :=
      (Driver.pending_step_of_nil (h.settled hquiet) s.signalled s.isOver i).trans hnone
    refine ⟨?_, fun _ => hpending, h.downstream, h.running, h.left, h.closed⟩
    show (s.decoded ++ _).flatMap dc.normalize
      = s.handled ++ Driver.pending dc (s.driver.step dc s.signalled s.isOver i)
    rw [hpending, List.flatMap_append, hnone, h.upstream, h.settled hquiet, List.append_nil]
  · obtain ⟨hsig, hout⟩ := not_or.mp hquiet
    have hsig' : s.signalled = false := Bool.eq_false_iff.mpr hsig
    have hover : s.isOver = false := by
      unfold isOver
      rw [not_not.mp hout]
      rfl
    refine ⟨?_, fun hq => absurd hq hquiet, h.downstream, h.running, h.left, h.closed⟩
    show (s.decoded ++ _).flatMap dc.normalize
      = s.handled ++ Driver.pending dc (s.driver.step dc s.signalled s.isOver i)
    rw [hsig', hover, Driver.pending_step, List.flatMap_append, h.upstream, List.append_assoc]

/-- The runtime is reading: it runs, holds nothing, and the worker is in its
loop. -/
theorem Accounted.of_isReading {s : ShutdownSystem E} (h : Accounted dc seen s)
    (hread : s.isReading = true) : s.signalled = false ∧ s.inLoop = true := by
  unfold isReading at hread
  simp only [Bool.and_eq_true, Bool.not_eq_true', Option.isNone_iff_eq_none] at hread
  refine ⟨hread.1.1, ?_⟩
  by_contra hleft
  rcases (h.left (Bool.eq_false_iff.mpr hleft)).2 with hsig | hout
  · exact Bool.noConfusion (hsig.symm.trans hread.1.1)
  · exact hout hread.1.2

/-- The runtime takes an input, and leaves nothing behind if it ends. -/
theorem Accounted.runtime {s : ShutdownSystem E} (h : Accounted dc seen s)
    (hread : s.isReading = true) {body : InputBody} {nowUs : ℕ}
    (hends : (s.runtime.step rc ⟨body, nowUs, none⟩).1.outcome ≠ none → s.driver.pending dc = []) :
    Accounted dc seen (s.stepRuntime rc body nowUs) := by
  obtain ⟨hsig, hloop⟩ := h.of_isReading hread
  refine ⟨h.upstream, fun hq => ?_, ?_, h.running, fun hleft => ?_, h.closed⟩
  · exact hends (hq.resolve_left (fun ht => Bool.noConfusion (ht.symm.trans hsig)))
  · obtain ⟨taken, hemitted, hfed⟩ := h.downstream
    refine ⟨taken, ?_, hfed⟩
    show s.emitted ++ _ = taken ++ (s.out.load _).content
    rw [Outlet.content_load, hemitted, List.append_assoc]
  · exact Bool.noConfusion (hleft.symm.trans hloop)

/-- The runtime takes the oldest event on its way to it. -/
theorem pending_pop (dc : DriverConfig E) {d : Driver E} {ev : DomainEvent}
    {rest : List DomainEvent} (h : d.out.queue = ev :: rest) :
    d.pending dc = ev :: Driver.pending dc { d with out := d.out.pop } := by
  unfold Driver.pending
  rw [Outlet.content_pop h]
  rfl

theorem Accounted.take {s : ShutdownSystem E} (h : Accounted dc seen s) (hread : s.isReading = true)
    {ev : DomainEvent} {rest : List DomainEvent} (hqueue : s.driver.out.queue = ev :: rest)
    {nowUs : ℕ} (hi : s.Orderly dc rc (.runtimeTake nowUs)) :
    Accounted dc seen ({ s with
      driver := { s.driver with out := s.driver.out.pop }
      handled := s.handled ++ [ev] }.stepRuntime rc (.event ev) nowUs) := by
  have hpop := pending_pop dc hqueue
  have htaken : Accounted dc seen { s with
      driver := { s.driver with out := s.driver.out.pop }
      handled := s.handled ++ [ev] } := by
    refine ⟨?_, fun hq => ?_, h.downstream, h.running, h.left, h.closed⟩
    · show s.decoded.flatMap dc.normalize = s.handled ++ [ev] ++ Driver.pending dc _
      rw [h.upstream, hpop, List.append_assoc]
      rfl
    · -- a task that reads no more had nothing to take
      exact absurd (h.settled hq) (by rw [hpop]; exact List.cons_ne_nil _ _)
  refine htaken.runtime hread (fun hends => ?_)
  have hlast := hi ev (by rw [hqueue]; rfl) hends
  rw [hpop] at hlast
  exact (List.cons.inj hlast).2

/-- The worker takes the oldest event on its way to it, and feeds what passes
its replay filter. -/
theorem Accounted.workerTake {s : ShutdownSystem E} (h : Accounted dc seen s)
    (hloop : s.inLoop = true) {ev : ReconstructedEvent} {rest : List ReconstructedEvent}
    (hqueue : s.out.queue = ev :: rest) (hpaused : s.worker.paused = false) {nowUs : ℕ} :
    Accounted dc seen { s with
      out := s.out.pop
      worker := (s.worker.step wc (.event ev nowUs)).1
      fed := s.fed ++ (s.worker.step wc (.event ev nowUs)).2.filterMap WorkerEffect.feed } := by
  have hfin : s.finalized = none := by
    by_contra hfin
    exact Bool.noConfusion ((h.closed hfin).2.symm.trans hloop)
  obtain ⟨hseen, hfeed⟩ :=
    @FrameworkWorker.feed_step_event wc s.worker (h.running hfin) hpaused ev nowUs
  refine ⟨h.upstream, h.settled, ?_, fun _ => ?_,
    fun hleft => Bool.noConfusion (hleft.symm.trans hloop), h.closed⟩
  · obtain ⟨taken, hemitted, hfed, hfilter⟩ := h.downstream
    refine ⟨taken ++ [ev], ?_, ?_, ?_⟩
    · show s.emitted = taken ++ [ev] ++ s.out.pop.content
      rw [hemitted, Outlet.content_pop hqueue, List.append_assoc]
      rfl
    · show s.fed ++ _ = _
      rw [hfeed, hfed, hfilter, ReconstructedEvent.replayFilter.run_append, List.map_append]
      congr 2
      exact (List.append_nil _).symm
    · show (s.worker.step wc (.event ev nowUs)).1.seenTradeIds = _
      rw [hseen, hfilter, Machine.run_append_singleton]
      rfl
  · show (s.worker.step wc (.event ev nowUs)).1.ended = false
    rw [FrameworkWorker.ended_step_event]
    exact h.running hfin

section Sample

open FrameworkWorker (reconciling btc btcPrint)

/-- A runtime of which only the trades are declared. -/
def tradesOnly : RuntimeConfig := { RuntimeConfig.restVenue with declared := [.trades] }

/-- A worker of a venue that replays prints at a resubscribe. -/
def replaying : WorkerConfig := { reconciling with resubscribeReplaysTrades := true }

/-- The sample connection, the first one of its worker. -/
abbrev sample : ShutdownSystem DomainEvent :=
  start tradesOnly replaying (FrameworkWorker.start replaying RandomState.table)
    (HashMap.empty RandomState.table) RandomState.table 0

end Sample

end ShutdownSystem
