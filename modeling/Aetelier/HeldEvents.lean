import Aetelier.MarketFinalize
import Aetelier.WorkerOutput
import Mathlib.Data.Multiset.Bind

/-!
# What a worker holds

An event that a worker takes waits in its synchronizer until its row is closed,
is in a row that was not drained yet, goes with the row into the buffer of the
sink, and with a flush that returns `Ok` into a file. On its way it can be
dropped as late, be shed by a buffer that is full, or be lost with the memory.

The code knows none of this of a single event. `Held` follows each event, with
the key of the object it came from, through the effects of the worker: where a
row goes is read off the buffer of the sink before and after the flush.
`Held.Faithful` says that what it notes is so, and `Held.Faithful.step` that
every effect keeps it: what waits is what is pending, and a row that is said to
hold an event does.
-/

/-! ## What is fed -/

/-- What a call gives the synchronizer to put into a row. -/
inductive Fed where
  | event (e : MarketEvent)
  /-- A book, by its time. -/
  | book (tsUs : ℕ)
deriving DecidableEq

/-- What a call feeds, if it feeds something. -/
def MarketSynchronizer.Call.feeds : MarketSynchronizer.Call → Option Fed
  | .onOrderbook _ tsUs _ => some (.book tsUs)
  | .onTrade tr => some (.event (.trade tr))
  | .onLiquidation lq => some (.event (.liquidation lq))
  | .onFunding fr => some (.event (.funding fr))
  | .onFundingSettlement fs => some (.event (.settlement fs))
  | .onOpenInterest oi => some (.event (.openInterest oi))
  | .onTime _ | .drain => none

namespace Fed

/-- The row it goes out with. A book goes out with the first row closed behind
it. -/
def row (s : MarketSynchronizer) (prev : ℕ) : Fed → ℕ
  | event e => s.target prev e
  | book tsUs => max (s.rowOf tsUs) (prev + 1)

/-- The events among what is fed. -/
def events : Fed → Multiset MarketEvent
  | event e => {e}
  | book _ => 0

end Fed

/-- The sink writes events of this kind. -/
def MarketEvent.Declared (declared : List DeclaredDatatype) : MarketEvent → Prop
  | trade _ => .trades ∈ declared
  | liquidation _ => .liquidations ∈ declared
  | funding _ => .fundingRates ∈ declared
  | openInterest _ => .openInterest ∈ declared
  | settlement _ => True

/-! ## Where it is -/

/-- **Where something that was fed is.** -/
inductive Place where
  /-- In the synchronizer, without a row. -/
  | waiting
  /-- In a row that was not drained yet, by its place among these. -/
  | ready (index : ℕ)
  /-- In a row in the buffer of the sink, by the number of the row. -/
  | buffered (number : ℕ)
  /-- In a row of a flush that returned `Ok`. -/
  | flushed
  /-- Dropped and counted as late. -/
  | late
  /-- Gone, with the memory or with a row that was shed. -/
  | lost
deriving DecidableEq

namespace Place

/-- It is in the synchronizer or in the buffer of the sink. -/
def inMemory : Place → Bool
  | waiting | ready _ | buffered _ => true
  | flushed | late | lost => false

/-- It has come to the sink. -/
def reached : Place → Bool
  | buffered _ | flushed => true
  | waiting | ready _ | late | lost => false

/-- It is in a file, or was dropped as late. -/
def settled : Place → Bool
  | flushed | late => true
  | waiting | ready _ | buffered _ | lost => false

/-- **Where a row goes that a drain gives the sink**: it is shed, or stays in the
buffer, or leaves it with the flush. A flush that returns `Ok` is the only way
out of the buffer but shedding. -/
def ofRow (given left : List ℕ) (number : ℕ) : Place :=
  if number ∉ given then lost else if number ∈ left then buffered number else flushed

end Place

/-- **Something that was fed.** -/
structure HeldEvent where
  /-- The key of the object it came from. -/
  key : String
  fed : Fed
  place : Place
deriving DecidableEq

namespace HeldEvent

/-- The clock passes the rows `(prev, last]`. -/
def advance (s : MarketSynchronizer) (prev last : ℕ) (p : HeldEvent) : HeldEvent :=
  if p.place = .waiting then
    { p with
      place :=
        if p.fed.row s prev ≤ prev then .late
        else if p.fed.row s prev ≤ last then
          .ready (s.buffer.length + (p.fed.row s prev - prev - 1))
        else .waiting }
  else p

/-- The terminal rows, of which the first has this place, take what waits. -/
def close (first : ℕ) (p : HeldEvent) : HeldEvent :=
  if p.place = .waiting then { p with place := .ready first } else p

/-- A drain. The rows are numbered from `emitted` on; `given` are the numbers in
the buffer when it has got them, `left` those that are there at the end. -/
def drain (emitted : ℕ) (given left : List ℕ) (p : HeldEvent) : HeldEvent :=
  match p.place with
  | .ready i => { p with place := .ofRow given left (emitted + i) }
  | .buffered n => { p with place := .ofRow given left n }
  | _ => p

/-- The memory is lost. -/
def lose (p : HeldEvent) : HeldEvent := if p.place.inMemory then { p with place := .lost } else p

/-- The events that are pending with it. -/
def pending (p : HeldEvent) : Multiset MarketEvent := if p.place = .waiting then p.fed.events else 0

end HeldEvent

namespace OutputSinkSet

/-- The buffered sink, the first of the set. -/
def sink? (set : OutputSinkSet) : Option BufferedSink :=
  match set.sinks with
  | .buffered sink :: _ => some sink
  | _ => none

/-- The rows in its buffer, with their numbers. -/
def stored (set : OutputSinkSet) : List (ℕ × MarketSnapshot) :=
  (set.sink?.map BufferedSink.buffer).getD []

/-- The number of the next row. -/
def emitted (set : OutputSinkSet) : ℕ := (set.sink?.map BufferedSink.eventsEmitted).getD 0

end OutputSinkSet

/-- **What a worker was fed, and what it wrote.** -/
structure Held where
  /-- What it was fed, and where that is. -/
  events : List HeldEvent
  /-- The rows of the flushes that returned `Ok`. -/
  written : List MarketSnapshot

namespace Held

/-- Nothing. -/
def empty : Held := ⟨[], []⟩

/-- The keys of what is in some places. -/
def keys (P : Place → Bool) (h : Held) : List String :=
  (h.events.filter (fun p => P p.place)).map HeldEvent.key

/-- What a call feeds, with its key. -/
def added (place : Place) (key : Option String) (c : MarketSynchronizer.Call) : List HeldEvent :=
  match key, c.feeds with
  | some key, some fed => [⟨key, fed, place⟩]
  | _, _ => []

/-- A call of the synchronizer. What it feeds waits; the rows it emits take what
belongs to them. -/
def call (s : MarketSynchronizer) (key : Option String) (c : MarketSynchronizer.Call) (h : Held) :
    Held :=
  let events := h.events ++ added .waiting key c
  match s.advance c with
  | none => { h with events := events }
  | some (prev, current) =>
    { h with
      events := events.map
        (HeldEvent.advance s prev (prev + MarketSynchronizer.fillCount prev current)) }

/-- A drain, which took the output from `o` to `o'`. -/
def drain (o o' : WorkerOutput) (h : Held) : Held :=
  let given := o.drainAndEmit.set.stored
  let left := o'.set.stored.map Prod.fst
  { events := h.events.map (HeldEvent.drain o.set.emitted (given.map Prod.fst) left)
    written := h.written ++ (given.filter (fun r => decide (r.1 ∉ left))).map Prod.snd }

/-- The synchronizer is closed. A clock that was never driven has no terminal
row. -/
def finalize (s : MarketSynchronizer) (h : Held) : Held :=
  if s.clocks = [] then h
  else { h with events := h.events.map (HeldEvent.close s.buffer.length) }

/-- **An effect of the worker**, that took its output from `o` to `o'`. A
synchronizer that is closed counts what it is fed as late; a worker that has
returned takes nothing. -/
def step (o o' : WorkerOutput) (key : Option String) (effect : WorkerEffect) (h : Held) : Held :=
  match effect with
  | .call .drain => if o.returned.isSome then h else h.drain o o'
  | .call c =>
    if o.returned.isSome then { h with events := h.events ++ added .lost key c }
    else if o.sync.finalized then { h with events := h.events ++ added .late key c }
    else h.call o.sync key c
  | .finalize => if o.returned.isSome ∨ o.sync.finalized then h else h.finalize o.sync
  | .incident _ | .trigger => h

/-- The process stops: the files stay. -/
def crash (h : Held) : Held := { h with events := h.events.map HeldEvent.lose }

/-- An object is fetched once more: what was lost of it comes again. -/
def refetched (key : String) (h : Held) : Held :=
  { h with events := h.events.filter (fun p => decide ¬ (p.key = key ∧ p.place = .lost)) }

/-- The keys of what is in no file and not late. -/
def unsettled (h : Held) : List String := h.keys (fun place => !place.settled)

/-! ## The keys after an effect -/

variable {h : Held} {key : String}

theorem mem_keys {P : Place → Bool} :
    key ∈ h.keys P ↔ ∃ p ∈ h.events, P p.place = true ∧ p.key = key := by
  unfold keys
  rw [List.mem_map]
  constructor
  · rintro ⟨p, hp, hkey⟩
    exact ⟨p, (List.mem_filter.mp hp).1, (List.mem_filter.mp hp).2, hkey⟩
  · rintro ⟨p, hp, hplace, hkey⟩
    exact ⟨p, List.mem_filter.mpr ⟨hp, hplace⟩, hkey⟩

theorem mem_unsettled :
    key ∈ h.unsettled ↔ ∃ p ∈ h.events, p.place.settled = false ∧ p.key = key := by
  unfold unsettled
  simp only [mem_keys, Bool.not_eq_true']

/-- What is in no file and not late is in memory, or lost. -/
theorem mem_unsettled_iff :
    key ∈ h.unsettled ↔
      key ∈ h.keys Place.inMemory ∨ key ∈ h.keys (fun place => decide (place = .lost)) := by
  rw [mem_unsettled, mem_keys, mem_keys, ← exists_or]
  refine exists_congr (fun p => ?_)
  rw [← and_or_left, ← or_and_right]
  refine and_congr_right (fun _ => and_congr_left (fun _ => ?_))
  cases p.place <;> simp [Place.settled, Place.inMemory]

/-- A move that takes nothing out of a file. -/
structure Moves (f : HeldEvent → HeldEvent) : Prop where
  key : ∀ p, (f p).key = p.key
  settled : ∀ p, p.place.settled = true → f p = p

theorem moves_advance (s : MarketSynchronizer) (prev last : ℕ) :
    Moves (HeldEvent.advance s prev last) where
  key := fun p => by unfold HeldEvent.advance; split <;> rfl
  settled := fun p hp => if_neg (fun hwaiting => by rw [hwaiting] at hp; cases hp)

theorem moves_close (first : ℕ) : Moves (HeldEvent.close first) where
  key := fun p => by unfold HeldEvent.close; split <;> rfl
  settled := fun p hp => if_neg (fun hwaiting => by rw [hwaiting] at hp; cases hp)

theorem moves_drain (emitted : ℕ) (given left : List ℕ) :
    Moves (HeldEvent.drain emitted given left) where
  key := fun p => by unfold HeldEvent.drain; split <;> rfl
  settled := fun p hp => by
    unfold HeldEvent.drain
    split
    · next hready => rw [hready] at hp; cases hp
    · next hbuffered => rw [hbuffered] at hp; cases hp
    · rfl

theorem moves_lose : Moves HeldEvent.lose where
  key := fun p => by unfold HeldEvent.lose; split <;> rfl
  settled := fun p hp => if_neg (fun hmemory => by
    unfold Place.settled at hp
    unfold Place.inMemory at hmemory
    split at hp
    · next hflushed => rw [hflushed] at hmemory; cases hmemory
    · next hlate => rw [hlate] at hmemory; cases hmemory
    all_goals cases hp)

theorem mem_unsettled_map {f : HeldEvent → HeldEvent} (hf : Moves f) {events : List HeldEvent}
    {written written' : List MarketSnapshot}
    (hkey : key ∈ unsettled ⟨events.map f, written⟩) : key ∈ unsettled ⟨events, written'⟩ := by
  obtain ⟨p', hp', hplace, hname⟩ := mem_unsettled.mp hkey
  obtain ⟨p, hp, rfl⟩ := List.mem_map.mp hp'
  refine mem_unsettled.mpr ⟨p, hp, ?_, (hf.key p).symm.trans hname⟩
  by_contra hsettled
  rw [Bool.not_eq_false] at hsettled
  rw [hf.settled p hsettled, hsettled] at hplace
  cases hplace

theorem mem_unsettled_added {place : Place} {fedKey : Option String}
    {c : MarketSynchronizer.Call}
    (hkey : key ∈ unsettled ⟨h.events ++ added place fedKey c, h.written⟩) :
    key ∈ h.unsettled ∨ fedKey = some key := by
  obtain ⟨p, hp, hplace, hname⟩ := mem_unsettled.mp hkey
  rcases List.mem_append.mp hp with hold | hnew
  · exact Or.inl (mem_unsettled.mpr ⟨p, hold, hplace, hname⟩)
  · unfold added at hnew
    split at hnew
    · rw [List.mem_singleton.mp hnew] at hname
      exact Or.inr (congrArg some hname)
    · cases hnew

/-- **An effect unsettles no key but that of the event it comes from.** -/
theorem mem_unsettled_step {o o' : WorkerOutput} {fedKey : Option String} {effect : WorkerEffect}
    (hkey : key ∈ (h.step o o' fedKey effect).unsettled) :
    key ∈ h.unsettled ∨ fedKey = some key := by
  unfold step at hkey
  split at hkey
  · split at hkey
    · exact Or.inl hkey
    · exact Or.inl (mem_unsettled_map (moves_drain _ _ _) hkey)
  · split at hkey
    · exact mem_unsettled_added hkey
    · split at hkey
      · exact mem_unsettled_added hkey
      · unfold call at hkey
        dsimp only at hkey
        split at hkey
        · exact mem_unsettled_added hkey
        · exact mem_unsettled_added (mem_unsettled_map (moves_advance _ _ _) hkey)
  · split at hkey
    · exact Or.inl hkey
    · unfold finalize at hkey
      split at hkey
      · exact Or.inl hkey
      · exact Or.inl (mem_unsettled_map (moves_close _) hkey)
  · exact Or.inl hkey
  · exact Or.inl hkey

theorem mem_unsettled_crash (hkey : key ∈ h.crash.unsettled) : key ∈ h.unsettled :=
  mem_unsettled_map moves_lose hkey

theorem mem_unsettled_refetched {other : String} (hkey : key ∈ (h.refetched other).unsettled) :
    key ∈ h.unsettled := by
  obtain ⟨p, hp, hplace, hname⟩ := mem_unsettled.mp hkey
  exact mem_unsettled.mpr ⟨p, (List.mem_filter.mp hp).1, hplace, hname⟩

/-! ## What the notes stand for -/

/-- The events that wait. -/
def waiting (h : Held) : Multiset MarketEvent :=
  Multiset.bind (h.events : Multiset HeldEvent) HeldEvent.pending

end Held

namespace Fed

/-- A row of the synchronizer has it. -/
def InRow (row : MarketSnapshot) (fed : Fed) : Prop := ∀ e ∈ fed.events, e ∈ row.events

/-- A row of the sink has it, if the sink writes its kind. -/
def InStored (declared : List DeclaredDatatype) (row : MarketSnapshot) (fed : Fed) : Prop :=
  ∀ e ∈ fed.events, e.Declared declared → e ∈ row.events

end Fed

/-- The rows of a sink are numbered in their order. -/
structure BufferedSink.Numbered (sink : BufferedSink) : Prop where
  increasing : (sink.buffer.map Prod.fst).Pairwise (· < ·)
  below : ∀ r ∈ sink.buffer, r.1 < sink.eventsEmitted

/-- **The notes are so**: what waits is what is pending, until the synchronizer
is closed; what is ready is in the row at that place, what is buffered in the
row of that number, and what is flushed in a row that was written. -/
structure Held.Faithful (declared : List DeclaredDatatype) (o : WorkerOutput) (h : Held) :
    Prop where
  closing : o.closing = o.sync.finalized
  waiting : o.closing = false → h.waiting = o.sync.pending
  ready : ∀ p ∈ h.events, ∀ i, p.place = .ready i →
    ∃ row, o.sync.buffer[i]? = some row ∧ p.fed.InRow row
  sink : ∃ sink, o.set.sink? = some sink ∧ sink.declared = declared ∧ sink.Numbered ∧
    ∀ p ∈ h.events, ∀ n, p.place = .buffered n →
      ∃ row, (n, row) ∈ sink.buffer ∧ p.fed.InStored declared row
  flushed : ∀ p ∈ h.events, p.place = .flushed →
    ∃ row ∈ h.written, p.fed.InStored declared row

/-! ## The rows of a sink -/

theorem MarketSnapshot.mem_events {row : MarketSnapshot} {e : MarketEvent} :
    e ∈ row.events ↔ match e with
      | .trade tr => tr ∈ row.trades
      | .liquidation lq => lq ∈ row.liquidations
      | .funding fr => fr ∈ row.fundingRate
      | .openInterest oi => oi ∈ row.openInterest
      | .settlement fs => fs ∈ row.fundingSettlements := by
  unfold MarketSnapshot.events eventsOf
  cases e <;> simp

/-- A declared event stays in its row. -/
theorem MarketSnapshot.mem_events_strip {row : MarketSnapshot} {declared : List DeclaredDatatype}
    {e : MarketEvent} (he : e ∈ row.events) (hdeclared : e.Declared declared) :
    e ∈ (row.strip declared).events := by
  rw [MarketSnapshot.mem_events] at he ⊢
  unfold MarketSnapshot.strip
  cases e with
  | settlement fs => exact he
  | _ =>
    dsimp only at he ⊢
    rw [if_pos (show _ ∈ declared from hdeclared)]
    exact he

namespace BufferedSink

variable {sink : BufferedSink}

theorem declared_foldl (rows : List MarketSnapshot) (sink : BufferedSink) :
    (rows.foldl emitSnapshot sink).declared = sink.declared := by
  induction rows generalizing sink with
  | nil => rfl
  | cons row rows ih => exact ih _

theorem Numbered.emitSnapshot (h : sink.Numbered) (row : MarketSnapshot) :
    (sink.emitSnapshot row).Numbered := by
  unfold BufferedSink.emitSnapshot
  dsimp only
  generalize (if maxBufferedSnapshots ≤ sink.buffer.length then
    min overflowDropChunk sink.buffer.length else 0) = drop
  refine ⟨?_, fun r hr => ?_⟩
  · dsimp only
    rw [List.map_append, List.map_drop]
    refine List.pairwise_append.mpr ⟨h.increasing.drop, List.pairwise_singleton _ _, ?_⟩
    intro n hn m hm
    rw [List.mem_singleton.mp hm]
    obtain ⟨r, hr, rfl⟩ := List.mem_map.mp (List.mem_of_mem_drop hn)
    exact h.below r hr
  · rcases List.mem_append.mp hr with hold | hnew
    · exact Nat.lt_succ_of_lt (h.below r (List.mem_of_mem_drop hold))
    · rw [List.mem_singleton.mp hnew]
      exact Nat.lt_succ_self _

theorem Numbered.foldl (h : sink.Numbered) (rows : List MarketSnapshot) :
    (rows.foldl BufferedSink.emitSnapshot sink).Numbered := by
  induction rows generalizing sink with
  | nil => exact h
  | cons row rows ih => exact ih (h.emitSnapshot row)

/-- A row is known by its number. -/
theorem Numbered.row_eq (h : sink.Numbered) {n : ℕ} {row row' : MarketSnapshot}
    (hrow : (n, row) ∈ sink.buffer) (hrow' : (n, row') ∈ sink.buffer) : row = row' :=
  congrArg Prod.snd (List.inj_on_of_nodup_map (h.increasing.imp Nat.ne_of_lt) hrow hrow' rfl)

/-- **What is in the buffer after some rows**: what was there, and of the rows
those of the next numbers, without what is not declared. -/
theorem mem_buffer_foldl {rows : List MarketSnapshot} {r : ℕ × MarketSnapshot}
    (hr : r ∈ (rows.foldl emitSnapshot sink).buffer) :
    r ∈ sink.buffer ∨ ∃ i row, rows[i]? = some row ∧
      r = (sink.eventsEmitted + i, row.strip sink.declared) := by
  induction rows generalizing sink with
  | nil => exact Or.inl hr
  | cons row rows ih =>
    rcases ih hr with hold | ⟨i, row', hrow', heq⟩
    · rcases List.mem_append.mp hold with hkept | hnew
      · exact Or.inl (List.mem_of_mem_drop hkept)
      · exact Or.inr ⟨0, row, rfl, List.mem_singleton.mp hnew⟩
    · refine Or.inr ⟨i + 1, row', hrow', heq.trans ?_⟩
      show (sink.eventsEmitted + 1 + i, row'.strip sink.declared) = _
      rw [Nat.add_assoc, Nat.add_comm 1 i]

end BufferedSink

/-- **The sink after a flush**: it is as it was, or its buffer is empty, or a
failure is counted. -/
theorem OutputSink.flush_buffered (sink : BufferedSink) (answer : FlushReport) :
    ∃ sink', ((OutputSink.buffered sink).flush answer).1 = .buffered sink' ∧
      sink'.declared = sink.declared ∧ sink'.eventsEmitted = sink.eventsEmitted ∧
      (sink'.buffer = sink.buffer ∨ sink'.buffer = []) := by
  unfold OutputSink.flush
  by_cases hempty : sink.buffer.isEmpty = true
  · refine ⟨sink, ?_, rfl, rfl, Or.inl rfl⟩
    dsimp only
    rw [if_pos hempty]
  · dsimp only
    rw [if_neg hempty]
    cases answer with
    | ok written => exact ⟨_, rfl, rfl, rfl, Or.inr rfl⟩
    | error e => exact ⟨_, rfl, rfl, rfl, Or.inl rfl⟩

namespace OutputSinkSet

variable {set : OutputSinkSet} {sink : BufferedSink}

theorem sink?_eq_some (h : set.sink? = some sink) : ∃ rest, set.sinks = .buffered sink :: rest := by
  unfold sink? at h
  split at h
  · next found rest hsinks => exact ⟨rest, Option.some.inj h ▸ hsinks⟩
  · cases h

theorem sink?_foldl (h : set.sink? = some sink) (rows : List MarketSnapshot) :
    (rows.foldl OutputSinkSet.emitSnapshot set).sink?
      = some (rows.foldl BufferedSink.emitSnapshot sink) := by
  induction rows generalizing set sink with
  | nil => exact h
  | cons row rows ih =>
    obtain ⟨rest, hsinks⟩ := sink?_eq_some h
    refine ih ?_
    unfold sink? OutputSinkSet.emitSnapshot
    rw [hsinks]
    rfl

theorem sink?_flush (h : set.sink? = some sink) (answers : ℕ → FlushReport) :
    ∃ sink', (set.flush answers).1.sink? = some sink' ∧ sink'.declared = sink.declared ∧
      sink'.eventsEmitted = sink.eventsEmitted ∧
      (sink'.buffer = sink.buffer ∨ sink'.buffer = []) := by
  obtain ⟨rest, hsinks⟩ := sink?_eq_some h
  obtain ⟨sink', hsink', hrest⟩ := OutputSink.flush_buffered sink (answers 0)
  refine ⟨sink', ?_, hrest⟩
  have hfirst : ∃ rest', (set.flush answers).1.sinks = .buffered sink' :: rest' := by
    rw [← hsink']
    show ∃ rest', (flushSinks answers set.sinks).1 = _
    rw [hsinks, flushSinks]
    cases ((OutputSink.buffered sink).flush (answers 0)).2 with
    | ok _ => exact ⟨_, rfl⟩
    | error e => exact ⟨_, rfl⟩
  obtain ⟨rest', hflush⟩ := hfirst
  unfold sink?
  rw [hflush]

end OutputSinkSet

namespace Held

variable {declared : List DeclaredDatatype} {o : WorkerOutput} {h : Held}

/-! ## A call -/

theorem mem_waiting {e : MarketEvent} {p : HeldEvent} (hp : p ∈ h.events)
    (hplace : p.place = .waiting) (he : e ∈ p.fed.events) : e ∈ h.waiting := by
  refine Multiset.mem_bind.mpr ⟨p, hp, ?_⟩
  unfold HeldEvent.pending
  rw [if_pos hplace]
  exact he

/-- What feeds nothing feeds no event, and what feeds something that. -/
theorem events_feeds (c : MarketSynchronizer.Call) :
    (c.feeds.map Fed.events).getD 0 = c.fed := by
  cases c <;> rfl

theorem waiting_added {key : Option String} {c : MarketSynchronizer.Call}
    (hkey : key = none → c.fed = 0) (written : List MarketSnapshot) :
    waiting ⟨h.events ++ added .waiting key c, written⟩ = h.waiting + c.fed := by
  have hnew : Multiset.bind (added .waiting key c : Multiset HeldEvent) HeldEvent.pending
      = c.fed := by
    cases key with
    | none => exact (hkey rfl).symm
    | some key =>
      rw [← events_feeds]
      unfold added
      cases c.feeds with
      | none => rfl
      | some fed => exact Multiset.singleton_bind _ _
  unfold waiting
  rw [← Multiset.coe_add, Multiset.add_bind, hnew]

/-- The events of what goes into a later row. -/
theorem filter_events (s : MarketSynchronizer) (prev last : ℕ) (fed : Fed) :
    fed.events.filter (fun e => last < s.target prev e)
      = if last < fed.row s prev then fed.events else 0 := by
  cases fed with
  | event e => exact Multiset.filter_singleton _
  | book tsUs => exact (ite_self _).symm

/-- What goes on waiting when the clock advances. -/
theorem pending_advance (s : MarketSynchronizer) {prev last : ℕ} (hle : prev ≤ last)
    (p : HeldEvent) :
    (p.advance s prev last).pending = p.pending.filter (fun e => last < s.target prev e) := by
  by_cases hplace : p.place = .waiting
  · unfold HeldEvent.advance HeldEvent.pending
    rw [if_pos hplace, if_pos hplace, filter_events]
    by_cases hlate : p.fed.row s prev ≤ prev
    · rw [if_pos hlate, if_neg (by omega : ¬ last < p.fed.row s prev)]
      exact if_neg nofun
    · rw [if_neg hlate]
      by_cases hrow : p.fed.row s prev ≤ last
      · rw [if_pos hrow, if_neg (Nat.not_lt.mpr hrow)]
        exact if_neg nofun
      · rw [if_neg hrow, if_pos (Nat.lt_of_not_le hrow)]
        exact if_pos rfl
  · have hsame : p.advance s prev last = p := if_neg hplace
    have hnone : p.pending = 0 := if_neg hplace
    rw [hsame, hnone, Multiset.filter_zero]

theorem waiting_map (f : HeldEvent → HeldEvent) (events : List HeldEvent)
    (written written' : List MarketSnapshot) (P : MarketEvent → Prop) [DecidablePred P]
    (hf : ∀ p ∈ events, (f p).pending = p.pending.filter P) :
    waiting ⟨events.map f, written⟩ = (waiting ⟨events, written'⟩).filter P := by
  unfold waiting
  rw [Multiset.filter_bind, ← Multiset.map_coe, Multiset.bind_map]
  exact Multiset.bind_congr hf

theorem place_of_mem_added {place : Place} {key : Option String} {c : MarketSynchronizer.Call}
    {p : HeldEvent} (hp : p ∈ added place key c) : p.place = place := by
  unfold added at hp
  split at hp
  · rw [List.mem_singleton.mp hp]
  · cases hp

/-- Where the advance of a clock takes an event. -/
theorem advance_cases (s : MarketSynchronizer) (prev last : ℕ) (p : HeldEvent) :
    p.advance s prev last = p ∨ p.place = .waiting ∧ (p.advance s prev last).fed = p.fed ∧
      ((p.advance s prev last).place = .late ∨
        prev < p.fed.row s prev ∧ p.fed.row s prev ≤ last ∧
          (p.advance s prev last).place
            = .ready (s.buffer.length + (p.fed.row s prev - prev - 1))) := by
  unfold HeldEvent.advance
  by_cases hplace : p.place = .waiting
  · rw [if_pos hplace]
    by_cases hlate : p.fed.row s prev ≤ prev
    · exact Or.inr ⟨hplace, rfl, Or.inl (if_pos hlate)⟩
    · by_cases hrow : p.fed.row s prev ≤ last
      · exact Or.inr ⟨hplace, rfl, Or.inr ⟨by omega, hrow, (if_neg hlate).trans (if_pos hrow)⟩⟩
      · rw [if_neg hlate, if_neg hrow, ← hplace]
        exact Or.inl rfl
  · exact Or.inl (if_neg hplace)

/-- What a call does to one event. -/
theorem mem_call {s : MarketSynchronizer} {key : Option String} {c : MarketSynchronizer.Call}
    {p' : HeldEvent} (hp' : p' ∈ (h.call s key c).events) :
    p' ∈ h.events ++ added .waiting key c ∨ ∃ prev current, ∃ p ∈ h.events ++ added .waiting key c,
      s.advance c = some (prev, current) ∧ p.place = .waiting ∧ p'.fed = p.fed ∧
      (p'.place = .late ∨ prev < p.fed.row s prev ∧
        p.fed.row s prev ≤ prev + MarketSynchronizer.fillCount prev current ∧
        p'.place = .ready (s.buffer.length + (p.fed.row s prev - prev - 1))) := by
  unfold call at hp'
  dsimp only at hp'
  split at hp'
  · exact Or.inl hp'
  · next prev current hadvance =>
    obtain ⟨p, hp, rfl⟩ := List.mem_map.mp hp'
    rcases advance_cases s prev (prev + MarketSynchronizer.fillCount prev current) p with
      hsame | ⟨hplace, hfed, hto⟩
    · rw [hsame]
      exact Or.inl hp
    · exact Or.inr ⟨prev, current, p, hp, hadvance, hplace, hfed, hto⟩

theorem written_call (s : MarketSynchronizer) (key : Option String) (c : MarketSynchronizer.Call)
    (h : Held) : (h.call s key c).written = h.written := by
  unfold call
  dsimp only
  split <;> rfl

/-- What has come to the sink had before the call. -/
theorem mem_of_reached_call {s : MarketSynchronizer} {key : Option String}
    {c : MarketSynchronizer.Call} {p : HeldEvent} (hp : p ∈ (h.call s key c).events)
    (hreached : p.place.reached = true) : p ∈ h.events := by
  rcases mem_call hp with hold | ⟨_, _, _, _, _, _, _, hlate | ⟨_, _, hready⟩⟩
  · refine (List.mem_append.mp hold).resolve_right (fun hnew => ?_)
    rw [place_of_mem_added hnew] at hreached
    cases hreached
  · rw [hlate] at hreached
    cases hreached
  · rw [hready] at hreached
    cases hreached

/-- The row of a call that an event is sent to. -/
theorem inRow_newRows {s : MarketSynchronizer} {c : MarketSynchronizer.Call} {prev current : ℕ}
    {fed : Fed} (hadvance : s.advance c = some (prev, current))
    (hfed : ∀ e ∈ fed.events, e ∈ s.pending + c.fed) (hprev : prev < fed.row s prev)
    (hlast : fed.row s prev ≤ prev + MarketSynchronizer.fillCount prev current) :
    ∃ row, (s.newRows c)[fed.row s prev - prev - 1]? = some row ∧ fed.InRow row := by
  unfold MarketSynchronizer.newRows
  rw [hadvance]
  dsimp only
  rw [List.getElem?_map, List.getElem?_range' (by omega)]
  have hlabel : prev + 1 + 1 * (fed.row s prev - prev - 1) = fed.row s prev := by omega
  rw [hlabel]
  refine ⟨_, rfl, fun e he => ?_⟩
  show e ∈ (((s.feed c).drainEvents prev _).2 (fed.row s prev)).events
  rw [MarketSynchronizer.events_drainEvents_feed s c ⟨hprev, hlast⟩]
  refine Multiset.mem_filter.mpr ⟨hfed e he, ?_⟩
  cases fed with
  | event e' =>
    rw [Multiset.mem_singleton.mp he]
    rfl
  | book tsUs => exact absurd he (Multiset.notMem_zero e)

/-- A call that is not a drain, on an open synchronizer. -/
theorem Faithful.call (hf : Faithful declared o h) {key : Option String}
    {c : MarketSynchronizer.Call} (hkey : key = none → c.fed = 0) (hdrain : c ≠ .drain)
    (hopen : o.sync.finalized = false) :
    Faithful declared { o with sync := (o.sync.call c).1 } (h.call o.sync key c) := by
  have hclosing : o.closing = false := hf.closing.trans hopen
  have hbuffer := MarketSynchronizer.buffer_call hopen c
  have hhanded : (o.sync.call c).2 = [] := by
    cases c with
    | drain => exact absurd rfl hdrain
    | _ => rfl
  rw [hhanded, List.nil_append] at hbuffer
  have hwaiting : Held.waiting ⟨h.events ++ added .waiting key c, h.written⟩
      = o.sync.pending + c.fed := by
    rw [waiting_added hkey, hf.waiting hclosing]
  obtain ⟨sink, hsink, hdeclared, hnumbered, hbuffered⟩ := hf.sink
  refine ⟨hclosing.trans (MarketSynchronizer.call_config hopen c).2.2.2.symm, fun _ => ?_,
    fun p hp i hplace => ?_, ⟨sink, hsink, hdeclared, hnumbered, fun p hp n hplace => ?_⟩,
    fun p hp hplace => ?_⟩
  · dsimp only
    rw [MarketSynchronizer.pending_call hopen c, ← hwaiting]
    unfold Held.call
    cases o.sync.advance c with
    | none => rfl
    | some a =>
      exact waiting_map _ _ _ _ _ (fun p _ => pending_advance _ (Nat.le_add_right _ _) p)
  · dsimp only
    rw [hbuffer]
    rcases mem_call hp with hold | ⟨prev, current, p', hp', hadvance, hplace', hfed, hto⟩
    · have hmem : p ∈ h.events := (List.mem_append.mp hold).resolve_right (fun hnew => by
        rw [place_of_mem_added hnew] at hplace
        cases hplace)
      obtain ⟨row, hrow, hin⟩ := hf.ready p hmem i hplace
      exact ⟨row, (List.getElem?_append_left (List.getElem?_eq_some_iff.mp hrow).1).trans hrow, hin⟩
    · rcases hto with hlate | ⟨hprev, hlast, hready⟩
      · cases hlate.symm.trans hplace
      · obtain rfl := Place.ready.inj (hready.symm.trans hplace)
        have hin : ∀ e ∈ p'.fed.events, e ∈ o.sync.pending + c.fed := fun e he =>
          hwaiting ▸ mem_waiting (h := ⟨_, h.written⟩) hp' hplace' he
        obtain ⟨row, hrow, hrowin⟩ := inRow_newRows hadvance hin hprev hlast
        rw [hfed]
        refine ⟨row, ?_, hrowin⟩
        rw [List.getElem?_append_right (Nat.le_add_right _ _), Nat.add_sub_cancel_left]
        exact hrow
  · exact hbuffered p (mem_of_reached_call hp (by rw [hplace]; rfl)) n hplace
  · rw [written_call]
    exact hf.flushed p (mem_of_reached_call hp (by rw [hplace]; rfl)) hplace

/-! ## A drain -/

/-- **What a drain does to the sink**: it gets the rows, and is flushed or
not. -/
theorem sink?_drain {o o' : WorkerOutput} {sink : BufferedSink} (hsink : o.set.sink? = some sink)
    (hnumbered : sink.Numbered) (hset : o'.set = o.drainAndEmit.set ∨
      ∃ answers, o'.set = (o.drainAndEmit.set.flush answers).1) :
    ∃ sink', o'.set.sink? = some sink' ∧ sink'.declared = sink.declared ∧ sink'.Numbered ∧
      sink'.buffer ⊆ (o.sync.buffer.foldl BufferedSink.emitSnapshot sink).buffer := by
  have hgiven : o.drainAndEmit.set.sink?
      = some (o.sync.buffer.foldl BufferedSink.emitSnapshot sink) :=
    OutputSinkSet.sink?_foldl hsink o.sync.buffer
  have hkept := BufferedSink.declared_foldl o.sync.buffer sink
  have hrows := hnumbered.foldl o.sync.buffer
  rcases hset with hset | ⟨answers, hset⟩
  · rw [hset]
    exact ⟨_, hgiven, hkept, hrows, fun _ hr => hr⟩
  · obtain ⟨sink', hflush, hdeclared, hemitted, hbuffer⟩ :=
      OutputSinkSet.sink?_flush hgiven answers
    rw [hset]
    refine ⟨sink', hflush, hdeclared.trans hkept, ?_, ?_⟩
    · rcases hbuffer with hbuffer | hbuffer
      · exact ⟨hbuffer ▸ hrows.increasing, fun r hr => hemitted ▸ hrows.below r (hbuffer ▸ hr)⟩
      · refine ⟨?_, fun r hr => ?_⟩
        · rw [hbuffer]
          exact List.Pairwise.nil
        · rw [hbuffer] at hr
          cases hr
    · rcases hbuffer with hbuffer | hbuffer
      · rw [hbuffer]
        exact fun _ hr => hr
      · rw [hbuffer]
        exact List.nil_subset _

/-- Where a drain takes an event. -/
theorem drain_cases (emitted : ℕ) (given left : List ℕ) (p : HeldEvent) :
    (p.drain emitted given left).fed = p.fed ∧
      (p.drain emitted given left = p ∧ (∀ i, p.place ≠ .ready i) ∧ (∀ n, p.place ≠ .buffered n) ∨
        ∃ n, (p.place = .buffered n ∨ ∃ i, p.place = .ready i ∧ n = emitted + i) ∧
          (p.drain emitted given left).place = .ofRow given left n) := by
  unfold HeldEvent.drain
  split
  · next i hplace => exact ⟨rfl, Or.inr ⟨_, Or.inr ⟨i, hplace, rfl⟩, rfl⟩⟩
  · next n hplace => exact ⟨rfl, Or.inr ⟨n, Or.inl hplace, rfl⟩⟩
  · next hready hbuffered => exact ⟨rfl, Or.inl ⟨rfl, hready, hbuffered⟩⟩

theorem ofRow_cases (given left : List ℕ) (n : ℕ) :
    Place.ofRow given left n = .lost ∨ n ∈ given ∧
      (n ∈ left ∧ Place.ofRow given left n = .buffered n ∨
        n ∉ left ∧ Place.ofRow given left n = .flushed) := by
  unfold Place.ofRow
  by_cases hgiven : n ∈ given
  · rw [if_neg (not_not_intro hgiven)]
    by_cases hleft : n ∈ left
    · exact Or.inr ⟨hgiven, Or.inl ⟨hleft, if_pos hleft⟩⟩
    · exact Or.inr ⟨hgiven, Or.inr ⟨hleft, if_neg hleft⟩⟩
  · exact Or.inl (if_pos hgiven)

/-- A drain leaves what waits. -/
theorem pending_drain (emitted : ℕ) (given left : List ℕ) (p : HeldEvent) :
    (p.drain emitted given left).pending = p.pending := by
  obtain ⟨_, ⟨hsame, _⟩ | ⟨n, hfrom, hto⟩⟩ := drain_cases emitted given left p
  · rw [hsame]
  · have hbefore : p.place ≠ .waiting := by
      rcases hfrom with hplace | ⟨_, hplace, _⟩
      · rw [hplace]
        nofun
      · rw [hplace]
        nofun
    have hafter : (p.drain emitted given left).place ≠ .waiting := by
      rw [hto]
      rcases ofRow_cases given left n with h | ⟨_, ⟨_, h⟩ | ⟨_, h⟩⟩
      all_goals
        rw [h]
        nofun
    unfold HeldEvent.pending
    rw [if_neg hbefore, if_neg hafter]

/-- What is in the buffer, or left it with the flush, came with a row. -/
theorem mem_of_reached_drain {emitted : ℕ} {given left : List ℕ} {p' : HeldEvent}
    (hp' : p' ∈ h.events.map (HeldEvent.drain emitted given left)) :
    (p' ∈ h.events ∧ (∀ i, p'.place ≠ .ready i) ∧ ∀ n, p'.place ≠ .buffered n) ∨
      ∃ p ∈ h.events, ∃ n, p'.fed = p.fed ∧
        (p.place = .buffered n ∨ ∃ i, p.place = .ready i ∧ n = emitted + i) ∧
        (p'.place = .lost ∨ n ∈ given ∧
          (n ∈ left ∧ p'.place = .buffered n ∨ n ∉ left ∧ p'.place = .flushed)) := by
  obtain ⟨p, hp, rfl⟩ := List.mem_map.mp hp'
  obtain ⟨hfed, ⟨hsame, hrest⟩ | ⟨n, hfrom, hto⟩⟩ := drain_cases emitted given left p
  · rw [hsame]
    exact Or.inl ⟨hp, hrest⟩
  · refine Or.inr ⟨p, hp, n, hfed, hfrom, ?_⟩
    rw [hto]
    exact ofRow_cases given left n

/-- The row of a number that the buffer has when it got the rows. -/
theorem exists_row_given (hf : Faithful declared o h) {sink : BufferedSink}
    (hsink : o.set.sink? = some sink) {p : HeldEvent} (hp : p ∈ h.events) {n : ℕ}
    (hplace : p.place = .buffered n ∨ ∃ i, p.place = .ready i ∧ n = sink.eventsEmitted + i)
    (hgiven : n ∈ (o.sync.buffer.foldl BufferedSink.emitSnapshot sink).buffer.map Prod.fst) :
    ∃ row, (n, row) ∈ (o.sync.buffer.foldl BufferedSink.emitSnapshot sink).buffer ∧
      p.fed.InStored declared row := by
  obtain ⟨sink', hsink', hdeclared, hnumbered, hbuffered⟩ := hf.sink
  obtain rfl := Option.some.inj (hsink'.symm.trans hsink)
  obtain ⟨⟨n', row'⟩, hr, rfl⟩ := List.mem_map.mp hgiven
  dsimp only at hplace
  refine ⟨row', hr, ?_⟩
  rcases BufferedSink.mem_buffer_foldl hr with hold | ⟨i', row, hrow, heq⟩
  · rcases hplace with hplace | ⟨i, _, hnumber⟩
    · obtain ⟨row, hmem, hin⟩ := hbuffered p hp n' hplace
      exact hnumbered.row_eq hmem hold ▸ hin
    · exact absurd (hnumbered.below _ hold) (by dsimp only; omega)
  · obtain ⟨hn, rfl⟩ := Prod.mk.inj heq
    rcases hplace with hplace | ⟨i, hplace, hnumber⟩
    · obtain ⟨row₀, hmem, _⟩ := hbuffered p hp n' hplace
      exact absurd (hnumbered.below _ hmem) (by dsimp only; omega)
    · obtain rfl : i = i' := by omega
      obtain ⟨row₁, hrow₁, hin⟩ := hf.ready p hp i hplace
      obtain rfl := Option.some.inj (hrow₁.symm.trans hrow)
      rw [hdeclared]
      exact fun e he hkind => MarketSnapshot.mem_events_strip (hin e he) hkind

/-- A drain, with the flush that may come with it. -/
theorem Faithful.drain {o' : WorkerOutput} (hf : Faithful declared o h)
    (hsync : o'.sync = o.sync.drain.1) (hclosing : o'.closing = o.closing)
    (hset : o'.set = o.drainAndEmit.set ∨
      ∃ answers, o'.set = (o.drainAndEmit.set.flush answers).1) :
    Faithful declared o' (h.drain o o') := by
  obtain ⟨sink, hsink, hdeclared, hnumbered, hbuffered⟩ := hf.sink
  obtain ⟨sink', hsink', hdeclared', hnumbered', hsub⟩ := sink?_drain hsink hnumbered hset
  have hgiven : o.drainAndEmit.set.stored
      = (o.sync.buffer.foldl BufferedSink.emitSnapshot sink).buffer := by
    unfold OutputSinkSet.stored
    rw [show o.drainAndEmit.set.sink? = _ from OutputSinkSet.sink?_foldl hsink o.sync.buffer]
    rfl
  have hleft : o'.set.stored = sink'.buffer := by
    unfold OutputSinkSet.stored
    rw [hsink']
    rfl
  have hemitted : o.set.emitted = sink.eventsEmitted := by
    unfold OutputSinkSet.emitted
    rw [hsink]
    rfl
  unfold Held.drain
  rw [hgiven, hleft, hemitted]
  refine ⟨?_, fun hopen => ?_, fun p hp i hplace => ?_, ⟨sink', hsink', hdeclared'.trans hdeclared,
    hnumbered', fun p hp n hplace => ?_⟩, fun p hp hplace => ?_⟩
  · rw [hsync, hclosing]
    exact hf.closing
  · rw [hsync]
    refine Eq.trans ?_ (hf.waiting (hclosing ▸ hopen))
    refine (waiting_map _ _ _ h.written (fun _ => True) (fun p _ => ?_)).trans
      (Multiset.filter_eq_self.mpr (fun _ _ => trivial))
    rw [Multiset.filter_eq_self.mpr (fun _ _ => trivial), pending_drain]
  · rcases mem_of_reached_drain hp with ⟨_, hready, _⟩ | ⟨_, _, n, _, _, hto⟩
    · exact absurd hplace (hready i)
    · rw [hplace] at hto
      rcases hto with hto | ⟨_, ⟨_, hto⟩ | ⟨_, hto⟩⟩ <;> cases hto
  · rcases mem_of_reached_drain hp with ⟨_, _, hbuffer⟩ | ⟨p₀, hp₀, n₀, hfed, hfrom, hto⟩
    · exact absurd hplace (hbuffer n)
    · rw [hplace] at hto
      rcases hto with hto | ⟨hin, ⟨hstays, hto⟩ | ⟨_, hto⟩⟩
      · cases hto
      · obtain rfl := Place.buffered.inj hto
        obtain ⟨row, hrow, hstored⟩ := exists_row_given hf hsink hp₀ hfrom hin
        obtain ⟨⟨_, row'⟩, hrow', rfl⟩ := List.mem_map.mp hstays
        obtain rfl := (hnumbered.foldl _).row_eq (hsub hrow') hrow
        exact ⟨row', hrow', hfed ▸ hstored⟩
      · cases hto
  · rcases mem_of_reached_drain hp with ⟨hold, _, _⟩ | ⟨p₀, hp₀, n₀, hfed, hfrom, hto⟩
    · obtain ⟨row, hrow, hstored⟩ := hf.flushed p hold hplace
      exact ⟨row, List.mem_append_left _ hrow, hstored⟩
    · rw [hplace] at hto
      rcases hto with hto | ⟨hin, ⟨_, hto⟩ | ⟨hgone, _⟩⟩
      · cases hto
      · cases hto
      · obtain ⟨row, hrow, hstored⟩ := exists_row_given hf hsink hp₀ hfrom hin
        refine ⟨row, List.mem_append_right _ ?_, hfed ▸ hstored⟩
        exact List.mem_map.mpr ⟨(n₀, row), List.mem_filter.mpr ⟨hrow, decide_eq_true hgone⟩, rfl⟩

/-! ## The close -/

/-- The rows a close adds to those it finds. -/
theorem buffer_finalize (s : MarketSynchronizer) :
    s.finalize.buffer = s.buffer ++ s.terminalRows := by
  have hprefix : ∃ rows, s.finalize.buffer = s.buffer ++ rows := by
    unfold MarketSynchronizer.finalize
    split
    · exact ⟨[], (List.append_nil _).symm⟩
    · split
      · exact ⟨_, rfl⟩
      · unfold MarketSynchronizer.finalizeGlobalClock
        dsimp only
        split
        · exact ⟨[], (List.append_nil _).symm⟩
        · exact ⟨_, rfl⟩
  obtain ⟨rows, hrows⟩ := hprefix
  unfold MarketSynchronizer.terminalRows
  rw [hrows, List.drop_left]

theorem finalized_finalize (s : MarketSynchronizer) : s.finalize.finalized = true := by
  unfold MarketSynchronizer.finalize
  split
  · next hs => exact hs
  · split
    · rfl
    · unfold MarketSynchronizer.finalizeGlobalClock
      dsimp only
      split <;> rfl

/-- What a close does to one event. -/
theorem mem_finalize {s : MarketSynchronizer} {p' : HeldEvent}
    (hp' : p' ∈ (h.finalize s).events) :
    p' ∈ h.events ∨ s.clocks ≠ [] ∧ ∃ p ∈ h.events, p.place = .waiting ∧ p'.fed = p.fed ∧
      p'.place = .ready s.buffer.length := by
  unfold Held.finalize at hp'
  split at hp'
  · exact Or.inl hp'
  · next hclocks =>
    obtain ⟨p, hp, rfl⟩ := List.mem_map.mp hp'
    unfold HeldEvent.close
    by_cases hplace : p.place = .waiting
    · rw [if_pos hplace]
      exact Or.inr ⟨hclocks, p, hp, hplace, rfl, rfl⟩
    · rw [if_neg hplace]
      exact Or.inl hp

/-- The first terminal row holds everything that is pending. -/
theorem exists_terminalRow {s : MarketSynchronizer} (hopen : s.finalized = false)
    (hclocks : s.clocks ≠ []) : ∃ row, s.terminalRows[0]? = some row ∧ row.events = s.pending := by
  obtain ⟨hlabels, hevents, -⟩ := MarketSynchronizer.finalize_spec hopen
  cases hrows : s.terminalRows with
  | nil =>
    rw [hrows] at hlabels
    exact absurd (List.map_eq_nil_iff.mp hlabels.symm) hclocks
  | cons row rest =>
    refine ⟨row, rfl, hevents row ?_⟩
    rw [hrows]
    exact List.mem_cons_self

theorem written_finalize (s : MarketSynchronizer) (h : Held) :
    (h.finalize s).written = h.written := by
  unfold finalize
  split <;> rfl

/-- The close of an open synchronizer. -/
theorem Faithful.finalize (hf : Faithful declared o h) (hopen : o.sync.finalized = false) :
    Faithful declared { o with sync := o.sync.finalize, closing := true } (h.finalize o.sync) := by
  obtain ⟨sink, hsink, hdeclared, hnumbered, hbuffered⟩ := hf.sink
  refine ⟨(finalized_finalize o.sync).symm, nofun, fun p hp i hplace => ?_,
    ⟨sink, hsink, hdeclared, hnumbered, fun p hp n hplace => ?_⟩, fun p hp hplace => ?_⟩
  · dsimp only
    rw [buffer_finalize]
    rcases mem_finalize hp with hold | ⟨hclocks, p₀, hp₀, hwaits, hfed, hready⟩
    · obtain ⟨row, hrow, hin⟩ := hf.ready p hold i hplace
      exact ⟨row, (List.getElem?_append_left (List.getElem?_eq_some_iff.mp hrow).1).trans hrow, hin⟩
    · obtain rfl := Place.ready.inj (hready.symm.trans hplace)
      obtain ⟨row, hrow, hevents⟩ := exists_terminalRow hopen hclocks
      refine ⟨row, ?_, fun e he => ?_⟩
      · rw [List.getElem?_append_right (Nat.le_refl _), Nat.sub_self]
        exact hrow
      · rw [hevents, ← hf.waiting (hf.closing.trans hopen)]
        exact mem_waiting hp₀ hwaits (hfed ▸ he)
  · rcases mem_finalize hp with hold | ⟨_, _, _, _, _, hready⟩
    · exact hbuffered p hold n hplace
    · cases hready.symm.trans hplace
  · rw [written_finalize]
    rcases mem_finalize hp with hold | ⟨_, _, _, _, _, hready⟩
    · exact hf.flushed p hold hplace
    · cases hready.symm.trans hplace

/-! ## An effect -/

/-- After the close a call leaves the rows. -/
theorem buffer_call_of_finalized {s : MarketSynchronizer} (hs : s.finalized = true)
    {c : MarketSynchronizer.Call} (hdrain : c ≠ .drain) : (s.call c).1.buffer = s.buffer := by
  cases c with
  | drain => exact absurd rfl hdrain
  | _ =>
    simp only [MarketSynchronizer.call, MarketSynchronizer.onTime, MarketSynchronizer.onOrderbook,
      MarketSynchronizer.onTrade, MarketSynchronizer.onLiquidation, MarketSynchronizer.onFunding,
      MarketSynchronizer.onFundingSettlement, MarketSynchronizer.onOpenInterest, if_pos hs]
    rfl

/-- What comes in without a place in the worker changes nothing of what is
there. -/
theorem Faithful.added {o' : WorkerOutput} (hf : Faithful declared o h) {place : Place}
    (hplace : place = .late ∨ place = .lost) (key : Option String) (c : MarketSynchronizer.Call)
    (hsync : o'.sync.buffer = o.sync.buffer) (hset : o'.set = o.set)
    (hclosing : o'.closing = o'.sync.finalized)
    (hpending : o'.closing = false → o'.sync.pending = h.waiting) :
    Faithful declared o' { h with events := h.events ++ added place key c } := by
  have hnew : ∀ p ∈ h.events ++ Held.added place key c, p.place ≠ .late → p.place ≠ .lost →
      p ∈ h.events := by
    intro p hp hlate hlost
    refine (List.mem_append.mp hp).resolve_right (fun hadded => ?_)
    rw [place_of_mem_added hadded] at hlate hlost
    exact hplace.elim hlate hlost
  obtain ⟨sink, hsink, hdeclared, hnumbered, hbuffered⟩ := hf.sink
  refine ⟨hclosing, fun hopen => ?_, fun p hp i hready => ?_,
    ⟨sink, hset ▸ hsink, hdeclared, hnumbered, fun p hp n hbuffer => ?_⟩, fun p hp hflushed => ?_⟩
  · rw [hpending hopen]
    have hnone : Multiset.bind (Held.added place key c : Multiset HeldEvent) HeldEvent.pending
        = 0 := by
      refine (Multiset.bind_congr (fun p hp => ?_)).trans (Multiset.bind_zero _)
      refine if_neg (fun hwaits => ?_)
      rw [place_of_mem_added hp] at hwaits
      rcases hplace with h | h <;> cases h.symm.trans hwaits
    unfold Held.waiting
    rw [← Multiset.coe_add, Multiset.add_bind, hnone, add_zero]
  · rw [hsync]
    exact hf.ready p (hnew p hp (hready ▸ nofun) (hready ▸ nofun)) i hready
  · exact hbuffered p (hnew p hp (hbuffer ▸ nofun) (hbuffer ▸ nofun)) n hbuffer
  · exact hf.flushed p (hnew p hp (hflushed ▸ nofun) (hflushed ▸ nofun)) hflushed

/-- What a drain does to the output. -/
theorem step_drain {o : WorkerOutput} (hover : o.returned = none) (threshold : ℕ)
    (env : OutputEnv) :
    (o.step threshold (.call .drain, env)).1.sync = o.sync.drain.1 ∧
      (o.step threshold (.call .drain, env)).1.closing = o.closing ∧
      ((o.step threshold (.call .drain, env)).1.set = o.drainAndEmit.set ∨
        ∃ answers, (o.step threshold (.call .drain, env)).1.set
          = (o.drainAndEmit.set.flush answers).1) := by
  have hstep : o.step threshold (.call .drain, env) = _ :=
    if_neg (by rw [hover]; exact Bool.false_ne_true)
  rw [hstep]
  dsimp only
  split
  · rw [WorkerOutput.finish_eq]
    exact ⟨rfl, rfl, Or.inr ⟨env.answers, rfl⟩⟩
  · by_cases hdue : o.drainTowardsFlush.Due threshold
    · rw [WorkerOutput.maybeFlush_of_due (o := o.drainTowardsFlush) hover hdue]
      exact ⟨rfl, rfl, Or.inr ⟨env.answers, rfl⟩⟩
    · unfold WorkerOutput.maybeFlush
      rw [if_neg hdue]
      exact ⟨rfl, rfl, Or.inl rfl⟩

/-- A worker that has returned makes no step, and what is fed to it is lost. -/
theorem Faithful.step_of_returned (hf : Faithful declared o h)
    (hreturned : o.returned.isSome = true) (key : Option String) (effect : WorkerEffect) :
    Faithful declared o (h.step o o key effect) := by
  cases effect with
  | trigger => exact hf
  | incident gap => exact hf
  | finalize =>
    have hnotes : h.step o o key .finalize = h := if_pos (Or.inl hreturned)
    rw [hnotes]
    exact hf
  | call c =>
    by_cases hdrain : c = .drain
    · subst hdrain
      have hnotes : h.step o o key (.call .drain) = h := if_pos hreturned
      rw [hnotes]
      exact hf
    · have hnotes : h.step o o key (.call c)
          = { h with events := h.events ++ Held.added .lost key c } := by
        cases c with
        | drain => exact absurd rfl hdrain
        | _ => exact if_pos hreturned
      rw [hnotes]
      exact hf.added (Or.inr rfl) key c rfl rfl hf.closing (fun hopen => (hf.waiting hopen).symm)

/-- A call that is no drain: what is fed to a closed synchronizer is late. -/
theorem Faithful.step_call (hf : Faithful declared o h) (hover : o.returned = none)
    {threshold : ℕ} {key : Option String} {c : MarketSynchronizer.Call} (hdrain : c ≠ .drain)
    (env : OutputEnv) (hkey : key = none → c.fed = 0) :
    Faithful declared (o.step threshold (.call c, env)).1
      (h.step o (o.step threshold (.call c, env)).1 key (.call c)) := by
  have hreturned : ¬ o.returned.isSome = true := by
    rw [hover]
    exact Bool.false_ne_true
  have hstep : o.step threshold (.call c, env) = _ := if_neg hreturned
  have hcall : (o.step threshold (.call c, env)).1 = { o with sync := (o.sync.call c).1 } := by
    rw [hstep]
    cases c with
    | drain => exact absurd rfl hdrain
    | _ => rfl
  have hnotes : ∀ o', h.step o o' key (.call c)
      = if o.sync.finalized then { h with events := h.events ++ Held.added .late key c }
        else h.call o.sync key c := by
    intro o'
    cases c with
    | drain => exact absurd rfl hdrain
    | _ => exact if_neg hreturned
  rw [hnotes, hcall]
  by_cases hfin : o.sync.finalized = true
  · rw [if_pos hfin]
    have hclosed := (MarketSynchronizer.call_of_finalized hfin c).1
    exact hf.added (Or.inl rfl) key c (buffer_call_of_finalized hfin hdrain) rfl
      ((hf.closing.trans hfin).trans hclosed.symm)
      (fun hopen => absurd (hopen.symm.trans (hf.closing.trans hfin)) nofun)
  · rw [if_neg hfin]
    exact hf.call hkey hdrain (Bool.eq_false_iff.mpr hfin)

/-- **Every effect keeps the notes so.** -/
theorem Faithful.step (hf : Faithful declared o h) (threshold : ℕ) {key : Option String}
    {effect : WorkerEffect} (env : OutputEnv)
    (hkey : key = none → ∀ c, effect = .call c → c.fed = 0) :
    Faithful declared (o.step threshold (effect, env)).1
      (h.step o (o.step threshold (effect, env)).1 key effect) := by
  by_cases hover : o.returned = none
  · have hreturned : ¬ o.returned.isSome = true := by
      rw [hover]
      exact Bool.false_ne_true
    have hstep : o.step threshold (effect, env) = _ := if_neg hreturned
    cases effect with
    | trigger =>
      rw [hstep]
      exact hf
    | incident gap =>
      rw [hstep]
      show Faithful declared (if _ then _ else _) h
      split
      · exact hf
      · exact ⟨hf.closing, hf.waiting, hf.ready, hf.sink, hf.flushed⟩
    | finalize =>
      rw [hstep]
      unfold Held.step
      dsimp only
      by_cases hfin : o.sync.finalized = true
      · rw [if_pos (Or.inr hfin), MarketSynchronizer.finalize_of_finalized hfin]
        exact ⟨hfin.symm, nofun, hf.ready, hf.sink, hf.flushed⟩
      · rw [if_neg (not_or_intro hreturned hfin)]
        exact hf.finalize (Bool.eq_false_iff.mpr hfin)
    | call c =>
      by_cases hdrain : c = .drain
      · subst hdrain
        obtain ⟨hsync, hclosing, hset⟩ := step_drain hover threshold env
        have hnotes : ∀ o', h.step o o' key (.call .drain) = h.drain o o' :=
          fun o' => if_neg hreturned
        rw [hnotes]
        exact hf.drain hsync hclosing hset
      · exact hf.step_call hover hdrain env (fun hnone => hkey hnone c rfl)
  · have hreturned : o.returned.isSome = true := Option.isSome_iff_ne_none.mpr hover
    have hstep : o.step threshold (effect, env) = (o, []) := if_pos hreturned
    rw [hstep]
    exact hf.step_of_returned hreturned key effect

/-! ## A start -/

/-- A worker that starts, over files that were written before. -/
theorem faithful_start (cfg : SyncConfig) (outputDir : String) (rest : List OutputSink)
    (hmemory : ∀ p ∈ h.events, p.place.inMemory = false)
    (hflushed : ∀ p ∈ h.events, p.place = .flushed →
      ∃ row ∈ h.written, p.fed.InStored declared row) :
    Faithful declared (.start cfg.start (.buffered (.new outputDir declared) :: rest)) h := by
  have hnot : ∀ p ∈ h.events, ∀ place : Place, place.inMemory = true → p.place ≠ place := by
    intro p hp place hplace heq
    exact Bool.false_ne_true ((hmemory p hp).symm.trans (heq ▸ hplace))
  refine ⟨rfl, fun _ => ?_, fun p hp i hready => absurd hready (hnot p hp _ rfl),
    ⟨_, rfl, rfl, ⟨List.Pairwise.nil, fun r hr => absurd hr List.not_mem_nil⟩,
      fun p hp n hbuffer => absurd hbuffer (hnot p hp _ rfl)⟩, hflushed⟩
  exact (Multiset.bind_congr (fun p hp => if_neg (hnot p hp _ rfl))).trans (Multiset.bind_zero _)

/-- **The process stops, and another starts.** -/
theorem Faithful.crash (hf : Faithful declared o h) (cfg : SyncConfig) (outputDir : String)
    (rest : List OutputSink) :
    Faithful declared (.start cfg.start (.buffered (.new outputDir declared) :: rest))
      h.crash := by
  refine faithful_start cfg outputDir rest (fun p' hp' => ?_) (fun p' hp' hflushed => ?_)
  · obtain ⟨p, -, rfl⟩ := List.mem_map.mp hp'
    unfold HeldEvent.lose
    split
    · rfl
    · next hmemory => exact Bool.eq_false_iff.mpr hmemory
  · obtain ⟨p, hp, rfl⟩ := List.mem_map.mp hp'
    unfold HeldEvent.lose at hflushed ⊢
    split at hflushed
    · cases hflushed
    · next hmemory =>
      rw [if_neg hmemory]
      exact hf.flushed p hp hflushed

/-- An object is fetched once more. -/
theorem Faithful.refetched (hf : Faithful declared o h) (key : String) :
    Faithful declared o (h.refetched key) := by
  have hsub : ∀ p ∈ (h.refetched key).events, p ∈ h.events := fun p hp =>
    (List.mem_filter.mp hp).1
  obtain ⟨sink, hsink, hdeclared, hnumbered, hbuffered⟩ := hf.sink
  refine ⟨hf.closing, fun hopen => ?_, fun p hp => hf.ready p (hsub p hp),
    ⟨sink, hsink, hdeclared, hnumbered, fun p hp => hbuffered p (hsub p hp)⟩,
    fun p hp => hf.flushed p (hsub p hp)⟩
  -- what was lost does not wait
  rw [← hf.waiting hopen]
  show Multiset.bind (h.events.filter _ : Multiset HeldEvent) _ = Multiset.bind _ _
  rw [← Multiset.filter_coe, Multiset.bind_filter]
  refine Multiset.bind_congr (fun p _ => ?_)
  split
  · rfl
  · next hlost =>
    have hplace := (not_not.mp hlost).2
    refine (if_neg ?_).symm
    rw [hplace]
    nofun

end Held
