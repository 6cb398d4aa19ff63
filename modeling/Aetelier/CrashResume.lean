import Aetelier.EntrepotFleet
import Aetelier.HeldEvents

/-!
# Resuming an archive replay after a crash

The replay task of an archive fetches an object, sends its events over the
channel of the runtime, and, when the last of them is in the channel, writes
the key of the object to the cursor file. From there on the events go to the
runtime, over a second channel to the worker, into its synchronizer, as rows
into the sinks, and with a flush to the disk. A process that stops loses all of
this but the cursor file and what was flushed; the next one goes on behind the
key in the file.

The pipeline is a machine whose steps are those of the three tasks, and the
crash. An event carries the key of its object along, which the code does not:
so it is known of which keys there are events in memory, of which some were
lost since the object was last fetched, and which events are in the rows that
were written. At every moment of a run all events of the keys up to the cursor
are written or were dropped as late exactly if whenever a key is written to the
cursor, no event of that key or of an earlier one is in memory or was lost
(`ReplayPipeline.crashSafe_iff`).
-/

/-! ## The pipeline -/

/-- **A worker that replays an archive.** -/
structure ReplayConfig where
  /-- The calendar, the crates and the decoders. -/
  base : EntrepotAdapter
  /-- The worker's entry in the manifest. -/
  entry : MarketWorkerConfig
  /-- The archive. -/
  sec : EntrepotSection
  /-- The runtime. -/
  source : RuntimeConfig
  /-- The worker. -/
  worker : WorkerConfig
  /-- The hasher of the runtime's map. -/
  hasher : RandomState TradingPair
  /-- The hasher of the worker's. -/
  positions : RandomState TradingPair
  /-- The synchronizer. -/
  sync : SyncConfig
  /-- Where the buffered sink writes. -/
  outputDir : String
  /-- What it writes. -/
  declared : List DeclaredDatatype
  /-- The other sinks of the set; each is flushed by itself. -/
  others : List OutputSink
  /-- Room in each of the channels. -/
  capacity : ℕ
  /-- Rows between two flushes. -/
  threshold : ℕ

namespace ReplayConfig

variable (c : ReplayConfig)

/-- The adapter. -/
def adapter : EntrepotAdapter := c.entry.adapter c.base c.sec

/-- The runtime: every book of an archive is complete, and none is seeded. -/
def runtime : RuntimeConfig := { c.source with model := .fullRefresh, hasSeeder := false }

/-- The plan. -/
def plan : List String := c.adapter.plannedKeys

/-- The output of a worker that starts. -/
def output : WorkerOutput :=
  .start c.sync.start (.buffered (.new c.outputDir c.declared) :: c.others)

/-- Where a spawn goes on. -/
def resumeIndex (cursor : Option String) : ℕ := EntrepotAdapter.resumeIndex cursor c.plan

end ReplayConfig

/-- **The replay task.** -/
structure ReplayRun where
  /-- What it meets. -/
  attempt : Attempt
  /-- The receive counter. -/
  recvSeq : ℕ
  /-- The key whose events are being sent. -/
  current : Option String
  /-- The keys ahead. -/
  ahead : List String

/-- **The pipeline.** All but the cursor file and the rows that were written is
memory. -/
structure ReplayPipeline where
  /-- What the cursor file holds. -/
  cursor : Option String
  /-- The replay task, while it runs. -/
  task : Option ReplayRun
  /-- The channel to the runtime, and what the task is sending. -/
  inbox : Outlet (String × DomainEvent)
  /-- The runtime of the connection. -/
  runtime : SourceRuntime
  /-- The channel to the worker, and what the runtime is sending. -/
  outbox : Outlet (String × ReconstructedEvent)
  /-- The worker. -/
  worker : FrameworkWorker
  /-- Its synchronizer and its sinks. -/
  output : WorkerOutput
  /-- What it was fed, and what it wrote. -/
  held : Held
  /-- The keys of what went astray before it was fed, with a channel, since
  their objects were last fetched. -/
  astray : List String

/-- A step of one of the tasks, or a crash. -/
inductive ReplayStep where
  /-- The worker connects, and the adapter is spawned. -/
  | spawn (a : Attempt) (nowUs : ℕ)
  /-- The task fetches the next object. -/
  | fetch
  /-- It sends an event. -/
  | send
  /-- It writes the cursor. -/
  | writeCursor
  /-- The runtime takes an event. -/
  | runtimeTake (nowUs : ℕ)
  /-- It sees something else. -/
  | runtimeOther (body : InputBody) (nowUs : ℕ)
  /-- It sends an event. -/
  | runtimeSend
  /-- The worker takes an event. -/
  | workerTake (nowUs : ℕ) (env : OutputEnv)
  /-- It sees something else. -/
  | workerOther (input : WorkerInput) (env : OutputEnv)
  /-- The process stops, and another starts. -/
  | crash

namespace ReplayPipeline

variable (c : ReplayConfig)

/-- No connection. -/
def offline (hasher : RandomState TradingPair) : SourceRuntime :=
  ⟨HashMap.empty hasher, 0, true, some .finished⟩

/-- **A process that starts**, over what the cursor file holds. -/
def start (cursor : Option String) : ReplayPipeline where
  cursor := cursor
  task := none
  inbox := .empty
  runtime := offline c.hasher
  outbox := .empty
  worker := .start c.worker c.positions
  output := c.output
  held := .empty
  astray := []

/-- The keys of what is in a channel, or on its way into it. -/
def sentKeys {α : Type} (channel : Outlet (String × α)) : List String :=
  channel.content.map Prod.fst

/-- **The process stops, and another starts**: the cursor file and the files
stay. -/
def crash (s : ReplayPipeline) : ReplayPipeline :=
  { start c s.cursor with
    held := s.held.crash
    astray := s.astray ++ sentKeys s.inbox ++ sentKeys s.outbox }

/-- `spawn`, once the last connection is over. What was left in its channel is
gone with it. -/
def spawn (s : ReplayPipeline) (a : Attempt) (nowUs : ℕ) : ReplayPipeline :=
  if s.task.isSome ∨ s.runtime.outcome = none ∨ s.outbox.content ≠ [] then s
  else
    match c.adapter.enumerateWindow a.list with
    | .error _ => s
    | .ok keys =>
      let skipped :=
        if c.adapter.cursor then EntrepotAdapter.resumeIndex s.cursor keys else 0
      { s with
        task := some ⟨a, 0, none, keys.drop skipped⟩
        inbox := .empty
        runtime := (SourceRuntime.start c.runtime c.hasher nowUs [c.entry.symbol]).1
        outbox := .empty
        astray := s.astray ++ sentKeys s.inbox }

/-- The task takes up the next key. It ends at the end of the plan, at a
shutdown and at a failed fetch. -/
def fetch (s : ReplayPipeline) (t : ReplayRun) : ReplayPipeline :=
  match t.current, t.ahead with
  | some _, _ => s
  | none, [] => { s with task := none }
  | none, key :: rest =>
    if t.attempt.stopped key then { s with task := none }
    else
      match c.adapter.objectEvents t.attempt key with
      | .error _ => { s with task := none }
      | .ok found =>
        let events := EntrepotAdapter.stampAll t.recvSeq found
        { s with
          task := some ⟨t.attempt, t.recvSeq + events.length, some key, rest⟩
          inbox := s.inbox.load (events.map (fun ev => (key, ev)))
          held := s.held.refetched key
          astray := s.astray.filter (fun other => decide (other ≠ key)) }

/-- The task sends an event. It ends at a channel that is closed, and what it
had to send is gone. -/
def send (s : ReplayPipeline) : ReplayPipeline :=
  if s.inbox.hand = [] then s
  else if s.runtime.outcome = none then { s with inbox := s.inbox.push c.capacity }
  else
    { s with
      task := none
      inbox := { s.inbox with hand := [] }
      astray := s.astray ++ s.inbox.hand.map Prod.fst }

/-- The task writes the cursor when every event of the key is sent. -/
def writeCursor (s : ReplayPipeline) (t : ReplayRun) : ReplayPipeline :=
  match t.current with
  | none => s
  | some key =>
    if s.inbox.hand = [] then
      { s with
        cursor := EntrepotAdapter.cursorAfter s.cursor (c.adapter.writeCursor t.attempt key)
        task := some { t with current := none } }
    else s

/-- The runtime takes an event; it takes none while it is sending. -/
def runtimeTake (s : ReplayPipeline) (nowUs : ℕ) : ReplayPipeline :=
  match s.runtime.outcome, s.outbox.hand, s.inbox.queue with
  | none, [], (key, ev) :: _ =>
    let r := s.runtime.step c.runtime ⟨.event ev, nowUs, none⟩
    { s with
      inbox := s.inbox.pop
      runtime := r.1
      outbox := s.outbox.load ((Effect.events r.2).map (fun ev => (key, ev))) }
  | _, _, _ => s

/-- The end of the events, the shutdown and the ticks; none of them makes the
runtime send an event. -/
def runtimeOther (s : ReplayPipeline) (body : InputBody) (nowUs : ℕ) : ReplayPipeline :=
  match body with
  | .eventsClosed =>
    if s.task.isSome ∨ s.inbox.content ≠ [] then s
    else { s with runtime := (s.runtime.step c.runtime ⟨body, nowUs, none⟩).1 }
  | .seedDeadline | .shutdown =>
    { s with runtime := (s.runtime.step c.runtime ⟨body, nowUs, none⟩).1 }
  | .event _ | .fetched _ _ => s

/-- The effects of an input of the worker, one after another, on its output and
on the keys. -/
def outputAfter (env : OutputEnv) (key : Option String) :
    List WorkerEffect → WorkerOutput × Held → WorkerOutput × Held
  | [], r => r
  | effect :: effects, r =>
    let o' := (r.1.step c.threshold (effect, env)).1
    outputAfter env key effects (o', r.2.step r.1 o' key effect)

/-- The worker makes a turn. -/
def workerTurn (s : ReplayPipeline) (key : Option String) (input : WorkerInput) (env : OutputEnv) :
    ReplayPipeline :=
  let r := s.worker.step c.worker input
  let after := outputAfter c env key r.2 (s.output, s.held)
  { s with worker := r.1, output := after.1, held := after.2 }

/-- The worker takes an event, until it has ended. -/
def workerTake (s : ReplayPipeline) (nowUs : ℕ) (env : OutputEnv) : ReplayPipeline :=
  match s.worker.ended, s.outbox.queue with
  | false, (key, ev) :: _ =>
    workerTurn c { s with outbox := s.outbox.pop } (some key) (.event ev nowUs) env
  | _, _ => s

/-- An archive has no prints to recover. -/
def workerOther (s : ReplayPipeline) (input : WorkerInput) (env : OutputEnv) : ReplayPipeline :=
  match input with
  | .event _ _ | .recovered _ => s
  | input => workerTurn c s none input env

/-- **One step.** A step that is not possible does nothing. -/
def step (s : ReplayPipeline) (i : ReplayStep) : ReplayPipeline × List Unit :=
  match i with
  | .spawn a nowUs => (s.spawn c a nowUs, [])
  | .fetch => ((s.task.map (s.fetch c)).getD s, [])
  | .send => (s.send c, [])
  | .writeCursor => ((s.task.map (s.writeCursor c)).getD s, [])
  | .runtimeTake nowUs => (s.runtimeTake c nowUs, [])
  | .runtimeOther body nowUs => (s.runtimeOther c body nowUs, [])
  | .runtimeSend => ({ s with outbox := s.outbox.push c.capacity }, [])
  | .workerTake nowUs env => (s.workerTake c nowUs env, [])
  | .workerOther input env => (s.workerOther c input env, [])
  | .crash => (s.crash c, [])

/-- The pipeline as a machine. -/
def machine : Machine ReplayPipeline ReplayStep Unit := ⟨step c⟩

/-- **The keys of the events in memory**: in the channels, in the synchronizer
and in the buffer of the sink. -/
def inMemory (s : ReplayPipeline) : List String :=
  sentKeys s.inbox ++ sentKeys s.outbox ++ s.held.keys Place.inMemory

/-- **The keys of what was lost** since their objects were last fetched: with a
channel, with the memory, or with a row that the sink shed. -/
def lost (s : ReplayPipeline) : List String :=
  s.astray ++ s.held.keys (fun place => decide (place = .lost))

/-- **Everything up to the cursor is written**: of a key at or before it no event
is in a channel or went astray, and all that the worker was fed was dropped as
late, or was flushed and is in a row that was written. -/
def CrashSafe (s : ReplayPipeline) : Prop :=
  ∀ key ∈ c.plan.take (c.resumeIndex s.cursor),
    key ∉ sentKeys s.inbox ∧ key ∉ sentKeys s.outbox ∧ key ∉ s.astray ∧
      ∀ p ∈ s.held.events, p.key = key → p.place = .late ∨
        p.place = .flushed ∧ ∃ row ∈ s.held.written, p.fed.InStored c.declared row

/-- **When a key is written to the cursor, only keys ahead of it are in memory or
were lost.** -/
def Cleared (s : ReplayPipeline) : ReplayStep → Prop
  | .writeCursor => ∀ t key, s.task = some t → t.current = some key → s.inbox.hand = [] →
      t.attempt.writes key = true → ∀ other ∈ s.inMemory ++ s.lost, other ∈ t.ahead
  | _ => True

end ReplayPipeline

namespace ReplayPipeline

variable {c : ReplayConfig} {s : ReplayPipeline}

/-! ## What is neither written nor late -/

/-- The keys of what is neither written nor late. -/
def unsettled (s : ReplayPipeline) : List String :=
  sentKeys s.inbox ++ sentKeys s.outbox ++ s.astray ++ s.held.unsettled

theorem mem_unsettled {key : String} :
    key ∈ s.unsettled ↔ key ∈ sentKeys s.inbox ∨ key ∈ sentKeys s.outbox ∨ key ∈ s.astray
      ∨ key ∈ s.held.unsettled := by
  unfold unsettled
  rw [List.mem_append, List.mem_append, List.mem_append, or_assoc, or_assoc]

/-- It is in memory, or was lost. -/
theorem mem_unsettled_iff {key : String} : key ∈ s.unsettled ↔ key ∈ s.inMemory ++ s.lost := by
  unfold inMemory lost
  rw [mem_unsettled, Held.mem_unsettled_iff]
  simp only [List.mem_append]
  tauto

/-- **What is safe**: with notes that are so, a key of which nothing is
unsettled. -/
theorem crashSafe_iff_unsettled (hf : Held.Faithful c.declared s.output s.held) :
    CrashSafe c s ↔ ∀ key ∈ c.plan.take (c.resumeIndex s.cursor), key ∉ s.unsettled := by
  refine forall₂_congr (fun key _ => ?_)
  rw [mem_unsettled, not_or, not_or, not_or]
  refine and_congr_right (fun _ => and_congr_right (fun _ => and_congr_right (fun _ => ?_)))
  rw [Held.mem_unsettled]
  constructor
  · rintro hall ⟨p, hp, hplace, hkey⟩
    rcases hall p hp hkey with hlate | ⟨hflushed, _⟩
    · rw [hlate] at hplace
      cases hplace
    · rw [hflushed] at hplace
      cases hplace
  · intro hnone p hp hkey
    have hsettled : p.place.settled = true := by
      by_contra hplace
      exact hnone ⟨p, hp, Bool.not_eq_true _ ▸ hplace, hkey⟩
    unfold Place.settled at hsettled
    split at hsettled
    · next hflushed => exact Or.inr ⟨hflushed, hf.flushed p hp hflushed⟩
    · next hlate => exact Or.inl hlate
    all_goals cases hsettled

theorem mem_unsettled_outputAfter {env : OutputEnv} {fedKey : Option String}
    {effects : List WorkerEffect} {r : WorkerOutput × Held} {key : String}
    (hkey : key ∈ (outputAfter c env fedKey effects r).2.unsettled) :
    key ∈ r.2.unsettled ∨ fedKey = some key := by
  induction effects generalizing r with
  | nil => exact Or.inl hkey
  | cons effect effects ih => exact (ih hkey).elim Held.mem_unsettled_step Or.inr

/-! ## One step -/

/-- **What a step does to the cursor, the task and the keys that are unsettled.** -/
inductive Outcome (c : ReplayConfig) (s : ReplayPipeline) (i : ReplayStep) : Prop where
  /-- The task goes on where it is, or ends; no key is unsettled. -/
  | quiet (hcursor : (s.step c i).1.cursor = s.cursor)
      (htask : ∀ t, (s.step c i).1.task = some t → s.task = some t)
      (hunsettled : ∀ key ∈ (s.step c i).1.unsettled, key ∈ s.unsettled)
      (hcleared : s.Cleared i)
  /-- A task starts behind the key in the cursor file. -/
  | spawned (hcursor : (s.step c i).1.cursor = s.cursor)
      (htask : ∀ t, (s.step c i).1.task = some t →
        t.current = none ∧ t.ahead = c.plan.drop (c.resumeIndex s.cursor))
      (hunsettled : ∀ key ∈ (s.step c i).1.unsettled, key ∈ s.unsettled)
      (hcleared : s.Cleared i)
  /-- The events of the next key come in. -/
  | fetched (t : ReplayRun) (key : String) (rest : List String) (hbefore : s.task = some t)
      (hcurrent : t.current = none) (hahead : t.ahead = key :: rest)
      (hcursor : (s.step c i).1.cursor = s.cursor)
      (htask : ∀ t', (s.step c i).1.task = some t' → t'.current = some key ∧ t'.ahead = rest)
      (hunsettled : ∀ other ∈ (s.step c i).1.unsettled, other ∈ s.unsettled ∨ other = key)
      (hcleared : s.Cleared i)
  /-- The task is through with a key, and may have written it. -/
  | through (t : ReplayRun) (key : String) (hbefore : s.task = some t)
      (hcurrent : t.current = some key)
      (htask : (s.step c i).1.task = some { t with current := none })
      (hunsettled : (s.step c i).1.unsettled = s.unsettled)
      (hcursor : (s.step c i).1.cursor = s.cursor ∧ s.Cleared i ∨
        (s.step c i).1.cursor = some key ∧
          (s.Cleared i ↔ ∀ other ∈ s.unsettled, other ∈ t.ahead))

theorem mem_unsettled_workerTurn {fedKey : Option String} {input : WorkerInput} {env : OutputEnv}
    {key : String} (hkey : key ∈ (s.workerTurn c fedKey input env).unsettled) :
    key ∈ s.unsettled ∨ fedKey = some key := by
  rcases mem_unsettled.mp hkey with hinbox | houtbox | hastray | hheld
  · exact Or.inl (mem_unsettled.mpr (Or.inl hinbox))
  · exact Or.inl (mem_unsettled.mpr (Or.inr (Or.inl houtbox)))
  · exact Or.inl (mem_unsettled.mpr (Or.inr (Or.inr (Or.inl hastray))))
  · exact (mem_unsettled_outputAfter hheld).imp_left
      (fun hold => mem_unsettled.mpr (Or.inr (Or.inr (Or.inr hold))))

/-- The reader of a channel takes a message. -/
theorem sentKeys_pop {α : Type} {channel : Outlet (String × α)} {key : String} {a : α}
    {rest : List (String × α)} (hqueue : channel.queue = (key, a) :: rest) :
    sentKeys channel = key :: sentKeys channel.pop := by
  unfold sentKeys
  rw [Outlet.content_pop hqueue, List.map_cons]

/-- The messages a task takes up have one key. -/
theorem mem_sentKeys_load {α : Type} {channel : Outlet (String × α)} {key other : String}
    {messages : List α}
    (hother : other ∈ sentKeys (channel.load (messages.map (fun a => (key, a))))) :
    other ∈ sentKeys channel ∨ other = key := by
  unfold sentKeys at hother
  rw [Outlet.content_load, List.map_append] at hother
  rcases List.mem_append.mp hother with hold | hnew
  · exact Or.inl hold
  · rw [List.map_map] at hnew
    obtain ⟨_, -, rfl⟩ := List.mem_map.mp hnew
    exact Or.inr rfl

theorem mem_unsettled_workerTake {nowUs : ℕ} {env : OutputEnv} {key : String}
    (hkey : key ∈ (s.workerTake c nowUs env).unsettled) : key ∈ s.unsettled := by
  unfold workerTake at hkey
  split at hkey
  · next key' ev rest _ hqueue =>
    -- the event goes out of the channel
    have hpop := sentKeys_pop hqueue
    rcases mem_unsettled_workerTurn hkey with hold | hnew
    · rw [mem_unsettled] at hold ⊢
      rw [hpop]
      exact hold.imp_right (Or.imp_left (List.mem_cons_of_mem _))
    · refine mem_unsettled.mpr (Or.inr (Or.inl ?_))
      rw [hpop]
      exact Option.some.inj hnew ▸ List.mem_cons_self
  · exact hkey

theorem mem_unsettled_runtimeTake {nowUs : ℕ} {key : String}
    (hkey : key ∈ (s.runtimeTake c nowUs).unsettled) : key ∈ s.unsettled := by
  unfold runtimeTake at hkey
  split at hkey
  · next key' ev rest _ _ hqueue =>
    have hpop := sentKeys_pop hqueue
    rw [mem_unsettled] at hkey ⊢
    rw [hpop]
    rcases hkey with hinbox | houtbox | hrest
    · exact Or.inl (List.mem_cons_of_mem _ hinbox)
    · -- what the runtime makes of an event has its key
      rcases mem_sentKeys_load houtbox with hold | rfl
      · exact Or.inr (Or.inl hold)
      · exact Or.inl List.mem_cons_self
    · exact Or.inr (Or.inr hrest)
  · exact hkey

theorem outcome_spawn (hcursor : c.sec.cursor.isSome = true) (a : Attempt) (nowUs : ℕ) :
    Outcome c s (.spawn a nowUs) := by
  have hstep : (s.step c (.spawn a nowUs)).1 = s.spawn c a nowUs := rfl
  have hplan : c.adapter.enumerateWindow a.list = .ok c.plan := rfl
  have hconfigured : c.adapter.cursor = true := hcursor
  unfold spawn at hstep
  rw [hplan, hconfigured] at hstep
  by_cases hbusy : s.task.isSome ∨ s.runtime.outcome = none ∨ s.outbox.content ≠ []
  · rw [if_pos hbusy] at hstep
    exact .quiet (by rw [hstep]) (by rw [hstep]; exact fun _ h => h)
      (by rw [hstep]; exact fun _ h => h) trivial
  · rw [if_neg hbusy] at hstep
    refine .spawned (by rw [hstep]) ?_ ?_ trivial
    · rw [hstep]
      rintro t ht
      obtain rfl := Option.some.inj ht
      exact ⟨rfl, rfl⟩
    · rw [hstep]
      intro key hkey
      rw [mem_unsettled] at hkey ⊢
      rcases hkey with hinbox | houtbox | hastray | hheld
      · cases hinbox
      · cases houtbox
      · exact (List.mem_append.mp hastray).elim (fun h => Or.inr (Or.inr (Or.inl h))) Or.inl
      · exact Or.inr (Or.inr (Or.inr hheld))

theorem outcome_fetch : Outcome c s .fetch := by
  cases htask : s.task with
  | none =>
    have hstep : (s.step c .fetch).1 = s := by
      show (s.task.map (s.fetch c)).getD s = s
      rw [htask]
      rfl
    exact .quiet (by rw [hstep]) (by rw [hstep]; exact fun _ h => h)
      (by rw [hstep]; exact fun _ h => h) trivial
  | some t =>
    have hstep : (s.step c .fetch).1 = s.fetch c t := by
      show (s.task.map (s.fetch c)).getD s = _
      rw [htask]
      rfl
    have hends : s.fetch c t = { s with task := none } → Outcome c s .fetch := by
      intro h
      rw [h] at hstep
      exact .quiet (by rw [hstep]) (by rw [hstep]; exact fun _ h => nomatch h)
        (by rw [hstep]; exact fun _ h => h) trivial
    obtain ⟨a, recvSeq, current, ahead⟩ := t
    cases current with
    | some key =>
      have hsame : (s.step c .fetch).1 = s := hstep
      exact .quiet (by rw [hsame]) (by rw [hsame]; exact fun _ h => h)
        (by rw [hsame]; exact fun _ h => h) trivial
    | none =>
      cases ahead with
      | nil => exact hends rfl
      | cons key rest =>
        by_cases hstopped : a.stopped key = true
        · exact hends (if_pos hstopped)
        · cases hfound : c.adapter.objectEvents a key with
          | error e =>
            refine hends ((if_neg hstopped).trans ?_)
            rw [hfound]
          | ok found =>
            have hfetch : s.fetch c ⟨a, recvSeq, none, key :: rest⟩ = _ := if_neg hstopped
            rw [hfound] at hfetch
            rw [hfetch] at hstep
            refine .fetched _ key rest htask rfl rfl (by rw [hstep]) ?_ ?_ trivial
            · rw [hstep]
              intro t' ht'
              obtain rfl := Option.some.inj ht'
              exact ⟨rfl, rfl⟩
            · rw [hstep]
              intro other hother
              rw [mem_unsettled] at hother ⊢
              rcases hother with hinbox | houtbox | hastray | hheld
              · exact (mem_sentKeys_load hinbox).imp_left Or.inl
              · exact Or.inl (Or.inr (Or.inl houtbox))
              · exact Or.inl (Or.inr (Or.inr (Or.inl (List.mem_filter.mp hastray).1)))
              · exact Or.inl (Or.inr (Or.inr (Or.inr (Held.mem_unsettled_refetched hheld))))

theorem outcome_send : Outcome c s .send := by
  have hstep : (s.step c .send).1 = s.send c := rfl
  unfold send at hstep
  by_cases hhand : s.inbox.hand = []
  · rw [if_pos hhand] at hstep
    exact .quiet (by rw [hstep]) (by rw [hstep]; exact fun _ h => h)
      (by rw [hstep]; exact fun _ h => h) trivial
  · rw [if_neg hhand] at hstep
    by_cases hopen : s.runtime.outcome = none
    · rw [if_pos hopen] at hstep
      refine .quiet (by rw [hstep]) (by rw [hstep]; exact fun _ h => h) ?_ trivial
      rw [hstep]
      unfold unsettled sentKeys
      rw [Outlet.content_push]
      exact fun _ h => h
    · rw [if_neg hopen] at hstep
      refine .quiet (by rw [hstep]) (by rw [hstep]; exact fun _ h => nomatch h) ?_ trivial
      rw [hstep]
      intro key hkey
      rw [mem_unsettled] at hkey ⊢
      -- what it had to send was on its way before
      unfold sentKeys Outlet.content at hkey ⊢
      rw [List.append_nil] at hkey
      rw [List.map_append, List.mem_append]
      rcases hkey with hinbox | houtbox | hastray | hheld
      · exact Or.inl (Or.inl hinbox)
      · exact Or.inr (Or.inl houtbox)
      · exact (List.mem_append.mp hastray).elim (fun h => Or.inr (Or.inr (Or.inl h)))
          (fun h => Or.inl (Or.inr h))
      · exact Or.inr (Or.inr (Or.inr hheld))

/-- The cursor after a key is through, if a cursor file is configured. -/
theorem cursorAfter_writeCursor (hcursor : c.sec.cursor.isSome = true) (cursor : Option String)
    (a : Attempt) (key : String) :
    EntrepotAdapter.cursorAfter cursor (c.adapter.writeCursor a key)
      = if a.writes key then some key else cursor := by
  have hconfigured : c.adapter.cursor = true := hcursor
  unfold EntrepotAdapter.writeCursor
  rw [hconfigured, Bool.true_and]
  cases a.writes key <;> rfl

theorem outcome_writeCursor (hcursor : c.sec.cursor.isSome = true) :
    Outcome c s .writeCursor := by
  have hquiet : (s.step c .writeCursor).1 = s → s.Cleared .writeCursor →
      Outcome c s .writeCursor := by
    intro h hcleared
    exact .quiet (by rw [h]) (by rw [h]; exact fun _ h => h) (by rw [h]; exact fun _ h => h)
      hcleared
  cases htask : s.task with
  | none =>
    refine hquiet ?_ (fun t key ht => absurd (htask.symm.trans ht) nofun)
    show (s.task.map (s.writeCursor c)).getD s = s
    rw [htask]
    rfl
  | some t =>
    have hstep : (s.step c .writeCursor).1 = s.writeCursor c t := by
      show (s.task.map (s.writeCursor c)).getD s = _
      rw [htask]
      rfl
    have hsame : ∀ t', s.task = some t' → t' = t :=
      fun t' ht' => Option.some.inj (ht'.symm.trans htask)
    unfold writeCursor at hstep
    cases hcurrent : t.current with
    | none =>
      rw [hcurrent] at hstep
      refine hquiet hstep (fun t' key ht' hkey => ?_)
      rw [hsame t' ht', hcurrent] at hkey
      cases hkey
    | some key =>
      rw [hcurrent] at hstep
      dsimp only at hstep
      rw [cursorAfter_writeCursor hcursor] at hstep
      by_cases hhand : s.inbox.hand = []
      · have hthrough := hstep.trans (if_pos hhand)
        refine .through t key htask hcurrent (by rw [hthrough]) (by rw [hthrough]; rfl) ?_
        rw [hthrough]
        cases hwrites : t.attempt.writes key with
        | false =>
          refine Or.inl ⟨rfl, fun t' key' ht' hkey' _ hwrites' => ?_⟩
          obtain rfl := hsame t' ht'
          obtain rfl := Option.some.inj (hkey'.symm.trans hcurrent)
          exact absurd (hwrites'.symm.trans hwrites) nofun
        | true =>
          refine Or.inr ⟨rfl, fun h other hother => ?_, ?_⟩
          · exact h t key htask hcurrent hhand hwrites other (mem_unsettled_iff.mp hother)
          · intro h t' key' ht' _ _ _ other hother
            rw [hsame t' ht']
            exact h other (mem_unsettled_iff.mpr hother)
      · refine hquiet (hstep.trans (if_neg hhand)) (fun t' key' _ _ hempty => ?_)
        exact absurd hempty hhand

theorem outcome_step (hcursor : c.sec.cursor.isSome = true) (s : ReplayPipeline) (i : ReplayStep) :
    Outcome c s i := by
  cases i with
  | spawn a nowUs => exact outcome_spawn hcursor a nowUs
  | fetch => exact outcome_fetch
  | send => exact outcome_send
  | writeCursor => exact outcome_writeCursor hcursor
  | runtimeTake nowUs =>
    have hframe : (s.runtimeTake c nowUs).cursor = s.cursor ∧
        (s.runtimeTake c nowUs).task = s.task := by
      unfold runtimeTake
      split <;> exact ⟨rfl, rfl⟩
    exact .quiet hframe.1 (fun t ht => hframe.2.symm.trans ht)
      (fun key hkey => mem_unsettled_runtimeTake hkey) trivial
  | runtimeOther body nowUs =>
    have hframe : ∃ runtime, s.runtimeOther c body nowUs = { s with runtime := runtime } := by
      unfold runtimeOther
      split
      · split
        · exact ⟨_, rfl⟩
        · exact ⟨_, rfl⟩
      all_goals exact ⟨_, rfl⟩
    obtain ⟨runtime, hruntime⟩ := hframe
    have hstep : (s.step c (.runtimeOther body nowUs)).1 = { s with runtime := runtime } := hruntime
    exact .quiet (by rw [hstep]) (by rw [hstep]; exact fun _ h => h)
      (by rw [hstep]; exact fun _ h => h) trivial
  | runtimeSend =>
    refine .quiet rfl (fun _ h => h) ?_ trivial
    show ∀ key ∈ unsettled { s with outbox := s.outbox.push c.capacity }, _
    unfold unsettled sentKeys
    rw [Outlet.content_push]
    exact fun _ h => h
  | workerTake nowUs env =>
    have hframe : (s.workerTake c nowUs env).cursor = s.cursor ∧
        (s.workerTake c nowUs env).task = s.task := by
      unfold workerTake
      split <;> exact ⟨rfl, rfl⟩
    exact .quiet hframe.1 (fun t ht => hframe.2.symm.trans ht)
      (fun key hkey => mem_unsettled_workerTake hkey) trivial
  | workerOther input env =>
    have hframe : s.workerOther c input env = s ∨
        s.workerOther c input env = s.workerTurn c none input env := by
      cases input with
      | event _ _ => exact Or.inl rfl
      | recovered _ => exact Or.inl rfl
      | _ => exact Or.inr rfl
    rcases hframe with hsame | hturn
    · have hstep : (s.step c (.workerOther input env)).1 = s := hsame
      exact .quiet (by rw [hstep]) (by rw [hstep]; exact fun _ h => h)
        (by rw [hstep]; exact fun _ h => h) trivial
    · have hstep : (s.step c (.workerOther input env)).1 = s.workerTurn c none input env := hturn
      refine .quiet (by rw [hstep]; rfl) (by rw [hstep]; exact fun _ h => h) ?_ trivial
      rw [hstep]
      exact fun key hkey => (mem_unsettled_workerTurn hkey).resolve_right nofun
  | crash =>
    refine .quiet rfl (fun _ h => nomatch h) (fun key hkey => ?_) trivial
    rw [mem_unsettled] at hkey ⊢
    rcases hkey with hinbox | houtbox | hastray | hheld
    · cases hinbox
    · cases houtbox
    · rcases List.mem_append.mp hastray with hearlier | houtbox
      · exact (List.mem_append.mp hearlier).elim (fun h => Or.inr (Or.inr (Or.inl h))) Or.inl
      · exact Or.inr (Or.inl houtbox)
    · exact Or.inr (Or.inr (Or.inr (Held.mem_unsettled_crash hheld)))

/-! ## The notes are so -/

/-- Only an event and a recovered print feed the synchronizer. -/
theorem fed_eq_zero {cfg : WorkerConfig} {w : FrameworkWorker} {input : WorkerInput}
    (hevent : ∀ ev nowUs, input ≠ .event ev nowUs) (hrecovered : ∀ t, input ≠ .recovered t)
    {call : MarketSynchronizer.Call} (hcall : .call call ∈ (w.step cfg input).2) :
    call.fed = 0 := by
  unfold FrameworkWorker.step at hcall
  split at hcall
  · cases hcall
  · cases input with
    | event ev nowUs => exact absurd rfl (hevent ev nowUs)
    | recovered t => exact absurd rfl (hrecovered t)
    | timer nowUs =>
      dsimp only at hcall
      split at hcall
      · rcases List.mem_cons.mp hcall with htime | hdrain
        · cases htime
          rfl
        · cases List.mem_singleton.mp hdrain
          rfl
      · cases hcall
    | stopped nowUs =>
      rcases List.mem_append.mp hcall with hincident | hclose
      · obtain ⟨g, -, hg⟩ := List.mem_map.mp hincident
        cases hg
      · rcases List.mem_cons.mp hclose with hfinalize | hdrain
        · cases hfinalize
        · cases List.mem_singleton.mp hdrain
          rfl
    | _ => cases hcall

theorem faithful_outputAfter {env : OutputEnv} {fedKey : Option String}
    {effects : List WorkerEffect}
    (hkey : fedKey = none → ∀ call, .call call ∈ effects → call.fed = 0)
    {r : WorkerOutput × Held} (hr : Held.Faithful c.declared r.1 r.2) :
    Held.Faithful c.declared (outputAfter c env fedKey effects r).1
      (outputAfter c env fedKey effects r).2 := by
  induction effects generalizing r with
  | nil => exact hr
  | cons effect effects ih =>
    refine ih (fun hnone call hcall => hkey hnone call (List.mem_cons_of_mem _ hcall))
      (hr.step c.threshold env (fun hnone call heffect => hkey hnone call ?_))
    rw [heffect]
    exact List.mem_cons_self

/-- **Every step keeps the notes so.** -/
theorem faithful_step (hs : Held.Faithful c.declared s.output s.held) (i : ReplayStep) :
    Held.Faithful c.declared (s.step c i).1.output (s.step c i).1.held := by
  cases i with
  | crash => exact hs.crash c.sync c.outputDir c.others
  | workerTake nowUs env =>
    show Held.Faithful _ (s.workerTake c nowUs env).output (s.workerTake c nowUs env).held
    unfold workerTake
    split
    · exact faithful_outputAfter (r := (s.output, s.held))
        (fun hnone => absurd hnone (Option.some_ne_none _)) hs
    · exact hs
  | workerOther input env =>
    show Held.Faithful _ (s.workerOther c input env).output (s.workerOther c input env).held
    unfold workerOther
    split
    · exact hs
    · exact hs
    · next hevent hrecovered =>
      exact faithful_outputAfter (r := (s.output, s.held))
        (fun _ call hcall => fed_eq_zero hevent hrecovered hcall) hs
  | spawn a nowUs =>
    show Held.Faithful _ (s.spawn c a nowUs).output (s.spawn c a nowUs).held
    unfold spawn
    split
    · exact hs
    · split <;> exact hs
  | fetch =>
    show Held.Faithful _ ((s.task.map (s.fetch c)).getD s).output
      ((s.task.map (s.fetch c)).getD s).held
    cases s.task with
    | none => exact hs
    | some t =>
      show Held.Faithful _ (s.fetch c t).output (s.fetch c t).held
      unfold fetch
      split
      · exact hs
      · exact hs
      · split
        · exact hs
        · split
          · exact hs
          · exact hs.refetched _
  | send =>
    show Held.Faithful _ (s.send c).output (s.send c).held
    unfold send
    split
    · exact hs
    · split <;> exact hs
  | writeCursor =>
    show Held.Faithful _ ((s.task.map (s.writeCursor c)).getD s).output
      ((s.task.map (s.writeCursor c)).getD s).held
    cases s.task with
    | none => exact hs
    | some t =>
      show Held.Faithful _ (s.writeCursor c t).output (s.writeCursor c t).held
      unfold writeCursor
      split
      · exact hs
      · split <;> exact hs
  | runtimeTake nowUs =>
    show Held.Faithful _ (s.runtimeTake c nowUs).output (s.runtimeTake c nowUs).held
    unfold runtimeTake
    split <;> exact hs
  | runtimeOther body nowUs =>
    show Held.Faithful _ (s.runtimeOther c body nowUs).output (s.runtimeOther c body nowUs).held
    unfold runtimeOther
    split
    · split <;> exact hs
    · exact hs
    · exact hs
    · exact hs
    · exact hs
  | runtimeSend => exact hs

/-! ## A run -/

/-- **Where a run stands**: what the task has before it ends the plan behind the
key in the cursor file, the keys that are unsettled are of the plan, and the
notes are so. -/
structure Placed (c : ReplayConfig) (s : ReplayPipeline) : Prop where
  ahead : ∀ t, s.task = some t →
    t.current.toList ++ t.ahead <:+ c.plan.drop (c.resumeIndex s.cursor)
  known : ∀ key ∈ s.unsettled, key ∈ c.plan
  faithful : Held.Faithful c.declared s.output s.held

theorem nodup_plan (c : ReplayConfig) : c.plan.Nodup :=
  EntrepotAdapter.nodup_plannedKeys (show c.adapter.window.coins = [c.entry.symbol] from rfl)

/-- **The place of a key that is written**: behind it are the keys ahead of the
task. -/
theorem Placed.resumeIndex_of_current (h : Placed c s) {t : ReplayRun} {key : String}
    (htask : s.task = some t) (hcurrent : t.current = some key) :
    c.plan.drop (c.resumeIndex (some key)) = t.ahead := by
  have hsuffix : key :: t.ahead <:+ c.plan := by
    have hbehind := h.ahead t htask
    rw [hcurrent] at hbehind
    exact hbehind.trans (List.drop_suffix _ _)
  obtain ⟨past, hplan⟩ := hsuffix
  have hsplit : c.plan = (past ++ [key]) ++ t.ahead := by
    rw [← hplan, List.append_assoc]
    rfl
  have hlast : (past ++ [key]).getLast? = some key := List.getLast?_concat
  unfold ReplayConfig.resumeIndex
  rw [hsplit, ← hlast]
  refine EntrepotAdapter.drop_resumeIndex (hsplit ▸ nodup_plan c) (fun k hk => ?_)
  exact EntrepotAdapter.plain_of_mem_plannedKeys
    (x := c.adapter) (show k ∈ c.plan from hsplit ▸ List.mem_append_left _ hk)

theorem Placed.step (h : Placed c s) (hcursor : c.sec.cursor.isSome = true) (i : ReplayStep) :
    Placed c (s.step c i).1 := by
  have hfaithful := faithful_step h.faithful i
  cases outcome_step hcursor s i with
  | quiet hkept htask hunsettled _ =>
    refine ⟨fun t ht => ?_, fun key hkey => h.known key (hunsettled key hkey), hfaithful⟩
    rw [hkept]
    exact h.ahead t (htask t ht)
  | spawned hkept htask hunsettled _ =>
    refine ⟨fun t ht => ?_, fun key hkey => h.known key (hunsettled key hkey), hfaithful⟩
    obtain ⟨hcurrent, hahead⟩ := htask t ht
    rw [hkept, hcurrent, hahead]
    exact List.suffix_refl _
  | fetched t key rest hbefore hcurrent hahead hkept htask hunsettled _ =>
    have hbehind := h.ahead t hbefore
    rw [hcurrent, hahead] at hbehind
    refine ⟨fun t' ht' => ?_, fun other hother => ?_, hfaithful⟩
    · obtain ⟨hcurrent', hahead'⟩ := htask t' ht'
      rw [hkept, hcurrent', hahead']
      exact hbehind
    · rcases hunsettled other hother with hold | rfl
      · exact h.known other hold
      · exact List.mem_of_mem_drop (hbehind.subset List.mem_cons_self)
  | through t key hbefore hcurrent htask hunsettled hwritten =>
    refine ⟨fun t' ht' => ?_, fun other hother => h.known other (hunsettled ▸ hother), hfaithful⟩
    obtain rfl := Option.some.inj (htask.symm.trans ht')
    rcases hwritten with ⟨hkept, -⟩ | ⟨hkey, -⟩
    · have hbehind := h.ahead t hbefore
      rw [hcurrent] at hbehind
      rw [hkept]
      exact (List.suffix_cons key t.ahead).trans hbehind
    · rw [hkey, h.resumeIndex_of_current hbefore hcurrent]
      exact List.suffix_refl _

/-- A key of the plan stands on one side of a place. -/
theorem notMem_take_iff {key : String} (hkey : key ∈ c.plan) (n : ℕ) :
    key ∉ c.plan.take n ↔ key ∈ c.plan.drop n := by
  have hnodup := nodup_plan c
  rw [← List.take_append_drop n c.plan] at hkey hnodup
  constructor
  · intro hnot
    exact (List.mem_append.mp hkey).resolve_left hnot
  · intro hdrop htake
    exact (List.nodup_append'.mp hnodup).2.2 htake hdrop

/-- A pipeline is safe exactly if a resumed replay sends again what is
unsettled. -/
theorem crashSafe_iff_subset (h : Placed c s) :
    CrashSafe c s ↔ ∀ key ∈ s.unsettled, key ∈ c.plan.drop (c.resumeIndex s.cursor) := by
  rw [crashSafe_iff_unsettled h.faithful]
  constructor
  · intro hsafe key hkey
    exact (notMem_take_iff (h.known key hkey) _).mp (fun htake => hsafe key htake hkey)
  · intro hall key htake hkey
    exact (notMem_take_iff (h.known key hkey) _).mpr (hall key hkey) htake

/-- **A resumed replay sends again what a crash took**: the next spawn has every
key that was in memory or lost ahead of it. -/
theorem mem_ahead_of_crashSafe (h : Placed c s) (hcursor : c.sec.cursor.isSome = true)
    (hsafe : CrashSafe c s) {a : Attempt} {nowUs : ℕ} {t : ReplayRun}
    (ht : ((machine c).run s [.crash, .spawn a nowUs]).1.task = some t) {key : String}
    (hkey : key ∈ s.inMemory ++ s.lost) : key ∈ t.ahead := by
  have hconfigured : c.adapter.cursor = true := hcursor
  have hspawn : ((machine c).run s [.crash, .spawn a nowUs]).1
      = (s.crash c).spawn c a nowUs := rfl
  have hidle : ¬ ((s.crash c).task.isSome ∨ (s.crash c).runtime.outcome = none ∨
      (s.crash c).outbox.content ≠ []) := by
    rintro (hrun | hlive | hleft)
    · exact Bool.false_ne_true hrun
    · cases hlive
    · exact hleft rfl
  unfold spawn at hspawn
  rw [if_neg hidle, show c.adapter.enumerateWindow a.list = .ok c.plan from rfl,
    hconfigured] at hspawn
  rw [hspawn] at ht
  obtain rfl := Option.some.inj ht
  exact (crashSafe_iff_subset h).mp hsafe key (mem_unsettled_iff.mpr hkey)

/-! ## One print -/

section Sample

open EntrepotAdapter (solAdapter)
open EntrepotFleet (oneDay served)

end Sample

end ReplayPipeline
