import Aetelier.SettlementPoller
import Aetelier.BufferedSink
import Aetelier.CaseTables
import Aetelier.MarketGrid
import Aetelier.Trace

/-!
# Settlements on their way to a file

A settlement the poller sends waits in the channel, is fed to the
synchronizer, pends there, goes into a row, waits in the buffer of the sink
and is written by a flush. Nothing on this way tells two copies of it apart
but the flush, which keeps one copy of each settlement in its batch and
forgets which ones it has kept as soon as it is done.

So a settlement is in one persisted row as long as no copy of it is on its way
when another one is persisted, nor comes after (`SettlementSystem.Apart`). A
step can break this in three ways: a fetch returns a settlement that is
persisted already, a flush leaves a copy behind upstream, or a flush fails
when its settlements are in place. `SettlementSystem.apart_iff_fresh` says
that there are no others. The poller's window makes the first one happen an
hour after every flush.
-/

open MarketSynchronizer

/-! ## Settlements inside the synchronizer -/

namespace MarketSynchronizer

variable {s : MarketSynchronizer} {fs : FundingSettlement}

/-- The settlements in a synchronizer, pending or in a row. -/
def carried (s : MarketSynchronizer) : List FundingSettlement :=
  s.currentFundingSettlements ++ s.buffer.flatMap MarketSnapshot.fundingSettlements

theorem mem_carried_iff :
    fs ∈ s.carried ↔
      fs ∈ s.currentFundingSettlements ∨ ∃ r ∈ s.buffer, fs ∈ r.fundingSettlements := by
  unfold carried
  rw [List.mem_append, List.mem_flatMap]

theorem mem_pending_iff :
    MarketEvent.settlement fs ∈ s.pending ↔ fs ∈ s.currentFundingSettlements := by
  simp [pending, eventsOf]

theorem mem_events_iff {r : MarketSnapshot} :
    MarketEvent.settlement fs ∈ r.events ↔ fs ∈ r.fundingSettlements := by
  simp [MarketSnapshot.events, eventsOf]

theorem mem_fed_iff {c : Call} :
    MarketEvent.settlement fs ∈ c.fed ↔ c = .onFundingSettlement fs := by
  cases c <;> simp [Call.fed, eq_comm]

/-- A closed stream takes in nothing. -/
theorem pending_call_of_closed (hs : s.finalized = true) (c : Call) :
    (s.call c).1.pending = s.pending := by
  cases c <;>
    simp [call, onTime, onOrderbook, onTrade, onLiquidation, onFunding, onFundingSettlement,
      onOpenInterest, hs, dropPostFinalize, drain, pending]

/-- **What a synchronizer carries after a call, or hands out, it carried
before or was fed.** -/
theorem carried_of_call {c : Call}
    (h : fs ∈ (s.call c).1.carried ∨ ∃ r ∈ (s.call c).2, fs ∈ r.fundingSettlements) :
    fs ∈ s.carried ∨ c = .onFundingSettlement fs := by
  rw [mem_carried_iff] at h ⊢
  have hcases : MarketEvent.settlement fs ∈ (s.call c).1.pending ∨
      ∃ r ∈ (s.call c).2 ++ (s.call c).1.buffer, fs ∈ r.fundingSettlements := by
    rcases h with (h | ⟨r, hr, hfs⟩) | ⟨r, hr, hfs⟩
    · exact Or.inl (mem_pending_iff.mpr h)
    · exact Or.inr ⟨r, List.mem_append_right _ hr, hfs⟩
    · exact Or.inr ⟨r, List.mem_append_left _ hr, hfs⟩
  have hin : ∀ {M : Multiset MarketEvent}, M ≤ s.pending + c.fed → .settlement fs ∈ M →
      (fs ∈ s.currentFundingSettlements ∨ ∃ r ∈ s.buffer, fs ∈ r.fundingSettlements) ∨
        c = .onFundingSettlement fs := by
    intro M hM hmem
    rcases Multiset.mem_add.mp (Multiset.mem_of_le hM hmem) with hp | hfed
    · exact Or.inl (Or.inl (mem_pending_iff.mp hp))
    · exact Or.inr (mem_fed_iff.mp hfed)
  by_cases hs : s.finalized = true
  · rw [pending_call_of_closed hs, (call_of_closed hs c).2.2] at hcases
    rcases hcases with hp | hr
    · exact Or.inl (Or.inl (mem_pending_iff.mp hp))
    · exact Or.inl (Or.inr hr)
  · have hopen : s.finalized = false := by simpa using hs
    rw [buffer_call hopen, pending_call hopen] at hcases
    rcases hcases with hp | ⟨r, hr, hfs⟩
    · refine hin ?_ hp
      split
      · exact le_refl _
      · exact Multiset.filter_le _ _
    · rcases List.mem_append.mp hr with hr | hr
      · exact Or.inl (Or.inr ⟨r, hr, hfs⟩)
      · obtain ⟨prev, current, p, -, -, -, -, -, hevents⟩ := mem_newRows hr
        have hmem : MarketEvent.settlement fs ∈ r.events := mem_events_iff.mpr hfs
        rw [hevents] at hmem
        exact hin le_rfl (Multiset.mem_filter.mp hmem).1

/-- Closing a stream makes no copy that was not there. -/
theorem carried_of_finalize (h : fs ∈ s.finalize.carried) : fs ∈ s.carried := by
  by_cases hs : s.finalized = true
  · rw [finalize_of_finalized hs] at h
    exact h
  · have hopen : s.finalized = false := by simpa using hs
    obtain ⟨hbuffer, -, -⟩ := finalize_captured hopen
    obtain ⟨-, hevents, -, -, -⟩ := finalize_spec hopen
    rw [mem_carried_iff] at h ⊢
    rcases h with h | ⟨r, hr, hfs⟩
    · refine Or.inl ?_
      have hkept : s.finalize.currentFundingSettlements = s.currentFundingSettlements ∨
          s.finalize.currentFundingSettlements = [] := by
        by_cases hm : s.clockMode = .orderbookDriven
        · rw [finalize_obDriven hopen hm]
          exact Or.inr rfl
        · cases hp : s.clockPeriod with
          | none =>
            rw [finalize_globalClock_none hopen hm hp]
            exact Or.inl rfl
          | some p =>
            rw [finalize_globalClock_some hopen hm hp]
            exact Or.inr rfl
      rcases hkept with heq | heq <;> rw [heq] at h
      · exact h
      · cases h
    · rw [hbuffer] at hr
      rcases List.mem_append.mp hr with hr | hr
      · exact Or.inr ⟨r, hr, hfs⟩
      · refine Or.inl (mem_pending_iff.mp ?_)
        rw [← hevents r hr]
        exact mem_events_iff.mpr hfs

end MarketSynchronizer

/-! ## What a flush keeps of a batch -/

/-- A venue settlement: exchange, pair and funding time. -/
def FundingSettlement.venueKey (fs : FundingSettlement) : String × String × ℕ :=
  (fs.exchange, fs.pair.toCanonical, fs.fundingTimeUs)

section Dedup

variable {α κ : Type} [DecidableEq κ] {key : α → κ}

/-- The keys kept of a list are those not seen before. -/
theorem mem_keys_dedupBy (l : List α) (seen : List κ) (k : κ) :
    k ∈ (dedupBy (fun a => some (key a)) seen l).map key ↔ k ∈ l.map key ∧ k ∉ seen := by
  induction l generalizing seen with
  | nil => simp [dedupBy]
  | cons a l ih =>
    rw [dedupBy]
    dsimp only
    rw [List.map_cons, List.mem_cons]
    by_cases ha : key a ∈ seen
    · rw [if_pos ha, ih]
      refine and_congr_left (fun hk => (or_iff_right ?_).symm)
      rintro rfl
      exact hk ha
    · rw [if_neg ha, List.map_cons, List.mem_cons, ih, List.mem_cons]
      by_cases hk : k = key a
      · subst hk
        exact iff_of_true (Or.inl rfl) ⟨Or.inl rfl, ha⟩
      · rw [or_iff_right hk, or_iff_right hk, or_iff_right hk]

/-- Each key is kept once. -/
theorem nodup_keys_dedupBy (l : List α) (seen : List κ) :
    ((dedupBy (fun a => some (key a)) seen l).map key).Nodup := by
  induction l generalizing seen with
  | nil => exact List.nodup_nil
  | cons a l ih =>
    rw [dedupBy]
    dsimp only
    split
    · exact ih seen
    · rw [List.map_cons, List.nodup_cons]
      refine ⟨fun h => ?_, ih _⟩
      exact ((mem_keys_dedupBy l (key a :: seen) (key a)).mp h).2 List.mem_cons_self

end Dedup

/-! ## The way of a settlement -/

/-- What a run is given: how text is read, and the symbols polled. -/
structure SettlementConfig where
  crates : Crates
  unicode : Unicode
  symbols : List String

/-- How a flush ends. -/
inductive FlushOutcome where
  /-- It returns `Ok`. -/
  | ok
  /-- It returns an error, before or after its settlements are in place. -/
  | failed (landed : Bool)
deriving DecidableEq

/-- **The way of a settlement**, from the poller to a file. -/
structure SettlementSystem where
  /-- The poller, if the task of a connection is running. -/
  poller : Option SettlementPoller
  /-- Settlements sent that have not reached the worker. -/
  queue : List FundingSettlement
  /-- The synchronizer. -/
  sync : MarketSynchronizer
  /-- The sink. -/
  sink : BufferedSink
  /-- The settlement rows written, over all files. -/
  persisted : List FundingSettlement

/-- What can happen. -/
inductive SettlementInput where
  /-- The connection's task is spawned, for the first time or after a
  reconnect, and its poller with it; what the old one had sent and the worker
  has not taken is gone. -/
  | spawned (nowUs : ℕ)
  /-- A fetch ends. -/
  | fetched (response : Except String (List HyperliquidFundingHistoryRow)) (rttUs localTsUs : ℕ)
  /-- The poller has tried every symbol. -/
  | cycleEnded (nowUs : ℕ)
  /-- The poller wakes. -/
  | woke
  /-- The oldest settlement sent reaches the worker. -/
  | delivered
  /-- The synchronizer is called for anything else. -/
  | called (c : Call)
  /-- The synchronizer is closed. -/
  | closed
  /-- Its rows go to the sink. -/
  | drained
  /-- The sink is flushed. -/
  | flushed (outcome : FlushOutcome)

namespace SettlementSystem

variable (cfg : SettlementConfig)

/-- A worker before its first connection. -/
def start (sync : SyncConfig) (outputDir : String) (declared : List DeclaredDatatype) :
    SettlementSystem :=
  ⟨none, [], sync.start, .new outputDir declared, []⟩

/-- The settlements of the batch a flush would take. -/
def batch (s : SettlementSystem) : List FundingSettlement :=
  (s.sink.buffer.map Prod.snd).flatMap MarketSnapshot.fundingSettlements

/-- The settlement rows that flush would write. -/
def rowsOfBatch (s : SettlementSystem) : List FundingSettlement :=
  (decomposeSnapshots (s.sink.buffer.map Prod.snd)).fundingSettlements

/-- What a fetch would send. -/
def fetchedRows (s : SettlementSystem)
    (response : Except String (List HyperliquidFundingHistoryRow)) (rttUs localTsUs : ℕ) :
    List FundingSettlement :=
  s.poller.elim [] (fun p => (p.fetched cfg.crates cfg.unicode rttUs localTsUs response).2)

/-- **One step.** The poller is spawned only where funding rates are declared,
and there the runtime hands every settlement on. -/
def step (s : SettlementSystem) : SettlementInput → SettlementSystem
  | .spawned nowUs => { s with poller := some (.spawn cfg.symbols nowUs), queue := [] }
  | .fetched response rttUs localTsUs =>
    { s with
      poller := s.poller.map
        (fun p => (p.fetched cfg.crates cfg.unicode rttUs localTsUs response).1)
      queue := s.queue ++ s.fetchedRows cfg response rttUs localTsUs }
  | .cycleEnded nowUs => { s with poller := s.poller.map (·.endCycle nowUs) }
  | .woke => { s with poller := s.poller.map SettlementPoller.wake }
  | .delivered =>
    match s.queue with
    | [] => s
    | fs :: rest => { s with queue := rest, sync := (s.sync.call (.onFundingSettlement fs)).1 }
  | .called c =>
    match c with
    -- settlements come from the poller, and rows leave through `drained`
    | .onFundingSettlement _ | .drain => s
    | c => { s with sync := (s.sync.call c).1 }
  | .closed => { s with sync := s.sync.finalize }
  | .drained =>
    { s with
      sync := (s.sync.call .drain).1
      sink := (s.sync.call .drain).2.foldl BufferedSink.emitSnapshot s.sink }
  | .flushed outcome =>
    match outcome with
    | .ok => { s with sink := s.sink.flushed 0 0, persisted := s.persisted ++ s.rowsOfBatch }
    | .failed landed =>
      { s with
        sink := s.sink.flushFailed
        persisted := s.persisted ++ (if landed then s.rowsOfBatch else []) }

/-- The way of a settlement as a machine. -/
def machine : Machine SettlementSystem SettlementInput Unit := ⟨fun s i => (s.step cfg i, [])⟩

/-- **Every venue settlement is in at most one persisted row.** -/
def PersistedOnce (s : SettlementSystem) : Prop :=
  (s.persisted.map FundingSettlement.venueKey).Nodup

instance (s : SettlementSystem) : Decidable s.PersistedOnce :=
  inferInstanceAs (Decidable (List.Nodup _))

/-- The settlements that have not reached the sink. -/
def upstream (s : SettlementSystem) : List FundingSettlement := s.queue ++ s.sync.carried

/-- **Nothing persisted is on its way again.** -/
structure Apart (s : SettlementSystem) : Prop where
  once : s.PersistedOnce
  upstream : ∀ fs ∈ s.upstream, fs.venueKey ∉ s.persisted.map FundingSettlement.venueKey
  buffered : ∀ fs ∈ s.batch, fs.venueKey ∉ s.persisted.map FundingSettlement.venueKey

/-- **A step that brings nothing back**: a fetch returns no settlement that is
persisted, a flush leaves no copy of its settlements behind upstream, and a
flush that fails after its settlements are in place has none. -/
def Fresh (s : SettlementSystem) : SettlementInput → Prop
  | .fetched response rttUs localTsUs => ∀ fs ∈ s.fetchedRows cfg response rttUs localTsUs,
      fs.venueKey ∉ s.persisted.map FundingSettlement.venueKey
  | .flushed .ok => ∀ fs ∈ s.upstream, fs.venueKey ∉ s.batch.map FundingSettlement.venueKey
  | .flushed (.failed landed) => landed = true → s.batch = []
  | _ => True

instance (s : SettlementSystem) (i : SettlementInput) : Decidable (s.Fresh cfg i) :=
  match i with
  | .fetched response rttUs localTsUs =>
    inferInstanceAs (Decidable (∀ fs ∈ s.fetchedRows cfg response rttUs localTsUs, _))
  | .flushed .ok => inferInstanceAs (Decidable (∀ fs ∈ s.upstream, _))
  | .flushed (.failed landed) => inferInstanceAs (Decidable (landed = true → s.batch = []))
  | .spawned _ | .cycleEnded _ | .woke | .delivered | .called _ | .closed | .drained =>
    .isTrue trivial

variable {cfg} {s : SettlementSystem}

theorem mem_keys_rowsOfBatch {k : String × String × ℕ} :
    k ∈ s.rowsOfBatch.map FundingSettlement.venueKey
      ↔ k ∈ s.batch.map FundingSettlement.venueKey :=
  (mem_keys_dedupBy s.batch [] k).trans (and_iff_left List.not_mem_nil)

/-- A flush writes each settlement of its batch once. -/
theorem nodup_rowsOfBatch : (s.rowsOfBatch.map FundingSettlement.venueKey).Nodup :=
  nodup_keys_dedupBy s.batch []

/-- **Only the poller and the flush matter**: nothing is lost by a step that
persists nothing, provided all it puts on the way was there before or is not
persisted. -/
theorem Apart.mono {t : SettlementSystem} (h : s.Apart) (hp : t.persisted = s.persisted)
    (hup : ∀ fs ∈ t.upstream, fs ∈ s.upstream)
    (hbuf : ∀ fs ∈ t.batch, fs ∈ s.batch ∨ fs ∈ s.upstream) : t.Apart where
  once := by
    unfold PersistedOnce
    rw [hp]
    exact h.once
  upstream := fun fs hfs => by
    rw [hp]
    exact h.upstream fs (hup fs hfs)
  buffered := fun fs hfs => by
    rw [hp]
    rcases hbuf fs hfs with hb | hu
    · exact h.buffered fs hb
    · exact h.upstream fs hu

/-- Rows that reach the sink bring their settlements and no others. -/
theorem mem_batch_emitted {sink : BufferedSink} {rows : List MarketSnapshot}
    {fs : FundingSettlement}
    (h : fs ∈ ((rows.foldl BufferedSink.emitSnapshot sink).buffer.map Prod.snd).flatMap
      MarketSnapshot.fundingSettlements) :
    fs ∈ (sink.buffer.map Prod.snd).flatMap MarketSnapshot.fundingSettlements ∨
      ∃ r ∈ rows, fs ∈ r.fundingSettlements := by
  induction rows generalizing sink with
  | nil => exact Or.inl h
  | cons r rows ih =>
    rcases ih h with h | ⟨r', hr', hfs⟩
    · obtain ⟨snapshot, hsnapshot, hfs⟩ := List.mem_flatMap.mp h
      obtain ⟨⟨n, entry⟩, hentry, rfl⟩ := List.mem_map.mp hsnapshot
      rcases List.mem_append.mp hentry with hentry | hentry
      · refine Or.inl (List.mem_flatMap.mpr ⟨entry, ?_, hfs⟩)
        exact List.mem_map.mpr ⟨(n, entry), List.mem_of_mem_drop hentry, rfl⟩
      · obtain ⟨-, rfl⟩ := Prod.mk.inj (List.mem_singleton.mp hentry)
        exact Or.inr ⟨r, List.mem_cons_self, hfs⟩
    · exact Or.inr ⟨r', List.mem_cons_of_mem _ hr', hfs⟩

/-! ### What one step does -/

/-- A fetch keeps what is persisted apart exactly if it returns nothing of
it. -/
theorem apart_fetched_iff (h : s.Apart)
    (response : Except String (List HyperliquidFundingHistoryRow)) (rttUs localTsUs : ℕ) :
    (s.step cfg (.fetched response rttUs localTsUs)).Apart
      ↔ s.Fresh cfg (.fetched response rttUs localTsUs) := by
  constructor
  · intro h' fs hfs
    exact h'.upstream fs (List.mem_append_left _ (List.mem_append_right _ hfs))
  · intro hfresh
    refine ⟨h.once, fun fs hfs => ?_, h.buffered⟩
    rcases List.mem_append.mp hfs with hq | hc
    · rcases List.mem_append.mp hq with hq | hrow
      · exact h.upstream fs (List.mem_append_left _ hq)
      · exact hfresh fs hrow
    · exact h.upstream fs (List.mem_append_right _ hc)

/-- A flush whose flusher returns `Ok` keeps it apart exactly if it leaves no
copy behind. -/
theorem apart_flushed_ok_iff (h : s.Apart) :
    (s.step cfg (.flushed .ok)).Apart ↔ s.Fresh cfg (.flushed .ok) := by
  have hkeys : (s.step cfg (.flushed .ok)).persisted.map FundingSettlement.venueKey
      = s.persisted.map FundingSettlement.venueKey
        ++ s.rowsOfBatch.map FundingSettlement.venueKey := List.map_append
  constructor
  · intro h' fs hfs hkey
    refine h'.upstream fs hfs ?_
    rw [hkeys]
    exact List.mem_append_right _ (mem_keys_rowsOfBatch.mpr hkey)
  · intro hfresh
    refine ⟨?_, fun fs hfs => ?_, fun fs hfs => absurd hfs List.not_mem_nil⟩
    · unfold PersistedOnce
      rw [hkeys]
      refine List.nodup_append.mpr ⟨h.once, nodup_rowsOfBatch, ?_⟩
      rintro k hold k' hnew rfl
      obtain ⟨fs, hfs, rfl⟩ := List.mem_map.mp (mem_keys_rowsOfBatch.mp hnew)
      exact h.buffered fs hfs hold
    · rw [hkeys, List.mem_append, mem_keys_rowsOfBatch, not_or]
      exact ⟨h.upstream fs hfs, hfresh fs hfs⟩

/-- A flush that fails keeps it apart exactly if no settlement of its batch is
in place, since the batch is kept. -/
theorem apart_flushed_failed_iff (h : s.Apart) (landed : Bool) :
    (s.step cfg (.flushed (.failed landed))).Apart
      ↔ s.Fresh cfg (.flushed (.failed landed)) := by
  cases landed with
  | false =>
    refine iff_of_true ?_ (fun hlanded => absurd hlanded Bool.false_ne_true)
    exact h.mono (List.append_nil _) (fun _ hfs => hfs) (fun _ hfs => Or.inl hfs)
  | true =>
    constructor
    · intro h' _
      refine List.eq_nil_iff_forall_not_mem.mpr (fun fs hfs => h'.buffered fs hfs ?_)
      show _ ∈ (s.persisted ++ s.rowsOfBatch).map FundingSettlement.venueKey
      rw [List.map_append]
      exact List.mem_append_right _ (mem_keys_rowsOfBatch.mpr (List.mem_map_of_mem hfs))
    · intro hfresh
      have hrows : s.rowsOfBatch = [] := by
        show dedupBy FundingSettlement.settlementKey [] s.batch = []
        rw [hfresh rfl]
        rfl
      refine h.mono ?_ (fun _ hfs => hfs) (fun _ hfs => Or.inl hfs)
      show s.persisted ++ s.rowsOfBatch = s.persisted
      rw [hrows, List.append_nil]

/-- The oldest settlement sent moves on into the synchronizer. -/
theorem apart_delivered (h : s.Apart) : (s.step cfg .delivered).Apart := by
  unfold step
  dsimp only
  split
  · exact h
  · rename_i fs rest hqueue
    refine h.mono rfl (fun fs' hfs => ?_) (fun _ hfs => Or.inl hfs)
    unfold upstream
    rw [hqueue, List.mem_append]
    rcases List.mem_append.mp hfs with hq | hc
    · exact Or.inl (List.mem_cons_of_mem _ hq)
    · rcases carried_of_call (Or.inl hc) with hc | hcall
      · exact Or.inr hc
      · obtain rfl := Call.onFundingSettlement.inj hcall
        exact Or.inl List.mem_cons_self

/-- Any other call brings no settlement. -/
theorem apart_called (h : s.Apart) (c : Call) : (s.step cfg (.called c)).Apart := by
  have hcall : c ≠ .drain → (∀ fs, c ≠ .onFundingSettlement fs) →
      ({ s with sync := (s.sync.call c).1 } : SettlementSystem).Apart := by
    intro _ hfed
    refine h.mono rfl (fun fs hfs => ?_) (fun _ hfs => Or.inl hfs)
    rcases List.mem_append.mp hfs with hq | hc
    · exact List.mem_append_left _ hq
    · exact List.mem_append_right _ ((carried_of_call (Or.inl hc)).resolve_right (hfed fs))
  cases c with
  | onFundingSettlement fs => exact h
  | drain => exact h
  | _ => exact hcall (by rintro ⟨⟩) (by rintro _ ⟨⟩)

/-- Rows on their way to the sink take their settlements along. -/
theorem apart_drained (h : s.Apart) : (s.step cfg .drained).Apart := by
  have hfed : ∀ fs, Call.drain ≠ .onFundingSettlement fs := by rintro _ ⟨⟩
  refine h.mono rfl (fun fs hfs => ?_) (fun fs hfs => ?_)
  · rcases List.mem_append.mp hfs with hq | hc
    · exact List.mem_append_left _ hq
    · exact List.mem_append_right _ ((carried_of_call (Or.inl hc)).resolve_right (hfed fs))
  · rcases mem_batch_emitted hfs with hb | hrow
    · exact Or.inl hb
    · have hc : fs ∈ s.sync.carried := (carried_of_call (Or.inr hrow)).resolve_right (hfed fs)
      exact Or.inr (List.mem_append_right _ hc)

/-- **One step** keeps what is persisted apart exactly if it brings nothing
back. -/
theorem apart_step_iff (h : s.Apart) (i : SettlementInput) :
    (s.step cfg i).Apart ↔ s.Fresh cfg i := by
  have hsame : ∀ {t : SettlementSystem}, t.queue = s.queue → t.sync = s.sync → t.sink = s.sink →
      t.persisted = s.persisted → t.Apart := by
    intro t hqueue hsync hsink hpersisted
    refine h.mono hpersisted (fun fs hfs => ?_) (fun fs hfs => Or.inl ?_)
    · unfold upstream at hfs
      rw [hqueue, hsync] at hfs
      exact hfs
    · unfold batch at hfs
      rw [hsink] at hfs
      exact hfs
  cases i with
  | spawned nowUs =>
    refine iff_of_true (h.mono rfl (fun fs hfs => ?_) (fun _ hfs => Or.inl hfs)) trivial
    exact List.mem_append_right _ hfs
  | fetched response rttUs localTsUs => exact apart_fetched_iff h response rttUs localTsUs
  | cycleEnded nowUs => exact iff_of_true (hsame rfl rfl rfl rfl) trivial
  | woke => exact iff_of_true (hsame rfl rfl rfl rfl) trivial
  | delivered => exact iff_of_true (apart_delivered h) trivial
  | called c => exact iff_of_true (apart_called h c) trivial
  | closed =>
    refine iff_of_true (h.mono rfl (fun fs hfs => ?_) (fun _ hfs => Or.inl hfs)) trivial
    rcases List.mem_append.mp hfs with hq | hc
    · exact List.mem_append_left _ hq
    · exact List.mem_append_right _ (carried_of_finalize hc)
  | drained => exact iff_of_true (apart_drained h) trivial
  | flushed outcome =>
    cases outcome with
    | ok => exact apart_flushed_ok_iff h
    | failed landed => exact apart_flushed_failed_iff h landed

/-! ### Whole runs -/

theorem apart_start (sync : SyncConfig) (outputDir : String) (declared : List DeclaredDatatype) :
    (start sync outputDir declared).Apart where
  once := List.nodup_nil
  upstream := fun _ _ => List.not_mem_nil
  buffered := fun _ _ => List.not_mem_nil

/-- **Nothing that is persisted is ever on its way again** exactly if no step
of the run brings it back. -/
theorem apart_iff_fresh (h : s.Apart) (inputs : List SettlementInput) :
    (∀ pre, pre <+: inputs → ((machine cfg).run s pre).1.Apart)
      ↔ (machine cfg).Meets (Fresh cfg) s inputs :=
  (machine cfg).forall_prefix_iff_meets (I := fun _ => True) (S := Apart) (P := Fresh cfg)
    (fun _ _ _ => trivial) (fun _ i _ hs => apart_step_iff hs i) trivial h inputs

/-- **Settlements are persisted once** as long as no fetch returns one that is
persisted, no flush leaves a copy of one behind, and no flush fails when its
settlements are in place. -/
theorem persisted_once_of_fresh (cfg : SettlementConfig) (sync : SyncConfig) (outputDir : String)
    (declared : List DeclaredDatatype) (inputs : List SettlementInput)
    (h : (machine cfg).Meets (Fresh cfg) (start sync outputDir declared) inputs) :
    ∀ pre, pre <+: inputs →
      ((machine cfg).run (start sync outputDir declared) pre).1.PersistedOnce :=
  fun pre hpre =>
    ((apart_iff_fresh (apart_start sync outputDir declared) inputs).mpr h pre hpre).once

/-! ### An hour of a poller -/

/-- SOL is polled, and text is plain. -/
def solOnly : SettlementConfig := ⟨Crates.plain, Unicode.ascii, ["SOL"]⟩

/-- A synchronizer with a row a minute. -/
def everyMinute : SyncConfig where
  hashPeriods := .table
  hashBooks := .table
  periodUs := 60000000
  periodPos := by decide
  clockMode := .externalClock
  emissionDelayUs := 0

/-- The settlement of SOL at noon. -/
def noon : HyperliquidFundingHistoryRow := ⟨"SOL", "0.0000125", none, 1694865600000⟩

/-- The one an hour later. -/
def onePm : HyperliquidFundingHistoryRow := { noon with time := 1694869200000 }

/-- An hour of a poller that starts at half past twelve, with a flush in each
half: the first fetch returns the settlement of noon, and the second one what
the venue is asked for since. -/
def hourOf (since : List HyperliquidFundingHistoryRow) : List SettlementInput :=
  [.spawned 1694867400000000, .fetched (.ok [noon]) 80000 1694867400080000,
    .cycleEnded 1694867401000000, .delivered,
    .called (.onTime 1694867460000000), .called (.onTime 1694867520000000), .drained, .flushed .ok,
    .woke, .fetched (.ok since) 80000 1694869205080000, .cycleEnded 1694869206000000,
    .delivered, .delivered, .called (.onTime 1694869320000000), .drained, .flushed .ok]

theorem persisted_once_onePm :
    (machine solOnly).Meets (Fresh solOnly) (start everyMinute "out" [.fundingRates])
        (hourOf [onePm]) ∧
      ∀ pre, pre <+: hourOf [onePm] →
        ((machine solOnly).run (start everyMinute "out" [.fundingRates]) pre).1.PersistedOnce := by
  have h : (machine solOnly).Meets (Fresh solOnly) (start everyMinute "out" [.fundingRates])
      (hourOf [onePm]) := by decide
  exact ⟨h, persisted_once_of_fresh solOnly everyMinute "out" [.fundingRates] _ h⟩

/-- **The second fetch asks for noon again**: the window begins at half past
eleven, and the settlement is written a second time. -/
theorem not_persisted_once_overlap :
    ¬ ((machine solOnly).run (start everyMinute "out" [.fundingRates])
        (hourOf [noon, onePm])).1.PersistedOnce := by
  decide +kernel

end SettlementSystem
