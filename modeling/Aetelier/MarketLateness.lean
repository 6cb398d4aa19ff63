import Aetelier.MarketClock

/-!
# Lateness and the hold-back window

In a run of one symbol in which no advance is longer than the gap fill, "the
clock has passed a row" and "the row was emitted" are one condition, and
everything fed while its row was open is pending until that row takes it
(`SyncConfig.OpenKept`).

Two results follow. An event that is not older than the hold-back window
allows is never dropped and is held by its own row (`SyncConfig.held_back`).
And an event is dropped only if its row was emitted before it was fed, or
lies at or before the anchor (`SyncConfig.late_honest`). The second needs
the bound on the advances: past it the clock moves beyond rows that were
never emitted, and their events are dropped
(`SyncConfig.not_lateHonest_of_gap`).

Two events may be equal as records, so what was dropped and what was fed are
compared as multisets: `late ≤ fed` says of each record that it was dropped
no more often than it was fed.
-/

open MarketSynchronizer

/-- The events fed while a condition on the calls before them held. -/
def fedWhen (D : List Call → MarketEvent → Prop) [∀ pre, DecidablePred (D pre)]
    (pre : List Call) : List Call → Multiset MarketEvent
  | [] => 0
  | c :: calls => c.fed.filter (D pre) + fedWhen D (pre ++ [c]) calls

section FedWhen

variable (D : List Call → MarketEvent → Prop) [∀ pre, DecidablePred (D pre)]

theorem fedWhen_cons (pre calls : List Call) (c : Call) :
    fedWhen D pre (c :: calls) = c.fed.filter (D pre) + fedWhen D (pre ++ [c]) calls := rfl

theorem fedWhen_append_singleton (pre calls : List Call) (c : Call) :
    fedWhen D pre (calls ++ [c]) = fedWhen D pre calls + c.fed.filter (D (pre ++ calls)) := by
  induction calls generalizing pre with
  | nil => simp [fedWhen]
  | cons c' calls ih =>
    rw [List.cons_append, fedWhen_cons, fedWhen_cons, ih, List.append_assoc, add_assoc]
    rfl

/-- Every event is fed while the condition holds, or while it does not. -/
theorem fedWhen_add_not (pre calls : List Call) :
    fedWhen D pre calls + fedWhen (fun pre e => ¬ D pre e) pre calls
      = (calls.map Call.fed).sum := by
  induction calls generalizing pre with
  | nil => rfl
  | cons c calls ih =>
    rw [List.map_cons, List.sum_cons, ← ih (pre ++ [c]), fedWhen_cons, fedWhen_cons]
    nth_rewrite 3 [← Multiset.filter_add_not (D pre) c.fed]
    abel

/-- An event fed while the condition held was fed after some first calls of
the run. -/
theorem exists_of_mem_fedWhen {pre calls : List Call} {e : MarketEvent}
    (he : e ∈ fedWhen D pre calls) : ∃ mid, mid <+: calls ∧ D (pre ++ mid) e := by
  induction calls generalizing pre with
  | nil => cases Multiset.notMem_zero e he
  | cons c calls ih =>
    rcases Multiset.mem_add.mp he with he | he
    · refine ⟨[], List.nil_prefix, ?_⟩
      rw [List.append_nil]
      exact (Multiset.mem_filter.mp he).2
    · obtain ⟨mid, ⟨post, hpost⟩, hD⟩ := ih he
      refine ⟨c :: mid, ⟨post, by rw [← hpost]; rfl⟩, ?_⟩
      rwa [List.append_assoc] at hD

/-- Only the condition matters, not how it is decided. -/
theorem fedWhen_congr {D' : List Call → MarketEvent → Prop} [∀ pre, DecidablePred (D' pre)]
    (h : ∀ pre e, D pre e ↔ D' pre e) (pre calls : List Call) :
    fedWhen D pre calls = fedWhen D' pre calls := by
  induction calls generalizing pre with
  | nil => rfl
  | cons c calls ih =>
    rw [fedWhen_cons, fedWhen_cons, ih, Multiset.filter_congr (fun e _ => h pre e)]

end FedWhen

namespace SyncConfig

variable {cfg : SyncConfig} {key : String}

/-! ## What is fed while its row is open is kept for it -/

variable (cfg key)

/-- The row of an event has not been passed by the clock. -/
def RowOpen (calls : List Call) (e : MarketEvent) : Prop :=
  ∀ p ∈ cfg.clock key calls, p < cfg.rowOf e.tsUs

instance (calls : List Call) : DecidablePred (cfg.RowOpen key calls) := fun e =>
  match h : cfg.clock key calls with
  | none => isTrue (fun p hp => by rw [h] at hp; cases hp)
  | some p => decidable_of_iff (p < cfg.rowOf e.tsUs)
      ⟨fun hlt q hq => by rw [h] at hq; cases hq; exact hlt, fun ho => ho p h⟩

/-- The events of a row that belong to it by their own timestamp. -/
def ownEvents (r : MarketSnapshot) : Multiset MarketEvent :=
  r.events.filter (fun e => cfg.rowOf e.tsUs * cfg.periodUs = r.tsUs)

/-- The events of a row that belong elsewhere. -/
def strayEvents (r : MarketSnapshot) : Multiset MarketEvent :=
  r.events.filter (fun e => ¬ cfg.rowOf e.tsUs * cfg.periodUs = r.tsUs)

variable {cfg key}

theorem target_of_lt {calls : List Call} {prev : ℕ} {e : MarketEvent}
    (h : prev < cfg.rowOf e.tsUs) :
    (cfg.run calls).sync.target prev e = cfg.rowOf e.tsUs := by
  unfold target
  rw [rowOf_run]
  split
  · exact max_eq_left h
  · rfl

theorem target_le {calls : List Call} {prev : ℕ} {e : MarketEvent} :
    cfg.rowOf e.tsUs ≤ (cfg.run calls).sync.target prev e := by
  unfold target
  rw [rowOf_run]
  split
  · exact le_max_left _ _
  · exact le_rfl

/-- The events a new row holds of its own: everything pending of that row. -/
theorem own_of_target (calls : List Call) {prev p : ℕ} (hp : prev < p) (M : Multiset MarketEvent) :
    (M.filter (fun e => (cfg.run calls).sync.target prev e = p)).filter
        (fun e => cfg.rowOf e.tsUs * cfg.periodUs = p * cfg.periodUs)
      = M.filter (fun e => cfg.rowOf e.tsUs = p) := by
  rw [Multiset.filter_filter]
  refine Multiset.filter_congr (fun e _ => ?_)
  rw [Nat.mul_left_inj cfg.periodPos.ne']
  constructor
  · exact fun h => h.1
  · intro h
    exact ⟨h, by rw [target_of_lt (by omega), h]⟩

/-- What the new rows hold of their own: everything pending of the rows
emitted. -/
theorem sum_own_newRows {calls : List Call} {c : Call} {prev current : ℕ}
    (ha : (cfg.run calls).sync.advance c = some (prev, current)) :
    (((cfg.run calls).sync.newRows c).map cfg.ownEvents).sum
      = ((cfg.run calls).sync.pending + c.fed).filter (fun e =>
          prev < cfg.rowOf e.tsUs ∧ cfg.rowOf e.tsUs ≤ prev + fillCount prev current) := by
  rw [← Multiset.rows_eq_filter (fun e : MarketEvent => cfg.rowOf e.tsUs)]
  unfold newRows Multiset.rows
  rw [ha]
  simp only [List.map_map]
  congr 1
  refine List.map_congr_left (fun p hp => ?_)
  rw [List.mem_range'_1] at hp
  rw [← own_of_target calls (by omega : prev < p),
    ← events_drainEvents_feed _ c (⟨by omega, by omega⟩ :
      prev < p ∧ p ≤ prev + fillCount prev current)]
  unfold Function.comp ownEvents rowSnapshot
  rw [(cfg.run_config calls).2.1]
  rfl

section OpenKept

variable (cfg key) (D : List Call → MarketEvent → Prop) [∀ pre, DecidablePred (D pre)]

/-- **What is kept for the open rows.** The condition `D` selects the events
to follow. -/
structure OpenKept (calls : List Call) : Prop where
  /-- Everything fed whose row is still open is pending. -/
  pending : (cfg.run calls).sync.pending.filter (cfg.RowOpen key calls)
    = (calls.map Call.fed).sum.filter (cfg.RowOpen key calls)
  /-- The events followed whose rows are closed are in rows of their own. -/
  closed : (fedWhen D [] calls).filter (fun e => ¬ cfg.RowOpen key calls e)
    ≤ ((cfg.run calls).emitted.map cfg.ownEvents).sum
  /-- An emitted row holds every event followed that belongs to it. -/
  rows : ∀ r ∈ (cfg.run calls).emitted,
    (fedWhen D [] calls).filter (fun e => cfg.rowOf e.tsUs * cfg.periodUs = r.tsUs) ≤ r.events

variable {cfg key D}

theorem fedWhen_le (calls : List Call) : fedWhen D [] calls ≤ (calls.map Call.fed).sum := by
  rw [← fedWhen_add_not D [] calls]
  exact Multiset.le_add_right _ _

theorem pending_append (calls : List Call) (c : Call) :
    (cfg.run (calls ++ [c])).sync.pending = match (cfg.run calls).sync.advance c with
      | none => (cfg.run calls).sync.pending + c.fed
      | some (prev, current) => ((cfg.run calls).sync.pending + c.fed).filter (fun e =>
          prev + fillCount prev current < (cfg.run calls).sync.target prev e) := by
  rw [run_append_singleton]
  exact pending_call (cfg.run_config calls).1 c

/-- What a call feeds to follow is of open rows, so none of it is of an
emitted row. -/
theorem filter_fed_eq_zero {calls : List Call} (hsym : ∀ c ∈ calls, c.OnSymbol key) {c : Call}
    (hD : ∀ e, D calls e → cfg.RowOpen key calls e) {r : MarketSnapshot}
    (hr : r ∈ (cfg.run calls).emitted) :
    (c.fed.filter (D calls)).filter (fun e => cfg.rowOf e.tsUs * cfg.periodUs = r.tsUs) = 0 := by
  rw [Multiset.filter_filter, Multiset.filter_eq_nil]
  rintro e - ⟨hrow, hDe⟩
  obtain ⟨p, hp, hle⟩ := emitted_le_clock hsym r hr
  have hlt := hD e hDe p hp
  rw [← hrow] at hle
  exact absurd (Nat.le_of_mul_le_mul_right hle cfg.periodPos) (by omega)

/-- A call that leaves the clock where it is keeps what is open. -/
theorem OpenKept.append_quiet {calls : List Call} (h : OpenKept cfg key D calls) {c : Call}
    (hsym : ∀ c ∈ calls, c.OnSymbol key) (hD : ∀ e, D calls e → cfg.RowOpen key calls e)
    (ha : (cfg.run calls).sync.advance c = none)
    (hclock : cfg.clock key (calls ++ [c]) = cfg.clock key calls) :
    OpenKept cfg key D (calls ++ [c]) := by
  have hrows := emitted_append_of_none ha
  have hopen : ∀ e, cfg.RowOpen key (calls ++ [c]) e ↔ cfg.RowOpen key calls e := by
    intro e
    unfold RowOpen
    rw [hclock]
  refine ⟨?_, ?_, ?_⟩
  · rw [Multiset.filter_congr (fun e _ => hopen e), Multiset.filter_congr (fun e _ => hopen e),
      pending_append, ha]
    simp only [Multiset.filter_add, List.map_append, List.sum_append, List.map_cons, List.map_nil,
      List.sum_cons, List.sum_nil, add_zero]
    rw [h.pending]
  · rw [Multiset.filter_congr (fun e _ => not_congr (hopen e)), hrows, fedWhen_append_singleton,
      Multiset.filter_add, List.nil_append, Multiset.filter_filter]
    have hzero : c.fed.filter (fun e => ¬ cfg.RowOpen key calls e ∧ D calls e) = 0 :=
      Multiset.filter_eq_nil.mpr (fun e _ he => he.1 (hD e he.2))
    rw [hzero, add_zero]
    exact h.closed
  · rw [hrows]
    intro r hr
    rw [fedWhen_append_singleton, Multiset.filter_add, List.nil_append,
      filter_fed_eq_zero hsym hD hr, add_zero]
    exact h.rows r hr

/-- A call that anchors the clock keeps what is open, if nothing followed is
at or before the anchor. -/
theorem OpenKept.append_anchor {calls : List Call} (h : OpenKept cfg key D calls) {c : Call}
    {a : ℕ} (hsym : ∀ c ∈ calls, c.OnSymbol key)
    (ha : (cfg.run calls).sync.advance c = none) (hclock : cfg.clock key calls = none)
    (hclock' : cfg.clock key (calls ++ [c]) = some a)
    (hanchor : ∀ e ∈ fedWhen D [] (calls ++ [c]), a < cfg.rowOf e.tsUs) :
    OpenKept cfg key D (calls ++ [c]) := by
  have hnone : (cfg.run calls).emitted = [] := by
    refine List.eq_nil_iff_forall_not_mem.mpr (fun r hr => ?_)
    obtain ⟨p, hp, -⟩ := emitted_le_clock hsym r hr
    rw [hclock] at hp
    cases hp
  have hall : ∀ e, cfg.RowOpen key calls e := by
    intro e p hp
    rw [hclock] at hp
    cases hp
  have hpending : (cfg.run calls).sync.pending = (calls.map Call.fed).sum := by
    have := h.pending
    rwa [Multiset.filter_eq_self.mpr (fun e _ => hall e),
      Multiset.filter_eq_self.mpr (fun e _ => hall e)] at this
  refine ⟨?_, ?_, ?_⟩
  · rw [pending_append, ha]
    simp [hpending]
  · have hzero : (fedWhen D [] (calls ++ [c])).filter
        (fun e => ¬ cfg.RowOpen key (calls ++ [c]) e) = 0 := by
      refine Multiset.filter_eq_nil.mpr (fun e he hne => hne (fun p hp => ?_))
      rw [hclock'] at hp
      cases hp
      exact hanchor e he
    rw [hzero]
    exact Multiset.zero_le _
  · rw [emitted_append_of_none ha, hnone]
    intro r hr
    cases hr

/-- What is pending of open rows is what was fed of them, one call further. -/
theorem OpenKept.filter_add_fed {calls : List Call} (h : OpenKept cfg key D calls) (c : Call)
    (q : MarketEvent → Prop) [DecidablePred q] (hq : ∀ e, q e → cfg.RowOpen key calls e) :
    ((cfg.run calls).sync.pending + c.fed).filter q
      = ((calls ++ [c]).map Call.fed).sum.filter q := by
  have hsub : ∀ M : Multiset MarketEvent,
      M.filter q = (M.filter (cfg.RowOpen key calls)).filter q := by
    intro M
    rw [Multiset.filter_filter]
    exact Multiset.filter_congr (fun e _ => ⟨fun he => ⟨he, hq e he⟩, fun he => he.1⟩)
  simp only [Multiset.filter_add, List.map_append, List.sum_append, List.map_cons, List.map_nil,
    List.sum_cons, List.sum_nil, add_zero]
  rw [hsub (cfg.run calls).sync.pending, h.pending, ← hsub]

/-- A call that advances the clock without a cap keeps what is open: the rows
it passes are all emitted, and take what is theirs. -/
theorem OpenKept.append_advance {calls : List Call} (h : OpenKept cfg key D calls) {c : Call}
    {prev current : ℕ} (hsym : ∀ c ∈ calls, c.OnSymbol key) (hc : c.OnSymbol key)
    (hD : ∀ e, D calls e → cfg.RowOpen key calls e)
    (ha : (cfg.run calls).sync.advance c = some (prev, current))
    (hcap : current - prev ≤ maxGapFill) : OpenKept cfg key D (calls ++ [c]) := by
  obtain ⟨hclock, hclock', hlt⟩ := clock_append_of_some hc ha
  have hfill : prev + fillCount prev current = current := by
    unfold fillCount
    omega
  have hopen : ∀ e, cfg.RowOpen key calls e ↔ prev < cfg.rowOf e.tsUs := by
    intro e
    unfold RowOpen
    rw [hclock]
    simp
  have hopen' : ∀ e, cfg.RowOpen key (calls ++ [c]) e ↔ current < cfg.rowOf e.tsUs := by
    intro e
    unfold RowOpen
    rw [hclock']
    simp
  have hle := fedWhen_le (D := D) (calls ++ [c])
  refine ⟨?_, ?_, ?_⟩
  · -- what is still pending lies past the new clock
    rw [Multiset.filter_congr (fun e _ => hopen' e), Multiset.filter_congr (fun e _ => hopen' e),
      pending_append, ha]
    simp only [hfill]
    rw [← h.filter_add_fed c _ (fun e he => (hopen e).mpr (hlt.trans he)), Multiset.filter_filter]
    exact Multiset.filter_congr (fun e _ => ⟨fun he => he.1, fun he => ⟨he, he.trans_le target_le⟩⟩)
  · -- the rows closed before, and those this advance closes
    rw [emitted_append, List.map_append, List.sum_append, sum_own_newRows ha, hfill,
      h.filter_add_fed c _ (fun e he => (hopen e).mpr he.1),
      ← Multiset.filter_add_not (cfg.RowOpen key calls)
        (Multiset.filter _ (fedWhen D [] (calls ++ [c]))), add_comm]
    refine add_le_add ?_ ?_
    · rw [Multiset.filter_filter, fedWhen_append_singleton, Multiset.filter_add, List.nil_append]
      have hzero : (c.fed.filter (D calls)).filter (fun e => ¬ cfg.RowOpen key calls e ∧
          ¬ cfg.RowOpen key (calls ++ [c]) e) = 0 := by
        rw [Multiset.filter_filter]
        exact Multiset.filter_eq_nil.mpr (fun e _ he => he.1.1 (hD e he.2))
      rw [hzero, add_zero]
      refine le_trans (Multiset.monotone_filter_right _ (fun e he => he.1)) h.closed
    · rw [Multiset.filter_filter]
      refine le_trans (Multiset.filter_le_filter _ hle) (le_of_eq ?_)
      refine Multiset.filter_congr (fun e _ => ?_)
      rw [hopen, hopen', not_lt]
  · intro r hr
    rw [emitted_append] at hr
    rcases List.mem_append.mp hr with hr | hr
    · rw [fedWhen_append_singleton, Multiset.filter_add, List.nil_append,
        filter_fed_eq_zero hsym hD hr, add_zero]
      exact h.rows r hr
    · obtain ⟨prev', current', p, ha', hp, -, hts, -, hev⟩ := mem_newRows hr
      rw [ha] at ha'
      cases ha'
      rw [(cfg.run_config calls).2.1] at hts
      rw [hts, hev]
      refine le_trans (Multiset.filter_le_filter _ hle) ?_
      have hrow : ∀ e : MarketEvent, cfg.rowOf e.tsUs * cfg.periodUs = p * cfg.periodUs ↔
          cfg.rowOf e.tsUs = p := fun e => Nat.mul_left_inj cfg.periodPos.ne'
      rw [Multiset.filter_congr (fun e _ => hrow e),
        ← h.filter_add_fed c _ (fun e he => (hopen e).mpr (by omega)),
        ← own_of_target calls hp]
      exact Multiset.filter_le _ _

/-- **What is open is kept through every uncapped run.** -/
theorem openKept {calls : List Call} (hsym : ∀ c ∈ calls, c.OnSymbol key)
    (hcap : (Ledger.start cfg.start).Uncapped calls)
    (hD : ∀ pre e, pre <+: calls → D pre e → cfg.RowOpen key pre e)
    (hanchor : ∀ pre e, pre <+: calls → D pre e → ∀ a ∈ cfg.anchor calls, a < cfg.rowOf e.tsUs) :
    OpenKept cfg key D calls := by
  suffices hpre : ∀ pre, pre <+: calls → OpenKept cfg key D pre from hpre calls List.prefix_rfl
  intro pre
  induction pre using List.reverseRecOn with
  | nil =>
    intro _
    exact ⟨rfl, Multiset.zero_le _, fun r hr => by cases hr⟩
  | append_singleton pre c ih =>
    intro hpre
    obtain ⟨post, rfl⟩ := hpre
    have hprefix : pre <+: pre ++ [c] ++ post := ⟨c :: post, by simp⟩
    have h := ih hprefix
    have hc : c.OnSymbol key := hsym c (by simp)
    have hsym' : ∀ c ∈ pre, c.OnSymbol key := fun c' hc' => hsym c' (by simp [hc'])
    rw [List.append_assoc, Ledger.uncapped_append] at hcap
    cases ha : (cfg.run pre).sync.advance c with
    | some a => exact h.append_advance hsym' hc (hD pre · hprefix) ha (hcap.2.1 a ha)
    | none =>
      rcases clock_append_of_none hc ha with hclock | ⟨hclock, ts, hts, hclock'⟩
      · exact h.append_quiet hsym' (hD pre · hprefix) ha hclock
      · refine h.append_anchor hsym' ha hclock hclock' (fun e he => ?_)
        obtain ⟨mid, hmid, he'⟩ := exists_of_mem_fedWhen D he
        refine hanchor mid e (hmid.trans (List.prefix_append _ _)) he' _ ?_
        rw [List.append_assoc]
        exact anchor_append_of_clock_eq_none hsym' hclock hts post

theorem sum_own_add_sum_stray (cfg : SyncConfig) (rows : List MarketSnapshot) :
    (rows.map cfg.ownEvents).sum + (rows.map cfg.strayEvents).sum
      = (rows.map MarketSnapshot.events).sum := by
  induction rows with
  | nil => rfl
  | cons r rows ih =>
    simp only [List.map_cons, List.sum_cons]
    rw [← ih,
      ← Multiset.filter_add_not (fun e => cfg.rowOf e.tsUs * cfg.periodUs = r.tsUs) r.events]
    unfold ownEvents strayEvents
    abel

/-- **What is followed is never lost or misplaced**: the events dropped as
late and the events in rows other than their own were all fed while the
condition failed. -/
theorem OpenKept.late_add_stray_le {calls : List Call} (h : OpenKept cfg key D calls) :
    (cfg.run calls).late + ((cfg.run calls).emitted.map cfg.strayEvents).sum
      ≤ fedWhen (fun pre e => ¬ D pre e) [] calls := by
  have hbalance := (cfg.balanced calls).balance
  rw [← fedWhen_add_not D [] calls, ← sum_own_add_sum_stray cfg] at hbalance
  have hfollowed : fedWhen D [] calls
      ≤ ((cfg.run calls).emitted.map cfg.ownEvents).sum + (cfg.run calls).sync.pending := by
    rw [← Multiset.filter_add_not (cfg.RowOpen key calls) (fedWhen D [] calls), add_comm]
    refine add_le_add h.closed ?_
    calc (fedWhen D [] calls).filter (cfg.RowOpen key calls)
        ≤ (calls.map Call.fed).sum.filter (cfg.RowOpen key calls) :=
          Multiset.filter_le_filter _ (fedWhen_le calls)
      _ = (cfg.run calls).sync.pending.filter (cfg.RowOpen key calls) := h.pending.symm
      _ ≤ (cfg.run calls).sync.pending := Multiset.filter_le _ _
  refine le_of_add_le_add_right (a := fedWhen D [] calls) ?_
  calc (cfg.run calls).late + ((cfg.run calls).emitted.map cfg.strayEvents).sum
        + fedWhen D [] calls
      ≤ (cfg.run calls).late + ((cfg.run calls).emitted.map cfg.strayEvents).sum
        + (((cfg.run calls).emitted.map cfg.ownEvents).sum + (cfg.run calls).sync.pending) :=
        add_le_add le_rfl hfollowed
    _ = fedWhen D [] calls + fedWhen (fun pre e => ¬ D pre e) [] calls := by
        rw [hbalance]
        abel
    _ = fedWhen (fun pre e => ¬ D pre e) [] calls + fedWhen D [] calls := add_comm _ _

end OpenKept

/-! ## The hold-back window -/

variable (cfg)

/-- An event fed after the clock was anchored and not older than the
hold-back window allows. -/
def HeldBack (pre : List Call) (e : MarketEvent) : Prop :=
  cfg.ticks pre ≠ [] ∧ ∀ t ∈ cfg.ticks pre, t ≤ e.tsUs + cfg.emissionDelayUs

instance (pre : List Call) : DecidablePred (cfg.HeldBack pre) := fun e =>
  inferInstanceAs (Decidable (cfg.ticks pre ≠ [] ∧
    ∀ t ∈ cfg.ticks pre, t ≤ e.tsUs + cfg.emissionDelayUs))

variable {cfg}

/-- The clock has not passed the row of such an event. -/
theorem HeldBack.rowOpen {pre : List Call} {e : MarketEvent} (h : cfg.HeldBack pre e)
    (hsym : ∀ c ∈ pre, c.OnSymbol key) : cfg.RowOpen key pre e := by
  intro p hp
  rw [clock_eq_max? hsym] at hp
  obtain ⟨t, ht, rfl⟩ := List.mem_map.mp (List.max?_eq_some_iff.mp hp).1
  have hle : t - cfg.emissionDelayUs ≤ e.tsUs := by
    have := h.2 t ht
    omega
  exact Nat.lt_succ_of_le (Nat.div_le_div_right hle)

/-- **The hold-back guarantee.** In a run of one symbol in which no advance
spans more than the gap fill: the events dropped as late, and the events in
rows other than their own, were all fed before the anchor or older than the
window allows; and an emitted row holds every other event fed that belongs
to it, and is the only row with its label. -/
theorem held_back (key : String) {calls : List Call} (hsym : ∀ c ∈ calls, c.OnSymbol key)
    (hcap : (Ledger.start cfg.start).Uncapped calls) :
    (cfg.run calls).late + ((cfg.run calls).emitted.map cfg.strayEvents).sum
        ≤ fedWhen (fun pre e => ¬ cfg.HeldBack pre e) [] calls ∧
      (∀ r ∈ (cfg.run calls).emitted, (fedWhen cfg.HeldBack [] calls).filter
        (fun e => cfg.rowOf e.tsUs * cfg.periodUs = r.tsUs) ≤ r.events) ∧
      ((cfg.run calls).emitted.map MarketSnapshot.tsUs).Nodup := by
  have hsub : ∀ pre, pre <+: calls → ∀ c ∈ pre, c.OnSymbol key :=
    fun pre hpre c hc => hsym c (hpre.subset hc)
  have hkept : OpenKept cfg key cfg.HeldBack calls := by
    refine openKept hsym hcap (fun pre e hpre h => h.rowOpen (hsub pre hpre)) ?_
    rintro pre e hpre h a ha
    obtain ⟨post, rfl⟩ := hpre
    rw [anchor_append h.1] at ha
    obtain ⟨p, hp, hle⟩ := anchor_le_clock (hsub pre (List.prefix_append _ _)) ha
    exact hle.trans_lt (h.rowOpen (hsub pre (List.prefix_append _ _)) p hp)
  exact ⟨hkept.late_add_stray_le, hkept.rows, (emitted_sorted hsym).imp (fun h => h.ne)⟩

/-- With a window of seven, a trade at 12 fed after the clock has reached 17
is in time for the row 20, which the clock completes at 30. -/
theorem held_back_of_window :
    (tenMicros .externalClock 7).HeldBack [.onTime 17] (.trade (printAt 12)) ∧
      ((tenMicros .externalClock 7).run [.onTime 17, .onTrade (printAt 12), .onTime 30]).late
          + (((tenMicros .externalClock 7).run
              [.onTime 17, .onTrade (printAt 12), .onTime 30]).emitted.map
              (tenMicros .externalClock 7).strayEvents).sum
        ≤ fedWhen (fun pre e => ¬ (tenMicros .externalClock 7).HeldBack pre e) []
            [.onTime 17, .onTrade (printAt 12), .onTime 30] := by
  refine ⟨by decide, (held_back "BTC/USDT" ?_ ?_).1⟩
  · decide
  · decide

/-! ## Lateness -/

variable (cfg)

/-- The row of an event has been emitted. -/
def RowEmitted (calls : List Call) (e : MarketEvent) : Prop :=
  ∃ r ∈ (cfg.run calls).emitted, r.tsUs = cfg.rowOf e.tsUs * cfg.periodUs

instance (calls : List Call) : DecidablePred (cfg.RowEmitted calls) := fun e =>
  inferInstanceAs (Decidable (∃ r ∈ (cfg.run calls).emitted,
    r.tsUs = cfg.rowOf e.tsUs * cfg.periodUs))

/-- The row of an event lies at or before the anchor of a run. -/
def BeforeAnchor (calls : List Call) (e : MarketEvent) : Prop :=
  ∃ a ∈ cfg.anchor calls, cfg.rowOf e.tsUs ≤ a

instance (calls : List Call) : DecidablePred (cfg.BeforeAnchor calls) := fun e =>
  inferInstanceAs (Decidable (∃ a ∈ cfg.anchor calls, cfg.rowOf e.tsUs ≤ a))

/-- **Honest lateness.** Every event dropped was fed when its row had been
emitted, or is of a row at or before the anchor; every other event fed is in
an emitted row or pending. -/
def LateHonest (calls : List Call) : Prop :=
  (cfg.run calls).late
      ≤ fedWhen (fun pre e => cfg.RowEmitted pre e ∨ cfg.BeforeAnchor calls e) [] calls ∧
    fedWhen (fun pre e => ¬ (cfg.RowEmitted pre e ∨ cfg.BeforeAnchor calls e)) [] calls
      ≤ ((cfg.run calls).emitted.map MarketSnapshot.events).sum + (cfg.run calls).sync.pending

instance (calls : List Call) : Decidable (cfg.LateHonest calls) := by
  unfold LateHonest
  infer_instance

variable {cfg}

/-- **Lateness is honest in every uncapped run of one symbol.** -/
theorem late_honest (key : String) {calls : List Call} (hsym : ∀ c ∈ calls, c.OnSymbol key)
    (hcap : (Ledger.start cfg.start).Uncapped calls) : cfg.LateHonest calls := by
  have hkept : OpenKept cfg key
      (fun pre e => ¬ (cfg.RowEmitted pre e ∨ cfg.BeforeAnchor calls e)) calls := by
    refine openKept hsym hcap ?_ ?_
    · rintro pre e ⟨post, rfl⟩ h p hp
      by_contra hle
      have hsub : ∀ c ∈ pre, c.OnSymbol key := fun c hc => hsym c (List.mem_append_left _ hc)
      have hne : cfg.ticks pre ≠ [] := by
        intro hnil
        rw [(clock_eq_none_iff hsub).mpr hnil] at hp
        cases hp
      cases hanchor : cfg.anchor pre with
      | none => exact hne (List.head?_eq_none_iff.mp (Option.map_eq_none_iff.mp hanchor))
      | some a =>
        have hlt : a < cfg.rowOf e.tsUs := by
          by_contra hge
          refine h (Or.inr ⟨a, ?_, not_lt.mp hge⟩)
          rw [anchor_append hne, hanchor]
          rfl
        exact h (Or.inl (exists_row hsub (Ledger.uncapped_append.mp hcap).1 hanchor hp hlt
          (not_lt.mp hle)))
    · intro pre e _ h a ha
      by_contra hle
      exact h (Or.inr ⟨a, ha, not_lt.mp hle⟩)
  have hlate : (cfg.run calls).late
      ≤ fedWhen (fun pre e => cfg.RowEmitted pre e ∨ cfg.BeforeAnchor calls e) [] calls := by
    refine (Multiset.le_add_right _ _).trans (hkept.late_add_stray_le.trans (le_of_eq ?_))
    exact fedWhen_congr _ (fun pre e => not_not) [] calls
  refine ⟨hlate, ?_⟩
  have hbalance := (cfg.balanced calls).balance
  rw [← fedWhen_add_not (fun pre e => cfg.RowEmitted pre e ∨ cfg.BeforeAnchor calls e) [] calls,
    add_comm] at hbalance
  refine le_of_add_le_add_right (hbalance.le.trans (add_le_add le_rfl hlate))

/-- A late trade is dropped honestly: the row of the second trade was emitted
before it was fed. -/
theorem late_honest_of_straggler :
    ((tenMicros .externalClock 0).run [.onTime 5, .onTrade (printAt 7), .onTime 12,
        .onTrade (printAt 3), .onTime 25]).sync.lateEventsDropped = 1 ∧
      (tenMicros .externalClock 0).LateHonest [.onTime 5, .onTrade (printAt 7), .onTime 12,
        .onTrade (printAt 3), .onTime 25] := by
  refine ⟨by decide, late_honest "BTC/USDT" ?_ ?_⟩
  · decide
  · decide

/-- A trade fed while its row 15001 is open is dropped, though that row is
never emitted: the clock jumps by 20000 periods, the first 10000 rows are
emitted, and the trade is behind the clock at its next advance. -/
theorem not_lateHonest_of_gap :
    ((tenMicros .externalClock 0).run [.onTime 0, .onTrade (printAt 150000), .onTime 200000,
        .onTime 200010]).sync.lateEventsDropped = 1 ∧
      ¬ (tenMicros .externalClock 0).LateHonest
        [.onTime 0, .onTrade (printAt 150000), .onTime 200000, .onTime 200010] := by
  decide

end SyncConfig
