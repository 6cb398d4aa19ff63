import Aetelier.MarketLedger

/-!
# The clock of a run

A synchronizer of one symbol has one clock. In a run of it the clock is the
greatest period its timestamps have reached (`SyncConfig.clock_eq_max?`),
the rows emitted have increasing labels none of which is past the clock
(`SyncConfig.emitted_sorted`, `SyncConfig.emitted_le_clock`), and as long as
no advance is longer than the gap fill every row between the anchor and the
clock has been emitted (`SyncConfig.exists_row`).
-/

namespace MarketSynchronizer

variable {key : String} {s : MarketSynchronizer} {c : Call}

/-- A call that concerns no symbol but the given one. -/
def Call.OnSymbol (key : String) : Call → Prop
  | onOrderbook pair _ _ => pair.toCanonical = key
  | _ => True

instance (key : String) (c : Call) : Decidable (c.OnSymbol key) := by
  cases c <;> unfold Call.OnSymbol <;> infer_instance

/-- **The clock of a synchronizer of one symbol.** -/
def clock (s : MarketSynchronizer) (key : String) : Option ℕ :=
  if s.clockMode = ClockMode.orderbookDriven then s.lastPeriod.get? key else s.clockPeriod

/-- A call that drives a clock is a book driving its symbol's clock, or
drives the global one. -/
theorem Call.clockTs_cases {mode : ClockMode} {ts : ℕ} (hts : c.clockTs mode = some ts) :
    (mode = ClockMode.orderbookDriven ∧ ∃ pair b, c = .onOrderbook pair ts b) ∨
      (mode ≠ ClockMode.orderbookDriven ∧
        (∀ s : MarketSynchronizer, s.clockOf c = s.clockPeriod) ∧
        ∀ (s : MarketSynchronizer) (p : ℕ), s.setClock p c = { s with clockPeriod := some p }) := by
  cases c with
  | onOrderbook pair tsUs b =>
    obtain ⟨hm, rfl⟩ : mode = ClockMode.orderbookDriven ∧ tsUs = ts := by
      simpa [Call.clockTs] using hts
    exact Or.inl ⟨hm, pair, b, rfl⟩
  | onFunding fr => cases hts
  | onFundingSettlement fs => cases hts
  | onOpenInterest oi => cases hts
  | drain => cases hts
  | _ =>
    refine Or.inr ⟨?_, fun _ => rfl, fun _ _ => rfl⟩
    rintro rfl
    cases hts

/-- The clock a call drives is that clock. -/
theorem clockOf_eq_clock {ts : ℕ} (hc : c.OnSymbol key)
    (hts : c.clockTs s.clockMode = some ts) : s.clockOf c = s.clock key := by
  unfold clock
  obtain ⟨hm, pair, b, rfl⟩ | ⟨hm, hclock, -⟩ := Call.clockTs_cases hts
  · rw [if_pos hm]
    exact congrArg s.lastPeriod.get? hc
  · rw [if_neg hm, hclock]

theorem clock_setClock {ts : ℕ} (hc : c.OnSymbol key) (hts : c.clockTs s.clockMode = some ts)
    (p : ℕ) : (s.setClock p c).clock key = some p := by
  unfold clock
  obtain ⟨hm, pair, b, rfl⟩ | ⟨hm, -, hset⟩ := Call.clockTs_cases hts
  · show (if s.clockMode = _ then (s.lastPeriod.insert _ p).get? key else _) = _
    rw [if_pos hm, HashMap.get?_insert, if_pos hc.symm]
  · rw [hset]
    exact if_neg hm

theorem clock_emitAdvance_feed (s : MarketSynchronizer) (key : String) (c : Call) :
    ((s.feed c).emitAdvance c).clock key = s.clock key := by
  unfold emitAdvance
  split
  · cases c <;> rfl
  · cases c <;> rfl

theorem config_emitAdvance_feed (s : MarketSynchronizer) (c : Call) :
    ((s.feed c).emitAdvance c).clockMode = s.clockMode ∧
      ((s.feed c).emitAdvance c).periodAt = s.periodAt := by
  unfold emitAdvance
  split
  · cases c <;> exact ⟨rfl, rfl⟩
  · cases c <;> exact ⟨rfl, rfl⟩

theorem clock_record (t : MarketSynchronizer) (c : Call) :
    (t.record c).clock key = t.clock key := by
  cases c <;> rfl

/-- A call that drives no clock leaves it where it is. -/
theorem clock_call_of_none (hs : s.finalized = false) (hts : c.clockTs s.clockMode = none) :
    (s.call c).1.clock key = s.clock key := by
  obtain ⟨hmode, -⟩ := config_emitAdvance_feed s c
  rw [call_eq hs, clock_record]
  unfold moveClock
  rw [hmode, hts]
  exact clock_emitAdvance_feed s key c

/-- **A call that drives the clock moves it to the period reached**, or
leaves it where it is further. -/
theorem clock_call_of_some {ts : ℕ} (hs : s.finalized = false) (hc : c.OnSymbol key)
    (hts : c.clockTs s.clockMode = some ts) :
    (s.call c).1.clock key = some (max ((s.clock key).getD 0) (s.periodAt ts)) := by
  obtain ⟨hmode, hperiod⟩ := config_emitAdvance_feed s c
  have hclock := clock_emitAdvance_feed s key c
  rw [call_eq hs, clock_record]
  generalize (s.feed c).emitAdvance c = t at hmode hperiod hclock
  have hts' : c.clockTs t.clockMode = some ts := by rw [hmode]; exact hts
  unfold moveClock
  rw [hts', clockOf_eq_clock hc hts', hclock, hperiod]
  cases hp : s.clock key with
  | none =>
    simp only [Option.not_mem_none, false_and, exists_false, if_false, Option.getD_none,
      Nat.zero_max]
    exact clock_setClock hc hts' _
  | some prev =>
    simp only [Option.mem_some_iff, exists_eq_left', Option.getD_some]
    by_cases hle : s.periodAt ts ≤ prev
    · rw [if_pos hle, hclock, hp, max_eq_left hle]
    · rw [if_neg hle, max_eq_right (by omega)]
      exact clock_setClock hc hts' _

/-- **When a call advances the clock**: it drives it, and past where it
stands. -/
theorem advance_eq_some_iff (hc : c.OnSymbol key) {prev current : ℕ} :
    s.advance c = some (prev, current) ↔
      ∃ ts, c.clockTs s.clockMode = some ts ∧ s.clock key = some prev ∧
        s.periodAt ts = current ∧ prev < current := by
  unfold advance
  cases hts : c.clockTs s.clockMode with
  | none => simp
  | some ts =>
    rw [clockOf_eq_clock hc hts]
    cases hp : s.clock key with
    | none => simp
    | some p =>
      by_cases hle : s.periodAt ts ≤ p
      · simp only [hle, if_true, Option.some.injEq, exists_eq_left']
        simp
        omega
      · simp only [hle, if_false, Option.some.injEq, exists_eq_left', Prod.mk.injEq]
        omega

end MarketSynchronizer

/-! ## Runs of one symbol -/

open MarketSynchronizer

/-- No advance of a run spans more periods than the gap fill. -/
def Ledger.Uncapped (l : Ledger) : List Call → Prop
  | [] => True
  | c :: calls =>
    (∀ a ∈ l.sync.advance c, a.2 - a.1 ≤ maxGapFill) ∧ (l.call c).Uncapped calls

instance Ledger.decidableUncapped (l : Ledger) : ∀ calls, Decidable (l.Uncapped calls)
  | [] => isTrue trivial
  | c :: calls =>
    have := (l.call c).decidableUncapped calls
    inferInstanceAs (Decidable ((∀ a ∈ l.sync.advance c, a.2 - a.1 ≤ maxGapFill) ∧
      (l.call c).Uncapped calls))

theorem Ledger.uncapped_append {l : Ledger} {pre post : List Call} :
    l.Uncapped (pre ++ post) ↔ l.Uncapped pre ∧ (l.run pre).Uncapped post := by
  induction pre generalizing l with
  | nil => exact (and_iff_right trivial).symm
  | cons c pre ih =>
    show (∀ a ∈ l.sync.advance c, _) ∧ (l.call c).Uncapped (pre ++ post)
      ↔ ((∀ a ∈ l.sync.advance c, _) ∧ (l.call c).Uncapped pre) ∧ _
    rw [ih, and_assoc]
    rfl

namespace SyncConfig

variable (cfg : SyncConfig) (key : String)

/-- The row a timestamp belongs to. -/
def rowOf (tsUs : ℕ) : ℕ := tsUs / cfg.periodUs + 1

/-- The period the clock reaches at a timestamp. -/
def periodAt (tsUs : ℕ) : ℕ := (tsUs - cfg.emissionDelayUs) / cfg.periodUs

/-- The timestamps that drive the clock in a run. -/
def ticks (calls : List Call) : List ℕ := calls.filterMap (Call.clockTs cfg.clockMode)

/-- The period the clock is anchored at: that of the first timestamp that
drives it. -/
def anchor (calls : List Call) : Option ℕ := (cfg.ticks calls).head?.map cfg.periodAt

/-- The clock after a run. -/
def clock (calls : List Call) : Option ℕ := (cfg.run calls).sync.clock key

theorem rowOf_run (calls : List Call) : (cfg.run calls).sync.rowOf = cfg.rowOf := by
  funext ts
  unfold MarketSynchronizer.rowOf rowOf
  rw [(cfg.run_config calls).2.1]

theorem periodAt_run (calls : List Call) : (cfg.run calls).sync.periodAt = cfg.periodAt := by
  funext ts
  unfold MarketSynchronizer.periodAt periodAt
  rw [(cfg.run_config calls).2.1, (cfg.run_config calls).2.2.1]

theorem ticks_append_singleton (calls : List Call) (c : Call) :
    cfg.ticks (calls ++ [c]) = cfg.ticks calls ++ (c.clockTs cfg.clockMode).toList := by
  unfold ticks
  rw [List.filterMap_append]
  rfl

variable {cfg key}

/-- **The clock is the greatest period the timestamps have reached.** -/
theorem clock_eq_max? {calls : List Call} (hsym : ∀ c ∈ calls, c.OnSymbol key) :
    cfg.clock key calls = ((cfg.ticks calls).map cfg.periodAt).max? := by
  induction calls using List.reverseRecOn with
  | nil =>
    unfold clock MarketSynchronizer.clock
    split <;> rfl
  | append_singleton calls c ih =>
    obtain ⟨hopen, -, -, hmode⟩ := cfg.run_config calls
    have hc : c.OnSymbol key := hsym c (by simp)
    have ih := ih (fun c' hc' => hsym c' (by simp [hc']))
    rw [ticks_append_singleton]
    unfold clock at ih ⊢
    rw [run_append_singleton]
    show ((cfg.run calls).sync.call c).1.clock key = _
    cases hts : c.clockTs cfg.clockMode with
    | none =>
      rw [clock_call_of_none hopen (by rw [hmode]; exact hts), ih]
      simp
    | some ts =>
      rw [clock_call_of_some hopen hc (by rw [hmode]; exact hts), ih, periodAt_run, eq_comm]
      rw [List.map_append, List.max?_eq_some_iff]
      cases hmax : ((cfg.ticks calls).map cfg.periodAt).max? with
      | none =>
        rw [List.max?_eq_none_iff.mp hmax]
        simp
      | some m =>
        obtain ⟨hmem, hle⟩ := List.max?_eq_some_iff.mp hmax
        simp only [Option.getD_some, Option.toList_some, List.map_cons, List.map_nil,
          List.mem_append, List.mem_singleton]
        refine ⟨?_, ?_⟩
        · rcases le_total m (cfg.periodAt ts) with h | h
          · exact Or.inr (max_eq_right h)
          · rw [max_eq_left h]
            exact Or.inl hmem
        · rintro b (hb | rfl)
          · exact (hle b hb).trans (le_max_left _ _)
          · exact le_max_right _ _

/-- The clock after a call that does not advance it: the same, or just
anchored. -/
theorem clock_append_of_none {calls : List Call} {c : Call} (hc : c.OnSymbol key)
    (ha : (cfg.run calls).sync.advance c = none) :
    cfg.clock key (calls ++ [c]) = cfg.clock key calls ∨
      (cfg.clock key calls = none ∧ ∃ ts, c.clockTs cfg.clockMode = some ts ∧
        cfg.clock key (calls ++ [c]) = some (cfg.periodAt ts)) := by
  obtain ⟨hopen, -, -, hmode⟩ := cfg.run_config calls
  unfold clock
  rw [run_append_singleton]
  show ((cfg.run calls).sync.call c).1.clock key = _ ∨ _ ∧ ∃ ts, _ ∧
    ((cfg.run calls).sync.call c).1.clock key = _
  cases hts : c.clockTs cfg.clockMode with
  | none => exact Or.inl (clock_call_of_none hopen (by rw [hmode]; exact hts))
  | some ts =>
    have hts' : c.clockTs (cfg.run calls).sync.clockMode = some ts := by rw [hmode]; exact hts
    rw [clock_call_of_some hopen hc hts', periodAt_run]
    cases hclock : (cfg.run calls).sync.clock key with
    | none => exact Or.inr ⟨rfl, ts, rfl, by simp⟩
    | some prev =>
      refine Or.inl (congrArg some (max_eq_left ?_))
      by_contra hlt
      have := (advance_eq_some_iff hc).mpr ⟨ts, hts', hclock, rfl, by
        rw [periodAt_run]
        simpa using hlt⟩
      rw [ha] at this
      cases this

/-- The clock before and after a call that advances it. -/
theorem clock_append_of_some {calls : List Call} {c : Call} {prev current : ℕ}
    (hc : c.OnSymbol key) (ha : (cfg.run calls).sync.advance c = some (prev, current)) :
    cfg.clock key calls = some prev ∧ cfg.clock key (calls ++ [c]) = some current ∧
      prev < current := by
  obtain ⟨hopen, -, -, -⟩ := cfg.run_config calls
  obtain ⟨ts, hts, hclock, hp, hlt⟩ := (advance_eq_some_iff hc).mp ha
  refine ⟨hclock, ?_, hlt⟩
  unfold clock
  rw [run_append_singleton]
  show ((cfg.run calls).sync.call c).1.clock key = _
  rw [clock_call_of_some hopen hc hts, hclock, hp]
  exact congrArg some (max_eq_right hlt.le)

/-- The clock never goes back. -/
theorem clock_mono {calls : List Call} {c : Call} (hc : c.OnSymbol key) {row : ℕ}
    (h : ∀ p ∈ cfg.clock key (calls ++ [c]), p ≤ row) : ∀ p ∈ cfg.clock key calls, p ≤ row := by
  intro p hp
  cases ha : (cfg.run calls).sync.advance c with
  | none =>
    rcases clock_append_of_none hc ha with hclock | ⟨hclock, -⟩
    · exact h p (hclock ▸ hp)
    · rw [hclock] at hp
      cases hp
  | some a =>
    obtain ⟨hclock, hclock', hlt⟩ := clock_append_of_some hc ha
    rw [hclock] at hp
    cases hp
    exact hlt.le.trans (h _ hclock')

/-- The clock is anchored once it is driven. -/
theorem clock_eq_none_iff {calls : List Call} (hsym : ∀ c ∈ calls, c.OnSymbol key) :
    cfg.clock key calls = none ↔ cfg.ticks calls = [] := by
  rw [clock_eq_max? hsym, List.max?_eq_none_iff, List.map_eq_nil_iff]

/-- Once the clock is anchored, the anchor stays. -/
theorem anchor_append {pre : List Call} (h : cfg.ticks pre ≠ []) (post : List Call) :
    cfg.anchor (pre ++ post) = cfg.anchor pre := by
  unfold anchor ticks at *
  rw [List.filterMap_append, List.head?_append_of_ne_nil _ h]

/-- The anchor is the period of the call that anchors the clock. -/
theorem anchor_append_of_clock_eq_none {pre : List Call} {c : Call} {ts : ℕ}
    (hsym : ∀ c ∈ pre, c.OnSymbol key) (hclock : cfg.clock key pre = none)
    (hts : c.clockTs cfg.clockMode = some ts) (post : List Call) :
    cfg.anchor (pre ++ c :: post) = some (cfg.periodAt ts) := by
  rw [clock_eq_none_iff hsym] at hclock
  unfold anchor ticks at *
  rw [List.filterMap_append, hclock, List.nil_append, List.filterMap_cons, hts]
  rfl

/-- The clock never stands before its anchor. -/
theorem anchor_le_clock {calls : List Call} (hsym : ∀ c ∈ calls, c.OnSymbol key) {a : ℕ}
    (ha : a ∈ cfg.anchor calls) : ∃ p ∈ cfg.clock key calls, a ≤ p := by
  obtain ⟨t, ht, rfl⟩ := Option.map_eq_some_iff.mp ha
  have hmem : cfg.periodAt t ∈ (cfg.ticks calls).map cfg.periodAt :=
    List.mem_map.mpr ⟨t, List.mem_of_mem_head? ht, rfl⟩
  rw [clock_eq_max? hsym]
  cases hmax : ((cfg.ticks calls).map cfg.periodAt).max? with
  | none =>
    rw [List.max?_eq_none_iff.mp hmax] at hmem
    cases hmem
  | some p => exact ⟨p, rfl, (List.max?_eq_some_iff.mp hmax).2 _ hmem⟩

/-! ## The rows of a run -/

theorem emitted_append (calls : List Call) (c : Call) :
    (cfg.run (calls ++ [c])).emitted
      = (cfg.run calls).emitted ++ (cfg.run calls).sync.newRows c := by
  rw [run_append_singleton, Ledger.emitted_call (cfg.run_config calls).1]

theorem emitted_append_of_none {calls : List Call} {c : Call}
    (ha : (cfg.run calls).sync.advance c = none) :
    (cfg.run (calls ++ [c])).emitted = (cfg.run calls).emitted := by
  rw [emitted_append]
  unfold newRows
  rw [ha, List.append_nil]

/-- The labels of the rows an advance emits. -/
theorem tsUs_newRows {calls : List Call} {c : Call} {prev current : ℕ}
    (ha : (cfg.run calls).sync.advance c = some (prev, current)) :
    ((cfg.run calls).sync.newRows c).map MarketSnapshot.tsUs
      = (List.range' (prev + 1) (fillCount prev current)).map (· * cfg.periodUs) := by
  unfold newRows
  rw [ha]
  simp only [List.map_map]
  refine List.map_congr_left (fun p _ => ?_)
  show p * (cfg.run calls).sync.periodUs = p * cfg.periodUs
  rw [(cfg.run_config calls).2.1]

/-- No emitted row is past the clock. -/
theorem emitted_le_clock {calls : List Call} (hsym : ∀ c ∈ calls, c.OnSymbol key) :
    ∀ r ∈ (cfg.run calls).emitted, ∃ p ∈ cfg.clock key calls, r.tsUs ≤ p * cfg.periodUs := by
  induction calls using List.reverseRecOn with
  | nil =>
    intro r hr
    cases hr
  | append_singleton calls c ih =>
    have ih := ih (fun c' hc' => hsym c' (by simp [hc']))
    have hc : c.OnSymbol key := hsym c (by simp)
    cases ha : (cfg.run calls).sync.advance c with
    | none =>
      rw [emitted_append_of_none ha]
      rcases clock_append_of_none hc ha with hclock | ⟨hclock, -⟩
      · rw [hclock]
        exact ih
      · intro r hr
        obtain ⟨p, hp, -⟩ := ih r hr
        rw [hclock] at hp
        cases hp
    | some a =>
      obtain ⟨prev, current⟩ := a
      obtain ⟨hclock, hclock', hlt⟩ := clock_append_of_some hc ha
      intro r hr
      rw [emitted_append] at hr
      refine ⟨current, hclock', ?_⟩
      rcases List.mem_append.mp hr with hr | hr
      · obtain ⟨p, hp, hle⟩ := ih r hr
        rw [hclock] at hp
        cases hp
        exact hle.trans (Nat.mul_le_mul_right _ hlt.le)
      · have hmem := List.mem_map_of_mem (f := MarketSnapshot.tsUs) hr
        rw [tsUs_newRows ha] at hmem
        obtain ⟨p, hp, hts⟩ := List.mem_map.mp hmem
        rw [List.mem_range'_1] at hp
        unfold fillCount at hp
        rw [← hts]
        exact Nat.mul_le_mul_right _ (by omega)

/-- **The labels of the rows emitted increase**: no row is emitted twice. -/
theorem emitted_sorted {calls : List Call} (hsym : ∀ c ∈ calls, c.OnSymbol key) :
    ((cfg.run calls).emitted.map MarketSnapshot.tsUs).Pairwise (· < ·) := by
  induction calls using List.reverseRecOn with
  | nil => exact List.Pairwise.nil
  | append_singleton calls c ih =>
    have hsym' : ∀ c ∈ calls, c.OnSymbol key := fun c' hc' => hsym c' (by simp [hc'])
    have hc : c.OnSymbol key := hsym c (by simp)
    cases ha : (cfg.run calls).sync.advance c with
    | none =>
      rw [emitted_append_of_none ha]
      exact ih hsym'
    | some a =>
      obtain ⟨prev, current⟩ := a
      rw [emitted_append, List.map_append, List.pairwise_append]
      refine ⟨ih hsym', ?_, ?_⟩
      · rw [tsUs_newRows ha]
        refine List.Pairwise.map _ (fun p q hpq => ?_) List.pairwise_lt_range'
        exact Nat.mul_lt_mul_of_pos_right hpq cfg.periodPos
      · intro x hx y hy
        rw [tsUs_newRows ha] at hy
        obtain ⟨r, hr, rfl⟩ := List.mem_map.mp hx
        obtain ⟨p, hp, rfl⟩ := List.mem_map.mp hy
        obtain ⟨p', hp', hle⟩ := emitted_le_clock hsym' r hr
        rw [(clock_append_of_some hc ha).1] at hp'
        cases hp'
        rw [List.mem_range'_1] at hp
        exact hle.trans_lt (Nat.mul_lt_mul_of_pos_right (by omega) cfg.periodPos)

/-- **Every row between the anchor and the clock was emitted**, in an
uncapped run. -/
theorem exists_row {calls : List Call} (hsym : ∀ c ∈ calls, c.OnSymbol key)
    (hcap : (Ledger.start cfg.start).Uncapped calls) {a p q : ℕ}
    (hanchor : cfg.anchor calls = some a) (hp : cfg.clock key calls = some p) (haq : a < q)
    (hqp : q ≤ p) :
    ∃ r ∈ (cfg.run calls).emitted, r.tsUs = q * cfg.periodUs := by
  induction calls using List.reverseRecOn generalizing p with
  | nil => cases hanchor
  | append_singleton calls c ih =>
    have hsym' : ∀ c ∈ calls, c.OnSymbol key := fun c' hc' => hsym c' (by simp [hc'])
    have hc : c.OnSymbol key := hsym c (by simp)
    rw [Ledger.uncapped_append] at hcap
    have hkept : ∀ p', cfg.clock key calls = some p' → cfg.anchor calls = some a := by
      intro p' hp'
      rw [← hanchor, anchor_append]
      intro hnil
      rw [(clock_eq_none_iff hsym').mpr hnil] at hp'
      cases hp'
    cases ha : (cfg.run calls).sync.advance c with
    | none =>
      rw [emitted_append_of_none ha]
      rcases clock_append_of_none hc ha with hclock | ⟨hclock, ts, hts, hclock'⟩
      · rw [hclock] at hp
        exact ih hsym' hcap.1 (hkept p hp) hp hqp
      · rw [anchor_append_of_clock_eq_none hsym' hclock hts] at hanchor
        rw [hp, hanchor] at hclock'
        cases hclock'
        omega
    | some adv =>
      obtain ⟨prev, current⟩ := adv
      obtain ⟨hclock, hclock', hlt⟩ := clock_append_of_some hc ha
      rw [hp] at hclock'
      cases hclock'
      rw [emitted_append]
      by_cases hq : q ≤ prev
      · obtain ⟨r, hr, hts⟩ := ih hsym' hcap.1 (hkept prev hclock) hclock hq
        exact ⟨r, List.mem_append_left _ hr, hts⟩
      · have hgap := hcap.2.1 _ ha
        have hmem : q * cfg.periodUs
            ∈ ((cfg.run calls).sync.newRows c).map MarketSnapshot.tsUs := by
          rw [tsUs_newRows ha]
          refine List.mem_map.mpr ⟨q, ?_, rfl⟩
          rw [List.mem_range'_1]
          unfold fillCount
          omega
        obtain ⟨r, hr, hts⟩ := List.mem_map.mp hmem
        exact ⟨r, List.mem_append_right _ hr, hts⟩

end SyncConfig
