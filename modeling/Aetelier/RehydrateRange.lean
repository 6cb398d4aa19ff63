import Aetelier.Rehydrate

/-!
# Honest and lossless rehydration

A venue has a history, numbered trades in the order of their numbers, and
answers to a position with a batch of what comes next. Under such a venue a
walk gathers a stretch of the history (`Rehydration.Gathers`): the next trade
extends the stretch by one, so a batch extends it to its last trade, and the
rounds extend it until the range is passed, the venue has no more, or 200
batches have been taken.

The last of the three ends is not reported, and the set of the files is keyed
by number. So a run is honest and lossless exactly if what the files lack is
within 200 batches, and, where a file is to be written, every persisted trade
has a number of its own: `Rehydration.honest_and_lossless_iff`.
-/

/-! ## The venue -/

/-- The number of a trade. -/
def Trade.number (t : Trade) : ℕ := (parseU64 t.id).getD 0

/-- **The history of a venue**: numbered trades, in the order of their
numbers. -/
structure TradeLog where
  /-- The trades. -/
  trades : List Trade
  /-- Every trade has a number. -/
  numbered : ∀ t ∈ trades, parseU64 t.id = some t.number
  /-- The numbers increase. -/
  ascending : trades.Pairwise (fun a b => a.number < b.number)

namespace TradeLog

variable (log : TradeLog)

/-- The trades past a position. -/
def after (pos : ℕ) : List Trade := log.trades.filter (fun t => decide (pos < t.number))

/-- The trade of a number. -/
def at? (n : ℕ) : Option Trade := log.trades.find? (fun t => decide (t.number = n))

/-- **The venue serves its history**: after any position, a batch of the next
trades, empty only where there are no more. -/
def ServedBy (fetch : ℕ → TradePos → Except String (List Trade)) : Prop :=
  ∀ call pos, ∃ batch, fetch call pos = .ok batch ∧ batch <+: log.after pos.id ∧
    (batch = [] → log.after pos.id = [])

variable {log}

theorem mem_after {pos : ℕ} {t : Trade} :
    t ∈ log.after pos ↔ t ∈ log.trades ∧ pos < t.number := by
  rw [after, List.mem_filter, decide_eq_true_iff]

/-- One number, one trade. -/
theorem number_inj {t t' : Trade} (ht : t ∈ log.trades) (ht' : t' ∈ log.trades)
    (h : t.number = t'.number) : t = t' :=
  List.Pairwise.forall_of_forall_of_flip (R := fun a b : Trade => a.number = b.number → a = b)
    (fun _ _ _ => rfl) (log.ascending.imp (fun hlt heq => absurd heq hlt.ne))
    (log.ascending.imp (fun hlt heq => absurd heq hlt.ne')) ht ht' h

theorem at?_eq_some_iff {n : ℕ} {t : Trade} :
    log.at? n = some t ↔ t ∈ log.trades ∧ t.number = n := by
  have hfound : ∀ {t : Trade}, log.at? n = some t → t ∈ log.trades ∧ t.number = n := by
    intro t h
    have hnum := List.find?_some h
    exact ⟨List.mem_of_find?_eq_some h, by simpa using hnum⟩
  refine ⟨hfound, fun ⟨ht, hn⟩ => ?_⟩
  cases hf : log.at? n with
  | none => exact absurd (decide_eq_true hn) (List.find?_eq_none.mp hf t ht)
  | some t' =>
    obtain ⟨ht', hn'⟩ := hfound hf
    rw [number_inj ht ht' (hn.trans hn'.symm)]

/-- The trade that follows a position, and what follows it. -/
theorem after_cons {pos : ℕ} {t : Trade} {rest : List Trade} (h : log.after pos = t :: rest) :
    t ∈ log.trades ∧ pos < t.number ∧ log.after t.number = rest ∧
      ∀ t' ∈ log.trades, pos < t'.number → t'.number ≤ t.number → t' = t := by
  have hsorted : (t :: rest).Pairwise (fun a b => a.number < b.number) :=
    h ▸ log.ascending.filter _
  obtain ⟨hhead, -⟩ := List.pairwise_cons.mp hsorted
  obtain ⟨ht, hlt⟩ := mem_after.mp (h ▸ List.mem_cons_self)
  refine ⟨ht, hlt, ?_, fun t' ht' hpos hle => ?_⟩
  · have hnested : log.after t.number = (log.after pos).filter (fun t' =>
        decide (t.number < t'.number)) := by
      unfold after
      rw [List.filter_filter]
      refine List.filter_congr (fun t' _ => ?_)
      rw [← Bool.decide_and]
      exact decide_eq_decide.mpr ⟨fun hgt => ⟨hgt, hlt.trans hgt⟩, And.left⟩
    rw [hnested, h, List.filter_cons_of_neg (by simp)]
    exact List.filter_eq_self.mpr (fun t' ht' => decide_eq_true (hhead t' ht'))
  · rcases List.mem_cons.mp (h ▸ mem_after.mpr ⟨ht', hpos⟩) with rfl | hrest
    · rfl
    · exact absurd (hhead t' hrest) (not_lt.mpr hle)

/-- The trade of a number between a start and a position, within a range. -/
def passed (log : TradeLog) (start maxId pos n : ℕ) : Option Trade :=
  if start < n ∧ n ≤ pos ∧ n ≤ maxId then log.at? n else none

theorem passed_eq_some_iff {start maxId pos n : ℕ} {t : Trade} :
    log.passed start maxId pos n = some t ↔
      t ∈ log.trades ∧ t.number = n ∧ start < n ∧ n ≤ pos ∧ n ≤ maxId := by
  unfold passed
  split
  · next h => rw [at?_eq_some_iff, and_iff_left h]
  · next h => exact iff_of_false (fun hs => by cases hs) (fun hs => h hs.2.2)

/-- A position that does not pass the start has passed nothing. -/
theorem passed_start (start maxId n : ℕ) : log.passed start maxId start n = none :=
  if_neg (fun h => absurd (h.1.trans_le h.2.1) (lt_irrefl _))

/-- **The next trade is the only one newly passed.** -/
theorem passed_next {start maxId pos n : ℕ} {t : Trade} {rest : List Trade}
    (hnext : log.after pos = t :: rest) (hstart : start ≤ pos) :
    log.passed start maxId t.number n
      = if n = t.number ∧ n ≤ maxId then some t else log.passed start maxId pos n := by
  obtain ⟨ht, hlt, -, honly⟩ := after_cons hnext
  apply Option.ext
  intro t'
  by_cases hn : n = t.number
  · subst hn
    have hpos : log.passed start maxId pos t.number = none := by
      exact if_neg (fun h => absurd hlt (not_lt.mpr h.2.1))
    rw [passed_eq_some_iff, hpos]
    split
    · next hle =>
      rw [Option.some_inj]
      exact ⟨fun h => number_inj ht h.1 h.2.1.symm,
        fun h => h ▸ ⟨ht, rfl, hstart.trans_lt hlt, le_refl _, hle.2⟩⟩
    · next hle => exact iff_of_false (fun h => hle ⟨rfl, h.2.2.2.2⟩) (fun h => by cases h)
  · rw [if_neg (fun h => hn h.1), passed_eq_some_iff, passed_eq_some_iff]
    constructor
    · rintro ⟨ht', rfl, hs, hle, hmax⟩
      refine ⟨ht', rfl, hs, ?_, hmax⟩
      by_contra hgt
      exact hn (congrArg Trade.number (honly t' ht' (not_le.mp hgt) hle))
    · rintro ⟨ht', rfl, hs, hle, hmax⟩
      exact ⟨ht', rfl, hs, hle.trans hlt.le, hmax⟩

end TradeLog

namespace Rehydration

section Walk

variable {log : TradeLog} {files : NumberedTrades} {start maxId : ℕ}

/-- **What a walk has gathered** up to its position: the trades of the files,
and those of the venue in the part of the range it has passed. -/
structure Gathers (log : TradeLog) (files : NumberedTrades) (start maxId : ℕ)
    (w : RehydrateWalk) : Prop where
  /-- The position does not go back. -/
  start_le : start ≤ w.pos.id
  /-- The trades of the files win. -/
  present : ∀ n, w.present.get? n = (files.get? n).or (log.passed start maxId w.pos.id n)
  /-- What was recovered is what the files lacked. -/
  recovered : ∀ t, t ∈ w.recovered ↔
    log.passed start maxId w.pos.id t.number = some t ∧ files.get? t.number = none

theorem gathers_start (log : TradeLog) (files : NumberedTrades) (maxId : ℕ) (pos : TradePos) :
    Gathers log files pos.id maxId ⟨pos, files, []⟩ where
  start_le := le_refl _
  present n := by rw [TradeLog.passed_start, Option.or_none]
  recovered t := by
    rw [TradeLog.passed_start]
    exact iff_of_false List.not_mem_nil (fun h => by cases h.1)

/-- The next trade of the venue advances the walk and is gathered. -/
theorem gathers_takeTrade {w : RehydrateWalk} {t : Trade} {rest : List Trade}
    (h : Gathers log files start maxId w) (hnext : log.after w.pos.id = t :: rest)
    (advanced : Bool) :
    ∃ w', takeTrade maxId (w, advanced) t = (w', true) ∧
      w'.pos = ⟨t.number, t.sourceTradeTsUs⟩ ∧ Gathers log files start maxId w' := by
  obtain ⟨ht, hlt, -, -⟩ := TradeLog.after_cons hnext
  have hvacant : w.present.get? t.number = files.get? t.number := by
    have hpassed : log.passed start maxId w.pos.id t.number = none :=
      if_neg (fun hc => absurd hlt (not_lt.mpr hc.2.1))
    rw [h.present, hpassed, Option.or_none]
  unfold takeTrade
  rw [log.numbered t ht]
  dsimp only
  rw [if_pos hlt]
  dsimp only
  rw [hvacant]
  split
  · next hskip =>
    -- beyond the range, or a trade of the files
    refine ⟨_, rfl, rfl, h.start_le.trans hlt.le, fun n => ?_, fun t' => ?_⟩
    · rw [h.present, TradeLog.passed_next hnext h.start_le]
      split
      · next hn =>
        obtain ⟨rfl, hle⟩ := hn
        obtain ⟨t', ht'⟩ := Option.isSome_iff_exists.mp
          (hskip.resolve_left (not_lt.mpr hle))
        rw [ht', Option.some_or, Option.some_or]
      · rfl
    · rw [h.recovered, TradeLog.passed_next hnext h.start_le]
      refine and_congr_left (fun hnone => ?_)
      rw [if_neg]
      rintro ⟨hn, hle⟩
      rw [hn] at hnone
      rw [hnone] at hskip
      exact hskip.elim (not_lt.mpr (hn ▸ hle)) (fun hs => by cases hs)
  · next htake =>
    obtain ⟨hle, hnone⟩ := not_or.mp htake
    rw [not_lt] at hle
    rw [Option.not_isSome_iff_eq_none] at hnone
    refine ⟨_, rfl, rfl, h.start_le.trans hlt.le, fun n => ?_, fun t' => ?_⟩
    · rw [OrdMap.get?_insert, h.present, TradeLog.passed_next hnext h.start_le]
      by_cases hn : n = t.number
      · subst hn
        rw [if_pos (show t.number = id t.number from rfl), if_pos ⟨rfl, hle⟩, hnone, Option.none_or]
      · rw [if_neg (show ¬ n = id t.number from hn), if_neg (fun hc => hn hc.1)]
    · rw [List.mem_append, List.mem_singleton, h.recovered,
        TradeLog.passed_next hnext h.start_le]
      by_cases hn : t'.number = t.number
      · rw [if_pos ⟨hn, hn ▸ hle⟩, Option.some_inj, hn, hnone]
        have hpassed : log.passed start maxId w.pos.id t.number ≠ some t' := by
          intro hp
          exact absurd hlt (not_lt.mpr (TradeLog.passed_eq_some_iff.mp hp).2.2.2.1)
        exact ⟨fun ht' => (ht'.elim (fun hp => absurd hp.1 hpassed) (fun he => ⟨he.symm, rfl⟩)),
          fun he => .inr he.1.symm⟩
      · rw [if_neg (fun hc => hn hc.1), or_iff_left (fun he => hn (congrArg Trade.number he))]

/-- The position a batch leads to. -/
def batchEnd (pos : TradePos) (batch : List Trade) : TradePos :=
  batch.foldl (fun _ t => ⟨t.number, t.sourceTradeTsUs⟩) pos

/-- **A batch of the venue is gathered**, and leads to its last trade. -/
theorem gathers_batch {w : RehydrateWalk} {batch : List Trade}
    (h : Gathers log files start maxId w) (hbatch : batch <+: log.after w.pos.id)
    (advanced : Bool) :
    ∃ w', batch.foldl (takeTrade maxId) (w, advanced) = (w', advanced || !batch.isEmpty) ∧
      w'.pos = batchEnd w.pos batch ∧ w.pos.id ≤ w'.pos.id ∧
      Gathers log files start maxId w' := by
  induction batch generalizing w advanced with
  | nil => exact ⟨w, by simp, rfl, le_refl _, h⟩
  | cons t batch ih =>
    obtain ⟨rest, hrest⟩ := hbatch
    obtain ⟨-, hlt, hafter, -⟩ := TradeLog.after_cons hrest.symm
    obtain ⟨w₁, htake, hpos, hw₁⟩ := gathers_takeTrade h hrest.symm advanced
    have hid : w₁.pos.id = t.number := congrArg TradePos.id hpos
    obtain ⟨w₂, hfold, hpos₂, hle, hw₂⟩ :=
      ih hw₁ ⟨rest, by rw [hid, hafter]; rfl⟩ true
    refine ⟨w₂, ?_, ?_, (hlt.le.trans hid.ge).trans hle, hw₂⟩
    · rw [List.foldl_cons, htake, hfold]
      simp
    · rw [hpos₂, hpos]
      rfl

/-- **The position after a number of batches**, each asked for where the one
before it ended. -/
def positionAfter (fetch : ℕ → TradePos → Except String (List Trade)) (start : TradePos) :
    ℕ → TradePos
  | 0 => start
  | k + 1 =>
    match fetch k (positionAfter fetch start k) with
    | .ok batch => batchEnd (positionAfter fetch start k) batch
    | .error _ => positionAfter fetch start k

variable {c : Rehydration}

/-- The venue, as the run asks it. -/
def fetch (c : Rehydration) (call : ℕ) (pos : TradePos) : Except String (List Trade) :=
  c.fetcher call c.wireSymbol c.pair pos

/-- The positions do not go back. -/
theorem positionAfter_mono (hserved : log.ServedBy c.fetch) (first : TradePos) (k n : ℕ) :
    (positionAfter c.fetch first k).id ≤ (positionAfter c.fetch first (k + n)).id := by
  induction n with
  | zero => exact le_refl _
  | succ n ih =>
    refine ih.trans ?_
    obtain ⟨batch, hfetch, hbatch, -⟩ := hserved (k + n) (positionAfter c.fetch first (k + n))
    rw [Nat.add_succ, positionAfter, hfetch]
    obtain ⟨w, -, hpos, hle, -⟩ := gathers_batch
      (gathers_start log OrdMap.empty 0 (positionAfter c.fetch first (k + n))) hbatch true
    exact hle.trans (congrArg TradePos.id hpos).le

/-- **What the rounds of a walk do**: they gather up to a position, and end
because the range is passed, because the venue has no more – and then, and
only then, the flag may be set – or because there are no more rounds. -/
theorem gathers_fetchRounds (hserved : log.ServedBy c.fetch) {first : TradePos}
    (rounds : ℕ) {call : ℕ} {w : RehydrateWalk} (h : Gathers log files start maxId w)
    (hpos : w.pos = positionAfter c.fetch first call) :
    ∃ w' exhausted, c.fetchRounds maxId rounds call w = .ok (w', exhausted) ∧
      Gathers log files start maxId w' ∧
      w'.pos.id ≤ (positionAfter c.fetch first (call + rounds)).id ∧
      (exhausted = true → log.after w'.pos.id = []) ∧
      (maxId ≤ w'.pos.id ∨ log.after w'.pos.id = [] ∨
        w'.pos = positionAfter c.fetch first (call + rounds)) := by
  induction rounds generalizing call w with
  | zero =>
    exact ⟨w, false, rfl, h, (congrArg TradePos.id hpos).le, fun hf => (by cases hf),
      .inr (.inr hpos)⟩
  | succ rounds ih =>
    have hmono : w.pos.id ≤ (positionAfter c.fetch first (call + (rounds + 1))).id := by
      rw [hpos]
      exact positionAfter_mono hserved first call (rounds + 1)
    unfold fetchRounds
    by_cases hdone : maxId ≤ w.pos.id
    · rw [if_pos hdone]
      exact ⟨w, false, rfl, h, hmono, fun hf => (by cases hf), .inl hdone⟩
    rw [if_neg hdone]
    obtain ⟨batch, hfetch, hbatch, hempty⟩ := hserved call w.pos
    have hfetcher : c.fetcher call c.wireSymbol c.pair w.pos = .ok batch := hfetch
    rw [hfetcher]
    cases batch with
    | nil =>
      exact ⟨w, _, rfl, h, hmono, fun _ => hempty rfl, .inr (.inl (hempty rfl))⟩
    | cons t batch =>
      obtain ⟨w₁, hfold, hpos₁, -, hw₁⟩ := gathers_batch h hbatch false
      dsimp only
      rw [hfold]
      have hcall : w₁.pos = positionAfter c.fetch first (call + 1) := by
        rw [positionAfter, ← hpos, hfetch]
        exact hpos₁
      obtain ⟨w₂, exhausted, hrun, hw₂⟩ := ih hw₁ hcall
      rw [Nat.add_right_comm] at hw₂
      exact ⟨w₂, exhausted, hrun, hw₂⟩

end Walk

/-! ## Honest and lossless -/

/-- A trade of the venue that no trade of the files shares its number with. -/
def Lacks (trades : List Trade) (t : Trade) : Prop :=
  ∀ t' ∈ trades, parseU64 t'.id ≠ some t.number

/-- A venue trade of the range that the files lack. -/
structure Missing (log : TradeLog) (trades : List Trade) (minId maxId : ℕ) (t : Trade) :
    Prop where
  /-- The venue traded it. -/
  mem : t ∈ log.trades
  /-- It is of the range. -/
  le : minId ≤ t.number
  /-- It is of the range. -/
  ge : t.number ≤ maxId
  /-- No trade of the files has its number. -/
  lacks : Lacks trades t

/-- **A lossless merge**: the trades of the files and exactly the missing
ones, in the order of their numbers. -/
structure Merges (log : TradeLog) (trades : List Trade) (minId maxId : ℕ)
    (merged : List Trade) : Prop where
  /-- Every trade of the files is there. -/
  files : ∀ t ∈ trades, t ∈ merged
  /-- So is every missing one. -/
  missing : ∀ t, Missing log trades minId maxId t → t ∈ merged
  /-- And nothing else: a trade of the files wins over the venue's. -/
  only : ∀ t ∈ merged, t ∈ trades ∨ Missing log trades minId maxId t
  /-- The numbers increase strictly. -/
  ascending : merged.Pairwise
    (fun a b => ∃ i j, parseU64 a.id = some i ∧ parseU64 b.id = some j ∧ i < j)

end Rehydration

namespace Rehydrated

/-- **An honest run**: if it does not say that the range was not covered, every
venue trade of the range is in the files or in the file it wrote. -/
def Honest (r : Rehydrated) (log : TradeLog) (trades : List Trade) : Prop :=
  r.report.exhaustedBeforeRangeEnd = false →
    ∀ minId maxId, r.report.idRange = some (minId, maxId) → ∀ t ∈ log.trades,
      minId ≤ t.number → t.number ≤ maxId →
      ∃ t' ∈ trades ++ r.written.getD [], parseU64 t'.id = some t.number

/-- **A lossless run**: the file it writes is a lossless merge. -/
def Lossless (r : Rehydrated) (log : TradeLog) (trades : List Trade) : Prop :=
  ∀ merged, r.written = some merged → ∃ minId maxId,
    r.report.idRange = some (minId, maxId) ∧ Rehydration.Merges log trades minId maxId merged

end Rehydrated

namespace Rehydration

/-- The position before the persisted range. -/
def firstPos (trades : List Trade) : TradePos :=
  match (persisted trades).first? with
  | some (minId, first) => startPos minId first
  | none => {}

/-- **The range can be repaired**: what the files lack of it is within the
first 200 batches of the venue; and if they lack anything, every persisted
trade has a number, and a number of its own. -/
structure Repairable (c : Rehydration) (log : TradeLog) (trades : List Trade) : Prop where
  /-- The missing trades are reached. -/
  reached : ∀ minId maxId, idRange trades = some (minId, maxId) →
    ∀ t, Missing log trades minId maxId t →
      t.number ≤ (positionAfter c.fetch (firstPos trades) maxFetchRounds).id
  /-- The persisted trades keep their places. -/
  kept : ∀ minId maxId, idRange trades = some (minId, maxId) →
    (∃ t, Missing log trades minId maxId t) →
    ∀ t ∈ trades, ∃ n, parseU64 t.id = some n ∧ ∀ t' ∈ trades, parseU64 t'.id = some n → t' = t

/-! ## The files by number -/

theorem get?_foldl_keep (present : NumberedTrades) (trades : List Trade) (n : ℕ) :
    (trades.foldl keep present).get? n
      = (present.get? n).or (trades.find? (fun t => decide (parseU64 t.id = some n))) := by
  induction trades generalizing present with
  | nil => exact (Option.or_none).symm
  | cons t trades ih =>
    rw [List.foldl_cons, ih, List.find?_cons]
    unfold keep
    cases hid : parseU64 t.id with
    | none => simp
    | some m =>
      dsimp only
      rw [OrdMap.get?_orInsert, Option.or_assoc]
      by_cases hn : n = m
      · subst hn
        simp
      · have hm : ¬ n = id m := hn
        have hne : decide (some m = some n) = false :=
          decide_eq_false (fun h => hn (Option.some.inj h).symm)
        rw [if_neg hm, Option.none_or, hne]

/-- **A number keeps the first trade that has it.** -/
theorem get?_persisted (trades : List Trade) (n : ℕ) :
    (persisted trades).get? n = trades.find? (fun t => decide (parseU64 t.id = some n)) := by
  unfold persisted
  rw [get?_foldl_keep, OrdMap.get?_empty, Option.none_or]

theorem mem_of_get?_persisted {trades : List Trade} {n : ℕ} {t : Trade}
    (h : (persisted trades).get? n = some t) : t ∈ trades ∧ parseU64 t.id = some n := by
  rw [get?_persisted] at h
  have hnum := List.find?_some h
  exact ⟨List.mem_of_find?_eq_some h, by simpa using hnum⟩

theorem get?_persisted_eq_none {trades : List Trade} {t : Trade} :
    (persisted trades).get? t.number = none ↔ Lacks trades t := by
  rw [get?_persisted, List.find?_eq_none]
  unfold Lacks
  simp

theorem idRange_eq_some {trades : List Trade} {minId maxId : ℕ}
    (h : idRange trades = some (minId, maxId)) :
    ∃ first last, (persisted trades).first? = some (minId, first) ∧
      (persisted trades).last? = some (maxId, last) := by
  unfold idRange at h
  split at h
  · next first last hfirst hlast =>
    cases h
    exact ⟨_, _, hfirst, hlast⟩
  · cases h

/-! ## The merged set -/

section Merged

variable {log : TradeLog} {trades : List Trade} {minId maxId : ℕ} {w : RehydrateWalk}
  {first : Trade}

/-- **What was recovered** is what was missing, up to the position. -/
theorem mem_recovered (hfirst : (persisted trades).first? = some (minId, first))
    (h : Gathers log (persisted trades) (minId - 1) maxId w) {t : Trade} :
    t ∈ w.recovered ↔ Missing log trades minId maxId t ∧ t.number ≤ w.pos.id := by
  rw [h.recovered, TradeLog.passed_eq_some_iff, get?_persisted_eq_none]
  constructor
  · rintro ⟨⟨hmem, -, hlt, hpos, hmax⟩, hlacks⟩
    exact ⟨⟨hmem, Nat.le_of_pred_lt hlt, hmax, hlacks⟩, hpos⟩
  · rintro ⟨⟨hmem, hmin, hmax, hlacks⟩, hpos⟩
    -- the least number of the files is not missing, so zero is not either
    have hne : t.number ≠ minId := by
      intro heq
      have hget := OrdMap.get?_of_mem _ (OrdMap.mem_of_first? hfirst)
      have hnone := get?_persisted_eq_none.mpr hlacks
      rw [heq] at hnone
      cases hget.symm.trans hnone
    exact ⟨⟨hmem, rfl, (Nat.sub_le _ _).trans_lt (lt_of_le_of_ne hmin hne.symm), hpos, hmax⟩,
      hlacks⟩

theorem mem_merged (h : Gathers log (persisted trades) (minId - 1) maxId w) {t : Trade} :
    t ∈ w.present.entries.map Prod.snd ↔
      (∃ n, (persisted trades).get? n = some t) ∨ t ∈ w.recovered := by
  have hmem : t ∈ w.present.entries.map Prod.snd ↔ ∃ n, w.present.get? n = some t := by
    rw [List.mem_map]
    constructor
    · rintro ⟨e, he, rfl⟩
      exact ⟨e.1, w.present.get?_of_mem he⟩
    · rintro ⟨n, hn⟩
      obtain ⟨k, -, hk⟩ := OrdMap.mem_of_get? hn
      exact ⟨_, hk, rfl⟩
  rw [hmem, h.recovered]
  constructor
  · rintro ⟨n, hn⟩
    rw [h.present, Option.or_eq_some_iff] at hn
    rcases hn with hn | ⟨hnone, hn⟩
    · exact .inl ⟨n, hn⟩
    · obtain rfl := (TradeLog.passed_eq_some_iff.mp hn).2.1
      exact .inr ⟨hn, hnone⟩
  · rintro (⟨n, hn⟩ | ⟨hn, hnone⟩)
    · exact ⟨n, by rw [h.present, hn, Option.some_or]⟩
    · exact ⟨t.number, by rw [h.present, hnone, Option.none_or, hn]⟩

/-- What is in the merged set under a number has that number. -/
theorem parseU64_of_get? (h : Gathers log (persisted trades) (minId - 1) maxId w) {n : ℕ}
    {t : Trade} (ht : w.present.get? n = some t) : parseU64 t.id = some n := by
  rw [h.present, Option.or_eq_some_iff] at ht
  rcases ht with ht | ⟨-, ht⟩
  · exact (mem_of_get?_persisted ht).2
  · obtain ⟨hmem, rfl, -⟩ := TradeLog.passed_eq_some_iff.mp ht
    exact log.numbered t hmem

theorem ascending_merged (h : Gathers log (persisted trades) (minId - 1) maxId w) :
    (w.present.entries.map Prod.snd).Pairwise
      (fun a b => ∃ i j, parseU64 a.id = some i ∧ parseU64 b.id = some j ∧ i < j) := by
  rw [List.pairwise_map]
  refine w.present.sorted.imp_of_mem (fun {a b} ha hb hlt => ⟨a.1, b.1, ?_, ?_, hlt⟩)
  · exact parseU64_of_get? h (w.present.get?_of_mem ha)
  · exact parseU64_of_get? h (w.present.get?_of_mem hb)

/-- A missing trade does not count as one of the files. -/
theorem Missing.not_mem {t : Trade} (h : Missing log trades minId maxId t) : t ∉ trades :=
  fun ht => h.lacks t ht (log.numbered t h.mem)

/-- **The merged set is a lossless merge** exactly if every missing trade was
reached, and every persisted trade has a number of its own. -/
theorem merges_iff (hfirst : (persisted trades).first? = some (minId, first))
    (h : Gathers log (persisted trades) (minId - 1) maxId w) :
    Merges log trades minId maxId (w.present.entries.map Prod.snd) ↔
      (∀ t, Missing log trades minId maxId t → t.number ≤ w.pos.id) ∧
        ∀ t ∈ trades, ∃ n, parseU64 t.id = some n ∧
          ∀ t' ∈ trades, parseU64 t'.id = some n → t' = t := by
  have hkept : ∀ t ∈ trades, t ∈ w.present.entries.map Prod.snd ↔
      ∃ n, (persisted trades).get? n = some t := by
    intro t ht
    rw [mem_merged h, or_iff_left]
    exact fun hr => ((mem_recovered hfirst h).mp hr).1.not_mem ht
  constructor
  · intro hm
    refine ⟨fun t ht => ?_, fun t ht => ?_⟩
    · rcases (mem_merged h).mp (hm.missing t ht) with ⟨n, hn⟩ | hr
      · exact absurd (mem_of_get?_persisted hn).1 ht.not_mem
      · exact ((mem_recovered hfirst h).mp hr).2
    · obtain ⟨n, hn⟩ := (hkept t ht).mp (hm.files t ht)
      refine ⟨n, (mem_of_get?_persisted hn).2, fun t' ht' hid => ?_⟩
      obtain ⟨n', hn'⟩ := (hkept t' ht').mp (hm.files t' ht')
      obtain rfl := Option.some.inj (hid.symm.trans (mem_of_get?_persisted hn').2)
      exact Option.some.inj (hn'.symm.trans hn)
  · rintro ⟨hreached, hown⟩
    refine ⟨fun t ht => (hkept t ht).mpr ?_, fun t ht => ?_, fun t ht => ?_, ascending_merged h⟩
    · obtain ⟨n, hid, honly⟩ := hown t ht
      refine ⟨n, ?_⟩
      -- the number is taken by some trade, and there is only this one
      cases hget : (persisted trades).get? n with
      | none =>
        rw [get?_persisted, List.find?_eq_none] at hget
        exact absurd (decide_eq_true hid) (hget t ht)
      | some t' =>
        obtain ⟨ht', hid'⟩ := mem_of_get?_persisted hget
        rw [honly t' ht' hid']
    · exact (mem_merged h).mpr (.inr ((mem_recovered hfirst h).mpr ⟨ht, hreached t ht⟩))
    · rcases (mem_merged h).mp ht with ⟨n, hn⟩ | hr
      · exact .inl (mem_of_get?_persisted hn).1
      · exact .inr ((mem_recovered hfirst h).mp hr).1

end Merged

/-- A report, and what is written with it. -/
theorem writeMerged_ok {c : Rehydration} {report : RehydrateReport} {w : RehydrateWalk}
    {r : Rehydrated} (h : c.writeMerged report w = .ok r) :
    r.report.idRange = report.idRange ∧
      r.report.exhaustedBeforeRangeEnd = report.exhaustedBeforeRangeEnd ∧
      r.written = if w.recovered = [] then none else some (w.present.entries.map Prod.snd) := by
  unfold writeMerged at h
  dsimp only at h
  split at h
  · next hempty =>
    cases h
    exact ⟨rfl, rfl, (if_pos (List.isEmpty_iff.mp hempty)).symm⟩
  · next hsome =>
    split at h
    · cases h
    · cases h
      exact ⟨rfl, rfl, (if_neg (fun he => hsome (List.isEmpty_iff.mpr he))).symm⟩

/-! ## Runs -/

/-- **What a run over a range did**: its walk, and what is known of the place
it ended. -/
structure Walked (c : Rehydration) (log : TradeLog) (trades : List Trade) (r : Rehydrated)
    (minId maxId : ℕ) (w : RehydrateWalk) : Prop where
  /-- What it gathered. -/
  gathers : Gathers log (persisted trades) (minId - 1) maxId w
  /-- It took no more than its rounds. -/
  pos_le : w.pos.id ≤ (positionAfter c.fetch (firstPos trades) maxFetchRounds).id
  /-- The flag means that the venue had no more. -/
  exhausted : r.report.exhaustedBeforeRangeEnd = true → log.after w.pos.id = []
  /-- The range is passed, the venue has no more, or the rounds are over. -/
  ended : maxId ≤ w.pos.id ∨ log.after w.pos.id = [] ∨
    w.pos = positionAfter c.fetch (firstPos trades) maxFetchRounds
  /-- A file is written if anything was recovered. -/
  written : r.written
    = if w.recovered = [] then none else some (w.present.entries.map Prod.snd)

theorem walked_rehydrateTradesDir {c : Rehydration} {log : TradeLog}
    (hserved : log.ServedBy c.fetch) {trades : List Trade} (hread : c.originals = .ok trades)
    {r : Rehydrated} (hr : c.rehydrateTradesDir = .ok r) :
    r.report.idRange = idRange trades ∧ (idRange trades = none → r.written = none) ∧
      ∀ minId maxId, idRange trades = some (minId, maxId) →
        ∃ w, Walked c log trades r minId maxId w := by
  unfold originals at hread
  unfold rehydrateTradesDir at hr
  cases hdir : c.readDir with
  | error e =>
    rw [hdir] at hread
    cases hread
  | ok entries =>
    rw [hdir] at hread hr
    dsimp only at hread hr
    rw [hread] at hr
    dsimp only at hr
    split at hr
    · next minId first maxId last hfirst hlast =>
      have hrange : idRange trades = some (minId, maxId) := by
        unfold idRange
        rw [hfirst, hlast]
      have hstart : firstPos trades = startPos minId first := by
        unfold firstPos
        rw [hfirst]
      obtain ⟨w, exhausted, hrun, hw, hle, hflag, hended⟩ := gathers_fetchRounds
        hserved maxFetchRounds (gathers_start log (persisted trades) maxId (firstPos trades))
        (show firstPos trades = positionAfter c.fetch (firstPos trades) 0 from rfl)
      rw [Nat.zero_add] at hle hended
      rw [hstart] at hrun
      rw [hrun] at hr
      obtain ⟨hid, hexhausted, hwritten⟩ := writeMerged_ok hr
      refine ⟨hid.trans hrange.symm, fun hnone => ?_, fun minId' maxId' hrange' => ?_⟩
      · rw [hrange] at hnone
        cases hnone
      · cases hrange.symm.trans hrange'
        refine ⟨w, ?_, hle, fun h => hflag (hexhausted.symm.trans h), hended, hwritten⟩
        rw [hstart] at hw
        exact hw
    · next hnone =>
      cases hr
      have hrange : idRange trades = none := by
        unfold idRange
        split
        · next hfirst hlast => exact absurd hlast (hnone _ _ _ _ hfirst)
        · rfl
      refine ⟨hrange.symm, fun _ => rfl, fun minId maxId hsome => ?_⟩
      rw [hrange] at hsome
      cases hsome

section Run

variable {c : Rehydration} {log : TradeLog} {trades : List Trade} {r : Rehydrated}
  {minId maxId : ℕ} {w : RehydrateWalk}

/-- A missing trade that is within the rounds is passed. -/
theorem Walked.passes (h : Walked c log trades r minId maxId w) {t : Trade}
    (ht : Missing log trades minId maxId t)
    (hreached : t.number ≤ (positionAfter c.fetch (firstPos trades) maxFetchRounds).id) :
    t.number ≤ w.pos.id := by
  rcases h.ended with hpassed | hafter | hpos
  · exact ht.ge.trans hpassed
  · by_contra hgt
    have hmem := TradeLog.mem_after.mpr ⟨ht.mem, not_le.mp hgt⟩
    rw [hafter] at hmem
    cases hmem
  · rw [hpos]
    exact hreached

/-- A file holds what was recovered. -/
theorem Walked.written_of_mem (h : Walked c log trades r minId maxId w) {t : Trade}
    (ht : t ∈ w.recovered) : r.written = some (w.present.entries.map Prod.snd) := by
  rw [h.written, if_neg (List.ne_nil_of_mem ht)]

/-- **An honest run has passed every missing trade.** -/
theorem Walked.passes_of_honest (h : Walked c log trades r minId maxId w)
    (hrange : r.report.idRange = some (minId, maxId)) {first : Trade}
    (hfirst : (persisted trades).first? = some (minId, first)) (hhonest : r.Honest log trades)
    {t : Trade} (ht : Missing log trades minId maxId t) : t.number ≤ w.pos.id := by
  by_contra hgt
  have hflag : r.report.exhaustedBeforeRangeEnd = false := by
    by_contra hset
    have hmem := TradeLog.mem_after.mpr ⟨ht.mem, not_le.mp hgt⟩
    rw [h.exhausted ((Bool.not_eq_false _).mp hset)] at hmem
    cases hmem
  obtain ⟨t', ht', hid⟩ := hhonest hflag minId maxId hrange t ht.mem ht.le ht.ge
  rcases List.mem_append.mp ht' with ht' | ht'
  · exact ht.lacks t' ht' hid
  · -- what was written is of the files or was passed
    rw [h.written] at ht'
    split at ht'
    · cases ht'
    · rcases (mem_merged h.gathers).mp ht' with ⟨n, hn⟩ | hrec
      · exact ht.lacks t' (mem_of_get?_persisted hn).1 hid
      · obtain ⟨hmissing, hle⟩ := (mem_recovered hfirst h.gathers).mp hrec
        have hnum := Option.some.inj ((log.numbered t' hmissing.mem).symm.trans hid)
        exact hgt (hnum ▸ hle)

end Run

/-- **When rehydration is honest and lossless**: for every directory and every
venue that serves its history, a run that returns is so if and only if the
range can be repaired – what is missing lies within 200 batches, and no
persisted trade lacks a number of its own where a file is to be written. -/
theorem honest_and_lossless_iff {c : Rehydration} {log : TradeLog}
    (hserved : log.ServedBy c.fetch) {trades : List Trade} (hread : c.originals = .ok trades)
    {r : Rehydrated} (hr : c.rehydrateTradesDir = .ok r) :
    r.Honest log trades ∧ r.Lossless log trades ↔ Repairable c log trades := by
  obtain ⟨hrange, hnone, hwalk⟩ := walked_rehydrateTradesDir hserved hread hr
  constructor
  · rintro ⟨hhonest, hlossless⟩
    refine ⟨fun minId maxId hid t ht => ?_, fun minId maxId hid ⟨t, ht⟩ => ?_⟩
    · obtain ⟨first, last, hfirst, -⟩ := idRange_eq_some hid
      obtain ⟨w, hw⟩ := hwalk minId maxId hid
      exact (hw.passes_of_honest (hrange.trans hid) hfirst hhonest ht).trans hw.pos_le
    · obtain ⟨first, last, hfirst, -⟩ := idRange_eq_some hid
      obtain ⟨w, hw⟩ := hwalk minId maxId hid
      have hrec := (mem_recovered hfirst hw.gathers).mpr
        ⟨ht, hw.passes_of_honest (hrange.trans hid) hfirst hhonest ht⟩
      obtain ⟨minId', maxId', hid', hmerges⟩ := hlossless _ (hw.written_of_mem hrec)
      cases (hrange.trans hid).symm.trans hid'
      exact ((merges_iff hfirst hw.gathers).mp hmerges).2
  · rintro ⟨hreached, hkept⟩
    refine ⟨fun _ minId maxId hid t ht hmin hmax => ?_, fun merged hmerged => ?_⟩
    · have hid' := hrange.symm.trans hid
      obtain ⟨first, last, hfirst, -⟩ := idRange_eq_some hid'
      obtain ⟨w, hw⟩ := hwalk minId maxId hid'
      by_cases hlacks : Lacks trades t
      · have hmissing : Missing log trades minId maxId t := ⟨ht, hmin, hmax, hlacks⟩
        have hrec := (mem_recovered hfirst hw.gathers).mpr
          ⟨hmissing, hw.passes hmissing (hreached minId maxId hid' t hmissing)⟩
        refine ⟨t, List.mem_append_right _ ?_, log.numbered t ht⟩
        rw [hw.written_of_mem hrec]
        exact (mem_merged hw.gathers).mpr (.inr hrec)
      · unfold Lacks at hlacks
        push Not at hlacks
        obtain ⟨t', ht', hnum⟩ := hlacks
        exact ⟨t', List.mem_append_left _ ht', hnum⟩
    · cases hid : idRange trades with
      | none =>
        rw [hnone hid] at hmerged
        cases hmerged
      | some range =>
        obtain ⟨first, last, hfirst, -⟩ := idRange_eq_some hid
        obtain ⟨w, hw⟩ := hwalk range.1 range.2 hid
        refine ⟨range.1, range.2, hrange.trans hid, ?_⟩
        rw [hw.written] at hmerged
        split at hmerged
        · cases hmerged
        · next hsome =>
          cases hmerged
          obtain ⟨t, hrec⟩ := List.exists_mem_of_ne_nil _ hsome
          exact (merges_iff hfirst hw.gathers).mpr
            ⟨fun t ht => hw.passes ht (hreached range.1 range.2 hid t ht),
              hkept range.1 range.2 hid ⟨t, ((mem_recovered hfirst hw.gathers).mp hrec).1⟩⟩

/-- A run over readable files returns, if its file can be written. -/
theorem exists_rehydrateTradesDir {c : Rehydration} {log : TradeLog}
    (hserved : log.ServedBy c.fetch) {trades : List Trade} (hread : c.originals = .ok trades)
    (hwrite : ∀ merged path, c.writeTradesParquet merged path = .ok ()) :
    ∃ r, c.rehydrateTradesDir = .ok r := by
  unfold originals at hread
  unfold rehydrateTradesDir
  cases hdir : c.readDir with
  | error e =>
    rw [hdir] at hread
    cases hread
  | ok entries =>
    rw [hdir] at hread
    dsimp only at hread ⊢
    rw [hread]
    dsimp only
    split
    · next minId first maxId last hfirst hlast =>
      obtain ⟨w, exhausted, hrun, -⟩ := gathers_fetchRounds hserved maxFetchRounds
        (gathers_start log (persisted trades) maxId (startPos minId first))
        (show startPos minId first = positionAfter c.fetch (startPos minId first) 0 from rfl)
      rw [hrun]
      dsimp only
      unfold writeMerged
      dsimp only
      split
      · exact ⟨_, rfl⟩
      · rw [hwrite]
        exact ⟨_, rfl⟩
    · exact ⟨_, rfl⟩

/-! ## A slow venue, and one that forgets -/

/-- What is printed as a number reads as that number. -/
theorem parseU64_toString {n : ℕ} (h : n < 2 ^ 64) : parseU64 (toString n) = some n := by
  have hdigits : ∀ d ∈ Nat.toDigits 10 n, d.isDigit = true := fun d hd =>
    Nat.isDigit_of_mem_toDigits (by decide) (by decide) hd
  have hvalue : (Nat.toDigits 10 n).foldl (fun n c => 10 * n + (c.toNat - '0'.toNat)) 0 = n :=
    Nat.ofDigitChars_ten_toDigits
  have hne : (Nat.toDigits 10 n).isEmpty = false :=
    List.isEmpty_eq_false_iff.mpr Nat.toDigits_ne_nil
  unfold parseU64
  rw [Nat.toString_eq_repr, Nat.toList_repr]
  dsimp only
  split
  · next rest hd =>
    -- no digit is a plus sign
    exact absurd (hdigits '+' (hd ▸ List.mem_cons_self)) (by decide)
  · rw [if_neg, hvalue, if_pos h]
    rw [hne, List.all_eq_true.mpr hdigits]
    simp

/-- A trade of a number. -/
def numberedTrade (n : ℕ) : Trade where
  sourceTradeTsUs := 1000 * n
  pair := ⟨"BTC", "USDT"⟩
  side := .buy
  amount := ⟨1, 0⟩
  price := ⟨100, 0⟩
  exchange := "binance"
  id := toString n

theorem number_numberedTrade {n : ℕ} (h : n < 2 ^ 64) : (numberedTrade n).number = n := by
  show (parseU64 (toString n)).getD 0 = n
  rw [parseU64_toString h]
  rfl

/-- A venue that traded a stretch of numbers without a hole. -/
def denseLog (from' len : ℕ) (h : from' + len < 2 ^ 64) : TradeLog where
  trades := (List.range' from' len).map numberedTrade
  numbered := by
    refine List.forall_mem_map.mpr (fun n hn => ?_)
    have hlt : n < 2 ^ 64 := (List.mem_range'_1.mp hn).2.trans h
    rw [number_numberedTrade hlt]
    exact parseU64_toString hlt
  ascending := by
    have hsorted : (List.range' from' len).Pairwise (· < ·) := List.pairwise_lt_range'
    rw [List.pairwise_map]
    refine hsorted.imp_of_mem (fun {a b} ha hb hlt => ?_)
    rwa [number_numberedTrade ((List.mem_range'_1.mp ha).2.trans h),
      number_numberedTrade ((List.mem_range'_1.mp hb).2.trans h)]

/-- A venue that serves its history in pages. -/
def paged (log : TradeLog) (page : ℕ) : TradesRestFetch :=
  fun _ _ _ pos => .ok ((log.after pos.id).take page)

theorem servedBy_paged {log : TradeLog} {page : ℕ} (h : 0 < page) {c : Rehydration}
    (hc : c.fetcher = paged log page) : log.ServedBy c.fetch := by
  intro call pos
  refine ⟨(log.after pos.id).take page, by unfold fetch; rw [hc]; rfl,
    List.take_prefix _ _, fun hempty => ?_⟩
  exact (List.take_eq_nil_iff.mp hempty).resolve_left h.ne'

/-- A call over one file. -/
def callOf (fetcher : TradesRestFetch) (trades : List Trade) : Rehydration where
  tradesDir := "trades"
  exchange := "binance"
  wireSymbol := "BTCUSDT"
  pair := ⟨"BTC", "USDT"⟩
  fetcher := fetcher
  readDir := .ok [⟨"binance_BTC-USDT_trades_sync_1.parquet", .ok trades⟩]
  writeTradesParquet := fun _ _ => .ok ()
  stamp := "20260101_000000"

theorem originals_callOf (fetcher : TradesRestFetch) (trades : List Trade) :
    (callOf fetcher trades).originals = .ok trades := by
  have hfiles : files [⟨"binance_BTC-USDT_trades_sync_1.parquet", .ok trades⟩]
      = [⟨"binance_BTC-USDT_trades_sync_1.parquet", .ok trades⟩] := by
    unfold files
    have horiginal : isOriginal "binance_BTC-USDT_trades_sync_1.parquet" = true := by
      decide
    have hfilter : [DirEntry.mk "binance_BTC-USDT_trades_sync_1.parquet" (.ok trades)].filter
        (fun f => isOriginal f.name) = [⟨"binance_BTC-USDT_trades_sync_1.parquet", .ok trades⟩] :=
      List.filter_cons_of_pos horiginal
    rw [hfilter, List.mergeSort_singleton]
  show readTrades (files _) = .ok trades
  rw [hfiles]
  show Except.ok (trades ++ []) = Except.ok trades
  rw [List.append_nil]

/-- A dense history from 1 on, asked for one trade after the other, is passed
one number at a time. -/
theorem positionAfter_dense {len : ℕ} (h : 1 + len < 2 ^ 64) {c : Rehydration}
    (hc : c.fetcher = paged (denseLog 1 len h) 1) {start : TradePos} (hstart : start.id = 0)
    {k : ℕ} (hk : k ≤ len) : (positionAfter c.fetch start k).id = k := by
  induction k with
  | zero => exact hstart
  | succ k ih =>
    have hpos := ih (Nat.le_of_succ_le hk)
    have hnum : (numberedTrade (k + 1)).number = k + 1 :=
      number_numberedTrade (by omega)
    have hmem : numberedTrade (k + 1) ∈ (denseLog 1 len h).trades :=
      List.mem_map_of_mem (List.mem_range'_1.mpr ⟨by omega, by omega⟩)
    have hlt : k < (numberedTrade (k + 1)).number := (Nat.lt_succ_self k).trans_eq hnum.symm
    have hnext := TradeLog.mem_after.mpr ⟨hmem, hlt⟩
    cases hafter : (denseLog 1 len h).after k with
    | nil =>
      rw [hafter] at hnext
      cases hnext
    | cons t rest =>
      -- the trade after `k` is the one of `k + 1`
      obtain ⟨-, hpast, -, honly⟩ := TradeLog.after_cons hafter
      have ht := honly _ hmem hlt (hnum.trans_le hpast)
      have hfetch : c.fetch k (positionAfter c.fetch start k) = .ok [numberedTrade (k + 1)] := by
        show c.fetcher k c.wireSymbol c.pair _ = _
        rw [hc]
        show Except.ok (((denseLog 1 len h).after (positionAfter c.fetch start k).id).take 1) = _
        rw [hpos, hafter, ht]
        rfl
      rw [positionAfter, hfetch]
      exact hnum

/-- A venue that serves one trade at a time, and a file with the first trade
and the last of 202. -/
def slowVenue : Rehydration :=
  callOf (paged (denseLog 1 202 (by decide)) 1) [numberedTrade 1, numberedTrade 202]

/-- **The rounds end without a word**: after 200 batches the walk is at 200,
the trade 201 is missing, and the report does not say that the range was not
covered. -/
theorem not_honest_slowVenue :
    (denseLog 1 202 (by decide)).ServedBy slowVenue.fetch ∧
      ∃ r, slowVenue.rehydrateTradesDir = .ok r ∧
        ¬ r.Honest (denseLog 1 202 (by decide)) [numberedTrade 1, numberedTrade 202] := by
  have hserved : (denseLog 1 202 (by decide)).ServedBy slowVenue.fetch :=
    servedBy_paged (by decide) rfl
  have hread : slowVenue.originals = .ok [numberedTrade 1, numberedTrade 202] :=
    originals_callOf _ _
  obtain ⟨r, hr⟩ := exists_rehydrateTradesDir hserved hread (fun _ _ => rfl)
  refine ⟨hserved, r, hr, fun hhonest => ?_⟩
  obtain ⟨hid, -, hwalk⟩ := walked_rehydrateTradesDir hserved hread hr
  have hrange : idRange [numberedTrade 1, numberedTrade 202] = some (1, 202) := by decide
  have hfirst : (persisted [numberedTrade 1, numberedTrade 202]).first?
      = some (1, numberedTrade 1) := by decide
  obtain ⟨w, hw⟩ := hwalk 1 202 hrange
  have hmissing : Missing (denseLog 1 202 (by decide)) [numberedTrade 1, numberedTrade 202] 1 202
      (numberedTrade 201) := by
    refine ⟨List.mem_map_of_mem (by decide), by decide, by decide, ?_⟩
    unfold Lacks
    decide
  have hle := (hw.passes_of_honest (hid.trans hrange) hfirst hhonest hmissing).trans hw.pos_le
  rw [positionAfter_dense (c := slowVenue) (by decide) rfl (by decide) (by decide),
    number_numberedTrade (by decide)] at hle
  exact absurd hle (by decide)

/-- A venue that still has the trades from 6 to 10, and a file that lacks 3
and 8 of the first ten. -/
def forgetfulVenue : Rehydration :=
  callOf (paged (denseLog 6 5 (by decide)) 2)
    ([1, 2, 4, 5, 6, 7, 9, 10].map numberedTrade)

/-- What the run leaves: the trade 8 is recovered. -/
def forgetfulRun : Rehydrated where
  report := {
    exchange := "binance"
    wireSymbol := "BTCUSDT"
    filesScanned := 1
    tradesRead := 8
    idRange := some (1, 10)
    recovered := 1
    exhaustedBeforeRangeEnd := false
    outputPath := some "trades/binance_BTCUSDT_trades_rehydrated_20260101_000000.parquet" }
  written := some ([1, 2, 4, 5, 6, 7, 8, 9, 10].map numberedTrade)

/-- **The trade the venue still has is recovered**, and nothing is lost. -/
theorem honest_and_lossless_forgetfulRun :
    forgetfulRun.Honest (denseLog 6 5 (by decide)) ([1, 2, 4, 5, 6, 7, 9, 10].map numberedTrade) ∧
      forgetfulRun.Lossless (denseLog 6 5 (by decide))
        ([1, 2, 4, 5, 6, 7, 9, 10].map numberedTrade) := by
  refine (honest_and_lossless_iff (c := forgetfulVenue) (servedBy_paged (by decide) rfl)
    (originals_callOf _ _) (by decide +kernel)).mpr ⟨fun minId maxId _ t ht => ?_,
      fun minId maxId _ _ t ht => ?_⟩
  · have hle : ∀ t ∈ (denseLog 6 5 (by decide)).trades, t.number ≤ (positionAfter
        forgetfulVenue.fetch (firstPos ([1, 2, 4, 5, 6, 7, 9, 10].map numberedTrade))
        maxFetchRounds).id := by decide +kernel
    exact hle t ht.mem
  · have hown : ∀ t ∈ [1, 2, 4, 5, 6, 7, 9, 10].map numberedTrade,
        parseU64 t.id = some t.number ∧ ∀ t' ∈ [1, 2, 4, 5, 6, 7, 9, 10].map numberedTrade,
          parseU64 t'.id = some t.number → t' = t := by decide
    exact ⟨t.number, hown t ht⟩

end Rehydration
