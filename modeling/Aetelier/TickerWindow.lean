import Aetelier.RestTrades
import Aetelier.RehydrateRange
import Aetelier.RowGroups
import Mathlib.Data.List.DropRight

/-!
# The Coinbase walk and the newest hundred

Coinbase answers a window of time with its newest hundred trades. The walk
asks for the window from the second before the position to now; if the answer
is full it asks again, with a start moved to the last second it has seen.

That is the wrong end. What a full answer lacks is older than all it holds,
and a later start leaves out more of it: no page after the first holds
anything the first did not (`newest_subset`). So the walk is worth one page,
and that page ends with a whole second. `complete_iff` says when one page is
enough.
-/

/-! ## The last elements of a list -/

section Last

variable {α : Type*} {l : List α}

/-- If what comes after an element that counts counts too, the last that
count are those among the last. -/
theorem filter_rtake {p : α → Bool} (h : l.Pairwise (fun a b => p a = true → p b = true)) (n : ℕ) :
    (l.rtake n).filter p = (l.filter p).rtake n := by
  induction l with
  | nil => simp
  | cons a l ih =>
    obtain ⟨ha, hl⟩ := List.pairwise_cons.mp h
    by_cases hp : p a = true
    · have hall : ∀ b ∈ a :: l, p b = true := by
        intro b hb
        obtain rfl | hb := List.mem_cons.mp hb
        · exact hp
        · exact ha b hb hp
      rw [List.filter_eq_self.mpr hall, List.filter_eq_self]
      exact fun b hb => hall b (List.mem_of_mem_drop hb)
    · rw [List.filter_cons_of_neg hp, ← ih hl]
      unfold List.rtake
      rw [List.length_cons]
      obtain hn | hn := Nat.lt_or_ge l.length n
      · rw [Nat.sub_eq_zero_of_le hn, Nat.sub_eq_zero_of_le hn.le, List.drop_zero, List.drop_zero,
          List.filter_cons_of_neg hp]
      · rw [Nat.succ_sub hn, List.drop_succ_cons]

theorem rtake_sublist (l : List α) (n : ℕ) : (l.rtake n).Sublist l := List.drop_sublist _ _

theorem length_rtake (l : List α) (n : ℕ) : (l.rtake n).length = min n l.length := by
  unfold List.rtake
  rw [List.length_drop]
  omega

end Last

/-! ## What the venue has traded -/

/-- The trades of a product at Coinbase, as the rows it answers: numbered,
with a side and a time, by their number in the order of their times. -/
structure CoinbaseHistory (env : RestEnv) where
  rows : List CoinbaseTradeRow
  numbered : ∀ r ∈ rows, (parseU64 r.tradeId).isSome = true
  sided : ∀ r ∈ rows, (TradeSide.fromStr r.side).isSome = true
  readable : ∀ r ∈ rows, env.CoinbaseReadable r
  ascending : rows.Pairwise fun a b =>
    a.number < b.number ∧ env.coinbaseTsUs a ≤ env.coinbaseTsUs b

namespace CoinbaseHistory

variable {env : RestEnv} (h : CoinbaseHistory env)

/-- The row lies in a window in seconds. -/
def inWindow (env : RestEnv) (startSec endSec : ℕ) (r : CoinbaseTradeRow) : Bool :=
  startSec * 1000000 ≤ env.coinbaseTsUs r && env.coinbaseTsUs r ≤ endSec * 1000000

/-- The newest hundred of a window. -/
def newest (startSec endSec : ℕ) : List CoinbaseTradeRow :=
  (h.rows.filter (inWindow env startSec endSec)).rtake 100

/-- What is to be fetched at a time: the trades behind the position. -/
def missing (pos : TradePos) (nowUs : ℕ) : List CoinbaseTradeRow :=
  h.rows.filter (fun r => pos.id < r.number && env.coinbaseTsUs r ≤ nowUs)

/-- Every page asked for holds the newest hundred of its window, in any
order. -/
def Serves (send : ℕ → CoinbaseTickerQuery → Except HttpError (List CoinbaseTradeRow)) : Prop :=
  ∀ i q, ∃ page, send i q = .ok page ∧ page.Perm (h.newest q.startSec q.endSec)

variable {h}

theorem rows_pairwise_number : h.rows.Pairwise (fun a b => a.number < b.number) :=
  h.ascending.imp And.left

theorem numbers_nodup : (h.rows.map CoinbaseTradeRow.number).Nodup :=
  List.pairwise_map.mpr (rows_pairwise_number.imp Nat.ne_of_lt)

/-- Rows with one number are one row. -/
theorem eq_of_number_eq {a b : CoinbaseTradeRow} (ha : a ∈ h.rows) (hb : b ∈ h.rows)
    (hab : a.number = b.number) : a = b :=
  List.inj_on_of_nodup_map numbers_nodup ha hb hab

theorem newest_sublist (startSec endSec : ℕ) : (h.newest startSec endSec).Sublist h.rows :=
  (rtake_sublist _ _).trans List.filter_sublist

/-- **A later start shows nothing new.** -/
theorem newest_subset {startSec startSec' : ℕ} (hle : startSec ≤ startSec') (endSec : ℕ) :
    h.newest startSec' endSec ⊆ h.newest startSec endSec := by
  have hfilter : h.rows.filter (inWindow env startSec' endSec)
      = (h.rows.filter (inWindow env startSec endSec)).filter
          (fun r => startSec' * 1000000 ≤ env.coinbaseTsUs r) := by
    rw [List.filter_filter]
    refine List.filter_congr (fun r _ => ?_)
    unfold inWindow
    rw [Bool.eq_iff_iff]
    simp only [Bool.and_eq_true, decide_eq_true_eq]
    omega
  unfold newest
  rw [hfilter, ← filter_rtake]
  · exact List.filter_subset_self _
  · refine (h.ascending.sublist List.filter_sublist).imp (fun hab ha => ?_)
    simp only [decide_eq_true_eq] at ha ⊢
    exact ha.trans hab.2

/-! ## What a walk is answered -/

section Answered

variable {send : ℕ → CoinbaseTickerQuery → Except HttpError (List CoinbaseTradeRow)}
  {pair : TradingPair} {pos : TradePos} {wireSymbol : String} {nowSec : ℕ}

theorem le_foldl_lastSec (m : ℕ) (rows : List CoinbaseTradeRow) :
    m ≤ rows.foldl (env.lastSec pair pos) m := by
  induction rows generalizing m with
  | nil => exact Nat.le_refl m
  | cons r rows ih =>
    refine Nat.le_trans ?_ (ih _)
    unfold RestEnv.lastSec RestEnv.coinbaseRow
    by_cases hpos : r.number ≤ pos.id
    · rw [if_pos hpos]
    · rw [if_neg hpos]
      cases TradeSide.fromStr r.side with
      | none => exact Nat.le_refl m
      | some side => simp

variable (pair pos wireSymbol nowSec) in
/-- The pages of a walk, wherever it starts, hold only what its first window
shows. -/
theorem answered_subset (hserve : h.Serves send) (left i startSec : ℕ) :
    ∃ rows, env.answeredByTime pair pos send wireSymbol nowSec left i startSec = .ok rows ∧
      rows ⊆ h.newest startSec nowSec := by
  induction left generalizing i startSec with
  | zero => exact ⟨[], rfl, List.nil_subset _⟩
  | succ left ih =>
    obtain ⟨page, hpage, hperm⟩ := hserve i ⟨wireSymbol, startSec, nowSec⟩
    unfold RestEnv.answeredByTime
    rw [hpage]
    split_ifs with hnow
    · exact ⟨[], rfl, List.nil_subset _⟩
    · simp only [Except.mapError, bind, Except.bind, pure, Except.pure]
      split_ifs with hlast
      · exact ⟨page, rfl, hperm.subset⟩
      · obtain ⟨more, hmore, hsub⟩ := ih (i + 1) (page.foldl (env.lastSec pair pos) startSec)
        rw [hmore]
        refine ⟨page ++ more, rfl, List.append_subset.mpr ⟨hperm.subset, ?_⟩⟩
        exact fun r hr => newest_subset (le_foldl_lastSec startSec page) nowSec (hsub hr)

/-- **A walk is answered its first page**, and nothing else. -/
theorem answered_mem_iff (hserve : h.Serves send) {startSec : ℕ} (hnow : startSec < nowSec) :
    ∃ rows, env.answeredByTime pair pos send wireSymbol nowSec maxPages 0 startSec = .ok rows ∧
      ∀ r, r ∈ rows ↔ r ∈ h.newest startSec nowSec := by
  obtain ⟨rows, hrows, hsub⟩ :=
    answered_subset pair pos wireSymbol nowSec hserve maxPages 0 startSec
  refine ⟨rows, hrows, fun r => ⟨fun hr => hsub hr, fun hr => ?_⟩⟩
  obtain ⟨page, hpage, hperm⟩ := hserve 0 ⟨wireSymbol, startSec, nowSec⟩
  have hr : r ∈ page := hperm.mem_iff.mpr hr
  unfold maxPages RestEnv.answeredByTime at hrows
  rw [if_neg (Nat.not_le_of_lt hnow), hpage] at hrows
  simp only [Except.mapError, bind, Except.bind, pure, Except.pure] at hrows
  split_ifs at hrows with hlast
  · rwa [← Except.ok.inj hrows]
  · obtain ⟨more, hmore, -⟩ := answered_subset pair pos wireSymbol nowSec hserve 4 1
      (page.foldl (env.lastSec pair pos) startSec)
    rw [hmore] at hrows
    rw [← Except.ok.inj hrows]
    exact List.mem_append_left _ hr

/-- The trade of a row, if it has a side. -/
def tradeOf (env : RestEnv) (pair : TradingPair) (r : CoinbaseTradeRow) : Option Trade :=
  (TradeSide.fromStr r.side).map (fun side => env.coinbaseTrade pair side r)

/-- The trades behind the position in the first window. -/
def fetched (h : CoinbaseHistory env) (pos : TradePos) (nowSec : ℕ) : List CoinbaseTradeRow :=
  (h.newest pos.startSec nowSec).filter (fun r => pos.id < r.number)

/-- Rows whose members are those of the first page bring in its trades. -/
theorem firstTaken_iff {rows : List CoinbaseTradeRow}
    (hrows : ∀ r, r ∈ rows ↔ r ∈ h.newest pos.startSec nowSec) (r : CoinbaseTradeRow) :
    RestEnv.FirstTaken pos rows r ↔ r ∈ h.fetched pos nowSec := by
  have hmem : ∀ q ∈ h.newest pos.startSec nowSec, q ∈ h.rows :=
    fun q hq => (newest_sublist _ _).subset hq
  unfold fetched
  rw [List.mem_filter, decide_eq_true_eq]
  constructor
  · rintro ⟨htaken, before, behind, heq, -⟩
    exact ⟨(hrows r).mp (by rw [heq]; simp), htaken.1⟩
  · rintro ⟨hr, hpos⟩
    obtain ⟨q, hq, hid⟩ :=
      RestEnv.exists_firstTaken ((hrows r).mpr hr) ⟨hpos, h.sided r (hmem r hr)⟩
    obtain ⟨htaken, before, behind, heq, hne⟩ := hq
    have hq : q ∈ h.newest pos.startSec nowSec := (hrows q).mp (by rw [heq]; simp)
    have hqr : q = r := by
      refine eq_of_number_eq (hmem q hq) (hmem r hr) ?_
      unfold CoinbaseTradeRow.number
      rw [hid]
    exact hqr ▸ ⟨htaken, before, behind, heq, hne⟩

theorem fetched_sublist (pos : TradePos) (nowSec : ℕ) :
    (h.fetched pos nowSec).Sublist h.rows :=
  List.filter_sublist.trans (newest_sublist _ _)

/-- The rows recovered, sorted by their number, are those of the page. -/
theorem map_row_mergeSort {rows : List CoinbaseTradeRow}
    (hrows : ∀ r, r ∈ rows ↔ r ∈ h.newest pos.startSec nowSec)
    {out : List (RecoveredTrade CoinbaseTradeRow)} (hout : RestEnv.Keeps env pair pos rows out) :
    (out.mergeSort (fun a b =>
        (parseU64 a.trade.id).getD 0 ≤ (parseU64 b.trade.id).getD 0)).map RecoveredTrade.row
      = h.fetched pos nowSec := by
  generalize hsorted : out.mergeSort _ = sorted
  have hperm : sorted.Perm out := hsorted ▸ List.mergeSort_perm _ _
  have hid : ∀ t ∈ sorted, t.trade.id = t.row.tradeId :=
    fun t ht => hout.tradeId_eq (hperm.mem_iff.mp ht)
  have hmem : ∀ r, r ∈ sorted.map RecoveredTrade.row ↔ r ∈ h.fetched pos nowSec := by
    intro r
    rw [← firstTaken_iff hrows r, List.mem_map]
    constructor
    · rintro ⟨t, ht, rfl⟩
      exact (hout.sound t (hperm.mem_iff.mp ht)).1
    · intro hr
      obtain ⟨t, ht, htr⟩ := hout.first r hr
      exact ⟨t, hperm.mem_iff.mpr ht, htr⟩
  have hrow : ∀ t ∈ sorted, t.row ∈ h.rows := fun t ht =>
    (fetched_sublist pos nowSec).subset ((hmem t.row).mp (List.mem_map_of_mem ht))
  have hle : sorted.Pairwise (fun a b => a.row.number ≤ b.row.number) := by
    rw [← hsorted]
    refine (List.pairwise_mergeSort (fun a b c hab hbc => ?_) (fun a b => ?_) out).imp_of_mem ?_
    · simp only [decide_eq_true_eq] at hab hbc ⊢
      exact hab.trans hbc
    · simpa using Nat.le_total _ _
    · intro a b ha hb hab
      rw [hsorted] at ha hb
      rw [hid a ha, hid b hb] at hab
      exact decide_eq_true_eq.mp hab
  have hne : sorted.Pairwise (fun a b => a.row.number ≠ b.row.number) := by
    have honce := (hperm.map (fun t => t.trade.id)).nodup_iff.mpr hout.once
    refine (List.pairwise_map.mp honce).imp_of_mem (fun ha hb hab hnum => hab ?_)
    rw [hid _ ha, hid _ hb, eq_of_number_eq (hrow _ ha) (hrow _ hb) hnum]
  refine OrdMap.eq_of_mem_iff (f := CoinbaseTradeRow.number) ?_ ?_ hmem
  · exact List.pairwise_map.mpr ((hle.and hne).imp (fun hab => lt_of_le_of_ne hab.1 hab.2))
  · exact rows_pairwise_number.sublist (fetched_sublist pos nowSec)

/-- **What a call returns**: the trades of the first page, in order. -/
theorem trades_eq (hserve : h.Serves send) (hnow : pos.startSec < nowSec) :
    RecoveredTrade.trades (env.coinbaseRecovered send nowSec wireSymbol pair pos)
      = .ok ((h.fetched pos nowSec).filterMap (tradeOf env pair)) := by
  obtain ⟨rows, hrows, hmem⟩ := answered_mem_iff hserve hnow
  have hkeeps := RestEnv.keeps_foldl env pair pos rows
  unfold RestEnv.coinbaseRecovered
  rw [RestEnv.walkByTime_eq, hrows]
  simp only [Except.map, bind, Except.bind, pure, Except.pure, RecoveredTrade.trades,
    ← map_row_mergeSort hmem hkeeps, List.filterMap_map]
  refine congrArg _ ?_
  rw [← List.filterMap_eq_map]
  refine List.filterMap_congr (fun t ht => ?_)
  obtain ⟨-, side, hside, htrade⟩ := hkeeps.sound t (List.mem_mergeSort.mp ht)
  unfold tradeOf
  rw [Function.comp_apply, Function.comp_apply, hside, htrade]
  rfl

end Answered

/-! ## Complete fetches -/

/-- **The fetch is complete**: it returns every trade behind the position, up
to the time of the call, once and in order. -/
def Complete (h : CoinbaseHistory env)
    (send : ℕ → CoinbaseTickerQuery → Except HttpError (List CoinbaseTradeRow))
    (wireSymbol : String) (pair : TradingPair) (pos : TradePos) (nowUs : ℕ) : Prop :=
  RecoveredTrade.trades (env.coinbaseRecovered send (nowUs / 1000000) wireSymbol pair pos)
    = .ok ((h.missing pos nowUs).filterMap (tradeOf env pair))

variable {pos : TradePos} {nowUs : ℕ}

theorem missing_sublist (pos : TradePos) (nowUs : ℕ) : (h.missing pos nowUs).Sublist h.rows :=
  List.filter_sublist

/-- The page holds the newest hundred of what is missing in its window. -/
theorem fetched_eq (pos : TradePos) (nowUs : ℕ) :
    h.fetched pos (nowUs / 1000000)
      = ((h.missing pos nowUs).filter
          (inWindow env pos.startSec (nowUs / 1000000))).rtake 100 := by
  unfold fetched newest missing
  rw [filter_rtake, List.filter_filter, List.filter_filter]
  · refine congrArg (List.rtake · 100) (List.filter_congr (fun r _ => ?_))
    unfold inWindow
    rw [Bool.eq_iff_iff]
    simp only [Bool.and_eq_true, decide_eq_true_eq]
    omega
  · refine (h.ascending.sublist List.filter_sublist).imp (fun hab ha => ?_)
    simp only [decide_eq_true_eq] at ha ⊢
    exact ha.trans hab.1

theorem length_filterMap_tradeOf (pair : TradingPair) {rows : List CoinbaseTradeRow}
    (hrows : rows.Sublist h.rows) : (rows.filterMap (tradeOf env pair)).length = rows.length := by
  induction rows with
  | nil => rfl
  | cons r rows ih =>
    obtain ⟨side, hside⟩ :=
      Option.isSome_iff_exists.mp (h.sided r (hrows.subset List.mem_cons_self))
    have htrade : tradeOf env pair r = some (env.coinbaseTrade pair side r) := by
      unfold tradeOf
      rw [hside]
      rfl
    rw [List.filterMap_cons_some htrade, List.length_cons, List.length_cons,
      ih ((List.sublist_cons_self r rows).trans hrows)]

/-- **One page is enough** for a hundred trades that all lie in its window. -/
theorem fetched_eq_missing_iff (pos : TradePos) (nowUs : ℕ) :
    (h.fetched pos (nowUs / 1000000)).length = (h.missing pos nowUs).length ↔
      (h.missing pos nowUs).length ≤ 100 ∧
      ∀ r ∈ h.missing pos nowUs, inWindow env pos.startSec (nowUs / 1000000) r = true := by
  rw [fetched_eq, length_rtake, ← List.length_filter_eq_length_iff]
  have hle := List.length_filter_le (inWindow env pos.startSec (nowUs / 1000000))
    (h.missing pos nowUs)
  omega

theorem complete_iff_page
    {send : ℕ → CoinbaseTickerQuery → Except HttpError (List CoinbaseTradeRow)}
    (hserve : h.Serves send) (wireSymbol : String) (pair : TradingPair) (pos : TradePos)
    (nowUs : ℕ) :
    h.Complete send wireSymbol pair pos nowUs ↔
      h.missing pos nowUs = [] ∨
      (pos.startSec < nowUs / 1000000 ∧ (h.missing pos nowUs).length ≤ 100 ∧
        ∀ r ∈ h.missing pos nowUs, inWindow env pos.startSec (nowUs / 1000000) r = true) := by
  unfold Complete
  by_cases hnow : pos.startSec < nowUs / 1000000
  · rw [trades_eq hserve hnow, ← fetched_eq_missing_iff, and_iff_right hnow, Except.ok.injEq]
    constructor
    · intro heq
      have hlen := congrArg List.length heq
      rw [length_filterMap_tradeOf pair (fetched_sublist _ _),
        length_filterMap_tradeOf pair (missing_sublist _ _)] at hlen
      exact Or.inr hlen
    · intro hlen
      have hsub : (h.fetched pos (nowUs / 1000000)).Sublist (h.missing pos nowUs) := by
        rw [fetched_eq]
        exact (rtake_sublist _ _).trans List.filter_sublist
      have heq : (h.fetched pos (nowUs / 1000000)).length = (h.missing pos nowUs).length := by
        obtain hnil | hlen := hlen
        · rw [hnil] at hsub ⊢
          rw [List.sublist_nil.mp hsub]
        · exact hlen
      rw [hsub.eq_of_length heq]
  · have hnone : RecoveredTrade.trades
        (env.coinbaseRecovered send (nowUs / 1000000) wireSymbol pair pos) = .ok [] := by
      unfold RestEnv.coinbaseRecovered maxPages RestEnv.walkByTime
      rw [if_pos (Nat.le_of_not_lt hnow)]
      simp [RecoveredTrade.trades, Except.map, bind, Except.bind, pure, Except.pure]
    rw [hnone, Except.ok.injEq, eq_comm, ← List.length_eq_zero_iff,
      length_filterMap_tradeOf pair (missing_sublist _ _), List.length_eq_zero_iff]
    simp [hnow]

end CoinbaseHistory

/-- The ticker endpoint: a history, and pages that hold the newest hundred of
their window. -/
structure TickerEndpoint (env : RestEnv) where
  history : CoinbaseHistory env
  send : ℕ → CoinbaseTickerQuery → Except HttpError (List CoinbaseTradeRow)
  serves : history.Serves send

namespace TickerEndpoint

variable {env : RestEnv} (e : TickerEndpoint env)

/-- **When a fetch is complete**: of up to five hundred missing trades it
returns all exactly if there is none, or no more than one page of them, none
before the second the walk starts at and none after the last whole second. -/
theorem complete_iff (wireSymbol : String) (pair : TradingPair) (pos : TradePos) (nowUs : ℕ) :
    ((e.history.missing pos nowUs).length ≤ maxPages * 100 →
        e.history.Complete e.send wireSymbol pair pos nowUs) ↔
      maxPages * 100 < (e.history.missing pos nowUs).length ∨
      e.history.missing pos nowUs = [] ∨
      (pos.startSec < nowUs / 1000000 ∧ (e.history.missing pos nowUs).length ≤ 100 ∧
        ∀ r ∈ e.history.missing pos nowUs,
          CoinbaseHistory.inWindow env pos.startSec (nowUs / 1000000) r = true) := by
  rw [CoinbaseHistory.complete_iff_page e.serves, imp_iff_not_or, Nat.not_le]

/-! ## A burst of more than a page -/

/-- A print of a burst: all in one second. -/
def burstRow (n : ℕ) : CoinbaseTradeRow :=
  ⟨toString (n + 1), "100", "1", "2026-07-17T00:00:10Z", "BUY"⟩

/-- Reads the time of the burst. -/
def burstEnv : RestEnv := ⟨Crates.plain, fun _ => none, fun _ => some 1784246410000000⟩

theorem burstRow_number {n : ℕ} (hn : n < 101) : (burstRow n).number = n + 1 := by
  unfold CoinbaseTradeRow.number burstRow
  rw [Rehydration.parseU64_toString (by omega)]
  rfl

theorem parseU64_burstRow {n : ℕ} (hn : n < 101) :
    parseU64 (burstRow n).tradeId = some (n + 1) :=
  Rehydration.parseU64_toString (by omega)

/-- A hundred and one prints. -/
def burstHistory : CoinbaseHistory burstEnv where
  rows := (List.range 101).map burstRow
  numbered := by
    intro r hr
    obtain ⟨n, hn, rfl⟩ := List.mem_map.mp hr
    rw [parseU64_burstRow (List.mem_range.mp hn)]
    rfl
  sided := by
    intro r hr
    obtain ⟨n, -, rfl⟩ := List.mem_map.mp hr
    show (TradeSide.fromStr "BUY").isSome = true
    decide
  readable := by
    intro r hr
    obtain ⟨n, -, rfl⟩ := List.mem_map.mp hr
    have hprice : Crates.plain.fromStr "100" = .ok ⟨100, 0⟩ := by decide
    have hsize : Crates.plain.fromStr "1" = .ok ⟨1, 0⟩ := by decide
    exact ⟨⟨_, hprice⟩, ⟨_, hsize⟩, 1784246410000000, rfl, by decide, by decide⟩
  ascending := by
    refine List.pairwise_map.mpr (List.pairwise_lt_range.imp_of_mem (fun {a b} ha hb hab => ?_))
    rw [burstRow_number (List.mem_range.mp ha), burstRow_number (List.mem_range.mp hb)]
    exact ⟨Nat.succ_lt_succ hab, Nat.le_refl _⟩

/-- The endpoint answers the newest first. -/
def burst : TickerEndpoint burstEnv where
  history := burstHistory
  send := fun _ q => .ok (burstHistory.newest q.startSec q.endSec).reverse
  serves := fun _ _ => ⟨_, rfl, List.reverse_perm _⟩

theorem length_missing_burst :
    (burstHistory.missing ⟨0, 1784246409000000⟩ 1784246420000000).length = 101 := by
  have hall : burstHistory.missing ⟨0, 1784246409000000⟩ 1784246420000000 = burstHistory.rows := by
    refine List.filter_eq_self.mpr (fun r hr => ?_)
    obtain ⟨n, hn, rfl⟩ := List.mem_map.mp hr
    rw [burstRow_number (List.mem_range.mp hn)]
    refine (Bool.and_eq_true _ _).mpr ⟨decide_eq_true (Nat.succ_pos n), ?_⟩
    show decide (asU64 1784246410000000 ≤ 1784246420000000) = true
    decide
  rw [hall]
  show ((List.range 101).map burstRow).length = 101
  rw [List.length_map, List.length_range]

/-- Of a hundred and one prints the walk finds a hundred. -/
theorem not_complete_burst :
    ¬ ∀ (env : RestEnv) (e : TickerEndpoint env) (wireSymbol : String) (pair : TradingPair)
      (pos : TradePos) (nowUs : ℕ), (e.history.missing pos nowUs).length ≤ maxPages * 100 →
        e.history.Complete e.send wireSymbol pair pos nowUs := by
  intro h
  have hlen := length_missing_burst
  have hcomplete := h burstEnv burst "BTC-USD" ⟨"BTC", "USD"⟩ ⟨0, 1784246409000000⟩
    1784246420000000 (by rw [show burst.history = burstHistory from rfl, hlen]; decide)
  rw [CoinbaseHistory.complete_iff_page burst.serves,
    show burst.history = burstHistory from rfl] at hcomplete
  obtain hnil | ⟨-, hpage, -⟩ := hcomplete
  · rw [hnil] at hlen
    cases hlen
  · omega

end TickerEndpoint
