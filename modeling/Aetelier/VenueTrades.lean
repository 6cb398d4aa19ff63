import Aetelier.Normalizers
import Aetelier.TradeCarry

/-!
# Prints from the wire to the log

Every print that a venue sends is emitted as a trade or dropped and counted in
`dropped_frames`, and the trades come in the order of the prints
(`Venue.accounts_run`). The log of a pair counts as lost the numbers that are missing
between two prints it gets. It cannot know what becomes of a print on the way: a
print that was dropped because it cannot be read leaves the same hole as one that was
never sent, so it is in both counters – unless it is the first or the last, which
leaves no hole (`Venue.losses_run`). Where prints have no number a log never counts a
loss (`Venue.uncounted_run`).

That the numbers of a venue increase from print to print is up to the venue. HTX and
Coinbase send the newest first, and their batches are turned round.
-/

variable {F : Type} (env : WireEnv F)

/-! ## The prints of an event -/

namespace VenuePrint

variable (venue : Venue)

/-- The trade of a print with its number. -/
def read (p : VenuePrint) : Option (Trade × Option ℕ) :=
  (p.trade env venue).map fun t => (t, p.sequence)

/-- The print can be read. -/
def readable (p : VenuePrint) : Bool := (p.trade env venue).isSome

variable {env venue} in
/-- Reading a print whose trade cannot be read. -/
theorem read_of_trade_eq_none {p : VenuePrint} (h : p.trade env venue = none) :
    p.read env venue = none ∧ p.readable env venue = false := by
  unfold read readable
  rw [h]
  exact ⟨rfl, rfl⟩

variable {env venue} in
/-- Reading a print whose trade can be read. -/
theorem read_of_trade_eq_some {p : VenuePrint} {t : Trade} (h : p.trade env venue = some t) :
    p.read env venue = some (t, p.sequence) ∧ p.readable env venue = true := by
  unfold read readable
  rw [h]
  exact ⟨rfl, rfl⟩

/-- The prints of a frame that names their symbol. -/
def batch (symbol : Option String) (prints : String → List VenuePrint) : List VenuePrint :=
  match symbol.bind (fun s => (venue.codec.decode env.unicode s).map (fun _ => s)) with
  | some s => prints s
  | none => []

/-- Such a frame is refused as a whole. -/
def refusedBatch (symbol : Option String) : ℕ :=
  match symbol.bind (fun s => (venue.codec.decode env.unicode s).map (fun _ => s)) with
  | some _ => 0
  | none => 1

/-- A print of a batch. -/
theorem mem_batch {env : WireEnv F} {venue : Venue} {symbol : Option String}
    {prints : String → List VenuePrint} {p : VenuePrint} (h : p ∈ batch env venue symbol prints) :
    ∃ s, p ∈ prints s := by
  unfold batch at h
  split at h
  · next s hs => exact ⟨s, h⟩
  · cases h

end VenuePrint

/-- A number of an asset context is refused. -/
def WireEnv.refusedCtxField (declared : Bool) (raw : Option String) : ℕ :=
  (declared && raw.any fun s => (env.decimal s).isNone).toNat

namespace Venue

/-- **The prints of an event**, in the order they are normalized in. A frame whose symbol
cannot be read has none. -/
def prints : (venue : Venue) → venue.Event F → List VenuePrint
  | binance, ev => match ev with
    | .tradeData t => [env.binancePrint t]
    | _ => []
  | bitget, ev => match ev with
    | .trade frame => VenuePrint.batch env .bitget (some frame.instId) fun s =>
      frame.data.map (env.bitgetPrint s)
    | _ => []
  | bitso, ev => match ev with
    | .trades m => VenuePrint.batch env .bitso (some m.book) fun s =>
      m.payload.map (env.bitsoPrint s)
    | _ => []
  | bybit, ev => match ev with
    | .tradeData trades => trades.map env.bybitPrint
    | _ => []
  | coinbase, ev => match ev with
    | .tradeData trades => trades.reverse.map env.coinbasePrint
    | _ => []
  | gateio, ev => match ev with
    | .tradeData t => [env.gateioPrint t]
    | _ => []
  | htx, ev => match ev with
    | .trade ch data => VenuePrint.batch env .htx (WireEnv.symbolFromChannel ch) fun s =>
      data.reverse.map (env.htxPrint s)
    | _ => []
  | hyperliquid, ev => match ev with
    | .trades trades => trades.map env.hyperliquidPrint
    | _ => []
  | kraken, ev => match ev with
    | .tradeData trades => trades.map env.krakenPrint
    | _ => []
  | kucoin, ev => match ev with
    | .matched m => [env.kucoinPrint m]
    | _ => []
  | okx, ev => match ev with
    | .tradeData trades => trades.map env.okxPrint
    | _ => []
  | poloniex, ev => match ev with
    | .trades data => data.map env.poloniexPrint
    | _ => []
  | upbit, ev => match ev with
    | .trade t => [env.upbitPrint t]
    | _ => []

/-- What of an event is dropped besides prints: a batch whose symbol cannot be read, and
at Hyperliquid a book without two sides and what an asset context says. -/
def refused (declared : List DeclaredDatatype) : (venue : Venue) → venue.Event F → ℕ
  | bitget, ev => match ev with
    | .trade frame => VenuePrint.refusedBatch env .bitget (some frame.instId)
    | _ => 0
  | bitso, ev => match ev with
    | .trades m => VenuePrint.refusedBatch env .bitso (some m.book)
    | _ => 0
  | htx, ev => match ev with
    | .trade ch _ => VenuePrint.refusedBatch env .htx (WireEnv.symbolFromChannel ch)
    | _ => 0
  | hyperliquid, ev => match ev with
    | .book book => if (WireEnv.hyperliquidDelta book).isSome then 0 else 1
    | .trades _ => 0
    | .assetCtx msg =>
      if (hyperliquid.codec.decode env.unicode msg.coin).isSome then
        env.refusedCtxField (.fundingRates ∈ declared) msg.funding
          + env.refusedCtxField (.openInterest ∈ declared) msg.openInterest
      else 1
  | _, _ => 0

/-- Venues whose numbers count losses. Those of the others are not dense, or not numbers
of prints. -/
def armed : Venue → Bool
  | bitget | bitso | hyperliquid | kucoin => false
  | _ => true

end Venue

/-! ## What is made of the prints -/

namespace Normalized

/-- The trade of a piece. -/
def trade? : Normalized → Option (Trade × Option ℕ)
  | emitted (.trade t sequence) => some (t, sequence)
  | _ => none

/-- The trades, in their order. -/
def trades (out : List Normalized) : List (Trade × Option ℕ) := out.filterMap trade?

end Normalized

/-- **An account of prints**: the readable ones are emitted in their order, the others
dropped one by one. -/
structure Accounts (venue : Venue) (out : List Normalized) (prints : List VenuePrint)
    (refused : ℕ) : Prop where
  trades : Normalized.trades out = prints.filterMap (VenuePrint.read env venue)
  dropped : Normalized.droppedFrames out
    = prints.countP (fun p => !p.readable env venue) + refused

namespace Accounts

variable {env} {venue : Venue} {out out' : List Normalized} {prints prints' : List VenuePrint}
  {refused refused' : ℕ}

theorem nil : Accounts env venue [] [] 0 := ⟨rfl, rfl⟩

theorem append (h : Accounts env venue out prints refused)
    (h' : Accounts env venue out' prints' refused') :
    Accounts env venue (out ++ out') (prints ++ prints') (refused + refused') where
  trades := by
    rw [List.filterMap_append, ← h.trades, ← h'.trades]
    exact List.filterMap_append
  dropped := by
    rw [Normalized.droppedFrames_append, List.countP_append, h.dropped, h'.dropped]
    omega

/-- Prints alone. -/
theorem of_prints (prints : List VenuePrint) :
    Accounts env venue (prints.map (VenuePrint.normalize env venue)) prints 0 := by
  induction prints with
  | nil => exact nil
  | cons p prints ih =>
    have hp : Accounts env venue [p.normalize env venue] [p] 0 := by
      cases h : p.trade env venue with
      | none =>
        have hnormalize : p.normalize env venue = .droppedFrame := by
          unfold VenuePrint.normalize
          rw [h]
        obtain ⟨hread, hreadable⟩ := VenuePrint.read_of_trade_eq_none h
        rw [hnormalize]
        constructor
        · simp [Normalized.trades, Normalized.trade?, hread]
        · simp [Normalized.droppedFrames, hreadable]
      | some t =>
        have hnormalize : p.normalize env venue = .emitted (.trade t p.sequence) := by
          unfold VenuePrint.normalize
          rw [h]
        obtain ⟨hread, hreadable⟩ := VenuePrint.read_of_trade_eq_some h
        rw [hnormalize]
        constructor
        · simp [Normalized.trades, Normalized.trade?, hread]
        · simp [Normalized.droppedFrames, hreadable]
    exact append hp ih

/-- Prints that are made one by one. -/
theorem of_map {α : Type} (print : α → VenuePrint) (xs : List α) :
    Accounts env venue (xs.map fun x => (print x).normalize env venue) (xs.map print) 0 := by
  have h : Accounts env venue _ (xs.map print) 0 := of_prints (xs.map print)
  rw [List.map_map] at h
  exact h

theorem of_batch (symbol : Option String) (prints : String → List VenuePrint) :
    Accounts env venue (VenuePrint.normalizeBatch env venue symbol prints)
      (VenuePrint.batch env venue symbol prints) (VenuePrint.refusedBatch env venue symbol) := by
  unfold VenuePrint.normalizeBatch VenuePrint.batch VenuePrint.refusedBatch
  generalize symbol.bind _ = read
  cases read with
  | none => exact ⟨rfl, rfl⟩
  | some s => exact of_prints _

/-- Events that are no trades. -/
theorem of_events {evs : List DomainEvent}
    (h : ∀ ev ∈ evs, ∀ t sequence, ev ≠ .trade t sequence) :
    Accounts env venue (evs.map .emitted) [] 0 := by
  induction evs with
  | nil => exact nil
  | cons ev evs ih =>
    have hev : Accounts env venue [.emitted ev] [] 0 := by
      refine ⟨?_, rfl⟩
      cases ev with
      | trade t sequence => exact absurd rfl (h _ List.mem_cons_self t sequence)
      | _ => rfl
    exact append hev (ih fun ev' hev' => h ev' (List.mem_cons_of_mem _ hev'))

/-- Books. -/
theorem of_books {α : Type} (delta : α → NormalizedDelta) (xs : List α) :
    Accounts env venue (xs.map fun x => .emitted (.book (delta x))) [] 0 := by
  have h : Accounts env venue ((xs.map fun x => .book (delta x)).map .emitted) [] 0 := by
    refine of_events fun ev hev t sequence heq => ?_
    obtain ⟨x, -, rfl⟩ := List.mem_map.mp hev
    cases heq
  rw [List.map_map] at h
  exact h

/-- A book, if there is one. -/
theorem of_book {α : Type} (delta : α → NormalizedDelta) (x : Option α) :
    Accounts env venue (x.map fun x => .emitted (.book (delta x))).toList [] 0 := by
  cases x with
  | none => exact nil
  | some x => exact of_books delta [x]

/-- A connection gap, if there is one. -/
theorem of_gap (dropped : Option ℕ) :
    Accounts env venue (dropped.map (.emitted ∘ .connectionGap)).toList [] 0 := by
  cases dropped with
  | none => exact nil
  | some n => exact ⟨rfl, rfl⟩

end Accounts

namespace Venue

variable {env} {declared : List DeclaredDatatype}

theorem accounts_track (venue : Venue) (tracker : Option SeqTracker) (clock : WireEnv.Clock)
    (seq : ℕ) (hbCounter : Option ℕ) :
    Accounts env venue (WireEnv.track tracker clock seq hbCounter).2 [] 0 := by
  cases tracker with
  | none => exact .nil
  | some t => exact .of_gap _

/-- What one number of an asset context comes to. -/
theorem accounts_ctxField (isDeclared : Bool) (raw : Option String)
    {emit : Decimal → DomainEvent} (h : ∀ d t sequence, emit d ≠ .trade t sequence) :
    Accounts env hyperliquid (env.normalizeCtxField isDeclared raw emit) []
      (env.refusedCtxField isDeclared raw) := by
  cases isDeclared with
  | false => exact .nil
  | true =>
    cases raw with
    | none => exact .nil
    | some raw =>
      cases hraw : env.decimal raw with
      | none =>
        have hnormalize : env.normalizeCtxField true (some raw) emit = [.droppedFrame] := by
          unfold WireEnv.normalizeCtxField
          dsimp only
          rw [hraw]
        have hrefused : env.refusedCtxField true (some raw) = 1 := by
          unfold WireEnv.refusedCtxField
          rw [Option.any_some, hraw]
          rfl
        rw [hnormalize, hrefused]
        exact ⟨rfl, rfl⟩
      | some d =>
        have hnormalize : env.normalizeCtxField true (some raw) emit = [.emitted (emit d)] := by
          unfold WireEnv.normalizeCtxField
          dsimp only
          rw [hraw]
        have hrefused : env.refusedCtxField true (some raw) = 0 := by
          unfold WireEnv.refusedCtxField
          rw [Option.any_some, hraw]
          rfl
        rw [hnormalize, hrefused]
        show Accounts env hyperliquid ([emit d].map .emitted) [] 0
        exact .of_events fun ev hev t sequence heq =>
          h d t sequence (List.mem_singleton.mp hev ▸ heq)

section venues

variable (env)

theorem accounts_binance (ev : BinanceEvent) :
    Accounts env binance (env.normalizeBinance ev) (binance.prints env ev) 0 := by
  cases ev with
  | depthUpdate upd => exact .of_books WireEnv.binanceDelta [upd]
  | depthSnapshot snap => exact .nil
  | tradeData t => exact .of_prints [env.binancePrint t]

theorem accounts_bitget (ev : BitgetWssEvent) :
    Accounts env bitget (env.normalizeBitget ev) (bitget.prints env ev)
      (bitget.refused env declared ev) := by
  cases ev with
  | book frame =>
    exact .of_books (WireEnv.bitgetDelta frame.instId (frame.action = "snapshot")) frame.data
  | trade frame => exact .of_batch _ _

theorem accounts_bitso (lastSeq : HashMap String ℕ) (ev : BitsoWssEvent) :
    Accounts env bitso (env.normalizeBitso lastSeq ev).2 (bitso.prints env ev)
      (bitso.refused env declared ev) := by
  cases ev with
  | diffOrders m => exact (Accounts.of_gap _).append (.of_books WireEnv.bitsoDelta [m])
  | trades m => exact .of_batch _ _

theorem accounts_bybit (ev : BybitWssEvent) :
    Accounts env bybit (env.normalizeBybit ev) (bybit.prints env ev) 0 := by
  cases ev with
  | tradeData trades => exact .of_map env.bybitPrint trades
  | liquidationData => exact .nil
  | orderbookData resp => exact .of_books (fun d => d) (LegacyConfig.normalizeBybit resp)
  | tickerData => exact .nil

theorem accounts_coinbase (tracker : Option SeqTracker) (clock : WireEnv.Clock)
    (ev : CoinbaseWssEvent) :
    Accounts env coinbase (env.normalizeCoinbase tracker clock ev).2 (coinbase.prints env ev)
      0 := by
  cases ev with
  | orderbookData resp =>
    exact (accounts_track _ _ _ _ _).append (.of_books
      (WireEnv.coinbaseDelta resp.sequenceNum (env.timestampUs resp.timestamp)) resp.events)
  | tradeData trades => exact .of_map env.coinbasePrint trades.reverse
  | heartbeat sequenceNum heartbeatCounter => exact accounts_track _ _ _ _ _
  | control sequenceNum => exact accounts_track _ _ _ _ _

theorem accounts_gateio (ev : GateioWssEvent) :
    Accounts env gateio (env.normalizeGateio ev) (gateio.prints env ev) 0 := by
  cases ev with
  | orderbookData result => exact .of_books WireEnv.gateioDelta [result]
  | tradeData t => exact .of_prints [env.gateioPrint t]

theorem accounts_htx (ev : HtxWssEvent F) :
    Accounts env htx (env.normalizeHtx ev) (htx.prints env ev)
      (htx.refused env declared ev) := by
  cases ev with
  | mbpUpdate ch ts tick =>
    exact .of_book (fun s => env.htxDelta s tick ts false) (WireEnv.symbolFromChannel ch)
  | mbpSnapshot rep ts data =>
    exact .of_book (fun s => env.htxDelta s data ts true) (WireEnv.symbolFromChannel rep)
  | trade ch data => exact .of_batch _ _

theorem accounts_hyperliquid (ev : HyperliquidWssEvent) :
    Accounts env hyperliquid (env.normalizeHyperliquid declared ev) (hyperliquid.prints env ev)
      (hyperliquid.refused env declared ev) := by
  cases ev with
  | book book =>
    unfold WireEnv.normalizeHyperliquid refused
    dsimp only
    cases WireEnv.hyperliquidDelta book with
    | none => exact ⟨rfl, rfl⟩
    | some d => exact .of_books (fun d => d) [d]
  | trades trades => exact .of_map env.hyperliquidPrint trades
  | assetCtx msg =>
    unfold WireEnv.normalizeHyperliquid WireEnv.normalizeAssetCtx refused
    dsimp only
    cases hyperliquid.codec.decode env.unicode msg.coin with
    | none => exact ⟨rfl, rfl⟩
    | some pair =>
      exact (accounts_ctxField _ _ fun d t sequence heq => by cases heq).append
        (accounts_ctxField _ _ fun d t sequence heq => by cases heq)

theorem accounts_kraken (ev : KrakenWssEvent F) :
    Accounts env kraken (env.normalizeKraken ev) (kraken.prints env ev) 0 := by
  cases ev with
  | orderbookData resp => exact .of_book (fun d => d) (env.krakenDelta resp)
  | tradeData trades => exact .of_map env.krakenPrint trades

theorem accounts_kucoin (ev : KucoinWssEvent) :
    Accounts env kucoin (env.normalizeKucoin ev) (kucoin.prints env ev) 0 := by
  cases ev with
  | level2 d => exact .of_books WireEnv.kucoinDelta [d]
  | matched m => exact .of_prints [env.kucoinPrint m]

theorem accounts_okx (ev : OkxWssEvent) :
    Accounts env okx (env.normalizeOkx ev) (okx.prints env ev) 0 := by
  cases ev with
  | orderbookData resp =>
    exact .of_books (WireEnv.okxDelta resp.instId resp.isSnapshot) resp.data
  | tradeData trades => exact .of_map env.okxPrint trades

theorem accounts_poloniex (ev : PoloniexWssEvent) :
    Accounts env poloniex (env.normalizePoloniex ev) (poloniex.prints env ev) 0 := by
  cases ev with
  | book frame =>
    exact .of_books (WireEnv.poloniexDelta (frame.action = "snapshot")) frame.data
  | trades data => exact .of_map env.poloniexPrint data

theorem accounts_upbit (ev : UpbitWssEvent F) :
    Accounts env upbit (env.normalizeUpbit ev) (upbit.prints env ev) 0 := by
  cases ev with
  | orderbook ob => exact .of_books env.upbitDelta [ob]
  | trade t => exact .of_prints [env.upbitPrint t]

end venues

/-- **What an event comes to.** -/
theorem accounts_normalize (venue : Venue) (kept : venue.Kept) (d : Decoded F venue) :
    Accounts env venue (venue.normalize env declared kept d).2 (venue.prints env d.event)
      (venue.refused env declared d.event) := by
  cases venue with
  | binance => exact accounts_binance env d.event
  | bitget => exact accounts_bitget env d.event
  | bitso => exact accounts_bitso env kept d.event
  | bybit => exact accounts_bybit env d.event
  | coinbase => exact accounts_coinbase env kept d.clock d.event
  | gateio => exact accounts_gateio env d.event
  | htx => exact accounts_htx env d.event
  | hyperliquid => exact accounts_hyperliquid env d.event
  | kraken => exact accounts_kraken env d.event
  | kucoin => exact accounts_kucoin env d.event
  | okx => exact accounts_okx env d.event
  | poloniex => exact accounts_poloniex env d.event
  | upbit => exact accounts_upbit env d.event

/-- The prints of a socket. -/
def printsOf (env : WireEnv F) {venue : Venue} (ds : List (Decoded F venue)) : List VenuePrint :=
  ds.flatMap fun d => venue.prints env d.event

/-- **What a socket comes to.** -/
theorem accounts_run (venue : Venue) (kept : venue.Kept) (ds : List (Decoded F venue)) :
    Accounts env venue ((venue.normalizer env declared).run kept ds).2 (printsOf env ds)
      (ds.map fun d => venue.refused env declared d.event).sum := by
  induction ds generalizing kept with
  | nil => exact .nil
  | cons d ds ih => exact (accounts_normalize venue kept d).append (ih _)

end Venue

/-! ## The log of a pair -/

/-- The numbers missing between those of an increasing list. -/
def missing (ns : List ℕ) : Finset ℕ :=
  (Finset.range (ns.getLast?.getD 0)).filter fun m => m ∉ ns ∧ ∃ n ∈ ns, n < m

theorem card_missing_concat {ns : List ℕ} {n : ℕ} (h : (ns ++ [n]).Pairwise (· < ·)) :
    (missing (ns ++ [n])).card
      = (missing ns).card + ns.getLast?.elim 0 (fun last => n - last - 1) := by
  obtain ⟨hns, -, hlt⟩ := List.pairwise_append.mp h
  have hlt : ∀ m ∈ ns, m < n := fun m hm => hlt m hm n List.mem_cons_self
  cases hlast : ns.getLast? with
  | none =>
    rw [List.getLast?_eq_none_iff.mp hlast]
    refine Finset.card_eq_zero.mpr (Finset.filter_eq_empty_iff.mpr fun m hm hmissing => ?_)
    obtain ⟨k, hk, hkm⟩ := hmissing.2
    obtain rfl := List.mem_singleton.mp hk
    exact Nat.lt_asymm hkm (Finset.mem_range.mp hm)
  | some last =>
    have hle : ∀ m ∈ ns, m ≤ last := fun m hm =>
      LinkedRuntime.le_of_mem_of_getLast? hns hlast hm
    have hmem : last ∈ ns := List.mem_of_getLast? hlast
    -- what was missing before, and what the last number jumps over
    have hunion : missing (ns ++ [n]) = missing ns ∪ Finset.Ioo last n := by
      ext m
      unfold missing
      rw [List.getLast?_concat, hlast]
      simp only [Option.getD_some, Finset.mem_filter, Finset.mem_range, Finset.mem_union,
        Finset.mem_Ioo, List.mem_append, List.mem_singleton]
      constructor
      · rintro ⟨hmn, hnot, k, hk, hkm⟩
        rcases Nat.lt_trichotomy m last with hm | rfl | hm
        · refine .inl ⟨hm, fun hin => hnot (.inl hin), k, ?_, hkm⟩
          rcases hk with hk | rfl
          · exact hk
          · omega
        · exact absurd (.inl hmem) hnot
        · exact .inr ⟨hm, hmn⟩
      · rintro (⟨hm, hnot, k, hk, hkm⟩ | ⟨hm, hmn⟩)
        · have hmn := hm.trans (hlt last hmem)
          refine ⟨hmn, ?_, k, .inl hk, hkm⟩
          rintro (hin | rfl)
          · exact hnot hin
          · exact absurd hmn (Nat.lt_irrefl _)
        · refine ⟨hmn, ?_, last, .inl hmem, hm⟩
          rintro (hin | rfl)
          · exact absurd (hle m hin) (Nat.not_le.mpr hm)
          · exact absurd hmn (Nat.lt_irrefl _)
    have hdisjoint : Disjoint (missing ns) (Finset.Ioo last n) := by
      refine Finset.disjoint_left.mpr fun m hm hm' => ?_
      have hbelow := Finset.mem_range.mp (Finset.mem_filter.mp hm).1
      rw [hlast, Option.getD_some] at hbelow
      exact Nat.lt_asymm hbelow (Finset.mem_Ioo.mp hm').1
    rw [hunion, Finset.card_union_of_disjoint hdisjoint, Nat.card_Ioo]
    rfl

namespace SourcedTradebook

/-- The log after prints with these sequences. -/
def log (tb : SourcedTradebook) (sequences : List (Option ℕ)) : SourcedTradebook :=
  sequences.foldl (fun tb sequence => (tb.apply sequence).1) tb

/-- Prints without numbers are counted, and no more. -/
theorem log_of_forall_none (tb : SourcedTradebook) {sequences : List (Option ℕ)}
    (h : ∀ sequence ∈ sequences, sequence = none) :
    (tb.log sequences).count = tb.count + sequences.length ∧
      (tb.log sequences).tradesLost = tb.tradesLost := by
  induction sequences generalizing tb with
  | nil => exact ⟨rfl, rfl⟩
  | cons sequence sequences ih =>
    obtain rfl := h _ List.mem_cons_self
    obtain ⟨hcount, hlost⟩ := ih (tb.apply none).1 fun x hx => h x (List.mem_cons_of_mem _ hx)
    refine ⟨?_, hlost⟩
    show ((tb.apply none).1.log sequences).count = _
    rw [hcount, List.length_cons]
    show tb.count + 1 + sequences.length = _
    omega

/-- **A log has taken numbers past its position.** -/
structure Logged (tb tb' : SourcedTradebook) (ns : List ℕ) : Prop where
  count : tb'.count = tb.count + ns.length
  lastSeq : tb'.lastSeq = (tb.lastSeq.toList ++ ns).getLast?
  tradesLost : tb'.tradesLost = tb.tradesLost + (missing (tb.lastSeq.toList ++ ns)).card

theorem logged {tb : SourcedTradebook} {ns : List ℕ}
    (h : (tb.lastSeq.toList ++ ns).Pairwise (· < ·)) :
    Logged tb (tb.log (ns.map some)) ns := by
  induction ns using List.reverseRecOn with
  | nil =>
    refine ⟨rfl, ?_, ?_⟩
    · cases hlast : tb.lastSeq with
      | none => exact hlast
      | some last => exact hlast
    · cases tb.lastSeq with
      | none => rfl
      | some last =>
        have hnone : missing ([last] ++ []) = ∅ := by
          refine Finset.filter_eq_empty_iff.mpr fun m hm hmissing => ?_
          obtain ⟨k, hk, hkm⟩ := hmissing.2
          obtain rfl := List.mem_singleton.mp hk
          exact Nat.lt_asymm hkm (Finset.mem_range.mp hm)
        show tb.tradesLost = tb.tradesLost + (missing ([last] ++ [])).card
        rw [hnone]
        rfl
  | append_singleton ns n ih =>
    rw [← List.append_assoc] at h
    obtain ⟨hcount, hlastSeq, hlost⟩ := ih (List.pairwise_append.mp h).1
    have hstep : tb.log ((ns ++ [n]).map some) = ((tb.log (ns.map some)).apply (some n)).1 := by
      unfold log
      rw [List.map_append, List.foldl_append]
      rfl
    have hpast : ∀ last ∈ (tb.log (ns.map some)).lastSeq, last < n := by
      intro last hlast
      rw [hlastSeq] at hlast
      exact (List.pairwise_append.mp h).2.2 last (List.mem_of_getLast? hlast) n
        List.mem_cons_self
    obtain ⟨-, hlast, hcount', hlost'⟩ := apply_of_lt hpast
    rw [hstep]
    refine ⟨?_, ?_, ?_⟩
    · rw [hcount', hcount, List.length_append]
      rfl
    · rw [hlast, ← List.append_assoc, List.getLast?_concat]
    · rw [hlost', hlost, hlastSeq, ← List.append_assoc, card_missing_concat h, Nat.add_assoc]

end SourcedTradebook

/-! ## The runtime -/

/-- The event of an input. -/
def Input.event? (input : Input) : Option DomainEvent :=
  match input.body with
  | .event ev => some ev
  | _ => none

/-- The sequence of a trade of a pair. -/
def DomainEvent.sequenceFor (pair : TradingPair) : DomainEvent → Option (Option ℕ)
  | .trade t sequence => if t.pair = pair then some sequence else none
  | _ => none

namespace SourceRuntime

variable {cfg : RuntimeConfig} {pair : TradingPair}

/-- The run is not over. -/
structure Alive (s : SourceRuntime) : Prop where
  outcome : s.outcome = none
  eventsDone : s.eventsDone = false

theorem eventsDone_onPair (s : SourceRuntime) (p : TradingPair) (handle : PairBook → Handled) :
    (s.onPair p handle).1.eventsDone = s.eventsDone := by
  unfold onPair
  split <;> rfl

/-- Events that have ended stay ended. -/
theorem eventsDone_handle (nowUs : ℕ) {s : SourceRuntime} (h : s.eventsDone = true)
    (body : InputBody) : (s.handle cfg nowUs body).1.eventsDone = true := by
  cases body with
  | event ev =>
    simp only [handle]
    rw [if_pos h]
    exact h
  | eventsClosed => rfl
  | fetched p result =>
    simp only [handle]
    split
    · exact (eventsDone_onPair _ _ _).trans h
    · exact h
  | seedDeadline =>
    simp only [handle]
    split <;> exact h
  | shutdown => exact h

theorem eventsDone_settle (s : SourceRuntime) : s.settle.eventsDone = s.eventsDone := by
  unfold settle
  split <;> rfl

/-- A run that is not over was not over before. -/
theorem Alive.of_step {s : SourceRuntime} {input : Input} (h : (s.step cfg input).1.Alive) :
    s.Alive := by
  have hs : s.outcome = none := by
    by_contra hne
    have hsome := Option.isSome_iff_ne_none.mpr hne
    have hover := h.outcome
    rw [show s.step cfg input = (s, []) from if_pos hsome] at hover
    exact hne hover
  refine ⟨hs, ?_⟩
  by_contra hdone
  have hdone : s.eventsDone = true := Bool.not_eq_false _ ▸ hdone
  have hstep : (s.step cfg input).1.eventsDone
      = (s.handle cfg input.nowUs input.body).1.eventsDone := by
    unfold step
    rw [if_neg (by rw [hs]; simp)]
    dsimp only
    split
    · exact eventsDone_settle _
    · split
      · exact eventsDone_settle _
      · exact eventsDone_settle (s.handle cfg input.nowUs input.body).1
  have hfalse := h.eventsDone
  rw [hstep, eventsDone_handle input.nowUs hdone] at hfalse
  cases hfalse

theorem Alive.of_run {s : SourceRuntime} {inputs : List Input}
    (h : ((machine cfg).run s inputs).1.Alive) : s.Alive := by
  induction inputs generalizing s with
  | nil => exact h
  | cons input inputs ih => exact .of_step (ih h)

/-- **The log of a pair has taken the pair's trades**, all of them as long as the run is not
over. -/
theorem tradesOf_run (htrades : .trades ∈ cfg.declared) {s : SourceRuntime} {inputs : List Input}
    (h : ((machine cfg).run s inputs).1.Alive) :
    ((machine cfg).run s inputs).1.tradesOf pair
      = (s.tradesOf pair).map
        (·.log ((inputs.filterMap Input.event?).filterMap (DomainEvent.sequenceFor pair))) := by
  induction inputs generalizing s with
  | nil =>
    show s.tradesOf pair = (s.tradesOf pair).map fun tb => tb
    rw [Option.map_id']
  | cons input inputs ih =>
    refine (ih h).trans ?_
    show ((s.step cfg input).1.tradesOf pair).map _ = _
    have hs : s.Alive := .of_step (.of_run h)
    rw [List.filterMap_cons]
    cases hprint : s.printOf cfg pair input with
    | some print =>
      obtain ⟨t, sequence⟩ := print
      obtain ⟨hbody, -, -, -, hpair, -⟩ := of_printOf hprint
      have hevent : input.event? = some (.trade t sequence) := by
        unfold Input.event?
        rw [hbody]
      have hsequence : (DomainEvent.trade t sequence).sequenceFor pair = some sequence :=
        if_pos hpair
      rw [tradesOf_step_of_some hprint, hevent, Option.map_map]
      dsimp only
      rw [List.filterMap_cons, hsequence]
      rfl
    | none =>
      rw [tradesOf_step_of_none hprint]
      cases hbook : s.books.get? pair with
      | none =>
        -- the pair is not tracked
        unfold tradesOf
        rw [hbook]
        rfl
      | some b =>
        -- the input is no trade of the pair
        have hnone : ∀ ev ∈ input.event?, ev.sequenceFor pair = none := by
          intro ev hev
          unfold Input.event? at hev
          split at hev
          · next ev' hbody =>
            obtain rfl := Option.some.inj hev
            cases ev' with
            | trade t sequence =>
              refine if_neg fun hpair => ?_
              unfold printOf at hprint
              rw [hbody] at hprint
              exact Option.some_ne_none _ ((if_pos ⟨hs.outcome, hs.eventsDone, htrades, hpair,
                by rw [hbook]; rfl⟩).symm.trans hprint)
            | _ => rfl
          · cases hev
        cases hevent : input.event? with
        | none => rfl
        | some ev =>
          dsimp only
          rw [List.filterMap_cons, hnone ev hevent]

end SourceRuntime

/-! ## From the wire to the log -/

namespace VenuePrint

variable (venue : Venue) (pair : TradingPair)

/-- A print of a pair. -/
def isOf (p : VenuePrint) : Bool := p.pair env venue = some pair

/-- The numbers of prints. -/
def numbers (ps : List VenuePrint) : List ℕ := ps.filterMap sequence

/-- Prints that all have a number. -/
theorem map_some_numbers {ps : List VenuePrint} (h : ∀ p ∈ ps, p.sequence.isSome) :
    (numbers ps).map some = ps.map sequence := by
  induction ps with
  | nil => rfl
  | cons p ps ih =>
    obtain ⟨n, hn⟩ := Option.isSome_iff_exists.mp (h p List.mem_cons_self)
    unfold numbers
    rw [List.filterMap_cons_some hn, List.map_cons, List.map_cons, hn]
    exact congrArg _ (ih fun p' hp' => h p' (List.mem_cons_of_mem _ hp'))

theorem length_numbers {ps : List VenuePrint} (h : ∀ p ∈ ps, p.sequence.isSome) :
    (numbers ps).length = ps.length := by
  have := congrArg List.length (map_some_numbers h)
  rwa [List.length_map, List.length_map] at this

theorem numbers_sublist {ps ps' : List VenuePrint} (h : ps.Sublist ps') :
    (numbers ps).Sublist (numbers ps') := h.filterMap _

theorem mem_numbers {ps : List VenuePrint} {n : ℕ} :
    n ∈ numbers ps ↔ ∃ p ∈ ps, p.sequence = some n := List.mem_filterMap

variable {env venue pair}

/-- The trade of a print has its pair. -/
theorem pair_of_trade {p : VenuePrint} {t : Trade} (h : p.trade env venue = some t) :
    p.pair env venue = some t.pair := by
  unfold trade at h
  obtain ⟨pair, hpair, h⟩ := Option.bind_eq_some_iff.mp h
  obtain ⟨amount, -, h⟩ := Option.bind_eq_some_iff.mp h
  obtain ⟨price, -, h⟩ := Option.bind_eq_some_iff.mp h
  obtain ⟨side, -, h⟩ := Option.bind_eq_some_iff.mp h
  cases h
  exact hpair

/-- What the trades of prints say of a pair. -/
theorem sequences_read (ps : List VenuePrint) :
    (ps.filterMap (read env venue)).filterMap
        (fun x => if x.1.pair = pair then some x.2 else none)
      = ((ps.filter (isOf env venue pair)).filter (readable env venue)).map sequence := by
  induction ps with
  | nil => rfl
  | cons p ps ih =>
    cases htrade : p.trade env venue with
    | none =>
      obtain ⟨hread, hreadable⟩ := read_of_trade_eq_none htrade
      rw [List.filterMap_cons_none hread, ih, List.filter_cons]
      split
      · rw [List.filter_cons_of_neg (by rw [hreadable]; exact Bool.false_ne_true)]
      · rfl
    | some t =>
      obtain ⟨hread, hreadable⟩ := read_of_trade_eq_some htrade
      have hisOf : p.isOf env venue pair = decide (t.pair = pair) := by
        unfold isOf
        rw [pair_of_trade htrade]
        exact decide_eq_decide.mpr Option.some_inj
      rw [List.filterMap_cons_some hread, List.filterMap_cons, ih, List.filter_cons, hisOf]
      by_cases hpair : t.pair = pair
      · rw [if_pos hpair, if_pos (decide_eq_true hpair), List.filter_cons_of_pos hreadable]
        rfl
      · rw [if_neg hpair, if_neg (by rw [decide_eq_false hpair]; exact Bool.false_ne_true)]

end VenuePrint

/-- The sequences of a pair are those of its trades. -/
theorem Normalized.sequences_events (out : List Normalized) (pair : TradingPair) :
    (events out).filterMap (DomainEvent.sequenceFor pair)
      = (trades out).filterMap fun x => if x.1.pair = pair then some x.2 else none := by
  unfold events trades
  rw [List.filterMap_filterMap, List.filterMap_filterMap]
  refine List.filterMap_congr fun piece _ => ?_
  cases piece with
  | droppedFrame => rfl
  | emitted ev =>
    cases ev with
    | trade t sequence => rfl
    | _ => rfl

/-- **The numbers of a pair that are missing in its log** are on the wire in prints that
cannot be read, or they are not on the wire. -/
theorem VenuePrint.card_missing {env : WireEnv F} {venue : Venue} {ps : List VenuePrint}
    (ns : List ℕ) (hnumbered : ∀ p ∈ ps, p.sequence.isSome) (hnodup : (numbers ps).Nodup) :
    (missing (ns ++ numbers (ps.filter (readable env venue)))).card
      = ((missing (ns ++ numbers (ps.filter (readable env venue)))).filter
          (· ∉ numbers ps)).card
        + ps.countP fun p => !p.readable env venue &&
          p.sequence.any (· ∈ missing (ns ++ numbers (ps.filter (readable env venue)))) := by
  generalize htaken : ns ++ numbers (ps.filter (readable env venue)) = taken
  -- the unreadable prints inside, by their numbers
  have hunread : (missing taken).filter (· ∈ numbers ps)
      = (numbers (ps.filter fun p => !p.readable env venue &&
          p.sequence.any (· ∈ missing taken))).toFinset := by
    ext m
    rw [Finset.mem_filter, List.mem_toFinset, mem_numbers, mem_numbers]
    constructor
    · rintro ⟨hm, p, hp, hpm⟩
      have hread : p.readable env venue = false := by
        refine Bool.eq_false_iff.mpr fun hread => ?_
        have hin : m ∈ taken := htaken ▸ List.mem_append_right _
          (mem_numbers.mpr ⟨p, List.mem_filter.mpr ⟨hp, hread⟩, hpm⟩)
        exact (Finset.mem_filter.mp hm).2.1 hin
      refine ⟨p, List.mem_filter.mpr ⟨hp, ?_⟩, hpm⟩
      rw [hread, hpm]
      exact decide_eq_true hm
    · rintro ⟨p, hp, hpm⟩
      obtain ⟨hp, hin⟩ := List.mem_filter.mp hp
      rw [hpm] at hin
      exact ⟨of_decide_eq_true (Bool.and_eq_true_iff.mp hin).2, p, hp, hpm⟩
  have hcard : ((missing taken).filter (· ∈ numbers ps)).card
      = ps.countP fun p => !p.readable env venue && p.sequence.any (· ∈ missing taken) := by
    have hsub : (ps.filter fun p => !p.readable env venue &&
        p.sequence.any (· ∈ missing taken)).Sublist ps := List.filter_sublist
    rw [hunread, List.toFinset_card_of_nodup ((numbers_sublist hsub).nodup hnodup),
      length_numbers (fun p hp => hnumbered p (hsub.subset hp)), List.countP_eq_length_filter]
  rw [← hcard, Nat.add_comm]
  exact (Finset.card_filter_add_card_filter_not _).symm

namespace Venue

/-- The prints of a pair. -/
def printsFor (env : WireEnv F) {venue : Venue} (pair : TradingPair)
    (ds : List (Decoded F venue)) : List VenuePrint :=
  (printsOf env ds).filter (VenuePrint.isOf env venue pair)

/-- The numbers a log has taken, from its position on. -/
def taken (env : WireEnv F) {venue : Venue} (pair : TradingPair) (tb : SourcedTradebook)
    (ds : List (Decoded F venue)) : List ℕ :=
  tb.lastSeq.toList
    ++ VenuePrint.numbers ((printsFor env pair ds).filter (VenuePrint.readable env venue))

variable {env} {declared : List DeclaredDatatype}

/-- **The log of a pair takes the pair's prints that can be read.** -/
theorem tradesOf_of_wire {cfg : RuntimeConfig} {venue : Venue} {kept : venue.Kept}
    {ds : List (Decoded F venue)} {s : SourceRuntime} {inputs : List Input}
    {pair : TradingPair} (htrades : .trades ∈ cfg.declared)
    (hwire : inputs.filterMap Input.event?
      = Normalized.events ((venue.normalizer env declared).run kept ds).2)
    (halive : ((SourceRuntime.machine cfg).run s inputs).1.Alive) :
    ((SourceRuntime.machine cfg).run s inputs).1.tradesOf pair
      = (s.tradesOf pair).map (·.log
        (((printsFor env pair ds).filter (VenuePrint.readable env venue)).map
          VenuePrint.sequence)) := by
  rw [SourceRuntime.tradesOf_run htrades halive, hwire, Normalized.sequences_events,
    (accounts_run venue kept ds).trades, VenuePrint.sequences_read]
  rfl

/-- **From the wire to the log.** The socket counts each print that cannot be read, and
what is refused besides prints. As long as a run is not over, the log of a pair whose prints
have numbers, and these increase, counts as lost the numbers between those it took that were
not on the wire, and the prints between them that could not be read. -/
theorem losses_run (venue : Venue) (kept : venue.Kept) (ds : List (Decoded F venue)) :
    Normalized.droppedFrames ((venue.normalizer env declared).run kept ds).2
        = (printsOf env ds).countP (fun p => !p.readable env venue)
          + (ds.map fun d => venue.refused env declared d.event).sum
      ∧ ∀ (cfg : RuntimeConfig) (s : SourceRuntime) (inputs : List Input) (pair : TradingPair)
        (tb : SourcedTradebook), .trades ∈ cfg.declared →
        inputs.filterMap Input.event?
          = Normalized.events ((venue.normalizer env declared).run kept ds).2 →
        ((SourceRuntime.machine cfg).run s inputs).1.Alive → s.tradesOf pair = some tb →
        (∀ p ∈ printsFor env pair ds, p.sequence.isSome) →
        (tb.lastSeq.toList ++ VenuePrint.numbers (printsFor env pair ds)).Pairwise (· < ·) →
        ∃ tb', ((SourceRuntime.machine cfg).run s inputs).1.tradesOf pair = some tb' ∧
          tb'.count
            = tb.count + (printsFor env pair ds).countP (VenuePrint.readable env venue) ∧
          tb'.tradesLost = tb.tradesLost
            + ((missing (taken env pair tb ds)).filter
                (· ∉ VenuePrint.numbers (printsFor env pair ds))).card
            + (printsFor env pair ds).countP (fun p => !p.readable env venue &&
                p.sequence.any (· ∈ missing (taken env pair tb ds))) := by
  refine ⟨(accounts_run venue kept ds).dropped, ?_⟩
  intro cfg s inputs pair tb htrades hwire halive hlog hnumbered hincreasing
  have hsub : ((printsFor env pair ds).filter (VenuePrint.readable env venue)).Sublist
      (printsFor env pair ds) := List.filter_sublist
  have hnumbers : (VenuePrint.numbers
        ((printsFor env pair ds).filter (VenuePrint.readable env venue))).map some
      = ((printsFor env pair ds).filter (VenuePrint.readable env venue)).map
        VenuePrint.sequence :=
    VenuePrint.map_some_numbers fun p hp => hnumbered p (hsub.subset hp)
  have hpast : (taken env pair tb ds).Pairwise (· < ·) :=
    hincreasing.sublist ((List.Sublist.refl _).append (VenuePrint.numbers_sublist hsub))
  obtain ⟨hcount, -, hlost⟩ := SourcedTradebook.logged hpast
  have hnodup : (VenuePrint.numbers (printsFor env pair ds)).Nodup :=
    (List.pairwise_append.mp hincreasing).2.1.imp fun hlt => Nat.ne_of_lt hlt
  refine ⟨tb.log ((VenuePrint.numbers
    ((printsFor env pair ds).filter (VenuePrint.readable env venue))).map some), ?_, ?_, ?_⟩
  · rw [tradesOf_of_wire htrades hwire halive, hlog, hnumbers]
    rfl
  · rw [hcount, List.countP_eq_length_filter,
      VenuePrint.length_numbers fun p hp => hnumbered p (hsub.subset hp)]
  · rw [hlost, Nat.add_assoc]
    exact congrArg _ (VenuePrint.card_missing _ hnumbered hnodup)

/-- A venue that is not armed numbers no print. -/
theorem sequence_of_armed_eq_false {venue : Venue} (h : venue.armed = false)
    (ev : venue.Event F) : ∀ p ∈ venue.prints env ev, p.sequence = none := by
  intro p hp
  cases venue with
  | bitget =>
    cases ev with
    | book frame => cases hp
    | trade frame =>
      obtain ⟨s, hs⟩ := VenuePrint.mem_batch hp
      obtain ⟨d, -, rfl⟩ := List.mem_map.mp hs
      rfl
  | bitso =>
    cases ev with
    | diffOrders m => cases hp
    | trades m =>
      obtain ⟨s, hs⟩ := VenuePrint.mem_batch hp
      obtain ⟨t, -, rfl⟩ := List.mem_map.mp hs
      rfl
  | hyperliquid =>
    cases ev with
    | trades trades =>
      obtain ⟨t, -, rfl⟩ := List.mem_map.mp hp
      rfl
    | _ => cases hp
  | kucoin =>
    cases ev with
    | level2 d => cases hp
    | matched m =>
      obtain rfl := List.mem_singleton.mp hp
      rfl
  | _ => cases h

/-- **At a venue that is not armed** a log never counts a loss: what was dropped is in the
counter of the socket alone, and what was never sent is in none. -/
theorem uncounted_run {cfg : RuntimeConfig} {venue : Venue} {kept : venue.Kept}
    {ds : List (Decoded F venue)} {s : SourceRuntime} {inputs : List Input}
    {pair : TradingPair} {tb : SourcedTradebook} (hunarmed : venue.armed = false)
    (htrades : .trades ∈ cfg.declared)
    (hwire : inputs.filterMap Input.event?
      = Normalized.events ((venue.normalizer env declared).run kept ds).2)
    (halive : ((SourceRuntime.machine cfg).run s inputs).1.Alive)
    (hlog : s.tradesOf pair = some tb) :
    ∃ tb', ((SourceRuntime.machine cfg).run s inputs).1.tradesOf pair = some tb' ∧
      tb'.count = tb.count + (printsFor env pair ds).countP (VenuePrint.readable env venue) ∧
      tb'.tradesLost = tb.tradesLost := by
  have hnone : ∀ sequence ∈ ((printsFor env pair ds).filter
      (VenuePrint.readable env venue)).map VenuePrint.sequence, sequence = none := by
    intro sequence hsequence
    obtain ⟨p, hp, rfl⟩ := List.mem_map.mp hsequence
    obtain ⟨d, -, hpd⟩ := List.mem_flatMap.mp (List.mem_filter.mp (List.mem_filter.mp hp).1).1
    exact sequence_of_armed_eq_false hunarmed d.event p hpd
  obtain ⟨hcount, hlost⟩ := tb.log_of_forall_none hnone
  refine ⟨tb.log (((printsFor env pair ds).filter (VenuePrint.readable env venue)).map
    VenuePrint.sequence), ?_, ?_, hlost⟩
  · rw [tradesOf_of_wire htrades hwire halive, hlog]
    rfl
  · rw [hcount, List.length_map, List.countP_eq_length_filter]

end Venue

/-- Frames read with the plain crates. -/
def WireEnv.plain : WireEnv ℕ where
  crates := Crates.plain
  unicode := ⟨id, id⟩
  toDecimal n := ⟨n, 0⟩
  display := toString
  floatAsU64 := parseU64
  parseFromRfc3339 _ := none

/-- A clock that stands at zero. -/
def WireEnv.Clock.zero : WireEnv.Clock := ⟨0, ⟨2, Nat.le_refl 2, Nat.le_add_right 2 18⟩⟩

namespace Venue

/-- A print of `BTCUSDT` at Binance. -/
def binancePrinted (tradeId : ℕ) (quantity : String) : Decoded ℕ .binance where
  event := BinanceEvent.tradeData ⟨"BTCUSDT", tradeId, "100", quantity, 0, false⟩
  clock := .zero

/-- Three prints: the second cannot be read, and one between the second and the third is
not on the wire. -/
def oneUnreadable : List (Decoded ℕ .binance) :=
  [binancePrinted 5 "1", binancePrinted 6 "one", binancePrinted 8 "1"]

/-- A runtime that trades are declared for. -/
def tradesVenue : RuntimeConfig := { RuntimeConfig.restVenue with declared := [.trades] }

/-- What the runtime receives of a socket. -/
def received {venue : Venue} (kept : venue.Kept) (ds : List (Decoded ℕ venue)) : List Input :=
  (Normalized.events ((venue.normalizer .plain [.trades]).run kept ds).2).map
    fun ev => ⟨.event ev, 0, none⟩

/-- The log counts two lost, and one of them is the frame that was dropped. -/
theorem losses_run_oneUnreadable :
    Normalized.droppedFrames ((binance.normalizer .plain [.trades]).run () oneUnreadable).2
        = 1 + 0
      ∧ ∃ tb', ((SourceRuntime.machine tradesVenue).run
          (SourceRuntime.start tradesVenue RandomState.table 0 ["BTCUSDT"]).1
          (@received .binance () oneUnreadable)).1.tradesOf ⟨"BTC", "USDT"⟩ = some tb' ∧
        tb'.count = 0 + 2 ∧ tb'.tradesLost = 0 + 1 + 1 := by
  have h := @losses_run ℕ .plain [.trades] .binance () oneUnreadable
  exact ⟨h.1, h.2 tradesVenue (SourceRuntime.start tradesVenue RandomState.table 0 ["BTCUSDT"]).1
    (@received .binance () oneUnreadable) ⟨"BTC", "USDT"⟩ (.new ⟨"BTC", "USDT"⟩) (by decide) rfl
    ⟨by decide, by decide⟩ rfl (by decide) (by decide)⟩

/-- Two matches of `BTC-USDT` at KuCoin, of which the second cannot be read. -/
def kucoinMatches : List (Decoded ℕ .kucoin) :=
  ["1", "one"].map fun size =>
    { event := KucoinWssEvent.matched ⟨"BTC-USDT", "buy", "100", size, "0", "5"⟩
      clock := .zero }

/-- The log has one of the two and counts no loss. -/
theorem uncounted_run_kucoinMatches :
    ∃ tb', ((SourceRuntime.machine tradesVenue).run
        (SourceRuntime.start tradesVenue RandomState.table 0 ["BTCUSDT"]).1
        (@received .kucoin () kucoinMatches)).1.tradesOf ⟨"BTC", "USDT"⟩ = some tb' ∧
      tb'.count = 0 + 1 ∧ tb'.tradesLost = 0 :=
  @uncounted_run ℕ .plain [.trades] tradesVenue .kucoin () kucoinMatches
    (SourceRuntime.start tradesVenue RandomState.table 0 ["BTCUSDT"]).1
    (@received .kucoin () kucoinMatches) ⟨"BTC", "USDT"⟩ (.new ⟨"BTC", "USDT"⟩) rfl (by decide) rfl
    ⟨by decide, by decide⟩ rfl

end Venue
