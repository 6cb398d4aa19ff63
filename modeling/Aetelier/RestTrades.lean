import Aetelier.Rehydrate
import Aetelier.ValidateFile
import Aetelier.WssEvents

/-!
# Trades fetched over REST

Three venues can be asked for the trades behind a position: Binance and Bitso
by the number of the trade, Coinbase by a window of seconds. Each walk asks
for at most five pages, and each row of a page that is behind the position
becomes a trade.

A row is text, and a conversion that fails is not an error: a price or an
amount that is no decimal becomes zero, a time that is none becomes the epoch,
and at Bitso a side that is not `buy` makes the taker a buyer. What is fetched
to repair a hole can thus bring in prints that never happened.
`RestEnv.states_iff` says which rows do.

The pages, the reading of decimals and that of times are parameters. A walk
keeps each trade with the row it is made from.
-/

/-- What the client says when a request fails. -/
inductive HttpError where
  /-- The request, or its status. -/
  | fetch (text : String)
  /-- The body. -/
  | parse (text : String)
deriving DecidableEq, Repr

/-- The text `fetch_after` returns. -/
def HttpError.invalid (venue : String) : HttpError → String
  | fetch text => venue ++ " trades fetch: " ++ text
  | parse text => venue ++ " trades parse: " ++ text

/-- `MAX_PAGES`. -/
def maxPages : ℕ := 5

/-- `as u64` of an `i64`. -/
def asU64 (n : ℤ) : ℕ := (n % 2 ^ 64).toNat

/-- Reading what rows say. -/
structure RestEnv where
  /-- Decimals. -/
  crates : Crates
  /-- `DateTime::parse_from_str` with `%Y-%m-%dT%H:%M:%S%z`, in milliseconds. -/
  parseCreatedAt : String → Option ℤ
  /-- `DateTime::parse_from_rfc3339`, in microseconds. -/
  parseFromRfc3339 : String → Option ℤ

/-- `parse().unwrap_or_default()` of a decimal. -/
def RestEnv.decimal (env : RestEnv) (s : String) : Decimal :=
  match env.crates.fromStr s with
  | .ok d => d
  | .error _ => Decimal.zero

/-- A trade and the row it is made from. -/
structure RecoveredTrade (ρ : Type) where
  row : ρ
  trade : Trade

/-! ## Walks by number -/

/-- The pages of a walk by number: the rows behind the position, until a page
is short. The cursor follows the rows that are kept. -/
def walkByNumber {ρ : Type} (limit : ℕ) (number : ρ → ℕ) (follow : ℕ → ℕ) (pos : TradePos)
    (ask : ℕ → ℕ → Except String (List ρ)) : ℕ → ℕ → ℕ → Except String (List ρ)
  | 0, _, _ => .ok []
  | left + 1, i, cursor => do
    let rows ← ask i cursor
    let kept := rows.filter (fun r => pos.id < number r)
    let cursor' := kept.foldl (fun c r => max c (follow (number r))) cursor
    if rows.length < limit then return kept
    let more ← walkByNumber limit number follow pos ask left (i + 1) cursor'
    return kept ++ more

/-- A row of Binance. -/
structure BinanceTradeRow where
  id : ℕ
  price : String
  qty : String
  time : ℕ
  isBuyerMaker : Bool

/-- A request to Binance. -/
def binanceTradesUrl (wireSymbol : String) (start : ℕ) : String :=
  "https://api.binance.com/api/v3/historicalTrades?symbol=" ++ wireSymbol ++ "&fromId=" ++
    toString start ++ "&limit=1000"

/-- The trade of a row of Binance. -/
def RestEnv.binanceTrade (env : RestEnv) (pair : TradingPair) (r : BinanceTradeRow) : Trade where
  sourceTradeTsUs := epochToUs r.time
  pair := pair
  side := if r.isBuyerMaker then .sell else .buy
  amount := env.decimal r.qty
  price := env.decimal r.price
  exchange := "binance"
  id := toString r.id
  origin := .rest

/-- The body of `BinanceTradesFetch::fetch_after`. -/
def RestEnv.binanceRecovered (env : RestEnv)
    (send : ℕ → String → Except HttpError (List BinanceTradeRow))
    (wireSymbol : String) (pair : TradingPair) (pos : TradePos) :
    Except String (List (RecoveredTrade BinanceTradeRow)) := do
  let rows ← walkByNumber 1000 BinanceTradeRow.id (fun id => (id + 1) % 2 ^ 64) pos
    (fun i start => (send i (binanceTradesUrl wireSymbol start)).mapError
      (HttpError.invalid "binance"))
    maxPages 0 (min (pos.id + 1) (2 ^ 64 - 1))
  return rows.map (fun r => ⟨r, env.binanceTrade pair r⟩)

/-- A row of Bitso. -/
structure BitsoTradeRow where
  tid : ℕ
  price : String
  amount : String
  makerSide : String
  createdAt : String

/-- An answer of Bitso; an absent payload is empty. -/
structure BitsoTradesEnvelope where
  success : Bool
  payload : List BitsoTradeRow

/-- A request to Bitso. -/
def bitsoTradesUrl (wireSymbol : String) (marker : ℕ) : String :=
  "https://api.bitso.com/v3/trades/?book=" ++ wireSymbol ++ "&marker=" ++ toString marker ++
    "&sort=asc&limit=100"

/-- The trade of a row of Bitso. -/
def RestEnv.bitsoTrade (env : RestEnv) (pair : TradingPair) (r : BitsoTradeRow) : Trade where
  sourceTradeTsUs := epochToUs (((env.parseCreatedAt r.createdAt).map asU64).getD 0)
  pair := pair
  side := if r.makerSide = "buy" then .sell else .buy
  amount := env.decimal r.amount
  price := env.decimal r.price
  exchange := "bitso"
  id := toString r.tid
  origin := .rest

/-- The rows of an answer of Bitso. -/
def BitsoTradesEnvelope.rows (env : BitsoTradesEnvelope) : Except String (List BitsoTradeRow) :=
  if env.success then .ok env.payload else .error "bitso trades fetch: success=false"

/-- The body of `BitsoTradesFetch::fetch_after`. -/
def RestEnv.bitsoRecovered (env : RestEnv)
    (send : ℕ → String → Except HttpError BitsoTradesEnvelope)
    (wireSymbol : String) (pair : TradingPair) (pos : TradePos) :
    Except String (List (RecoveredTrade BitsoTradeRow)) := do
  let rows ← walkByNumber 100 BitsoTradeRow.tid (fun tid => tid) pos
    (fun i marker => do
      let answer ← (send i (bitsoTradesUrl wireSymbol marker)).mapError (HttpError.invalid "bitso")
      answer.rows)
    maxPages 0 pos.id
  return rows.map (fun r => ⟨r, env.bitsoTrade pair r⟩)

/-! ## The walk by time -/

/-- A row of Coinbase. -/
structure CoinbaseTradeRow where
  tradeId : String
  price : String
  size : String
  time : String
  side : String

/-- A request to Coinbase, for a window in seconds. -/
structure CoinbaseTickerQuery where
  wireSymbol : String
  startSec : ℕ
  endSec : ℕ

/-- Its URL. -/
def CoinbaseTickerQuery.url (q : CoinbaseTickerQuery) : String :=
  "https://api.coinbase.com/api/v3/brokerage/market/products/" ++ q.wireSymbol ++
    "/ticker?limit=100&start=" ++ toString q.startSec ++ "&end=" ++ toString q.endSec

/-- The number of a row; a text that is none counts as zero. -/
def CoinbaseTradeRow.number (r : CoinbaseTradeRow) : ℕ := (parseU64 r.tradeId).getD 0

/-- The time of a row; a text that is none counts as the epoch. -/
def RestEnv.coinbaseTsUs (env : RestEnv) (r : CoinbaseTradeRow) : ℕ :=
  ((env.parseFromRfc3339 r.time).map asU64).getD 0

/-- The trade of a row of Coinbase. -/
def RestEnv.coinbaseTrade (env : RestEnv) (pair : TradingPair) (side : TradeSide)
    (r : CoinbaseTradeRow) : Trade where
  sourceTradeTsUs := env.coinbaseTsUs r
  pair := pair
  side := side
  amount := env.decimal r.size
  price := env.decimal r.price
  exchange := "coinbase"
  id := r.tradeId
  origin := .rest

/-- The last second seen, and what is recovered so far. -/
abbrev CoinbasePass := ℕ × List (RecoveredTrade CoinbaseTradeRow)

/-- One row of a page. -/
def RestEnv.coinbaseRow (env : RestEnv) (pair : TradingPair) (pos : TradePos) (s : CoinbasePass)
    (r : CoinbaseTradeRow) : CoinbasePass :=
  if r.number ≤ pos.id then s
  else match TradeSide.fromStr r.side with
    | none => s
    | some side =>
      let maxTsSec := max s.1 (env.coinbaseTsUs r / 1000000)
      if s.2.any (fun t => t.trade.id == r.tradeId) then (maxTsSec, s.2)
      else (maxTsSec, s.2 ++ [⟨r, env.coinbaseTrade pair side r⟩])

/-- The pages of the walk by time. -/
def RestEnv.walkByTime (env : RestEnv)
    (send : ℕ → CoinbaseTickerQuery → Except HttpError (List CoinbaseTradeRow))
    (wireSymbol : String) (pair : TradingPair) (pos : TradePos) (nowSec : ℕ) :
    ℕ → ℕ → CoinbasePass → Except String (List (RecoveredTrade CoinbaseTradeRow))
  | 0, _, (_, out) => .ok out
  | left + 1, i, (startSec, out) =>
    if nowSec ≤ startSec then .ok out
    else do
      let rows ← (send i ⟨wireSymbol, startSec, nowSec⟩).mapError (HttpError.invalid "coinbase")
      if rows.isEmpty then return out
      let pass := rows.foldl (env.coinbaseRow pair pos) (startSec, out)
      if rows.length < 100 ∨ pass.1 ≤ startSec then return pass.2
      env.walkByTime send wireSymbol pair pos nowSec left (i + 1) pass

/-- The second the walk starts at: one before that of the position. -/
def TradePos.startSec (pos : TradePos) : ℕ := pos.tsUs / 1000000 - 1

/-- The body of `CoinbaseTradesFetch::fetch_after`, called in a second. -/
def RestEnv.coinbaseRecovered (env : RestEnv)
    (send : ℕ → CoinbaseTickerQuery → Except HttpError (List CoinbaseTradeRow)) (nowSec : ℕ)
    (wireSymbol : String) (pair : TradingPair) (pos : TradePos) :
    Except String (List (RecoveredTrade CoinbaseTradeRow)) := do
  let out ← env.walkByTime send wireSymbol pair pos nowSec maxPages 0 (pos.startSec, [])
  return out.mergeSort (fun a b => (parseU64 a.trade.id).getD 0 ≤ (parseU64 b.trade.id).getD 0)

/-! ## The fetchers -/

/-- The venues, call after call. -/
structure RestVenues where
  binance : ℕ → ℕ → String → Except HttpError (List BinanceTradeRow)
  bitso : ℕ → ℕ → String → Except HttpError BitsoTradesEnvelope
  coinbase : ℕ → ℕ → CoinbaseTickerQuery → Except HttpError (List CoinbaseTradeRow)
  /-- The second of a call. -/
  nowSec : ℕ → ℕ

/-- The trades of what is recovered. -/
def RecoveredTrade.trades {ρ : Type} (out : Except String (List (RecoveredTrade ρ))) :
    Except String (List Trade) := out.map (List.map RecoveredTrade.trade)

/-! ## What the venue answers -/

/-- The rows of the pages a walk by number asks for. -/
def answeredByNumber {ρ : Type} (limit : ℕ) (number : ρ → ℕ) (follow : ℕ → ℕ) (pos : TradePos)
    (ask : ℕ → ℕ → Except String (List ρ)) : ℕ → ℕ → ℕ → Except String (List ρ)
  | 0, _, _ => .ok []
  | left + 1, i, cursor => do
    let rows ← ask i cursor
    let kept := rows.filter (fun r => pos.id < number r)
    let cursor' := kept.foldl (fun c r => max c (follow (number r))) cursor
    if rows.length < limit then return rows
    let more ← answeredByNumber limit number follow pos ask left (i + 1) cursor'
    return rows ++ more

/-- A walk by number keeps what is behind the position. -/
theorem walkByNumber_eq {ρ : Type} (limit : ℕ) (number : ρ → ℕ) (follow : ℕ → ℕ) (pos : TradePos)
    (ask : ℕ → ℕ → Except String (List ρ)) (left i cursor : ℕ) :
    walkByNumber limit number follow pos ask left i cursor
      = (answeredByNumber limit number follow pos ask left i cursor).map
          (List.filter (fun r => pos.id < number r)) := by
  induction left generalizing i cursor with
  | zero => rfl
  | succ left ih =>
    unfold walkByNumber answeredByNumber
    cases ask i cursor with
    | error e => rfl
    | ok rows =>
      simp only [bind, Except.bind, ih]
      split_ifs with hshort
      · rfl
      · generalize answeredByNumber limit number follow pos ask left _ _ = more
        cases more with
        | error e => rfl
        | ok more => simp [Except.map, pure, Except.pure]

namespace RestEnv

variable (env : RestEnv) (pair : TradingPair) (pos : TradePos)

/-- A row of Coinbase that is behind the position and has a side. -/
def Taken (r : CoinbaseTradeRow) : Prop :=
  pos.id < r.number ∧ (TradeSide.fromStr r.side).isSome = true

/-- What is recovered, with one row more. -/
def keepRow (out : List (RecoveredTrade CoinbaseTradeRow)) (r : CoinbaseTradeRow) :
    List (RecoveredTrade CoinbaseTradeRow) :=
  (env.coinbaseRow pair pos (0, out) r).2

/-- The last second seen, with one row more. -/
def lastSec (m : ℕ) (r : CoinbaseTradeRow) : ℕ := (env.coinbaseRow pair pos (m, []) r).1

theorem coinbaseRow_eq (s : CoinbasePass) (r : CoinbaseTradeRow) :
    env.coinbaseRow pair pos s r = (env.lastSec pair pos s.1 r, env.keepRow pair pos s.2 r) := by
  unfold lastSec keepRow coinbaseRow
  by_cases hpos : r.number ≤ pos.id
  · simp only [if_pos hpos]
  · simp only [if_neg hpos]
    cases TradeSide.fromStr r.side with
    | none => rfl
    | some side =>
      by_cases hdup : s.2.any (fun t => t.trade.id == r.tradeId) = true
      · simp [hdup]
      · simp [hdup]

theorem foldl_coinbaseRow (s : CoinbasePass) (rows : List CoinbaseTradeRow) :
    rows.foldl (env.coinbaseRow pair pos) s
      = (rows.foldl (env.lastSec pair pos) s.1, rows.foldl (env.keepRow pair pos) s.2) := by
  induction rows generalizing s with
  | nil => rfl
  | cons r rows ih =>
    rw [List.foldl_cons, ih, coinbaseRow_eq]
    rfl

/-- The rows of the pages the walk by time asks for. -/
def answeredByTime (send : ℕ → CoinbaseTickerQuery → Except HttpError (List CoinbaseTradeRow))
    (wireSymbol : String) (nowSec : ℕ) : ℕ → ℕ → ℕ → Except String (List CoinbaseTradeRow)
  | 0, _, _ => .ok []
  | left + 1, i, startSec =>
    if nowSec ≤ startSec then .ok []
    else do
      let rows ← (send i ⟨wireSymbol, startSec, nowSec⟩).mapError (HttpError.invalid "coinbase")
      let maxTsSec := rows.foldl (env.lastSec pair pos) startSec
      if rows.length < 100 ∨ maxTsSec ≤ startSec then return rows
      let more ← answeredByTime send wireSymbol nowSec left (i + 1) maxTsSec
      return rows ++ more

theorem walkByTime_eq (send : ℕ → CoinbaseTickerQuery → Except HttpError (List CoinbaseTradeRow))
    (wireSymbol : String) (nowSec left i : ℕ) (s : CoinbasePass) :
    env.walkByTime send wireSymbol pair pos nowSec left i s
      = (env.answeredByTime pair pos send wireSymbol nowSec left i s.1).map
          (List.foldl (env.keepRow pair pos) s.2) := by
  induction left generalizing i s with
  | zero => rfl
  | succ left ih =>
    obtain ⟨startSec, out⟩ := s
    unfold walkByTime answeredByTime
    split_ifs with hnow
    · rfl
    · cases (send i ⟨wireSymbol, startSec, nowSec⟩).mapError (HttpError.invalid "coinbase") with
      | error e => rfl
      | ok rows =>
        simp only [bind, Except.bind, foldl_coinbaseRow, ih]
        cases rows with
        | nil => rfl
        | cons r rows =>
          simp only [List.isEmpty_cons, Bool.false_eq_true, if_false]
          split_ifs with hlast
          · rfl
          · generalize env.answeredByTime pair pos send wireSymbol nowSec left _ _ = more
            cases more with
            | error e => rfl
            | ok more => simp [Except.map, pure, Except.pure]

/-! ## Rows that are kept -/

section Kept

variable {env pair pos}

theorem keepRow_of_not_taken {out : List (RecoveredTrade CoinbaseTradeRow)} {r : CoinbaseTradeRow}
    (h : ¬ Taken pos r) : env.keepRow pair pos out r = out := by
  unfold keepRow coinbaseRow
  by_cases hpos : r.number ≤ pos.id
  · rw [if_pos hpos]
  · rw [if_neg hpos]
    cases hside : TradeSide.fromStr r.side with
    | none => rfl
    | some side => exact absurd ⟨Nat.lt_of_not_le hpos, by rw [hside]; rfl⟩ h

theorem keepRow_of_seen {out : List (RecoveredTrade CoinbaseTradeRow)} {r : CoinbaseTradeRow}
    (h : ∃ t ∈ out, t.trade.id = r.tradeId) : env.keepRow pair pos out r = out := by
  have hseen : out.any (fun t => t.trade.id == r.tradeId) = true := by simpa using h
  unfold keepRow coinbaseRow
  by_cases hpos : r.number ≤ pos.id
  · rw [if_pos hpos]
  · rw [if_neg hpos]
    cases TradeSide.fromStr r.side with
    | none => rfl
    | some side => simp [hseen]

theorem keepRow_of_new {out : List (RecoveredTrade CoinbaseTradeRow)} {r : CoinbaseTradeRow}
    {side : TradeSide} (hpos : pos.id < r.number) (hside : TradeSide.fromStr r.side = some side)
    (h : ∀ t ∈ out, t.trade.id ≠ r.tradeId) :
    env.keepRow pair pos out r = out ++ [⟨r, env.coinbaseTrade pair side r⟩] := by
  have hseen : out.any (fun t => t.trade.id == r.tradeId) = false := by simpa using h
  unfold keepRow coinbaseRow
  rw [if_neg (Nat.not_le_of_lt hpos), hside]
  simp [hseen]

/-- The row is the first of its number among those that are taken. -/
def FirstTaken (pos : TradePos) (rows : List CoinbaseTradeRow) (r : CoinbaseTradeRow) : Prop :=
  Taken pos r ∧ ∃ before behind, rows = before ++ r :: behind ∧
    ∀ r' ∈ before, Taken pos r' → r'.tradeId ≠ r.tradeId

theorem FirstTaken.append {rows : List CoinbaseTradeRow} {r : CoinbaseTradeRow}
    (h : FirstTaken pos rows r) (more : List CoinbaseTradeRow) :
    FirstTaken pos (rows ++ more) r := by
  obtain ⟨htaken, before, behind, rfl, hfirst⟩ := h
  exact ⟨htaken, before, behind ++ more, by simp, hfirst⟩

theorem firstTaken_concat_iff {rows : List CoinbaseTradeRow} {q r : CoinbaseTradeRow} :
    FirstTaken pos (rows ++ [r]) q ↔ FirstTaken pos rows q ∨
      (q = r ∧ Taken pos r ∧ ∀ r' ∈ rows, Taken pos r' → r'.tradeId ≠ r.tradeId) := by
  constructor
  · rintro ⟨htaken, before, behind, heq, hne⟩
    obtain rfl | ⟨behind, last, rfl⟩ := behind.eq_nil_or_concat
    · obtain ⟨rfl, hq⟩ := List.append_inj' heq rfl
      obtain rfl := List.singleton_inj.mp hq
      exact Or.inr ⟨rfl, htaken, hne⟩
    · refine Or.inl ⟨htaken, before, behind, ?_, hne⟩
      rw [List.concat_eq_append, ← List.cons_append, ← List.append_assoc] at heq
      exact (List.append_inj' heq rfl).1
  · rintro (h | ⟨rfl, htaken, hne⟩)
    · exact h.append _
    · exact ⟨htaken, rows, [], rfl, hne⟩

theorem exists_firstTaken {rows : List CoinbaseTradeRow} {r : CoinbaseTradeRow} (hr : r ∈ rows)
    (htaken : Taken pos r) : ∃ q, FirstTaken pos rows q ∧ q.tradeId = r.tradeId := by
  induction rows using List.reverseRecOn generalizing r with
  | nil => exact absurd hr List.not_mem_nil
  | append_singleton rows last ih =>
    have hbefore : ∀ r' ∈ rows, Taken pos r' →
        ∃ q, FirstTaken pos (rows ++ [last]) q ∧ q.tradeId = r'.tradeId := by
      intro r' hr' htaken'
      obtain ⟨q, hq, hid⟩ := ih hr' htaken'
      exact ⟨q, hq.append _, hid⟩
    obtain hr | hr := List.mem_append.mp hr
    · exact hbefore r hr htaken
    · obtain rfl := List.mem_singleton.mp hr
      by_cases hold : ∃ r' ∈ rows, Taken pos r' ∧ r'.tradeId = r.tradeId
      · obtain ⟨r', hr', htaken', hid⟩ := hold
        rw [← hid]
        exact hbefore r' hr' htaken'
      · refine ⟨r, firstTaken_concat_iff.mpr (Or.inr ⟨rfl, htaken, ?_⟩), rfl⟩
        exact fun r' hr' htaken' hid => hold ⟨r', hr', htaken', hid⟩

/-- What is recovered from rows: each that is the first of its number, once
and as the trade it is. -/
structure Keeps (env : RestEnv) (pair : TradingPair) (pos : TradePos)
    (rows : List CoinbaseTradeRow) (out : List (RecoveredTrade CoinbaseTradeRow)) : Prop where
  sound : ∀ t ∈ out, FirstTaken pos rows t.row ∧
    ∃ side, TradeSide.fromStr t.row.side = some side ∧ t.trade = env.coinbaseTrade pair side t.row
  first : ∀ r, FirstTaken pos rows r → ∃ t ∈ out, t.row = r
  once : (out.map (fun t => t.trade.id)).Nodup

variable {rows : List CoinbaseTradeRow} {out : List (RecoveredTrade CoinbaseTradeRow)}

theorem Keeps.tradeId_eq (h : Keeps env pair pos rows out) {t : RecoveredTrade CoinbaseTradeRow}
    (ht : t ∈ out) : t.trade.id = t.row.tradeId := by
  obtain ⟨-, side, -, htrade⟩ := h.sound t ht
  rw [htrade]
  rfl

/-- A number is there once a row with it was taken. -/
theorem Keeps.seen_iff (h : Keeps env pair pos rows out) {id : String} :
    (∃ t ∈ out, t.trade.id = id) ↔ ∃ r ∈ rows, Taken pos r ∧ r.tradeId = id := by
  constructor
  · rintro ⟨t, ht, rfl⟩
    obtain ⟨⟨htaken, before, behind, hrows, -⟩, -⟩ := h.sound t ht
    exact ⟨t.row, by rw [hrows]; simp, htaken, (h.tradeId_eq ht).symm⟩
  · rintro ⟨r, hr, htaken, rfl⟩
    obtain ⟨q, hq, hid⟩ := exists_firstTaken hr htaken
    obtain ⟨t, ht, rfl⟩ := h.first q hq
    exact ⟨t, ht, (h.tradeId_eq ht).trans hid⟩

theorem Keeps.keepRow (h : Keeps env pair pos rows out) (r : CoinbaseTradeRow) :
    Keeps env pair pos (rows ++ [r]) (env.keepRow pair pos out r) := by
  by_cases hnew : Taken pos r ∧ ∀ r' ∈ rows, Taken pos r' → r'.tradeId ≠ r.tradeId
  · obtain ⟨side, hside⟩ := Option.isSome_iff_exists.mp hnew.1.2
    have hunseen : ∀ t ∈ out, t.trade.id ≠ r.tradeId := by
      intro t ht hid
      obtain ⟨r', hr', htaken, hid'⟩ := h.seen_iff.mp ⟨t, ht, hid⟩
      exact hnew.2 r' hr' htaken hid'
    rw [keepRow_of_new hnew.1.1 hside hunseen]
    refine ⟨fun t ht => ?_, fun q hq => ?_, ?_⟩
    · obtain ht | ht := List.mem_append.mp ht
      · exact ⟨(h.sound t ht).1.append _, (h.sound t ht).2⟩
      · obtain rfl := List.mem_singleton.mp ht
        exact ⟨firstTaken_concat_iff.mpr (Or.inr ⟨rfl, hnew⟩), side, hside, rfl⟩
    · obtain hq | ⟨rfl, -⟩ := firstTaken_concat_iff.mp hq
      · obtain ⟨t, ht, hrow⟩ := h.first q hq
        exact ⟨t, List.mem_append_left _ ht, hrow⟩
      · exact ⟨_, List.mem_append_right _ (List.mem_singleton_self _), rfl⟩
    · rw [List.map_append, List.map_singleton]
      refine List.nodup_append.mpr ⟨h.once, List.nodup_singleton _, fun a ha b hb => ?_⟩
      obtain ⟨t, ht, rfl⟩ := List.mem_map.mp ha
      rw [List.mem_singleton.mp hb]
      exact hunseen t ht
  · have hsame : env.keepRow pair pos out r = out := by
      by_cases htaken : Taken pos r
      · refine keepRow_of_seen (h.seen_iff.mpr ?_)
        by_contra hno
        exact hnew ⟨htaken, fun r' hr' htaken' hid => hno ⟨r', hr', htaken', hid⟩⟩
      · exact keepRow_of_not_taken htaken
    rw [hsame]
    refine ⟨fun t ht => ⟨(h.sound t ht).1.append _, (h.sound t ht).2⟩, fun q hq => ?_, h.once⟩
    obtain hq | ⟨-, hr⟩ := firstTaken_concat_iff.mp hq
    · exact h.first q hq
    · exact absurd hr hnew

variable (env pair pos) in
/-- **What is recovered from the rows answered.** -/
theorem keeps_foldl (rows : List CoinbaseTradeRow) :
    Keeps env pair pos rows (rows.foldl (env.keepRow pair pos) []) := by
  induction rows using List.reverseRecOn with
  | nil =>
    refine ⟨fun t ht => absurd ht List.not_mem_nil, fun r h => ?_, List.nodup_nil⟩
    obtain ⟨-, before, behind, hnil, -⟩ := h
    simp at hnil
  | append_singleton rows r ih =>
    rw [List.foldl_append]
    exact ih.keepRow r

end Kept

/-! ## What a row states -/

/-- What a row says of its trade, as far as it can be read. -/
structure StatedPrint where
  price : Option Decimal
  amount : Option Decimal
  /-- The time in microseconds. -/
  tsUs : Option ℤ
  side : Option TradeSide

/-- **The trade is the one stated**, and all of it is stated. -/
def StatedPrint.Matches (p : StatedPrint) (t : Trade) : Prop :=
  p.price = some t.price ∧ p.amount = some t.amount ∧ p.tsUs = some (t.sourceTradeTsUs : ℤ) ∧
    p.side = some t.side

/-- The other side. -/
def other : TradeSide → TradeSide
  | .buy => .sell
  | .sell => .buy

/-- Times of Binance are in milliseconds; the taker sold if the buyer is the
maker. -/
def binanceStated (r : BinanceTradeRow) : StatedPrint where
  price := (env.crates.fromStr r.price).toOption
  amount := (env.crates.fromStr r.qty).toOption
  tsUs := some (1000 * r.time)
  side := some (if r.isBuyerMaker then .sell else .buy)

/-- The side of the taker is the other of the maker's. -/
def bitsoStated (r : BitsoTradeRow) : StatedPrint where
  price := (env.crates.fromStr r.price).toOption
  amount := (env.crates.fromStr r.amount).toOption
  tsUs := (env.parseCreatedAt r.createdAt).map (1000 * ·)
  side := (TradeSide.fromStr r.makerSide).map other

def coinbaseStated (r : CoinbaseTradeRow) : StatedPrint where
  price := (env.crates.fromStr r.price).toOption
  amount := (env.crates.fromStr r.size).toOption
  tsUs := env.parseFromRfc3339 r.time
  side := TradeSide.fromStr r.side

/-- Each trade recovered is the one its row states. -/
def AsStated {ρ : Type} (stated : ρ → StatedPrint)
    (recovered : Except String (List (RecoveredTrade ρ))) : Prop :=
  ∀ out, recovered = .ok out → ∀ t ∈ out, (stated t.row).Matches t.trade

/-! ## Which rows are read right -/

/-- The text is a decimal. -/
def IsDecimal (s : String) : Prop := ∃ d, env.crates.fromStr s = .ok d

/-- Milliseconds that are told from seconds and microseconds. -/
def PlainMillis (n : ℤ) : Prop := n = 0 ∨ 100000000000 ≤ n ∧ n < 100000000000000

def BinanceReadable (r : BinanceTradeRow) : Prop :=
  env.IsDecimal r.price ∧ env.IsDecimal r.qty ∧ PlainMillis r.time

def BitsoReadable (r : BitsoTradeRow) : Prop :=
  env.IsDecimal r.price ∧ env.IsDecimal r.amount ∧
    (∃ n, env.parseCreatedAt r.createdAt = some n ∧ PlainMillis n) ∧
    (r.makerSide = "buy" ∨ TradeSide.fromStr r.makerSide = some .sell)

def CoinbaseReadable (r : CoinbaseTradeRow) : Prop :=
  env.IsDecimal r.price ∧ env.IsDecimal r.size ∧
    ∃ n, env.parseFromRfc3339 r.time = some n ∧ 0 ≤ n ∧ n < 2 ^ 64

theorem toOption_eq_decimal_iff (s : String) :
    (env.crates.fromStr s).toOption = some (env.decimal s) ↔ env.IsDecimal s := by
  unfold decimal IsDecimal
  cases env.crates.fromStr s <;> simp [Except.toOption]

theorem natCast_asU64_eq_iff (n : ℤ) : (asU64 n : ℤ) = n ↔ 0 ≤ n ∧ n < 2 ^ 64 := by
  unfold asU64
  omega

/-- Milliseconds are read as such exactly if they are told from the other
units. -/
theorem epochToUs_eq_iff (v : ℕ) : (epochToUs v : ℤ) = 1000 * v ↔ PlainMillis v := by
  unfold epochToUs PlainMillis
  split_ifs <;> omega

theorem epochToUs_asU64_eq_iff (n : ℤ) : (epochToUs (asU64 n) : ℤ) = 1000 * n ↔ PlainMillis n := by
  by_cases hn : 0 ≤ n ∧ n < 2 ^ 64
  · have hv := (natCast_asU64_eq_iff n).mpr hn
    have key := epochToUs_eq_iff (asU64 n)
    rwa [hv] at key
  · -- outside of 64 bits a multiple of a thousand is out of reach
    have hlt : asU64 n < 2 ^ 64 := by unfold asU64; omega
    unfold epochToUs PlainMillis
    split_ifs <;> omega

theorem binanceTrade_matches_iff (r : BinanceTradeRow) :
    (env.binanceStated r).Matches (env.binanceTrade pair r) ↔ env.BinanceReadable r := by
  unfold BinanceReadable
  rw [← toOption_eq_decimal_iff, ← toOption_eq_decimal_iff, ← epochToUs_eq_iff]
  simp only [StatedPrint.Matches, binanceStated, binanceTrade, Option.some.injEq, and_true]
  exact and_congr_right' (and_congr_right' eq_comm)

theorem bitsoTrade_side_iff (makerSide : String) :
    (TradeSide.fromStr makerSide).map other = some (if makerSide = "buy" then .sell else .buy) ↔
      makerSide = "buy" ∨ TradeSide.fromStr makerSide = some .sell := by
  by_cases hbuy : makerSide = "buy"
  · subst hbuy
    exact iff_of_true (by decide) (Or.inl rfl)
  · rw [if_neg hbuy]
    cases hside : TradeSide.fromStr makerSide with
    | none => simp [hbuy]
    | some side => cases side <;> simp [hbuy, other]

theorem bitsoTrade_matches_iff (r : BitsoTradeRow) :
    (env.bitsoStated r).Matches (env.bitsoTrade pair r) ↔ env.BitsoReadable r := by
  have htime : (env.parseCreatedAt r.createdAt).map (1000 * ·)
      = some ((env.bitsoTrade pair r).sourceTradeTsUs : ℤ) ↔
      ∃ n, env.parseCreatedAt r.createdAt = some n ∧ PlainMillis n := by
    unfold bitsoTrade
    cases env.parseCreatedAt r.createdAt with
    | none => simp
    | some n => simp [← epochToUs_asU64_eq_iff, eq_comm]
  unfold BitsoReadable
  rw [← toOption_eq_decimal_iff, ← toOption_eq_decimal_iff, ← htime, ← bitsoTrade_side_iff]
  rfl

theorem coinbaseTrade_matches_iff {r : CoinbaseTradeRow} {side : TradeSide}
    (hside : TradeSide.fromStr r.side = some side) :
    (env.coinbaseStated r).Matches (env.coinbaseTrade pair side r) ↔ env.CoinbaseReadable r := by
  have htime : env.parseFromRfc3339 r.time = some (env.coinbaseTsUs r : ℤ) ↔
      ∃ n, env.parseFromRfc3339 r.time = some n ∧ 0 ≤ n ∧ n < 2 ^ 64 := by
    unfold coinbaseTsUs
    cases env.parseFromRfc3339 r.time with
    | none => simp
    | some n =>
      have hn := natCast_asU64_eq_iff n
      rw [eq_comm] at hn
      simpa using hn
  unfold CoinbaseReadable
  rw [← toOption_eq_decimal_iff, ← toOption_eq_decimal_iff, ← htime]
  simp only [StatedPrint.Matches, coinbaseStated, coinbaseTrade, hside, and_true]

/-! ## The fetchers and what they are answered -/

variable (venues : RestVenues) (call : ℕ) (wireSymbol : String)

/-- The rows Binance answers to a call. -/
def binanceAnswered : Except String (List BinanceTradeRow) :=
  answeredByNumber 1000 BinanceTradeRow.id (fun id => (id + 1) % 2 ^ 64) pos
    (fun i start => (venues.binance call i (binanceTradesUrl wireSymbol start)).mapError
      (HttpError.invalid "binance"))
    maxPages 0 (min (pos.id + 1) (2 ^ 64 - 1))

/-- The rows Bitso answers to a call. -/
def bitsoAnswered : Except String (List BitsoTradeRow) :=
  answeredByNumber 100 BitsoTradeRow.tid (fun tid => tid) pos
    (fun i marker => do
      let answer ← (venues.bitso call i (bitsoTradesUrl wireSymbol marker)).mapError
        (HttpError.invalid "bitso")
      answer.rows)
    maxPages 0 pos.id

/-- The rows Coinbase answers to a call. -/
def coinbaseAnswered : Except String (List CoinbaseTradeRow) :=
  env.answeredByTime pair pos (venues.coinbase call) wireSymbol (venues.nowSec call)
    maxPages 0 pos.startSec

/-- The trades of the rows that are kept are those stated exactly if each
row's is. -/
theorem asStated_map_iff {ρ : Type} (stated : ρ → StatedPrint) (trade : ρ → Trade) (number : ρ → ℕ)
    (answered : Except String (List ρ)) :
    AsStated stated (do
      let rows ← answered.map (List.filter (fun r => pos.id < number r))
      return rows.map (fun r => ⟨r, trade r⟩)) ↔
    ∀ rows, answered = .ok rows →
      ∀ r ∈ rows, pos.id < number r → (stated r).Matches (trade r) := by
  unfold AsStated
  cases answered with
  | error e => simp [Except.map, bind, Except.bind]
  | ok rows =>
    simp only [Except.map, bind, Except.bind, pure, Except.pure, Except.ok.injEq, forall_eq',
      List.mem_map, List.mem_filter, decide_eq_true_eq]
    constructor
    · exact fun h r hr hpos => h _ ⟨r, ⟨hr, hpos⟩, rfl⟩
    · rintro h t ⟨r, ⟨hr, hpos⟩, rfl⟩
      exact h r hr hpos

theorem asStated_binance_iff :
    AsStated env.binanceStated (env.binanceRecovered (venues.binance call) wireSymbol pair pos) ↔
      ∀ rows, binanceAnswered pos venues call wireSymbol = .ok rows →
        ∀ r ∈ rows, pos.id < r.id → env.BinanceReadable r := by
  unfold binanceRecovered
  rw [walkByNumber_eq, ← binanceAnswered, asStated_map_iff]
  simp only [binanceTrade_matches_iff]

theorem asStated_bitso_iff :
    AsStated env.bitsoStated (env.bitsoRecovered (venues.bitso call) wireSymbol pair pos) ↔
      ∀ rows, bitsoAnswered pos venues call wireSymbol = .ok rows →
        ∀ r ∈ rows, pos.id < r.tid → env.BitsoReadable r := by
  unfold bitsoRecovered
  rw [walkByNumber_eq, ← bitsoAnswered, asStated_map_iff]
  simp only [bitsoTrade_matches_iff]

theorem asStated_coinbase_iff :
    AsStated env.coinbaseStated
        (env.coinbaseRecovered (venues.coinbase call) (venues.nowSec call) wireSymbol pair pos) ↔
      ∀ rows, env.coinbaseAnswered pair pos venues call wireSymbol = .ok rows →
        ∀ r, FirstTaken pos rows r → env.CoinbaseReadable r := by
  unfold AsStated coinbaseRecovered
  rw [walkByTime_eq, ← coinbaseAnswered]
  cases env.coinbaseAnswered pair pos venues call wireSymbol with
  | error e => simp [Except.map, bind, Except.bind]
  | ok rows =>
    have hkeeps := keeps_foldl env pair pos rows
    simp only [Except.map, bind, Except.bind, pure, Except.pure, Except.ok.injEq, forall_eq',
      List.mem_mergeSort]
    constructor
    · intro h r hr
      obtain ⟨t, ht, rfl⟩ := hkeeps.first r hr
      obtain ⟨-, side, hside, htrade⟩ := hkeeps.sound t ht
      rw [← env.coinbaseTrade_matches_iff pair hside, ← htrade]
      exact h t ht
    · intro h t ht
      obtain ⟨hfirst, side, hside, htrade⟩ := hkeeps.sound t ht
      rw [htrade, env.coinbaseTrade_matches_iff pair hside]
      exact h t.row hfirst

/-- **When the fetchers make nothing up**: a walk returns what the rows state
exactly if every row it takes can be read, price, amount and time, and at
Bitso the side. None of this is checked. -/
theorem states_iff :
    (AsStated env.binanceStated
        (env.binanceRecovered (venues.binance call) wireSymbol pair pos) ∧
      AsStated env.bitsoStated (env.bitsoRecovered (venues.bitso call) wireSymbol pair pos) ∧
      AsStated env.coinbaseStated
        (env.coinbaseRecovered (venues.coinbase call) (venues.nowSec call) wireSymbol pair pos)) ↔
      (∀ rows, binanceAnswered pos venues call wireSymbol = .ok rows →
        ∀ r ∈ rows, pos.id < r.id → env.BinanceReadable r) ∧
      (∀ rows, bitsoAnswered pos venues call wireSymbol = .ok rows →
        ∀ r ∈ rows, pos.id < r.tid → env.BitsoReadable r) ∧
      ∀ rows, env.coinbaseAnswered pair pos venues call wireSymbol = .ok rows →
        ∀ r, FirstTaken pos rows r → env.CoinbaseReadable r :=
  and_congr (env.asStated_binance_iff pair pos venues call wireSymbol)
    (and_congr (env.asStated_bitso_iff pair pos venues call wireSymbol)
      (env.asStated_coinbase_iff pair pos venues call wireSymbol))

/-- A price that is none is returned as zero. -/
theorem not_states_unpriced :
    ¬ ∀ (env : RestEnv) (pair : TradingPair) (pos : TradePos) (venues : RestVenues) (call : ℕ)
      (wireSymbol : String),
      AsStated env.binanceStated
        (env.binanceRecovered (venues.binance call) wireSymbol pair pos) ∧
      AsStated env.bitsoStated (env.bitsoRecovered (venues.bitso call) wireSymbol pair pos) ∧
      AsStated env.coinbaseStated
        (env.coinbaseRecovered (venues.coinbase call) (venues.nowSec call) wireSymbol pair
          pos) := by
  intro h
  let row : BitsoTradeRow := ⟨42, "n/a", "0.5", "sell", "2026-07-17T00:00:00+0000"⟩
  let env : RestEnv := ⟨Crates.plain, fun _ => some 1784246400000, fun _ => some 1784246400000000⟩
  let venues : RestVenues :=
    ⟨fun _ _ _ => .ok [], fun _ _ _ => .ok ⟨true, [row]⟩, fun _ _ _ => .ok [], fun _ => 1784246460⟩
  have hstated := (h env ⟨"BTC", "MXN"⟩ ⟨41, 1784246399000000⟩ venues 0 "btc_mxn").2.1
  rw [asStated_bitso_iff] at hstated
  obtain ⟨⟨d, hd⟩, -⟩ := hstated [row] rfl row List.mem_cons_self (by decide)
  have hbad : Crates.plain.fromStr "n/a" = .error "Invalid decimal: unknown character" := by
    decide
  exact nomatch hbad.symm.trans hd

end RestEnv
