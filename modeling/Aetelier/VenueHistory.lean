import Aetelier.PairInvariants

/-!
# Emitted books follow the venue's history

A venue has a history: a book for every id. Its frames are pictures of it –
a snapshot is the book at its id, a delta carries the sizes at its id of the
levels that changed since an earlier one – and they may reach the runtime in
any order, or twice, or not at all, with seeds of any age between them.

What makes this harmless is that the sequence check compares a delta with the
book it is applied to, not with the delta before it. A book that holds the
history at its last id holds it at the id of any true frame that applies
(`VenueHistory.follows_apply`), and is left alone by one that does not. The
phase, the buffer and the order of arrival play no part in the argument.
-/

/-- **The history of a venue's book**: the size at each price, by id. No book
of it is crossed. -/
structure VenueHistory where
  /-- Bid sizes by id and price. -/
  bids : ℕ → ℚ → ℚ
  /-- Ask sizes by id and price. -/
  asks : ℕ → ℚ → ℚ
  /-- Bid sizes are not negative. -/
  bids_nonneg : ∀ id q, 0 ≤ bids id q
  /-- Ask sizes are not negative. -/
  asks_nonneg : ∀ id q, 0 ≤ asks id q
  /-- Every bid is below every ask. -/
  uncrossed : ∀ id p q, bids id p ≠ 0 → asks id q ≠ 0 → p < q

/-! ## True frames -/

namespace VenueHistory

variable (h : VenueHistory) (x : Crates)

/-- A level changed where a delta has to say so: somewhere in its range, or
since the update it points to. -/
def Changed (predicate : SeqPredicate) (size : ℕ → ℚ → ℚ) (d : NormalizedDelta) (q : ℚ) : Prop :=
  match predicate with
  | .rangeInclusive =>
    ∃ i, d.sequence ≤ i + 1 ∧ i + 1 ≤ d.updateId ∧ size i q ≠ size (i + 1) q
  | .exactPrev => size d.sequence q ≠ size d.updateId q
  | .monotonic => False

/-- **A true delta** carries the sizes at its id of every changed level. -/
structure TrueDelta (predicate : SeqPredicate) (d : NormalizedDelta) : Prop where
  /-- Bid entries carry the sizes at the id. -/
  bids : OrderbookDelta.Truthful x (h.bids d.updateId) d.bids
  /-- Ask entries carry the sizes at the id. -/
  asks : OrderbookDelta.Truthful x (h.asks d.updateId) d.asks
  /-- Every changed bid is carried. -/
  bids_changed : ∀ q, Changed predicate h.bids d q → OrderbookDelta.Mentions x d.bids q
  /-- Every changed ask is carried. -/
  asks_changed : ∀ q, Changed predicate h.asks d q → OrderbookDelta.Mentions x d.asks q

/-- **A true snapshot** is the book at its id. -/
structure TrueSnapshot (d : NormalizedDelta) : Prop where
  /-- Bid entries carry the sizes at the id. -/
  bids : OrderbookDelta.Truthful x (h.bids d.updateId) d.bids
  /-- Ask entries carry the sizes at the id. -/
  asks : OrderbookDelta.Truthful x (h.asks d.updateId) d.asks
  /-- Every bid is carried. -/
  bids_all : ∀ q, h.bids d.updateId q ≠ 0 → OrderbookDelta.Mentions x d.bids q
  /-- Every ask is carried. -/
  asks_all : ∀ q, h.asks d.updateId q ≠ 0 → OrderbookDelta.Mentions x d.asks q

/-- A true frame of either kind. -/
def TrueFrame (predicate : SeqPredicate) (d : NormalizedDelta) : Prop :=
  if d.isSnapshot then h.TrueSnapshot x d else h.TrueDelta x predicate d

/-! ## A frame at a book -/

/-- **A book follows the history**: it holds the history at its last id. -/
structure Follows (predicate : SeqPredicate) (source : SnapshotSource) (sb : SourcedOrderbook) :
    Prop where
  /-- The book is checked by sequence. -/
  model : sb.model = .seqDelta predicate source
  /-- The book is kept whole. -/
  maxDepth : sb.book.maxDepth = none
  /-- It holds the history at its last id. -/
  holds : ∀ l, sb.last = some l →
    sb.book.Holds (h.bids l) (h.asks l) ∧ sb.book.initialized = true

variable {h x} {u : Unicode} {predicate : SeqPredicate} {source : SnapshotSource}
  {sb : SourcedOrderbook} {d : NormalizedDelta}

/-- What differs between two ids changed somewhere between them. -/
theorem exists_change {size : ℕ → ℚ → ℚ} {q : ℚ} {l n : ℕ} (hln : l ≤ n)
    (hne : size l q ≠ size n q) : ∃ i, l ≤ i ∧ i < n ∧ size i q ≠ size (i + 1) q := by
  induction n, hln using Nat.le_induction with
  | base => exact absurd rfl hne
  | succ n hln ih =>
    by_cases hn : size l q = size n q
    · exact ⟨n, hln, n.lt_succ_self, fun heq => hne (hn.trans heq)⟩
    · obtain ⟨i, hli, hin, hi⟩ := ih hn
      exact ⟨i, hli, hin.trans n.lt_succ_self, hi⟩

/-- A delta that continues a book says everything that differs. -/
theorem changed_of_continuous {size : ℕ → ℚ → ℚ} {q : ℚ} {l : ℕ}
    (hpred : predicate ≠ .monotonic)
    (hcont : SourcedOrderbook.continuous predicate l d = true)
    (hne : size l q ≠ size d.updateId q) : Changed predicate size d q := by
  cases predicate with
  | rangeInclusive =>
    simp only [SourcedOrderbook.continuous, decide_eq_true_eq] at hcont
    obtain ⟨i, hli, hin, hi⟩ := exists_change hcont.2.le hne
    exact ⟨i, by omega, by omega, hi⟩
  | exactPrev =>
    simp only [SourcedOrderbook.continuous, decide_eq_true_eq] at hcont
    rw [← hcont] at hne
    exact hne
  | monotonic => exact absurd rfl hpred

/-- A book that holds the history at some id is not crossed. -/
theorem not_crossed {book : OrderbookDelta} {id : ℕ}
    (hb : book.Holds (h.bids id) (h.asks id)) : SourcedOrderbook.crossed? book = none := by
  have hne : ∀ (side : PriceMap Decimal) (size : ℚ → ℚ) (q : ℚ),
      OrderbookDelta.sizeAt side q = OrderbookDelta.levelOf (size q) →
      (OrderbookDelta.sizeAt side q).isSome → size q ≠ 0 := by
    intro side size q hq hsome hzero
    rw [hq, hzero] at hsome
    cases hsome
  exact SourcedOrderbook.crossed?_eq_none_iff.mpr (fun p q hp hq =>
    h.uncrossed id p q (hne _ _ p (hb.1 p) hp) (hne _ _ q (hb.2 q) hq))

theorem applyModel_eq (hsb : h.Follows predicate source sb) :
    sb.applyModel x u d = sb.applySeqDelta x u d predicate := by
  unfold SourcedOrderbook.applyModel
  rw [hsb.model]

/-- **A frame is taken**: the book is at its id, and current. -/
def Taken (h : VenueHistory) (d : NormalizedDelta) (sb : SourcedOrderbook)
    (r : SourcedOrderbook.Applied) : Prop :=
  ∃ book output,
    r = ({ sb with book := book, last := some d.updateId, state := .synced }, .ok output) ∧
    book.Holds (h.bids d.updateId) (h.asks d.updateId) ∧ book.initialized = true ∧
    book.maxDepth = none ∧ book.pair = sb.book.pair

/-- A true snapshot of the right symbol is taken. -/
theorem taken_snapshot (hsb : h.Follows predicate source sb) (hd : h.TrueSnapshot x d)
    (hsnap : d.isSnapshot = true) (hsym : sb.book.acceptsSymbol u d.symbol = true) :
    Taken h d sb (sb.apply x u d) := by
  obtain ⟨⟨r, hr⟩, hholds, hinit, hdepth⟩ := OrderbookDelta.process_snapshot hsb.maxDepth hsnap
    hsym (h.bids_nonneg _) (h.asks_nonneg _) hd.bids hd.asks hd.bids_all hd.asks_all
  have hmodel := applyModel_eq (x := x) (u := u) (d := d) hsb
  unfold SourcedOrderbook.applySeqDelta at hmodel
  rw [if_pos hsnap, SourcedOrderbook.processed_of_ok hr] at hmodel
  exact ⟨_, _, SourcedOrderbook.apply_of_model hmodel (not_crossed hholds), hholds, hinit, hdepth,
    OrderbookDelta.process_pair _ _⟩

/-- A true delta of the right symbol that continues the book is taken. -/
theorem taken_delta (hpred : predicate ≠ .monotonic) (hsb : h.Follows predicate source sb)
    (hd : h.TrueDelta x predicate d) (hsnap : d.isSnapshot = false)
    (hsym : sb.book.acceptsSymbol u d.symbol = true) {l : ℕ} (hlast : sb.last = some l)
    (hcont : SourcedOrderbook.continuous predicate l d = true) :
    Taken h d sb (sb.apply x u d) := by
  obtain ⟨hold, hinit⟩ := hsb.holds l hlast
  obtain ⟨⟨r, hr⟩, hholds, hinit', hdepth⟩ := OrderbookDelta.process_delta hsb.maxDepth
    hsnap hsym hinit hold hd.bids hd.asks
    (fun q hq => hd.bids_changed q (changed_of_continuous hpred hcont hq))
    (fun q hq => hd.asks_changed q (changed_of_continuous hpred hcont hq))
  have hmodel := applyModel_eq (x := x) (u := u) (d := d) hsb
  unfold SourcedOrderbook.applySeqDelta at hmodel
  rw [if_neg (by rw [hsnap]; simp), hlast] at hmodel
  dsimp only at hmodel
  rw [if_neg (by rw [hcont]; simp), SourcedOrderbook.processed_of_ok hr] at hmodel
  exact ⟨_, _, SourcedOrderbook.apply_of_model hmodel (not_crossed hholds), hholds, hinit', hdepth,
    OrderbookDelta.process_pair _ _⟩

/-- A delta that does not continue the book is a gap. -/
theorem gap_delta (hsb : h.Follows predicate source sb) (hsnap : d.isSnapshot = false)
    (hcont : ∀ l, sb.last = some l → SourcedOrderbook.continuous predicate l d = false) :
    ∃ reason, sb.apply x u d = sb.gap reason := by
  have hmodel := applyModel_eq (x := x) (u := u) (d := d) hsb
  unfold SourcedOrderbook.applySeqDelta at hmodel
  rw [if_neg (by rw [hsnap]; simp)] at hmodel
  cases hlast : sb.last with
  | none =>
    rw [hlast] at hmodel
    exact ⟨_, SourcedOrderbook.apply_of_model_error hmodel⟩
  | some l =>
    rw [hlast] at hmodel
    dsimp only at hmodel
    rw [if_pos (hcont l hlast)] at hmodel
    exact ⟨_, SourcedOrderbook.apply_of_model_error hmodel⟩

/-- A frame of another symbol is a gap. -/
theorem gap_symbol (hsb : h.Follows predicate source sb)
    (hsym : sb.book.acceptsSymbol u d.symbol = false) :
    ∃ reason, sb.apply x u d = sb.gap reason := by
  obtain ⟨reason, hgap⟩ :=
    SourcedOrderbook.applySeqDelta_of_not_accepts (x := x) hsym predicate
  exact ⟨reason, SourcedOrderbook.apply_of_model_error ((applyModel_eq hsb).trans hgap)⟩

/-- What a true frame does to a book that follows the history: it is taken, or
refused without a trace in the book. -/
theorem apply_cases (hpred : predicate ≠ .monotonic) (hsb : h.Follows predicate source sb)
    (hd : h.TrueFrame x predicate d) :
    Taken h d sb (sb.apply x u d) ∨ ∃ reason, sb.apply x u d = sb.gap reason := by
  by_cases hsym : sb.book.acceptsSymbol u d.symbol = true
  · unfold TrueFrame at hd
    by_cases hsnap : d.isSnapshot = true
    · rw [if_pos hsnap] at hd
      exact Or.inl (taken_snapshot hsb hd hsnap hsym)
    · rw [if_neg hsnap] at hd
      have hsnap' := Bool.eq_false_iff.mpr hsnap
      by_cases hcont : ∃ l, sb.last = some l ∧ SourcedOrderbook.continuous predicate l d = true
      · obtain ⟨l, hlast, hcont⟩ := hcont
        exact Or.inl (taken_delta hpred hsb hd hsnap' hsym hlast hcont)
      · exact Or.inr (gap_delta hsb hsnap' (fun l hlast =>
          Bool.eq_false_iff.mpr (fun hc => hcont ⟨l, hlast, hc⟩)))
  · exact Or.inr (gap_symbol hsb (Bool.eq_false_iff.mpr hsym))

/-- A book that has taken a frame follows the history, at the frame's id. -/
theorem Taken.follows {r : SourcedOrderbook.Applied}
    (hsb : h.Follows predicate source sb) (ht : Taken h d sb r) :
    h.Follows predicate source r.1 ∧ r.1.last = some d.updateId ∧
      r.1.book.pair = sb.book.pair ∧ ∃ output, r.2 = .ok output := by
  obtain ⟨book, output, rfl, hholds, hinit, hdepth, hpair⟩ := ht
  refine ⟨⟨hsb.model, hdepth, ?_⟩, rfl, hpair, output, rfl⟩
  rintro l ⟨⟩
  exact ⟨hholds, hinit⟩

/-- **A book that follows the history goes on following it**, and its last id
is that of the last frame applied. -/
theorem follows_apply (hpred : predicate ≠ .monotonic) (hsb : h.Follows predicate source sb)
    (hd : h.TrueFrame x predicate d) :
    h.Follows predicate source (sb.apply x u d).1 ∧
      (∀ output, (sb.apply x u d).2 = .ok output → (sb.apply x u d).1.last = some d.updateId) ∧
      ∀ e, (sb.apply x u d).2 = .error e → (sb.apply x u d).1.last = sb.last := by
  rcases apply_cases (u := u) hpred hsb hd with htaken | ⟨reason, happly⟩
  · obtain ⟨hfollows, hlast, -, output, hok⟩ := htaken.follows hsb
    exact ⟨hfollows, fun _ _ => hlast, fun e he => by rw [hok] at he; cases he⟩
  · rw [happly]
    exact ⟨⟨hsb.model, hsb.maxDepth, hsb.holds⟩, (fun _ he => by cases he), fun _ _ => rfl⟩

/-! ## What is emitted -/

/-- **The monitor of the history.** The state is the id of the last update
applied; an emitted book must show exactly the levels of the history there. -/
def shows (h : VenueHistory) : BookMonitor (Option ℕ) where
  next last d
    | .ok _ => some d.updateId
    | .error _ => last
  ok last book := ∃ id, last = some id ∧ ∀ q,
    PairBook.shownAt book.bids q = (OrderbookDelta.levelOf (h.bids id q)).map (Prod.mk q) ∧
    PairBook.shownAt book.asks q = (OrderbookDelta.levelOf (h.asks id q)).map (Prod.mk q)

/-- The symbol of a frame is no part of its truth. -/
theorem trueFrame_canonical (hd : h.TrueFrame x predicate d) (pair : TradingPair) :
    h.TrueFrame x predicate (d.canonical pair) := by
  unfold TrueFrame at hd ⊢
  split at hd
  · next hsnap =>
    rw [if_pos (show (d.canonical pair).isSnapshot = true from hsnap)]
    exact ⟨hd.bids, hd.asks, hd.bids_all, hd.asks_all⟩
  · next hsnap =>
    rw [if_neg (show ¬ (d.canonical pair).isSnapshot = true from hsnap)]
    exact ⟨hd.bids, hd.asks, hd.bids_changed, hd.asks_changed⟩

/-- **The invariant**: a book follows the history, and its last id is the one
the monitor has seen. -/
structure Seen (h : VenueHistory) (predicate : SeqPredicate) (source : SnapshotSource)
    (sb : SourcedOrderbook) (last : Option ℕ) : Prop where
  /-- The book follows the history. -/
  follows : h.Follows predicate source sb
  /-- Its last id is that of the last update applied. -/
  last : last = sb.last

/-- An apply keeps the invariant, whatever comes of it. -/
theorem Seen.apply {last : Option ℕ} {sb' : SourcedOrderbook}
    {result : Except ResyncNeeded BookOutput} (hpred : predicate ≠ .monotonic)
    (hsb : h.Seen predicate source sb last) (hd : h.TrueFrame x predicate d)
    (happly : sb.apply x u d = (sb', result)) :
    h.Seen predicate source sb' (h.shows.next last d result) := by
  obtain ⟨hfollows, hok, herror⟩ := follows_apply (u := u) hpred hsb.follows hd
  rw [happly] at hfollows hok herror
  refine ⟨hfollows, ?_⟩
  cases result with
  | ok output => exact (hok output rfl).symm
  | error e => exact hsb.last.trans (herror e rfl).symm

/-- A book that has just applied an update is emitted as the history. -/
theorem Seen.ok {cfg : RuntimeConfig} {pair : TradingPair} {b : PairBook} {last : Option ℕ}
    {output : BookOutput} (nowUs : ℕ)
    (hb : h.Seen predicate source b.book (h.shows.next last d (.ok output))) :
    h.shows.ok (h.shows.next last d (.ok output)) (b.capture cfg pair nowUs) := by
  obtain ⟨hholds, -⟩ := hb.follows.holds d.updateId hb.last.symm
  refine ⟨d.updateId, rfl, fun q => ?_⟩
  rw [(b.shownAt_capture q).1, (b.shownAt_capture q).2, hholds.1 q, hholds.2 q]
  exact ⟨rfl, rfl⟩

end VenueHistory

/-! ## The runtime -/

namespace SourceRuntime

variable {cfg : RuntimeConfig} {predicate : SeqPredicate} {source : SnapshotSource}

/-- **No silent corruption.** Whatever true frames of a pair reach the runtime,
in whatever order and however often, and whatever true seeds arrive in
between, every book emitted for the pair has exactly the levels of the
venue's history at the id of the last update applied. -/
theorem emitted_of_history (h : VenueHistory) (hmodel : cfg.model = .seqDelta predicate source)
    (hpred : predicate ≠ .monotonic) (hdepth : cfg.maxDepth = none) (pair : TradingPair)
    (hasher : RandomState TradingPair) (nowUs : ℕ) (wireSymbols : List String)
    (inputs : List Input)
    (hframes : ∀ input ∈ inputs, ∀ d, input.body = .event (.book d) →
      cfg.codec.decode cfg.unicode d.symbol = some pair → h.TrueFrame cfg.crates predicate d)
    (hseeds : ∀ input ∈ inputs, ∀ seed, input.body = .fetched pair (.ok seed) →
      seed.isSnapshot = true ∧ h.TrueSnapshot cfg.crates seed) :
    (h.shows.on pair).Accepts none
      ((machine cfg).run (start cfg hasher nowUs wireSymbols).1 inputs).2 := by
  refine accepts_of_book (J := h.Seen predicate source) (D := h.TrueFrame cfg.crates predicate)
    (fun d hd => VenueHistory.trueFrame_canonical hd pair)
    (fun sb m d sb' result hsb hd happly => hsb.apply hpred hd happly)
    (fun b nowUs m d output hb => hb.ok nowUs) ?_ hframes (fun input hin seed hbody => ?_)
  · rw [hmodel, hdepth]
    exact ⟨⟨rfl, rfl, fun l hl => by cases hl⟩, rfl⟩
  · obtain ⟨hsnap, htrue⟩ := hseeds input hin seed hbody
    unfold VenueHistory.TrueFrame
    rw [if_pos hsnap]
    exact htrue

/-- A history in which a bid at 100 appears at id 7. -/
def bidAppears : VenueHistory where
  bids id q := if q = 99 then 1 else if q = 100 ∧ 7 ≤ id then 3 else 0
  asks _ q := if q = 101 then 2 else 0
  bids_nonneg id q := by split <;> (try split) <;> decide
  asks_nonneg id q := by split <;> decide
  uncrossed id p q hp hq := by
    have hq' : q = 101 := by
      by_contra hne
      exact hq (if_neg hne)
    have hp' : p = 99 ∨ p = 100 := by
      by_contra hne
      rw [not_or] at hne
      exact hp (by rw [if_neg hne.1, if_neg (fun h => hne.2 h.1)])
    rcases hp' with rfl | rfl <;> subst hq' <;> decide

theorem bidAppears_bid {id : ℕ} {q : ℚ} (h : bidAppears.bids id q ≠ 0) :
    (⟨99, 0⟩ : Decimal).value = q ∨ ((⟨100, 0⟩ : Decimal).value = q ∧ 7 ≤ id) := by
  by_contra hne
  rw [not_or] at hne
  have h99 : ¬ q = 99 := fun hq => hne.1 (by rw [hq]; decide)
  have h100 : ¬ (q = 100 ∧ 7 ≤ id) := fun hq => hne.2 ⟨by rw [hq.1]; decide, hq.2⟩
  exact h (by simp only [bidAppears, if_neg h99, if_neg h100])

/-- Only the bid at 100 ever changes. -/
theorem bidAppears_changed {d : NormalizedDelta} {q : ℚ}
    (h : VenueHistory.Changed .rangeInclusive bidAppears.bids d q) :
    q = 100 ∧ d.sequence ≤ 7 ∧ 7 ≤ d.updateId := by
  obtain ⟨i, hseq, hid, hne⟩ := h
  by_cases h99 : q = 99
  · exact absurd (by simp [bidAppears, h99]) hne
  · by_cases h100 : q = 100
    · by_cases hi : i = 6
      · exact ⟨h100, by omega, by omega⟩
      · refine absurd ?_ hne
        have h7 : 7 ≤ i ↔ 7 ≤ i + 1 := by omega
        simp only [bidAppears, h7]
    · exact absurd (by simp [bidAppears, h99, h100]) hne

theorem bidAppears_asks {d : NormalizedDelta} {q : ℚ} :
    ¬ VenueHistory.Changed .rangeInclusive bidAppears.asks d q := by
  rintro ⟨i, -, -, hne⟩
  exact hne rfl

theorem bidAppears_ask {id : ℕ} {q : ℚ} (h : bidAppears.asks id q ≠ 0) :
    OrderbookDelta.Mentions Crates.plain [("101", "2")] q := by
  have h101 : OrderbookDelta.parseLevel Crates.plain ("101", "2") = .ok (⟨101, 0⟩, ⟨2, 0⟩) := rfl
  refine (OrderbookDelta.mentions_cons h101 q).mpr (Or.inl ?_)
  by_contra hne
  exact h (if_neg (fun hq => hne (by rw [hq]; decide)))

theorem bidAppears_truthful_asks (id : ℕ) :
    OrderbookDelta.Truthful Crates.plain (bidAppears.asks id) [("101", "2")] := by
  have h101 : OrderbookDelta.parseLevel Crates.plain ("101", "2") = .ok (⟨101, 0⟩, ⟨2, 0⟩) := rfl
  have hsize : (⟨2, 0⟩ : Decimal).value = bidAppears.asks 0 (⟨101, 0⟩ : Decimal).value := by
    decide
  exact OrderbookDelta.truthful_cons h101 hsize OrderbookDelta.truthful_nil

/-- The book before id 7 has one bid. -/
theorem bidAppears_before {id : ℕ} (h : id < 7) :
    bidAppears.TrueSnapshot Crates.plain (.snap id [("99", "1")] [("101", "2")]) := by
  have h99 : OrderbookDelta.parseLevel Crates.plain ("99", "1") = .ok (⟨99, 0⟩, ⟨1, 0⟩) := rfl
  refine ⟨OrderbookDelta.truthful_cons h99 rfl OrderbookDelta.truthful_nil,
    bidAppears_truthful_asks id, fun q hq => ?_, fun q => bidAppears_ask⟩
  exact (OrderbookDelta.mentions_cons h99 q).mpr
    (Or.inl ((bidAppears_bid hq).resolve_right (fun h7 => absurd h7.2 (Nat.not_le.mpr h))))

/-- The book at id 7 has two. -/
theorem bidAppears_seven :
    bidAppears.TrueSnapshot Crates.plain (.snap 7 [("99", "1"), ("100", "3")] [("101", "2")]) := by
  have h99 : OrderbookDelta.parseLevel Crates.plain ("99", "1") = .ok (⟨99, 0⟩, ⟨1, 0⟩) := rfl
  have h100 : OrderbookDelta.parseLevel Crates.plain ("100", "3") = .ok (⟨100, 0⟩, ⟨3, 0⟩) := rfl
  refine ⟨OrderbookDelta.truthful_cons h99 (by decide)
      (OrderbookDelta.truthful_cons h100 (by decide) OrderbookDelta.truthful_nil),
    bidAppears_truthful_asks 7, fun q hq => ?_, fun q => bidAppears_ask⟩
  exact (OrderbookDelta.mentions_cons h99 q).mpr ((bidAppears_bid hq).imp id
    (fun h => (OrderbookDelta.mentions_cons h100 q).mpr (Or.inl h.1)))

/-- The delta from id 6 to id 7 carries the new bid. -/
theorem bidAppears_six_seven :
    bidAppears.TrueDelta Crates.plain .rangeInclusive (.diff 6 7 [("100", "3")] []) := by
  have h100 : OrderbookDelta.parseLevel Crates.plain ("100", "3") = .ok (⟨100, 0⟩, ⟨3, 0⟩) := rfl
  refine ⟨OrderbookDelta.truthful_cons h100 (by decide) OrderbookDelta.truthful_nil,
    OrderbookDelta.truthful_nil, fun q hq => ?_, fun q hq => absurd hq bidAppears_asks⟩
  refine (OrderbookDelta.mentions_cons h100 q).mpr (Or.inl ?_)
  rw [(bidAppears_changed hq).1]
  decide

/-- A delta that does not cover id 7 is empty. -/
theorem bidAppears_unchanged {first last : ℕ} (h : last < 7 ∨ 7 < first) :
    bidAppears.TrueDelta Crates.plain .rangeInclusive (.diff first last [] []) := by
  refine ⟨OrderbookDelta.truthful_nil, OrderbookDelta.truthful_nil, fun q hq => ?_,
    fun q hq => absurd hq bidAppears_asks⟩
  obtain ⟨-, hfirst, hlast⟩ : q = 100 ∧ first ≤ 7 ∧ 7 ≤ last := bidAppears_changed hq
  omega

/-- A frame that comes too early, a seed it does not continue, a frame that
comes too late, and a seed that both meet. -/
theorem emitted_of_history_out_of_order :
    Effect.applies ((machine .restVenue).run
        (start .restVenue RandomState.table 0 ["BTCUSDT"]).1
        [.frame 8 8 [] [], .seed 5 [("99", "1")] [("101", "2")], .frame 6 7 [("100", "3")] [],
          .seed 7 [("99", "1"), ("100", "3")] [("101", "2")]]).2
      = [(5, true), (8, false), (7, true), (8, true)] ∧
    (bidAppears.shows.on ⟨"BTC", "USDT"⟩).Accepts none ((machine .restVenue).run
        (start .restVenue RandomState.table 0 ["BTCUSDT"]).1
        [.frame 8 8 [] [], .seed 5 [("99", "1")] [("101", "2")], .frame 6 7 [("100", "3")] [],
          .seed 7 [("99", "1"), ("100", "3")] [("101", "2")]]).2 := by
  have hmodel : RuntimeConfig.restVenue.model = .seqDelta .rangeInclusive .restSnapshot := rfl
  refine ⟨by decide, ?_⟩
  with_reducible apply emitted_of_history bidAppears hmodel (by decide) rfl
  · intro input hin d hd _
    simp only [List.mem_cons, List.not_mem_nil, or_false] at hin
    rcases hin with rfl | rfl | rfl | rfl <;> cases hd
    · exact bidAppears_unchanged (.inr (by decide))
    · exact bidAppears_six_seven
  · intro input hin seed hseed
    simp only [List.mem_cons, List.not_mem_nil, or_false] at hin
    rcases hin with rfl | rfl | rfl | rfl <;> cases hseed
    · exact ⟨rfl, bidAppears_before (by decide)⟩
    · exact ⟨rfl, bidAppears_seven⟩

end SourceRuntime
