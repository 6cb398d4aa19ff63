import Aetelier.BatchedChanges
import Aetelier.MarketFlush

/-!
# The change of the open interest

`market_aggregate` drains the buffer and gives each row the change of the open
interest to the row before. A row without open interest counts as zero, which
does no harm: the next row has its full open interest as change, the empty one
had the loss. But every call starts at zero again, and what the last row of the
call before had is then not taken off: the first row of a call has its whole open
interest as change, the first row of all included.

So the changes telescope within a call, and over several calls exactly if no call
ends on a row with open interest while more is to come (`oiTelescopes_iff`).
Numbers are exact here.
-/

/-- The open contracts of a snapshot, zero if it carries none. -/
def MarketSnapshot.contracts (snap : MarketSnapshot) : ℚ :=
  (MarketAggregate.openInterestStats Floats.exact snap.openInterest).1

namespace MarketSynchronizer

/-- Successive calls of `market_aggregate`, and what is emitted between them.
The rows of all calls, in order. -/
def aggregateCalls {F : Type} (fl : Floats F) (s : MarketSynchronizer) :
    List (List MarketSnapshot) → List (MarketAggregate F)
  | [] => (s.marketAggregate fl).2
  | emitted :: later =>
    let (s', rows) := s.marketAggregate fl
    rows ++ aggregateCalls fl { s' with buffer := s'.buffer ++ emitted } later

theorem aggregateCalls_eq {F : Type} (fl : Floats F) (s : MarketSynchronizer)
    (later : List (List MarketSnapshot)) :
    s.aggregateCalls fl later
      = (s.buffer :: later).flatMap (MarketAggregate.ofSnapshots fl (fl.ofNat 0)) := by
  induction later generalizing s with
  | nil => exact (List.append_nil _).symm
  | cons emitted later ih =>
    show MarketAggregate.ofSnapshots fl (fl.ofNat 0) s.buffer
      ++ aggregateCalls fl { s with buffer := [] ++ emitted } later = _
    rw [ih]
    rfl

/-- The changes of the open interest of a call are the changes of the open
contracts. -/
theorem map_oiChange_ofSnapshots (prev : ℚ) (snapshots : List MarketSnapshot) :
    (MarketAggregate.ofSnapshots Floats.exact prev snapshots).map MarketAggregate.oiChange
      = Batches.changes MarketSnapshot.contracts prev snapshots := by
  induction snapshots generalizing prev with
  | nil => rfl
  | cons snap rest ih =>
    show _ :: (MarketAggregate.ofSnapshots Floats.exact snap.contracts rest).map _ = _
    rw [ih]
    rfl

theorem map_oiChange_aggregateCalls (s : MarketSynchronizer) (later : List (List MarketSnapshot)) :
    (s.aggregateCalls Floats.exact later).map MarketAggregate.oiChange
      = Batches.allChanges MarketSnapshot.contracts (s.buffer :: later) := by
  rw [aggregateCalls_eq, List.map_flatMap]
  exact congrArg (fun f => List.flatMap f (s.buffer :: later))
    (funext (map_oiChange_ofSnapshots 0))

/-- **The changes of the open interest telescope**: the first is zero, and
between two rows that carry open interest they sum up to the difference. The
calls drain the buffer and then what is emitted before each later one. -/
structure OiTelescopes (s : MarketSynchronizer) (later : List (List MarketSnapshot)) : Prop where
  first : ∀ row ∈ (s.aggregateCalls Floats.exact later).head?, row.oiChange = 0
  sums : ∀ i j a b, i < j → (s.buffer :: later).flatten[i]? = some a →
    (s.buffer :: later).flatten[j]? = some b → a.openInterest ≠ [] → b.openInterest ≠ [] →
    ∑ k ∈ Finset.Ioc i j,
        ((s.aggregateCalls Floats.exact later).map MarketAggregate.oiChange).getD k 0
      = b.contracts - a.contracts

theorem contracts_of_not_carries {snap : MarketSnapshot} (h : ¬ snap.openInterest ≠ []) :
    snap.contracts = 0 := by
  unfold MarketSnapshot.contracts
  rw [not_ne_iff.mp h]
  rfl

/-- The first row has its whole open interest as change. -/
theorem head?_oiChange (s : MarketSynchronizer) (later : List (List MarketSnapshot)) :
    ((s.aggregateCalls Floats.exact later).map MarketAggregate.oiChange).head?
      = (s.buffer :: later).flatten.head?.map MarketSnapshot.contracts := by
  rw [map_oiChange_aggregateCalls]
  generalize s.buffer :: later = batches
  induction batches with
  | nil => rfl
  | cons batch batches ih =>
    cases batch with
    | nil => exact ih
    | cons snap batch => exact congrArg some (sub_zero snap.contracts)

/-- **When the changes of the open interest telescope**: the first row carries
none, and a call ends on a row with open interest only if no later row carries
any. -/
theorem oiTelescopes_iff (s : MarketSynchronizer) (later : List (List MarketSnapshot)) :
    s.OiTelescopes later ↔
      (∀ snap ∈ (s.buffer :: later).flatten.head?, snap.contracts = 0) ∧
        ∀ before after, s.buffer :: later = before ++ after →
          ∀ last ∈ before.flatten.getLast?,
            (∃ snap ∈ after.flatten, snap.openInterest ≠ []) → last.contracts = 0 := by
  have hsums : Batches.Telescopes MarketSnapshot.contracts (fun snap => snap.openInterest ≠ [])
        (s.buffer :: later)
      ↔ Batches.Seamless MarketSnapshot.contracts (fun snap => snap.openInterest ≠ [])
        (s.buffer :: later) :=
    Batches.telescopes_iff (fun _ => contracts_of_not_carries)
  have hfirst : (∀ row ∈ (s.aggregateCalls Floats.exact later).head?, row.oiChange = 0)
      ↔ ∀ snap ∈ (s.buffer :: later).flatten.head?, snap.contracts = 0 := by
    have hhead := head?_oiChange s later
    rw [List.head?_map] at hhead
    cases hrow : (s.aggregateCalls Floats.exact later).head? with
    | none =>
      rw [hrow] at hhead
      rw [Option.map_eq_none_iff.mp hhead.symm]
      exact iff_of_true (fun _ h => nomatch h) (fun _ h => nomatch h)
    | some row =>
      rw [hrow] at hhead
      obtain ⟨snap, hsnap, hvalue⟩ := Option.map_eq_some_iff.mp hhead.symm
      rw [hsnap]
      simp only [Option.mem_some, forall_eq', hvalue]
  have hmap := map_oiChange_aggregateCalls s later
  constructor
  · intro h
    refine ⟨hfirst.mp h.first, hsums.mp (fun i j a b hij hi hj ha hb => ?_)⟩
    have hsum := h.sums i j a b hij hi hj ha hb
    rwa [hmap] at hsum
  · rintro ⟨hhead, hseamless⟩
    refine ⟨hfirst.mpr hhead, fun i j a b hij hi hj ha hb => ?_⟩
    rw [hmap]
    exact hsums.mpr hseamless i j a b hij hi hj ha hb

/-- A row that carries so many open contracts. -/
def oiRow (tsUs contracts : ℕ) : MarketSnapshot :=
  ⟨tsUs, none, [], [], [],
    [⟨tsUs, tsUs, 0, 0, ⟨"BTC", "USDT"⟩, ⟨contracts, 0⟩, none, none, "bybit"⟩], []⟩

theorem contracts_oiRow (tsUs n : ℕ) : (oiRow tsUs n).contracts = n := by
  show Decimal.value ⟨n, 0⟩ = n
  rw [Decimal.value_eq]
  simp

/-- A synchronizer that has emitted a row with 5000 open contracts. -/
def oiEmitted : MarketSynchronizer :=
  { oneRow with buffer := [oiRow 1000000 5000] }

/-- A drain between 5000 and 5200 open contracts: the changes are these numbers
themselves. -/
theorem not_oiTelescopes :
    (¬ ∀ (s : MarketSynchronizer) (later : List (List MarketSnapshot)), s.OiTelescopes later) ∧
      (oiEmitted.aggregateCalls Floats.exact [[oiRow 2000000 5200]]).map
        MarketAggregate.oiChange = [5000, 5200] := by
  have hchanges : (oiEmitted.aggregateCalls Floats.exact [[oiRow 2000000 5200]]).map
      MarketAggregate.oiChange = [5000, 5200] := by
    rw [map_oiChange_aggregateCalls]
    show [(oiRow 1000000 5000).contracts - 0, (oiRow 2000000 5200).contracts - 0] = _
    rw [contracts_oiRow, contracts_oiRow]
    norm_num
  refine ⟨fun h => ?_, hchanges⟩
  have hsum := (h oiEmitted [[oiRow 2000000 5200]]).sums 0 1 _ _ Nat.zero_lt_one rfl rfl
    (List.cons_ne_nil _ _) (List.cons_ne_nil _ _)
  have hrows : Finset.Ioc 0 1 = {1} := rfl
  rw [hchanges, contracts_oiRow, contracts_oiRow, hrows, Finset.sum_singleton] at hsum
  norm_num at hsum

/-- **Within one call the changes telescope**, empty rows or not. -/
theorem sum_oiChange_of_one_call (s : MarketSynchronizer) {i j : ℕ} {a b : MarketSnapshot}
    (hij : i < j) (hi : s.buffer[i]? = some a) (hj : s.buffer[j]? = some b)
    (ha : a.openInterest ≠ []) (hb : b.openInterest ≠ []) :
    ∑ k ∈ Finset.Ioc i j,
        (((s.marketAggregate Floats.exact).2.map MarketAggregate.oiChange).getD k 0)
      = b.contracts - a.contracts := by
  have hseamless : Batches.Seamless MarketSnapshot.contracts
      (fun snap => snap.openInterest ≠ []) [s.buffer] := by
    intro before after hsplit last hlast ⟨snap, hsnap, _⟩
    cases before with
    | nil => cases hlast
    | cons batch before =>
      obtain ⟨-, hrest⟩ := List.cons.inj hsplit
      rw [(List.append_eq_nil_iff.mp hrest.symm).2] at hsnap
      cases hsnap
  have hflat : [s.buffer].flatten = s.buffer := List.append_nil _
  rw [← hflat] at hi hj
  have hsum := Batches.telescopes_of_seamless hseamless i j a b hij hi hj ha hb
  have hmap : (s.marketAggregate Floats.exact).2.map MarketAggregate.oiChange
      = Batches.allChanges MarketSnapshot.contracts [s.buffer] :=
    map_oiChange_aggregateCalls s []
  rw [hmap]
  exact hsum

end MarketSynchronizer
