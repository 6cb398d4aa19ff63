import Aetelier.DepthPruning
import Mathlib.Data.List.Dedup

/-!
# When quotes state a side of a book

A list of quotes has a last word on every price it names. A book has a size at
every price of its levels. The two say the same if the quotes name all levels
and no others, with their sizes.

For a side that is cut to a depth this can be said without the cut: the quotes
are levels of the whole side, no more of them than the depth allows, and every
level they are silent on is behind a full depth of theirs. For a side that
takes changes, it can be said of the side before: no last word removes a
level, and every level the changes are silent on is that far behind.
-/

open OrderbookDelta

/-! ## Last words -/

/-- The last word of a list of quotes on a price. -/
def said (K : List (ℚ × ℚ)) (q : ℚ) : Option ℚ :=
  (K.reverse.find? (fun e => decide (e.1 = q))).map Prod.snd

/-- The prices of a list of quotes, once each. -/
def pricesOf (K : List (ℚ × ℚ)) : List ℚ := (K.map Prod.fst).dedup

/-- The prices of quotes that are better than a level. -/
def ahead (side : OrderSide) (K : List (ℚ × ℚ)) (e : ℚ × ℚ) : List ℚ :=
  (pricesOf K).filter (fun q => place side (q, 0) < place side e)

section Said

variable {side : OrderSide} {n : ℕ} {K : List (ℚ × ℚ)} {m : PriceMap Decimal} {q v : ℚ}

theorem said_eq_none_iff : said K q = none ↔ q ∉ pricesOf K := by
  unfold said pricesOf
  rw [Option.map_eq_none_iff, List.find?_eq_none, List.mem_dedup, List.mem_map]
  simp only [List.mem_reverse, decide_eq_true_eq, not_exists, not_and]

theorem exists_said (hq : q ∈ pricesOf K) : ∃ v, said K q = some v :=
  Option.ne_none_iff_exists'.mp (fun hnone => said_eq_none_iff.mp hnone hq)

theorem mem_of_said (h : said K q = some v) : q ∈ pricesOf K := by
  by_contra hq
  rw [said_eq_none_iff.mpr hq] at h
  exact nomatch h

theorem said_cons (e : ℚ × ℚ) (K : List (ℚ × ℚ)) (q : ℚ) :
    said (e :: K) q = (said K q).or (if e.1 = q then some e.2 else none) := by
  unfold said
  rw [List.reverse_cons, List.find?_append, List.find?_singleton]
  cases K.reverse.find? (fun e => decide (e.1 = q)) with
  | some e' => rfl
  | none =>
    show (if decide (e.1 = q) = true then some e else none).map Prod.snd = _
    by_cases he : e.1 = q
    · rw [if_pos he, if_pos (decide_eq_true he)]
      rfl
    · rw [if_neg he, if_neg (fun h => he (of_decide_eq_true h))]
      rfl

/-! ## The best levels -/

theorem place_eq (side : OrderSide) (q v w : ℚ) : place side (q, v) = place side (q, w) := by
  cases side <;> rfl

theorem nodup_prices (side : OrderSide) (m : PriceMap Decimal) :
    ((ladder side m).map Prod.fst).Nodup := by
  refine List.pairwise_map.mpr ((ladder_sorted side m).imp ?_)
  rintro ⟨q, v⟩ ⟨r, w⟩ hlt rfl
  rw [place_eq side q v w] at hlt
  exact lt_irrefl _ hlt

theorem nodup_bestPrices (side : OrderSide) (n : ℕ) (m : PriceMap Decimal) :
    (((ladder side m).take n).map Prod.fst).Nodup :=
  (nodup_prices side m).sublist ((List.take_sublist n _).map _)

theorem sizeAt_windowOf :
    sizeAt (windowOf side n m) q = some v ↔ (q, v) ∈ (ladder side m).take n := by
  rw [← ladder_windowOf]
  exact (mem_ladder (e := (q, v))).symm

/-- A level is among the best, or all the best are better. -/
theorem mem_take_or {e : ℚ × ℚ} (he : e ∈ ladder side m) :
    e ∈ (ladder side m).take n ∨
      ((ladder side m).take n).length = n ∧
        ∀ e' ∈ (ladder side m).take n, place side e' < place side e := by
  have hsorted := ladder_sorted side m
  rw [← List.take_append_drop n (ladder side m)] at he hsorted
  rcases List.mem_append.mp he with htake | hdrop
  · exact Or.inl htake
  · refine Or.inr ⟨?_, fun e' he' => (List.pairwise_append.mp hsorted).2.2 e' he' e hdrop⟩
    have hpos : 0 < ((ladder side m).drop n).length := List.length_pos_of_mem hdrop
    rw [List.length_drop] at hpos
    rw [List.length_take]
    omega

/-- A price that all the best levels are better than is none of theirs. -/
theorem notMem_bestPrices {e : ℚ × ℚ}
    (hall : ∀ e' ∈ (ladder side m).take n, place side e' < place side e) :
    e.1 ∉ ((ladder side m).take n).map Prod.fst := by
  intro hin
  obtain ⟨⟨r, w⟩, hmem, hr⟩ := List.mem_map.mp hin
  have hlt := hall (r, w) hmem
  rw [show e = (r, e.2) from Prod.ext hr.symm rfl, place_eq side r w e.2] at hlt
  exact lt_irrefl _ hlt

/-- Fewer prices than the depth are better than one of the best levels. -/
theorem length_lt_of_mem_take {e : ℚ × ℚ} (he : e ∈ (ladder side m).take n) {D : List ℚ}
    (hD : D.Nodup) (hbetter : ∀ q ∈ D, ∃ v, (q, v) ∈ ladder side m ∧
      place side (q, v) < place side e) : D.length < n := by
  have hsub : e.1 :: D ⊆ ((ladder side m).take n).map Prod.fst := by
    intro q hq
    rcases List.mem_cons.mp hq with rfl | hq
    · exact List.mem_map_of_mem he
    · obtain ⟨v, hv, hlt⟩ := hbetter q hq
      rcases mem_take_or (n := n) hv with htake | ⟨-, hall⟩
      · exact List.mem_map.mpr ⟨(q, v), htake, rfl⟩
      · exact absurd (hall e he) hlt.asymm
  have hnot : e.1 ∉ D := by
    intro hmem
    obtain ⟨v, -, hlt⟩ := hbetter e.1 hmem
    rw [place_eq side e.1 v e.2] at hlt
    exact lt_irrefl _ hlt
  have hle := (List.nodup_cons.mpr ⟨hnot, hD⟩).length_le_of_subset hsub
  rw [List.length_map, List.length_take, List.length_cons] at hle
  omega

/-! ## A side that is cut -/

/-- **A list of quotes states a side to a depth**: its last words are the
side's levels, it has no more prices than the depth, and every other level of
the side is behind as many of its prices as the depth allows. -/
structure States (depth : Option ℕ) (side : OrderSide) (K : List (ℚ × ℚ))
    (m : PriceMap Decimal) : Prop where
  truthful : ∀ q ∈ pricesOf K, said K q = sizeAt m q
  fits : ∀ n ∈ depth, (pricesOf K).length ≤ n
  rest : ∀ e ∈ ladder side m, e.1 ∉ pricesOf K → ∃ n ∈ depth, n ≤ (ahead side K e).length

instance (depth : Option ℕ) (side : OrderSide) (K : List (ℚ × ℚ)) (m : PriceMap Decimal) :
    Decidable (States depth side K m) :=
  decidable_of_iff ((∀ q ∈ pricesOf K, said K q = sizeAt m q) ∧
      (∀ n ∈ depth, (pricesOf K).length ≤ n) ∧
      ∀ e ∈ ladder side m, e.1 ∉ pricesOf K → ∃ n ∈ depth, n ≤ (ahead side K e).length)
    ⟨fun h => ⟨h.1, h.2.1, h.2.2⟩, fun h => ⟨h.truthful, h.fits, h.rest⟩⟩

namespace States

variable {depth : Option ℕ}

theorem mem_ladder_of_said (h : States depth side K m) (hsaid : said K q = some v) :
    (q, v) ∈ ladder side m :=
  mem_ladder.mpr ((h.truthful q (mem_of_said hsaid)).symm.trans hsaid)

/-- The best levels are all stated: before one that is not, there would be a
full depth of others. -/
theorem mem_pricesOf {e : ℚ × ℚ} (h : States (some n) side K m)
    (he : e ∈ (ladder side m).take n) : e.1 ∈ pricesOf K := by
  by_contra hsilent
  obtain ⟨n', hn', hbehind⟩ := h.rest e (List.mem_of_mem_take he) hsilent
  obtain rfl := Option.mem_some_iff.mp hn'
  refine absurd hbehind (not_le.mpr (length_lt_of_mem_take he ((List.nodup_dedup _).filter _) ?_))
  intro r hr
  obtain ⟨hr, hbetter⟩ := List.mem_filter.mp hr
  obtain ⟨w, hw⟩ := exists_said hr
  refine ⟨w, h.mem_ladder_of_said hw, ?_⟩
  rw [place_eq side r w 0]
  exact of_decide_eq_true hbetter

/-- The stated levels are all among the best: one that is not would be one
price too many. -/
theorem mem_take (h : States (some n) side K m) (hsaid : said K q = some v) :
    (q, v) ∈ (ladder side m).take n := by
  rcases mem_take_or (n := n) (h.mem_ladder_of_said hsaid) with htake | ⟨hlen, hall⟩
  · exact htake
  · have hsub : q :: ((ladder side m).take n).map Prod.fst ⊆ pricesOf K := by
      refine List.cons_subset.mpr ⟨mem_of_said hsaid, fun r hr => ?_⟩
      obtain ⟨e, he, rfl⟩ := List.mem_map.mp hr
      exact h.mem_pricesOf he
    have hnodup := List.nodup_cons.mpr ⟨notMem_bestPrices hall, nodup_bestPrices side n m⟩
    have hle := hnodup.length_le_of_subset hsub
    rw [List.length_cons, List.length_map, hlen] at hle
    exact absurd (h.fits n rfl) (not_le.mpr hle)

/-- What states a side says what is left of it. -/
theorem said_eq (h : States depth side K m) (q : ℚ) : said K q = sizeAt (cut depth side m) q := by
  by_cases hq : q ∈ pricesOf K
  · obtain ⟨v, hv⟩ := exists_said hq
    cases depth with
    | none => exact h.truthful q hq
    | some n => exact hv.trans (sizeAt_windowOf.mpr (h.mem_take hv)).symm
  · rw [said_eq_none_iff.mpr hq]
    refine (Option.eq_none_iff_forall_ne_some.mpr (fun v hv => ?_)).symm
    cases depth with
    | none =>
      obtain ⟨n, hn, -⟩ := h.rest (q, v) (mem_ladder.mpr hv) hq
      exact nomatch hn
    | some n => exact hq (h.mem_pricesOf (sizeAt_windowOf.mp hv))

/-- What says all of a side states it. -/
theorem of_said (h : ∀ q, said K q = sizeAt m q) : States none side K m := by
  refine ⟨fun q _ => h q, fun n hn => (nomatch hn), fun e he hsilent => ?_⟩
  have hsome := (h e.1).trans (mem_ladder.mp he)
  exact absurd (mem_of_said hsome) hsilent

/-- What says what is left of a side states it. -/
theorem of_said_windowOf (h : ∀ q, said K q = sizeAt (windowOf side n m) q) :
    States (some n) side K m := by
  have hkept : ∀ q ∈ pricesOf K, ∃ v, said K q = some v ∧ (q, v) ∈ (ladder side m).take n := by
    intro q hq
    obtain ⟨v, hv⟩ := exists_said hq
    exact ⟨v, hv, sizeAt_windowOf.mp ((h q).symm.trans hv)⟩
  have hsaid : ∀ e ∈ (ladder side m).take n, e.1 ∈ pricesOf K := by
    intro e he
    exact mem_of_said ((h e.1).trans (sizeAt_windowOf.mpr he))
  refine ⟨fun q hq => ?_, fun n' hn' => ?_, fun e he hsilent => ⟨n, rfl, ?_⟩⟩
  · obtain ⟨v, hv, hmem⟩ := hkept q hq
    exact hv.trans (mem_ladder.mp (List.mem_of_mem_take hmem)).symm
  · obtain rfl := Option.mem_some_iff.mp hn'
    have hsub : pricesOf K ⊆ ((ladder side m).take n).map Prod.fst := by
      intro q hq
      obtain ⟨v, -, hmem⟩ := hkept q hq
      exact List.mem_map.mpr ⟨(q, v), hmem, rfl⟩
    have hle := (List.nodup_dedup _).length_le_of_subset hsub
    rw [List.length_map] at hle
    exact hle.trans (List.length_take_le n _)
  · rcases mem_take_or (n := n) he with htake | ⟨hlen, hall⟩
    · exact absurd (hsaid e htake) hsilent
    · have hsub : ((ladder side m).take n).map Prod.fst ⊆ ahead side K e := by
        intro q hq
        obtain ⟨⟨q, v⟩, hmem, rfl⟩ := List.mem_map.mp hq
        refine List.mem_filter.mpr ⟨hsaid _ hmem, decide_eq_true ?_⟩
        rw [place_eq side q 0 v]
        exact hall (q, v) hmem
      have hle := (nodup_bestPrices side n m).length_le_of_subset hsub
      rw [List.length_map, hlen] at hle
      exact hle

end States

/-- **What quotes say of a side that is cut is all of it** exactly if they
state the side to the depth. -/
theorem said_eq_iff (depth : Option ℕ) :
    (∀ q, said K q = sizeAt (cut depth side m) q) ↔ States depth side K m := by
  refine ⟨fun h => ?_, States.said_eq⟩
  cases depth with
  | none => exact States.of_said h
  | some n => exact States.of_said_windowOf h

/-! ## A side that takes changes -/

/-- **What changes leave**: the last word on a price, or the level before
where there is none. -/
theorem sizeAt_applySide_eq {x : Crates} {read : String × String → ℚ × ℚ}
    {levels : List (String × String)}
    (hread : ∀ l ∈ levels, ∃ p s, parseLevel x l = .ok (p, s) ∧ read l = (p.value, s.value))
    (m : PriceMap Decimal) (q : ℚ) :
    sizeAt (applySide x m levels).1 q
      = (said (levels.map read) q).elim (sizeAt m q) levelOf := by
  induction levels generalizing m with
  | nil => rfl
  | cons l levels ih =>
    obtain ⟨⟨p, s, hl, hlread⟩, hrest⟩ := List.forall_mem_cons.mp hread
    have hstep : (applySide x m (l :: levels)).1
        = (applySide x (applyLevel m p s).1 levels).1 := by
      rw [applySide, hl]
    rw [hstep, ih hrest, List.map_cons, said_cons, hlread, sizeAt_applyLevel]
    cases said (levels.map read) q with
    | some v => rfl
    | none =>
      rw [Option.none_or]
      by_cases hq : p.value = q
      · rw [if_pos hq, if_pos hq.symm]
        rfl
      · rw [if_neg hq, if_neg (Ne.symm hq)]

/-- **Changes state the side they leave** exactly if none of them is a
removal, they have no more prices than the depth, and the levels before that
they are silent on are behind a full depth of them. -/
theorem states_applySide_iff {x : Crates} {read : String × String → ℚ × ℚ}
    {levels : List (String × String)}
    (hread : ∀ l ∈ levels, ∃ p s, parseLevel x l = .ok (p, s) ∧ read l = (p.value, s.value))
    (depth : Option ℕ) :
    States depth side (levels.map read) (applySide x m levels).1 ↔
      (∀ q, said (levels.map read) q ≠ some 0) ∧
      (∀ n ∈ depth, (pricesOf (levels.map read)).length ≤ n) ∧
      ∀ e ∈ ladder side m, e.1 ∉ pricesOf (levels.map read) → ∃ n ∈ depth,
        n ≤ (ahead side (levels.map read) e).length := by
  have hladder : ∀ e : ℚ × ℚ, e.1 ∉ pricesOf (levels.map read) →
      (e ∈ ladder side (applySide x m levels).1 ↔ e ∈ ladder side m) := by
    intro e hsilent
    rw [mem_ladder, mem_ladder, sizeAt_applySide_eq hread, said_eq_none_iff.mpr hsilent]
    rfl
  have hword : ∀ q v, said (levels.map read) q = some v →
      sizeAt (applySide x m levels).1 q = if v = 0 then none else some v := by
    intro q v hv
    rw [sizeAt_applySide_eq hread, hv]
    rfl
  constructor
  · intro h
    refine ⟨fun q hzero => ?_, h.fits,
      fun e he hsilent => h.rest e ((hladder e hsilent).mpr he) hsilent⟩
    have hsize := h.truthful q (mem_of_said hzero)
    rw [hword q 0 hzero, hzero] at hsize
    exact nomatch hsize
  · rintro ⟨hnonzero, hfits, hrest⟩
    refine ⟨fun q hq => ?_, hfits,
      fun e he hsilent => hrest e ((hladder e hsilent).mp he) hsilent⟩
    obtain ⟨v, hv⟩ := exists_said hq
    have hne : v ≠ 0 := by
      rintro rfl
      exact hnonzero q hv
    rw [hword q v hv, if_neg hne, hv]

end Said
