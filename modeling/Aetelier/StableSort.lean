import Mathlib.Order.Lattice
import Mathlib.Data.List.Pairwise
import Mathlib.Data.List.Nodup

/-!
# Sorting by a key

A stable sort by a key keeps the order of what has the same key. Two things
follow that a loop over a sorted list relies on without saying so.

A map filled from the sorted list keeps at each place the entry that comes
last, and that is the entry of the greatest key, the last of them in the list
as it was (`StableSort.getLast?_filter_sort`).

A test on neighbours – the second begins after the first has ended – holds of
every two of the list, if the list is sorted by where they begin
(`StableSort.pairwise_iff_neighbours`).
-/

namespace StableSort

variable {α β O : Type} [LinearOrder O] (f : α → O)

/-- A list sorted by a key. -/
abbrev sort (l : List α) : List α := l.mergeSort (fun a b => decide (f a ≤ f b))

variable {f}

theorem trans_key (a b c : α) (hab : decide (f a ≤ f b) = true) (hbc : decide (f b ≤ f c) = true) :
    decide (f a ≤ f c) = true :=
  decide_eq_true (le_trans (of_decide_eq_true hab) (of_decide_eq_true hbc))

theorem total_key (a b : α) : (decide (f a ≤ f b) || decide (f b ≤ f a)) = true := by
  rw [Bool.or_eq_true, decide_eq_true_eq, decide_eq_true_eq]
  exact le_total _ _

theorem pairwise_sort (l : List α) : (sort f l).Pairwise (fun a b => f a ≤ f b) :=
  (List.pairwise_mergeSort trans_key total_key l).imp of_decide_eq_true

/-! ## What comes last -/

/-- **What prevails** of a list: of the elements a test accepts, the one of the
greatest key, and the last of these. -/
def prevails (f : α → O) (p : α → Bool) : List α → Option α
  | [] => none
  | a :: l =>
    match prevails f p l with
    | some b => if p a ∧ f b < f a then some a else some b
    | none => if p a then some a else none

/-- **The last of a sorted list is what prevails.** -/
theorem getLast?_filter_sort (p : α → Bool) (l : List α) :
    ((sort f l).filter p).getLast? = prevails f p l := by
  induction l with
  | nil => rw [sort, List.mergeSort_nil]; rfl
  | cons a l ih =>
    obtain ⟨l₁, l₂, hcons, hsort, hlt⟩ := List.mergeSort_cons (trans_key (f := f)) total_key a l
    have hsorted := pairwise_sort (f := f) (a :: l)
    unfold sort at hsorted ih ⊢
    rw [hcons] at hsorted ⊢
    rw [hsort, List.filter_append] at ih
    rw [List.filter_append, prevails, ← ih]
    cases hl₂ : (l₂.filter p).getLast? with
    | some b =>
      -- what comes after `a` has no smaller key, and the last of it stays last
      have hb : b ∈ l₂ := (List.mem_filter.mp (List.mem_of_getLast? hl₂)).1
      have hle : f a ≤ f b := (List.pairwise_cons.mp (List.pairwise_append.mp hsorted).2.1).1 b hb
      have hlast : ∀ l : List α, (l ++ l₂.filter p).getLast? = some b := fun l => by
        rw [List.getLast?_append, hl₂, Option.some_or]
      rw [hlast]
      dsimp only
      rw [if_neg (fun h => absurd h.2 (not_lt.mpr hle))]
      cases hp : p a with
      | true =>
        rw [List.filter_cons_of_pos hp, List.append_cons]
        exact hlast _
      | false =>
        rw [List.filter_cons_of_neg (by rw [hp]; decide)]
        exact hlast _
    | none =>
      -- nothing comes after `a`, and what comes before has a smaller key
      have hnil := List.getLast?_eq_none_iff.mp hl₂
      rw [hnil, List.append_nil]
      cases hp : p a with
      | true =>
        rw [List.filter_cons_of_pos hp, hnil, List.getLast?_append, List.getLast?_singleton,
          Option.some_or]
        cases hl₁ : (l₁.filter p).getLast? with
        | none => rfl
        | some b =>
          have hb := (List.mem_filter.mp (List.mem_of_getLast? hl₁)).1
          have hba : f b < f a := by simpa using hlt b hb
          exact (if_pos ⟨rfl, hba⟩).symm
      | false =>
        rw [List.filter_cons_of_neg (by rw [hp]; decide), hnil, List.append_nil]
        cases (l₁.filter p).getLast? with
        | none => rfl
        | some b => exact (if_neg (fun h => absurd h.1 (by decide))).symm

theorem prevails_filter (p q : α → Bool) (l : List α) :
    prevails f p (l.filter q) = prevails f (fun a => p a && q a) l := by
  induction l with
  | nil => rfl
  | cons a l ih =>
    rw [prevails]
    cases hq : q a with
    | true => rw [List.filter_cons_of_pos hq, prevails, ih, Bool.and_true]
    | false =>
      rw [List.filter_cons_of_neg (by rw [hq]; decide), ih, Bool.and_false]
      cases prevails f (fun a => p a && q a) l with
      | none => rfl
      | some b => exact (if_neg (fun h => absurd h.1 (by decide))).symm

theorem prevails_map (g : β → α) (p : α → Bool) (l : List β) :
    prevails f p (l.map g) = (prevails (fun b => f (g b)) (fun b => p (g b)) l).map g := by
  induction l with
  | nil => rfl
  | cons b l ih =>
    rw [List.map_cons, prevails, prevails, ih]
    cases prevails (fun b => f (g b)) (fun b => p (g b)) l with
    | none =>
      dsimp only [Option.map_none]
      split <;> rfl
    | some b' =>
      dsimp only [Option.map_some]
      split <;> rfl

/-- What prevails is of the list, and passes the test. -/
theorem mem_of_prevails {p : α → Bool} {l : List α} {a : α} (h : prevails f p l = some a) :
    a ∈ l ∧ p a = true := by
  rw [← getLast?_filter_sort] at h
  obtain ⟨hmem, hp⟩ := List.mem_filter.mp (List.mem_of_getLast? h)
  exact ⟨List.mem_mergeSort.mp hmem, hp⟩

/-- Something prevails where something passes the test. -/
theorem isSome_prevails {p : α → Bool} {l : List α} {a : α} (ha : a ∈ l) (hp : p a = true) :
    ∃ b, prevails f p l = some b := by
  rw [← getLast?_filter_sort]
  have hmem : a ∈ (sort f l).filter p := List.mem_filter.mpr ⟨List.mem_mergeSort.mpr ha, hp⟩
  exact ⟨_, List.getLast?_eq_some_getLast (List.ne_nil_of_mem hmem)⟩

/-! ## The ends of a sorted list -/

theorem head?_eq_some_iff {l : List O} (h : l.Pairwise (· ≤ ·)) {o : O} :
    l.head? = some o ↔ o ∈ l ∧ ∀ x ∈ l, o ≤ x := by
  cases l with
  | nil => exact iff_of_false (fun h => by cases h) (fun h => by cases h.1)
  | cons a l =>
    have hle : ∀ x ∈ a :: l, a ≤ x :=
      List.forall_mem_cons.mpr ⟨le_refl a, (List.pairwise_cons.mp h).1⟩
    rw [List.head?_cons, Option.some_inj]
    refine ⟨fun hao => hao ▸ ⟨List.mem_cons_self, hle⟩, fun ⟨hmem, hall⟩ => ?_⟩
    exact le_antisymm (hle o hmem) (hall a List.mem_cons_self)

/-- **Two sorted lists with the same members begin alike.** -/
theorem head?_eq_of_mem_iff {l l' : List O} (hl : l.Pairwise (· ≤ ·)) (hl' : l'.Pairwise (· ≤ ·))
    (h : ∀ o, o ∈ l ↔ o ∈ l') : l.head? = l'.head? := by
  refine Option.ext (fun o => ?_)
  rw [head?_eq_some_iff hl, head?_eq_some_iff hl', h o]
  exact and_congr_right (fun _ => forall_congr' (fun x => imp_congr_left (h x)))

theorem getLast?_eq_some_iff {l : List O} (h : l.Pairwise (· ≤ ·)) {o : O} :
    l.getLast? = some o ↔ o ∈ l ∧ ∀ x ∈ l, x ≤ o := by
  rcases l.eq_nil_or_concat with rfl | ⟨l, a, rfl⟩
  · exact iff_of_false (fun h => by cases h) (fun h => by cases h.1)
  · rw [List.concat_eq_append] at h ⊢
    have hle : ∀ x ∈ l ++ [a], x ≤ a := by
      intro x hx
      rcases List.mem_append.mp hx with hx | hx
      · exact (List.pairwise_append.mp h).2.2 x hx a (List.mem_singleton_self a)
      · exact le_of_eq (List.mem_singleton.mp hx)
    rw [List.getLast?_concat, Option.some_inj]
    have ha : a ∈ l ++ [a] := List.mem_append_right _ (List.mem_singleton_self a)
    refine ⟨fun hao => hao ▸ ⟨ha, hle⟩, fun ⟨hmem, hall⟩ => ?_⟩
    exact le_antisymm (hall a ha) (hle o hmem)

/-- **They end alike.** -/
theorem getLast?_eq_of_mem_iff {l l' : List O} (hl : l.Pairwise (· ≤ ·))
    (hl' : l'.Pairwise (· ≤ ·)) (h : ∀ o, o ∈ l ↔ o ∈ l') : l.getLast? = l'.getLast? := by
  refine Option.ext (fun o => ?_)
  rw [getLast?_eq_some_iff hl, getLast?_eq_some_iff hl', h o]
  exact and_congr_right (fun _ => forall_congr' (fun x => imp_congr_left (h x)))

/-! ## Who comes first -/

/-- **The order of a stable sort**: by the key, and where the keys are the same
by the order there was. -/
theorem pairwise_sort_lex {P : Type} [LinearOrder P] {g : α → P} {l : List α}
    (h : l.Pairwise (fun a b => g a < g b)) :
    (sort f l).Pairwise (fun a b => f a < f b ∨ (f a = f b ∧ g a < g b)) := by
  induction l with
  | nil =>
    rw [sort, List.mergeSort_nil]
    exact List.Pairwise.nil
  | cons a l ih =>
    obtain ⟨l₁, l₂, hcons, hsort, hlt⟩ := List.mergeSort_cons (trans_key (f := f)) total_key a l
    obtain ⟨hhead, hrest⟩ := List.pairwise_cons.mp h
    have hsorted := pairwise_sort (f := f) (a :: l)
    have hih := ih hrest
    unfold sort at hsorted hih ⊢
    rw [hsort] at hih
    rw [hcons] at hsorted ⊢
    obtain ⟨h₁, h₂, h₁₂⟩ := List.pairwise_append.mp hih
    have hafter := (List.pairwise_cons.mp (List.pairwise_append.mp hsorted).2.1).1
    refine List.pairwise_append.mpr ⟨h₁, List.pairwise_cons.mpr ⟨fun b hb => ?_, h₂⟩,
      fun b hb c hc => ?_⟩
    · -- what was after `a` in the list and has its key stays after it
      have hmem : b ∈ l := List.mem_mergeSort.mp (hsort ▸ List.mem_append_right _ hb)
      exact (lt_or_eq_of_le (hafter b hb)).imp id (fun heq => ⟨heq, hhead b hmem⟩)
    · rcases List.mem_cons.mp hc with rfl | hc
      · exact .inl (by simpa using hlt b hb)
      · exact h₁₂ b hb c hc

/-- In a sorted list, a relation between any two is a relation between those
that come one after the other. -/
theorem pairwise_iff_of_sorted {L R : α → α → Prop} (hasymm : ∀ a b, L a b → ¬ L b a)
    {l : List α} (h : l.Pairwise L) :
    l.Pairwise R ↔ ∀ a ∈ l, ∀ b ∈ l, L a b → R a b := by
  constructor
  · intro hR a ha b hb
    have hforward : l.Pairwise (fun a b => L a b → R a b) := by
      refine hR.imp ?_
      intro c d hcd _
      exact hcd
    exact List.Pairwise.forall_of_forall_of_flip
      (fun c _ hcc => absurd hcc (hasymm c c hcc)) hforward
      (h.imp (fun hba hab => absurd hba (hasymm _ _ hab))) ha hb
  · intro hall
    exact h.imp_of_mem (fun ha hb hab => hall _ ha _ hb hab)

/-- **Neighbours stand for all**: in a list sorted by where its elements begin,
each ends before the next begins exactly if each ends before any later one
begins. -/
theorem pairwise_iff_neighbours {first : α → O} (last : α → O) {l : List α}
    (h : l.Pairwise (fun a b => first a ≤ first b)) :
    l.Pairwise (fun a b => last a < first b)
      ↔ ∀ w ∈ l.zip l.tail, last w.1 < first w.2 := by
  induction l with
  | nil => exact iff_of_true List.Pairwise.nil (fun w hw => absurd hw List.not_mem_nil)
  | cons a l ih =>
    obtain ⟨hhead, hrest⟩ := List.pairwise_cons.mp h
    cases l with
    | nil =>
      exact iff_of_true (List.pairwise_singleton _ _) (fun w hw => absurd hw List.not_mem_nil)
    | cons b l =>
      have hzip : (a :: b :: l).zip (a :: b :: l).tail = (a, b) :: (b :: l).zip l := rfl
      rw [hzip, List.forall_mem_cons, List.pairwise_cons, ih hrest]
      refine and_congr_left (fun _ => ⟨fun hall => hall b List.mem_cons_self, fun hab c hc => ?_⟩)
      rcases List.mem_cons.mp hc with rfl | hc
      · exact hab
      · exact lt_of_lt_of_le hab ((List.pairwise_cons.mp hrest).1 c hc)

end StableSort
