import Mathlib.Data.List.Basic

/-!
# Machines with output, and monitors over their traces

A machine reads inputs one at a time and writes a list of outputs at each
step; a run is its final state and the concatenation of what it wrote. A
property of every moment of a run is a *monitor*: a state updated by each
output, and a test each output must pass in the state it finds. Accepting a
trace is passing the test at every output.

`Machine.accepts_of_invariant` is the rule: a relation between machine state
and monitor state that every step keeps, and under which every step writes
only accepted outputs, makes every run accepted. A safety property of a
machine over all its runs is then one lemma per input.
-/

variable {σ ι ε μ γ : Type}

/-! ## Machines -/

/-- **A machine with output.** -/
structure Machine (σ ι ε : Type) where
  /-- One input: the next state, and what is written on the way. -/
  step : σ → ι → σ × List ε

namespace Machine

/-- The final state of a run and everything it wrote. -/
def run (M : Machine σ ι ε) (s : σ) : List ι → σ × List ε
  | [] => (s, [])
  | i :: is => ((M.run (M.step s i).1 is).1, (M.step s i).2 ++ (M.run (M.step s i).1 is).2)

@[simp] theorem run_nil (M : Machine σ ι ε) (s : σ) : M.run s [] = (s, []) := rfl

theorem run_append (M : Machine σ ι ε) (s : σ) (is js : List ι) :
    M.run s (is ++ js)
      = ((M.run (M.run s is).1 js).1, (M.run s is).2 ++ (M.run (M.run s is).1 js).2) := by
  induction is generalizing s with
  | nil => rfl
  | cons i is ih =>
    simp only [List.cons_append, run]
    rw [ih]
    simp only [List.append_assoc]

theorem fst_run_append (M : Machine σ ι ε) (s : σ) (is js : List ι) :
    (M.run s (is ++ js)).1 = (M.run (M.run s is).1 js).1 := by
  rw [run_append]

/-- **A run under an assumption**: every input is admitted in the state it
meets. What is admitted may also depend on a ghost, a state that follows the
run and that the machine does not see. -/
def Along (M : Machine σ ι ε) (ghost : γ → σ → ι → γ) (P : γ → σ → ι → Prop) (g : γ) (s : σ) :
    List ι → Prop
  | [] => True
  | i :: is => P g s i ∧ M.Along ghost P (ghost g s i) (M.step s i).1 is

/-- What every input satisfies by itself is satisfied along every run. -/
theorem along_of_forall {M : Machine σ ι ε} {ghost : γ → σ → ι → γ} {P : γ → σ → ι → Prop}
    {is : List ι} (h : ∀ i ∈ is, ∀ g s, P g s i) (g : γ) (s : σ) : M.Along ghost P g s is := by
  induction is generalizing g s with
  | nil => trivial
  | cons i is ih =>
    exact ⟨h i List.mem_cons_self g s, ih (fun j hj => h j (List.mem_cons_of_mem _ hj)) _ _⟩

/-- **What is collected along a run**, from the state each input meets. -/
def collect {β : Type} (M : Machine σ ι ε) (f : σ → ι → Option β) (s : σ) : List ι → List β
  | [] => []
  | i :: is => (f s i).toList ++ M.collect f (M.step s i).1 is

theorem collect_append_singleton {β : Type} (M : Machine σ ι ε) (f : σ → ι → Option β) (s : σ)
    (is : List ι) (i : ι) :
    M.collect f s (is ++ [i]) = M.collect f s is ++ (f (M.run s is).1 i).toList := by
  induction is generalizing s with
  | nil => exact List.append_nil _
  | cons j is ih =>
    show _ ++ M.collect f (M.step s j).1 (is ++ [i]) = _ ++ M.collect f (M.step s j).1 is ++ _
    rw [ih, List.append_assoc]
    rfl

theorem run_append_singleton (M : Machine σ ι ε) (s : σ) (is : List ι) (i : ι) :
    (M.run s (is ++ [i])).1 = (M.step (M.run s is).1 i).1 := by
  rw [run_append]
  rfl

end Machine

/-! ## Monitors -/

/-- **A monitor**: a state driven by the outputs, and what each output must
satisfy in the state it meets. -/
structure Monitor (μ ε : Type) where
  /-- The state after an output. -/
  next : μ → ε → μ
  /-- The test an output must pass. -/
  ok : μ → ε → Prop

namespace Monitor

/-- The monitor state after a trace. -/
def after (A : Monitor μ ε) (m : μ) (t : List ε) : μ := t.foldl A.next m

/-- Every output passes the test in the state it meets. -/
def Accepts (A : Monitor μ ε) (m : μ) : List ε → Prop
  | [] => True
  | e :: t => A.ok m e ∧ A.Accepts (A.next m e) t

@[simp] theorem after_nil (A : Monitor μ ε) (m : μ) : A.after m [] = m := rfl

@[simp] theorem after_cons (A : Monitor μ ε) (m : μ) (e : ε) (t : List ε) :
    A.after m (e :: t) = A.after (A.next m e) t := rfl

@[simp] theorem after_append (A : Monitor μ ε) (m : μ) (t u : List ε) :
    A.after m (t ++ u) = A.after (A.after m t) u := List.foldl_append

@[simp] theorem accepts_nil (A : Monitor μ ε) (m : μ) : A.Accepts m [] := trivial

@[simp] theorem accepts_cons (A : Monitor μ ε) (m : μ) (e : ε) (t : List ε) :
    A.Accepts m (e :: t) ↔ A.ok m e ∧ A.Accepts (A.next m e) t := Iff.rfl

@[simp] theorem accepts_append (A : Monitor μ ε) (m : μ) (t u : List ε) :
    A.Accepts m (t ++ u) ↔ A.Accepts m t ∧ A.Accepts (A.after m t) u := by
  induction t generalizing m with
  | nil => simp
  | cons e t ih => simp [ih, and_assoc]

instance decidableAccepts (A : Monitor μ ε) [∀ m e, Decidable (A.ok m e)] :
    (m : μ) → (t : List ε) → Decidable (A.Accepts m t)
  | _, [] => .isTrue trivial
  | m, e :: t =>
    have := decidableAccepts A (A.next m e) t
    inferInstanceAs (Decidable (A.ok m e ∧ A.Accepts (A.next m e) t))

/-- A prefix of an accepted trace is accepted. -/
theorem Accepts.of_append {A : Monitor μ ε} {m : μ} {t u : List ε}
    (h : A.Accepts m (t ++ u)) : A.Accepts m t :=
  ((A.accepts_append m t u).mp h).1

end Monitor

/-! ## Rules for admitted inputs -/

/-- **The rule for safety over runs.** If a relation between ghost, machine
and monitor survives every admitted input, and under it every step writes
accepted outputs, then a run of admitted inputs writes an accepted trace. -/
theorem Machine.accepts_of_invariant (M : Machine σ ι ε) (A : Monitor μ ε) {ghost : γ → σ → ι → γ}
    {P : γ → σ → ι → Prop} {I : γ → σ → μ → Prop}
    (hstep : ∀ g s m i, I g s m → P g s i →
      A.Accepts m (M.step s i).2 ∧ I (ghost g s i) (M.step s i).1 (A.after m (M.step s i).2))
    {g : γ} {s : σ} {m : μ} (h : I g s m) {is : List ι} (his : M.Along ghost P g s is) :
    A.Accepts m (M.run s is).2 := by
  induction is generalizing g s m with
  | nil => exact trivial
  | cons i is ih =>
    obtain ⟨hacc, hinv⟩ := hstep g s m i h his.1
    simp only [Machine.run, Monitor.accepts_append]
    exact ⟨hacc, ih hinv his.2⟩

/-- **The rule for one test on every output, under an assumption.** An
invariant of ghost and machine that survives every admitted input, and under
which such an input writes only outputs that pass the test, holds at the end of
every run of admitted inputs, and everything the run writes passes. -/
theorem Machine.forall_along_of_invariant (M : Machine σ ι ε) {ghost : γ → σ → ι → γ}
    {P : γ → σ → ι → Prop} {I : γ → σ → Prop} {Q : ε → Prop}
    (hstep : ∀ g s i, I g s → P g s i → I (ghost g s i) (M.step s i).1 ∧ ∀ e ∈ (M.step s i).2, Q e)
    {g : γ} {s : σ} (h : I g s) {is : List ι} (his : M.Along ghost P g s is) :
    (∃ g, I g (M.run s is).1) ∧ ∀ e ∈ (M.run s is).2, Q e := by
  induction is generalizing g s with
  | nil => exact ⟨⟨g, h⟩, fun e he => absurd he List.not_mem_nil⟩
  | cons i is ih =>
    obtain ⟨hinv, hout⟩ := hstep g s i h his.1
    obtain ⟨hend, hrest⟩ := ih hinv his.2
    refine ⟨hend, fun e he => ?_⟩
    rcases List.mem_append.mp he with he | he
    · exact hout e he
    · exact hrest e he

/-- Every input of a run meets a condition in the state it finds. -/
def Machine.Meets (M : Machine σ ι ε) (P : σ → ι → Prop) (s : σ) (is : List ι) : Prop :=
  M.Along (fun (_ : Unit) _ _ => ()) (fun _ => P) () s is

instance Machine.decidableMeets (M : Machine σ ι ε) (P : σ → ι → Prop) [∀ s i, Decidable (P s i)] :
    (s : σ) → (is : List ι) → Decidable (M.Meets P s is)
  | _, [] => isTrue trivial
  | s, i :: is =>
    have := Machine.decidableMeets M P (M.step s i).1 is
    inferInstanceAs (Decidable (P s i ∧ M.Meets P (M.step s i).1 is))

theorem Machine.meets_append_singleton {M : Machine σ ι ε} {P : σ → ι → Prop} {s : σ} {is : List ι}
    {i : ι} (h : M.Meets P s is) (hi : P (M.run s is).1 i) : M.Meets P s (is ++ [i]) := by
  unfold Meets at h ⊢
  induction is generalizing s with
  | nil => exact ⟨hi, trivial⟩
  | cons j is ih => exact ⟨h.1, ih h.2 hi⟩

/-- Two conditions that say the same of every input say the same of a run. -/
theorem Machine.meets_congr (M : Machine σ ι ε) {P Q : σ → ι → Prop} (h : ∀ s i, P s i ↔ Q s i)
    (s : σ) (is : List ι) : M.Meets P s is ↔ M.Meets Q s is := by
  have heq : P = Q := by
    funext s i
    exact propext (h s i)
  rw [heq]

section Map

variable {τ δ : Type} {M : Machine σ ι ε} {N : Machine τ ι δ} {f : σ → τ}

/-- Part of a state that every step changes as another machine does follows
that machine all along. -/
theorem Machine.run_map (h : ∀ s i, f (M.step s i).1 = (N.step (f s) i).1) (s : σ) (is : List ι) :
    f (M.run s is).1 = (N.run (f s) is).1 := by
  induction is generalizing s with
  | nil => rfl
  | cons i is ih =>
    show f (M.run (M.step s i).1 is).1 = (N.run (N.step (f s) i).1 is).1
    rw [ih, h]

theorem Machine.meets_map (h : ∀ s i, f (M.step s i).1 = (N.step (f s) i).1) {P : τ → ι → Prop}
    (s : σ) (is : List ι) : M.Meets (fun s => P (f s)) s is ↔ N.Meets P (f s) is := by
  induction is generalizing s with
  | nil => exact Iff.rfl
  | cons i is ih =>
    show P (f s) i ∧ M.Meets (fun s => P (f s)) (M.step s i).1 is
      ↔ P (f s) i ∧ N.Meets P (N.step (f s) i).1 is
    rw [ih, h]

end Map

/-! ## Conditions that say what a run does -/

/-- **A condition on each input that says what the input writes** says it of
the whole run. -/
theorem Machine.meets_iff_forall (M : Machine σ ι ε) {P : σ → ι → Prop} {Q : ε → Prop}
    (h : ∀ s i, P s i ↔ ∀ e ∈ (M.step s i).2, Q e) (s : σ) (is : List ι) :
    M.Meets P s is ↔ ∀ e ∈ (M.run s is).2, Q e := by
  induction is generalizing s with
  | nil => exact iff_of_true trivial (fun e he => absurd he List.not_mem_nil)
  | cons i is ih =>
    show P s i ∧ M.Meets P (M.step s i).1 is ↔ ∀ e ∈ (M.step s i).2 ++ _, Q e
    rw [h, ih, List.forall_mem_append]

/-- **The same of admitted inputs.** If an invariant survives every admitted
input, and a condition on such an input says whether all it writes passes a
test, then it says so of every run of admitted inputs. -/
theorem Machine.meets_iff_forall_of_admitted (M : Machine σ ι ε) {I : σ → Prop}
    {A P : σ → ι → Prop} {Q : ε → Prop} (hinv : ∀ s i, I s → A s i → I (M.step s i).1)
    (hiff : ∀ s i, I s → A s i → ((∀ e ∈ (M.step s i).2, Q e) ↔ P s i)) {s : σ} (h : I s)
    {is : List ι} (his : M.Meets A s is) :
    (∀ e ∈ (M.run s is).2, Q e) ↔ M.Meets P s is := by
  induction is generalizing s with
  | nil => exact iff_of_true (fun e he => absurd he List.not_mem_nil) trivial
  | cons i is ih =>
    show (∀ e ∈ (M.step s i).2 ++ _, Q e) ↔ P s i ∧ M.Meets P (M.step s i).1 is
    rw [List.forall_mem_append, hiff s i h his.1, ih (hinv s i h his.1) his.2]

/-- **The rule for one test on every output.** An invariant that survives
every input meeting a condition, and under which such an input writes only
outputs that pass the test, holds after every run of such inputs, and
everything the run writes passes. -/
theorem Machine.forall_of_invariant (M : Machine σ ι ε) {P : σ → ι → Prop} {I : σ → Prop}
    {Q : ε → Prop}
    (hstep : ∀ s i, I s → P s i → I (M.step s i).1 ∧ ∀ e ∈ (M.step s i).2, Q e) {s : σ} (h : I s)
    {is : List ι} (his : M.Meets P s is) : I (M.run s is).1 ∧ ∀ e ∈ (M.run s is).2, Q e := by
  obtain ⟨⟨-, hend⟩, hall⟩ :=
    M.forall_along_of_invariant (I := fun _ => I) (fun _ s i => hstep s i) h his
  exact ⟨hend, hall⟩

/-- **The rule for a property of every moment, of admitted inputs.** If an
invariant survives every admitted input, and such an input keeps the property
exactly if it meets a condition, then the property holds all along a run of
admitted inputs exactly if every input meets the condition. -/
theorem Machine.forall_prefix_iff_meets_of_admitted (M : Machine σ ι ε) {I S : σ → Prop}
    {A P : σ → ι → Prop} (hinv : ∀ s i, I s → A s i → I (M.step s i).1)
    (hstep : ∀ s i, I s → A s i → S s → (S (M.step s i).1 ↔ P s i)) {s : σ} (h : I s) (hs : S s)
    {is : List ι} (his : M.Meets A s is) :
    (∀ pre, pre <+: is → S (M.run s pre).1) ↔ M.Meets P s is := by
  induction is generalizing s with
  | nil =>
    refine iff_of_true (fun pre hpre => ?_) trivial
    rw [List.prefix_nil.mp hpre]
    exact hs
  | cons i is ih =>
    obtain ⟨hadm, hrest⟩ := his
    have hnext : I (M.step s i).1 := hinv s i h hadm
    show _ ↔ P s i ∧ M.Meets P (M.step s i).1 is
    constructor
    · intro hall
      have hkept : S (M.step s i).1 := hall [i] ⟨is, rfl⟩
      refine ⟨(hstep s i h hadm hs).mp hkept, (ih hnext hkept hrest).mp (fun pre hpre => ?_)⟩
      exact hall (i :: pre) (List.cons_prefix_cons.mpr ⟨rfl, hpre⟩)
    · rintro ⟨hi, hmeets⟩ pre hpre
      cases pre with
      | nil => exact hs
      | cons j pre =>
        obtain ⟨rfl, htail⟩ := List.cons_prefix_cons.mp hpre
        exact (ih hnext ((hstep s j h hadm hs).mpr hi) hrest).mpr hmeets pre htail

/-- **The rule for a property of every moment.** If an invariant survives every
input, and an input keeps the property exactly if it meets a condition, then
the property holds all along a run exactly if every input meets the
condition. -/
theorem Machine.forall_prefix_iff_meets (M : Machine σ ι ε) {I S : σ → Prop} {P : σ → ι → Prop}
    (hinv : ∀ s i, I s → I (M.step s i).1) (hstep : ∀ s i, I s → S s → (S (M.step s i).1 ↔ P s i))
    {s : σ} (h : I s) (hs : S s) (is : List ι) :
    (∀ pre, pre <+: is → S (M.run s pre).1) ↔ M.Meets P s is :=
  M.forall_prefix_iff_meets_of_admitted (A := fun _ _ => True) (fun s i hI _ => hinv s i hI)
    (fun s i hI _ => hstep s i hI) h hs (along_of_forall (fun _ _ _ _ => trivial) () s)

/-- **The rule for a monitor and a condition that decides it.** If, as long as
machine and monitor are related, what an input writes is accepted exactly if
the input meets a condition, and such an input keeps the relation, then what a
run writes is accepted exactly if all its inputs meet the condition. -/
theorem Machine.accepts_iff_meets (M : Machine σ ι ε) (A : Monitor μ ε) {I : σ → μ → Prop}
    {P : σ → ι → Prop} (hiff : ∀ s m i, I s m → (A.Accepts m (M.step s i).2 ↔ P s i))
    (hinv : ∀ s m i, I s m → P s i → I (M.step s i).1 (A.after m (M.step s i).2))
    {s : σ} {m : μ} (h : I s m) (is : List ι) :
    A.Accepts m (M.run s is).2 ↔ M.Meets P s is := by
  induction is generalizing s m with
  | nil => exact iff_of_true trivial trivial
  | cons i is ih =>
    show A.Accepts m ((M.step s i).2 ++ _) ↔ P s i ∧ M.Meets P (M.step s i).1 is
    rw [Monitor.accepts_append, hiff s m i h]
    exact and_congr_right (fun hi => ih (hinv s m i h hi))
