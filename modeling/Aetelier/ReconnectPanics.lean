import Aetelier.ReconnectLoop

/-!
# When a policy panics

A policy has no error to return, so what it cannot compute ends the program.
There are two kinds of that. Jitter is drawn from the numbers below the delay
times a factor, and there are none if the delay is less than a millisecond –
which a ladder may start with, and does not leave as long as it starts again.
And durations, instants and floating-point numbers end somewhere: a delay, a
cooldown or a product past that end is not computed either.

`never_panics_iff` says exactly which calls are answered, for every ladder that
goes up. For settings far from the ends of the number types
`never_panics_settings_iff` says it of the settings alone: no jitter, a
millisecond to begin with, or a breaker that opens at the first failure.

Instants are counted from when the clock started. The counter of failures is a
natural number: it wraps, after `2 ^ 32` of them, only where nothing depends on
it. A jitter factor that no floating-point number has stands for infinity.
-/

/-- The longest duration, in nanoseconds. -/
def durationMax : ℕ := 2 ^ 64 * 1000000000 - 1

/-- The first instant that is too late to be told. -/
def instantEnd : ℕ := 2 ^ 63 * 1000000000

/-- From here on a product is not finite. -/
def floatEnd : ℕ := 2 ^ 1024 - 2 ^ 970

/-- A policy of these settings, unless its first cooldown is too long. -/
def ReconnectPolicyBuilder.checkedBuild (b : ReconnectPolicyBuilder) : Option ReconnectPolicy :=
  if durationMax < b.maxDelay * 4 then none else b.build

namespace ReconnectPolicy

/-! ## Calls that may overflow -/

/-- The arithmetic of an answer leaves its number types. -/
def Overflows (p : ReconnectPolicy) (nowNs : ℕ) (reason : DisconnectReason) : Prop :=
  p.givesUp reason = false ∧
    match p.circuitState with
    | .open => False
    | .halfOpen => durationMax < p.cooldownDuration * 2 ∨ durationMax < p.maxDelay * 8 ∨
        instantEnd ≤ nowNs + min (p.cooldownDuration * 2) (p.maxDelay * 8)
    | .closed => 0 < reason.suggestedDelayFactor ∧
        if p.isLast then durationMax < p.maxDelay * 4 ∨ instantEnd ≤ nowNs + p.maxDelay * 4
        else (0 < p.jitterFactor ∧ floatEnd ≤ p.baseMs reason * p.jitterFactor) ∨
          durationMax < p.currentDelay * 2

instance (p : ReconnectPolicy) (nowNs : ℕ) (reason : DisconnectReason) :
    Decidable (p.Overflows nowNs reason) := by
  unfold Overflows
  cases p.circuitState <;> infer_instance

/-- **What to do after a disconnection**, if it can be computed. -/
def checkedAction (p : ReconnectPolicy) (nowNs : ℕ) (draw : Draw) (reason : DisconnectReason) :
    Option (ReconnectPolicy × ReconnectAction) :=
  if p.Overflows nowNs reason then none else p.nextAction nowNs draw reason

/-- A connection was established; the cooldown is computed again. -/
def checkedConnected (p : ReconnectPolicy) : Option ReconnectPolicy :=
  if durationMax < p.maxDelay * 4 then none else some p.onConnected

/-- One call, of a policy that has not panicked. -/
def checkedStep : Option ReconnectPolicy → PolicyCall → Option ReconnectPolicy
  | none, _ => none
  | some p, .nextAction nowNs draw reason => (p.checkedAction nowNs draw reason).map Prod.fst
  | some p, .onConnected => p.checkedConnected
  | some p, .onMessageReceived => some p.onMessageReceived

/-- A policy as a machine, with panics. -/
def checked : Machine (Option ReconnectPolicy) PolicyCall Unit where
  step s call := (checkedStep s call, [])

/-- The delay is on the ladder. -/
def OnLadder (p : ReconnectPolicy) : Prop :=
  p.initialDelay ≤ p.currentDelay ∧ p.currentDelay ≤ p.maxDelay

/-- **A policy that has not panicked**, and whose delay is on the ladder. -/
def Alive (s : Option ReconnectPolicy) : Prop := ∃ p, s = some p ∧ p.OnLadder

/-- **A call that is answered.** While the breaker is closed a delay must be
at least a millisecond if there is jitter, and the product with the jitter
finite; a cooldown must fit into a duration and end at an instant. -/
def AnswersAt (p : ReconnectPolicy) (nowNs : ℕ) (reason : DisconnectReason) : Prop :=
  p.givesUp reason = true ∨
    match p.circuitState with
    | .open => True
    | .halfOpen => p.cooldownDuration * 2 ≤ durationMax ∧ p.maxDelay * 8 ≤ durationMax ∧
        nowNs + min (p.cooldownDuration * 2) (p.maxDelay * 8) < instantEnd
    | .closed => reason.suggestedDelayFactor = 0 ∨
        if p.isLast then nowNs + p.maxDelay * 4 < instantEnd
        else p.jitterFactor = 0 ∨
          nsPerMs ≤ p.currentDelay ∧ p.baseMs reason * p.jitterFactor < floatEnd

instance (p : ReconnectPolicy) (nowNs : ℕ) (reason : DisconnectReason) :
    Decidable (p.AnswersAt nowNs reason) := by
  unfold AnswersAt
  cases p.circuitState <;> infer_instance

/-- The same of a call. -/
def Answers : Option ReconnectPolicy → PolicyCall → Prop
  | some p, .nextAction nowNs _ reason => p.AnswersAt nowNs reason
  | _, _ => True

instance : (s : Option ReconnectPolicy) → (call : PolicyCall) → Decidable (Answers s call)
  | none, .nextAction _ _ _ | none, .onConnected | none, .onMessageReceived => isTrue trivial
  | some p, .nextAction nowNs _ reason => inferInstanceAs (Decidable (p.AnswersAt nowNs reason))
  | some _, .onConnected | some _, .onMessageReceived => isTrue trivial

/-! ## One call -/

/-- One policy has come from another: its settings are the same, and it is on
the ladder, with a cooldown that is not too long, if the other is. -/
structure From (p q : ReconnectPolicy) : Prop where
  initialDelay : q.initialDelay = p.initialDelay
  maxDelay : q.maxDelay = p.maxDelay
  maxAttempts : q.maxAttempts = p.maxAttempts
  jitterFactor : q.jitterFactor = p.jitterFactor
  onLadder : p.OnLadder → q.OnLadder
  cooldown : p.cooldownDuration ≤ p.maxDelay * 8 → q.cooldownDuration ≤ p.maxDelay * 8

section Calls

variable {p q : ReconnectPolicy} {nowNs : ℕ} {draw : Draw} {reason : DisconnectReason}

theorem From.refl (p : ReconnectPolicy) : p.From p := ⟨rfl, rfl, rfl, rfl, id, id⟩

theorem From.trans {r : ReconnectPolicy} (h : p.From q) (h' : q.From r) : p.From r :=
  ⟨h'.initialDelay.trans h.initialDelay, h'.maxDelay.trans h.maxDelay,
    h'.maxAttempts.trans h.maxAttempts, h'.jitterFactor.trans h.jitterFactor,
    fun hp => h'.onLadder (h.onLadder hp),
    fun hp => h.maxDelay ▸ h'.cooldown (h.maxDelay.symm ▸ h.cooldown hp)⟩

/-- The delay after a rung is on the ladder. -/
theorem onLadder_double (h : p.OnLadder) :
    p.initialDelay ≤ min (p.currentDelay * 2) p.maxDelay ∧
      min (p.currentDelay * 2) p.maxDelay ≤ p.maxDelay :=
  ⟨le_min (h.1.trans (Nat.le_mul_of_pos_right _ Nat.two_pos)) p.initialDelay_le, min_le_right _ _⟩

theorem Answered.from {action : ReconnectAction} (h : p.Answered nowNs reason q action) :
    p.From q := by
  cases h with
  | gaveUp | atOnce | cooling => exact From.refl p
  | rung => exact ⟨rfl, rfl, rfl, rfl, onLadder_double, id⟩
  | opened =>
    exact ⟨rfl, rfl, rfl, rfl, id, fun _ => Nat.mul_le_mul_left p.maxDelay (by decide)⟩
  | halfOpened => exact ⟨rfl, rfl, rfl, rfl, id, id⟩
  | reopened => exact ⟨rfl, rfl, rfl, rfl, id, fun _ => min_le_right _ _⟩

theorem from_onConnected (p : ReconnectPolicy) : p.From p.onConnected :=
  ⟨rfl, rfl, rfl, rfl, fun _ => ⟨le_rfl, p.initialDelay_le⟩,
    fun _ => Nat.mul_le_mul_left p.maxDelay (by decide)⟩

theorem from_onMessageReceived (p : ReconnectPolicy) : p.From p.onMessageReceived :=
  ⟨rfl, rfl, rfl, rfl, fun _ => ⟨le_rfl, p.initialDelay_le⟩, id⟩

/-- **One call keeps the settings and the ladder.** -/
theorem from_checkedStep {call : PolicyCall} (h : checkedStep (some p) call = some q) :
    p.From q := by
  cases call with
  | nextAction nowNs draw reason =>
    obtain ⟨r, hr, rfl⟩ := Option.map_eq_some_iff.mp h
    exact (answered (Option.ite_none_left_eq_some.mp hr).2).from
  | onConnected =>
    obtain rfl := Option.some.inj (Option.ite_none_left_eq_some.mp h).2
    exact from_onConnected p
  | onMessageReceived =>
    obtain rfl := Option.some.inj h
    exact from_onMessageReceived p

theorem jitterMs_eq_none_iff {baseMs : ℕ} :
    p.jitterMs baseMs draw = none ↔ 0 < p.jitterFactor ∧ baseMs = 0 := by
  unfold jitterMs
  by_cases hjitter : 0 < p.jitterFactor
  · have hrange : 0 < (baseMs : ℚ≥0) * p.jitterFactor ↔ baseMs ≠ 0 := by
      rw [mul_pos_iff_of_pos_right hjitter, Nat.cast_pos, Nat.pos_iff_ne_zero]
    rw [if_pos hjitter, and_iff_right hjitter]
    split
    · next h => exact iff_of_false (nomatch ·) (hrange.mp h)
    · next h => exact iff_of_true rfl (not_not.mp (fun hne => h (hrange.mpr hne)))
  · rw [if_neg hjitter]
    exact iff_of_false (nomatch ·) (fun h => hjitter h.1)

/-- **When the draw of a rung fails**: there is jitter, and less than a
millisecond of delay. -/
theorem backoff_eq_none_iff (hfactor : 0 < reason.suggestedDelayFactor) :
    p.backoff draw reason = none ↔ 0 < p.jitterFactor ∧ p.currentDelay < nsPerMs := by
  have hbase : p.baseMs reason = 0 ↔ p.currentDelay < nsPerMs := by
    rw [← not_le, ← baseMs_pos_iff hfactor, Nat.pos_iff_ne_zero, not_not]
  have hdraw : p.backoff draw reason = none ↔ p.jitterMs (p.baseMs reason) draw = none := by
    unfold backoff
    cases p.jitterMs (p.baseMs reason) draw with
    | none => exact iff_of_true rfl rfl
    | some jitterMs => exact iff_of_false (nomatch ·) (nomatch ·)
  rw [hdraw, jitterMs_eq_none_iff, hbase]

theorem isSome_checkedAction : (p.checkedAction nowNs draw reason).isSome ↔
    ¬ p.Overflows nowNs reason ∧ (p.nextAction nowNs draw reason).isSome := by
  unfold checkedAction
  split
  · next h => exact iff_of_false (nomatch ·) (fun hn => hn.1 h)
  · next h => exact (and_iff_right h).symm

/-- **Exactly the calls that answer are answered.** -/
theorem checkedAction_isSome_iff (hmax : p.maxDelay * 4 ≤ durationMax) (hp : p.OnLadder) :
    (p.checkedAction nowNs draw reason).isSome ↔ p.AnswersAt nowNs reason := by
  rw [isSome_checkedAction]
  unfold Overflows AnswersAt
  by_cases hup : p.givesUp reason = true
  · rw [nextAction_of_givesUp hup]
    exact iff_of_true ⟨fun h => Bool.noConfusion (h.1.symm.trans hup), rfl⟩ (Or.inl hup)
  · rw [or_iff_right hup]
    replace hup : p.givesUp reason = false := Bool.eq_false_iff.mpr hup
    rw [and_iff_right hup]
    cases hstate : p.circuitState with
    | «open» =>
      rw [nextAction_of_open hup hstate]
      refine iff_of_true ⟨id, ?_⟩ trivial
      split <;> rfl
    | halfOpen =>
      rw [nextAction_of_halfOpen hup hstate, Option.isSome_some, and_iff_left rfl]
      simp only [not_or, not_lt, not_le]
    | closed =>
      rcases Nat.eq_zero_or_pos reason.suggestedDelayFactor with hfactor | hfactor
      · refine iff_of_true ⟨fun h => absurd hfactor h.1.ne', ?_⟩ (Or.inl hfactor)
        unfold nextAction
        rw [if_neg (hup ▸ Bool.false_ne_true), hstate]
        exact congrArg Option.isSome (if_pos hfactor)
      · dsimp only
        rw [nextAction_of_closed hup hstate hfactor, and_iff_right hfactor,
          or_iff_right hfactor.ne']
        cases p.isLast with
        | true =>
          rw [if_pos rfl, if_pos rfl, if_pos rfl, Option.isSome_some, and_iff_left rfl, not_or,
            not_lt, not_le]
          exact and_iff_right hmax
        | false =>
          have hdouble : p.currentDelay * 2 ≤ durationMax :=
            (Nat.mul_le_mul hp.2 (by decide : 2 ≤ 4)).trans hmax
          rw [if_neg Bool.false_ne_true, if_neg Bool.false_ne_true, if_neg Bool.false_ne_true,
            or_iff_left (not_lt.mpr hdouble), Option.isSome_iff_ne_none, Ne,
            backoff_eq_none_iff hfactor]
          show ¬ (0 < p.jitterFactor ∧ _) ∧ ¬ (0 < p.jitterFactor ∧ p.currentDelay < nsPerMs) ↔ _
          rw [pos_iff_ne_zero, ← not_or, ← and_or_left, not_and_or, not_not, not_or, not_le, not_lt,
            and_comm (a := nsPerMs ≤ _)]

/-! ## Whole runs -/

/-- **One call**, of a policy that is alive. -/
theorem alive_checkedStep_iff {call : PolicyCall} (hmax : p.maxDelay * 4 ≤ durationMax)
    (hp : p.OnLadder) : Alive (checkedStep (some p) call) ↔ Answers (some p) call := by
  have hsome : Alive (checkedStep (some p) call) ↔ (checkedStep (some p) call).isSome := by
    refine ⟨fun ⟨q, hq, _⟩ => hq ▸ rfl, fun h => ?_⟩
    obtain ⟨q, hq⟩ := Option.isSome_iff_exists.mp h
    exact ⟨q, hq, (from_checkedStep hq).onLadder hp⟩
  rw [hsome]
  cases call with
  | nextAction nowNs draw reason =>
    exact (Option.isSome_map ..).symm ▸ checkedAction_isSome_iff hmax hp
  | onConnected =>
    refine iff_of_true ?_ trivial
    show (checkedConnected p).isSome
    unfold checkedConnected
    rw [if_neg (not_lt.mpr hmax)]
    rfl
  | onMessageReceived => exact iff_of_true rfl trivial

end Calls

/-- What is known of a policy just built. -/
theorem of_checkedBuild {b : ReconnectPolicyBuilder} {p : ReconnectPolicy}
    (h : b.checkedBuild = some p) :
    p.maxDelay * 4 ≤ durationMax ∧ p.OnLadder ∧ p.cooldownDuration ≤ p.maxDelay * 8 ∧
      p.initialDelay = b.initialDelay ∧ p.maxDelay = b.maxDelay ∧
      p.maxAttempts = b.maxAttempts ∧ p.jitterFactor = b.jitterFactor ∧
      p.circuitState = .closed ∧ p.currentDelay = p.initialDelay ∧ p.consecutiveFailures = 0 := by
  obtain ⟨hmax, hbuild⟩ := Option.ite_none_left_eq_some.mp h
  unfold ReconnectPolicyBuilder.build at hbuild
  split at hbuild
  · next hle =>
    obtain rfl := Option.some.inj hbuild
    exact ⟨not_lt.mp hmax, ⟨le_rfl, hle⟩, Nat.mul_le_mul_left b.maxDelay (by decide), rfl, rfl, rfl,
      rfl, rfl, rfl, rfl⟩
  · cases hbuild

/-- **A policy never panics, and its delay stays on the ladder, exactly as long
as every call answers**: for all settings that are accepted, and any calls. -/
theorem never_panics_iff {b : ReconnectPolicyBuilder} {p : ReconnectPolicy}
    (h : b.checkedBuild = some p) (calls : List PolicyCall) :
    (∀ pre, pre <+: calls → Alive (checked.run (some p) pre).1)
      ↔ checked.Meets Answers (some p) calls := by
  obtain ⟨hmax, hladder, -⟩ := of_checkedBuild h
  refine checked.forall_prefix_iff_meets (I := fun s => ∀ q ∈ s, q.maxDelay * 4 ≤ durationMax)
    (S := Alive) (fun s call hI q hq => ?_) (fun s call hI hS => ?_) ?_ ⟨p, rfl, hladder⟩ calls
  · cases s with
    | none => exact nomatch hq
    | some r =>
      rw [(from_checkedStep hq).maxDelay]
      exact hI r rfl
  · obtain ⟨r, rfl, hr⟩ := hS
    exact alive_checkedStep_iff (hI r rfl) hr
  · intro q hq
    obtain rfl := Option.some.inj hq
    exact hmax

/-! ## The settings alone -/

/-- Settings far from the ends of the number types. -/
structure FarFromEnds (b : ReconnectPolicyBuilder) : Prop where
  durations : b.maxDelay * 16 ≤ durationMax
  floats : ((b.maxDelay / nsPerMs * 2 : ℕ) : ℚ≥0) * b.jitterFactor < floatEnd

/-- The clock of a call is far from its end. -/
def EarlyClock (maxDelay : ℕ) : PolicyCall → Prop
  | .nextAction nowNs _ _ => nowNs + maxDelay * 8 < instantEnd
  | _ => True

/-- **Settings under which a policy never panics**: no jitter, a millisecond to
begin with, or a breaker that opens at the first failure. -/
def NeverPanics (b : ReconnectPolicyBuilder) : Prop :=
  b.jitterFactor = 0 ∨ nsPerMs ≤ b.initialDelay ∨ ∃ n ∈ b.maxAttempts, n ≤ 1

section Settings

variable {b : ReconnectPolicyBuilder} {p q : ReconnectPolicy}

theorem suggestedDelayFactor_le (reason : DisconnectReason) : reason.suggestedDelayFactor ≤ 2 := by
  cases reason <;> simp [DisconnectReason.suggestedDelayFactor]

/-- With such settings every call answers. -/
theorem answers_of_neverPanics (hfar : FarFromEnds b) (hb : NeverPanics b) (h : p.From q)
    (hinitial : p.initialDelay = b.initialDelay) (hmax : p.maxDelay = b.maxDelay)
    (hattempts : p.maxAttempts = b.maxAttempts) (hjitter : p.jitterFactor = b.jitterFactor)
    (hladder : q.OnLadder) (hcooldown : q.cooldownDuration ≤ b.maxDelay * 8) {call : PolicyCall}
    (hcall : EarlyClock b.maxDelay call) : Answers (some q) call := by
  cases call with
  | onConnected | onMessageReceived => exact trivial
  | nextAction nowNs draw reason =>
    replace hcall : nowNs + b.maxDelay * 8 < instantEnd := hcall
    have hdurations := hfar.durations
    show q.AnswersAt nowNs reason
    unfold AnswersAt
    rw [h.maxDelay, hmax]
    right
    cases q.circuitState with
    | «open» => exact trivial
    | halfOpen =>
      refine ⟨by omega, by omega, lt_of_le_of_lt ?_ hcall⟩
      exact Nat.add_le_add_left (min_le_right _ _) _
    | closed =>
      right
      split
      · omega
      · next hlast =>
        rw [h.jitterFactor, hjitter]
        rcases hb with hzero | hms | ⟨n, hn, hle⟩
        · exact Or.inl hzero
        · refine Or.inr ⟨?_, lt_of_le_of_lt (mul_le_mul_left (Nat.cast_le.mpr ?_) _) hfar.floats⟩
          · rw [← hinitial, ← h.initialDelay] at hms
            exact hms.trans hladder.1
          · have hcurrent := hladder.2
            rw [h.maxDelay, hmax] at hcurrent
            exact Nat.mul_le_mul (Nat.div_le_div_right hcurrent) (suggestedDelayFactor_le reason)
        · refine absurd ?_ hlast
          unfold isLast
          rw [h.maxAttempts, hattempts, Option.mem_def.mp hn]
          exact decide_eq_true (hle.trans (Nat.le_add_left 1 _))

/-- A network that fails at once. -/
def networkFails : PolicyCall := .nextAction 0 middle (.transportError "connection refused")

/-- **Which settings never panic**, far from the ends of the number types. -/
theorem never_panics_settings_iff (h : b.checkedBuild = some p) (hfar : FarFromEnds b) :
    (∀ calls, (∀ call ∈ calls, EarlyClock b.maxDelay call) →
        Alive (checked.run (some p) calls).1) ↔ NeverPanics b := by
  obtain ⟨hmax4, hladder, hcooldown, hinitial, hmax, hattempts, hjitter, hclosed, hcurrent,
    hfailures⟩ := of_checkedBuild h
  constructor
  · intro hall
    have hearly : EarlyClock b.maxDelay networkFails := by
      have hdurations := hfar.durations
      show 0 + b.maxDelay * 8 < instantEnd
      unfold durationMax at hdurations
      unfold instantEnd
      omega
    have halive := hall [networkFails] (fun call hcall => List.mem_singleton.mp hcall ▸ hearly)
    have hanswers : Answers (some p) networkFails := (alive_checkedStep_iff hmax4 hladder).mp halive
    replace hanswers : p.AnswersAt 0 (.transportError "connection refused") := hanswers
    unfold AnswersAt at hanswers
    rw [hclosed] at hanswers
    rcases hanswers with hup | hzero | hrung
    · exact nomatch hup
    · exact nomatch hzero
    · by_cases hlast : p.isLast = true
      · unfold isLast at hlast
        rw [hattempts, hfailures, Option.any_eq_true] at hlast
        obtain ⟨n, hn, hle⟩ := hlast
        exact Or.inr (Or.inr ⟨n, hn, of_decide_eq_true hle⟩)
      · rw [if_neg hlast, hjitter, hcurrent, hinitial] at hrung
        exact hrung.imp id (fun hms => Or.inl hms.1)
  · intro hb calls hcalls
    have hrun := (checked.forall_of_invariant (P := fun _ call => EarlyClock b.maxDelay call)
      (I := fun s => ∃ q, s = some q ∧ p.From q) (Q := fun _ => True) ?_ ⟨p, rfl, .refl p⟩
      (Machine.along_of_forall (fun call hcall _ _ => hcalls call hcall) () _)).1
    · obtain ⟨q, hq, hfrom⟩ := hrun
      exact ⟨q, hq, hfrom.onLadder hladder⟩
    · rintro s call ⟨q, rfl, hfrom⟩ hcall
      have hq : q.OnLadder := hfrom.onLadder hladder
      have hanswers := answers_of_neverPanics hfar hb hfrom hinitial hmax hattempts hjitter hq
        (hmax ▸ hfrom.cooldown hcooldown) hcall
      have hq4 : q.maxDelay * 4 ≤ durationMax := hfrom.maxDelay.symm ▸ hmax4
      obtain ⟨r, hr, -⟩ := (alive_checkedStep_iff hq4 hq).mpr hanswers
      exact ⟨⟨r, hr, hfrom.trans (from_checkedStep hr)⟩, fun _ _ => trivial⟩

end Settings

/-! ## A ladder that starts at zero -/

/-- The default settings are answered. -/
theorem never_panics_byDefault :
    ({} : ReconnectPolicyBuilder).checkedBuild = some byDefault ∧
      ∀ pre, pre <+: [.onMessageReceived, networkFails] →
        Alive (checked.run (some byDefault) pre).1 := by
  have hbuild : ({} : ReconnectPolicyBuilder).checkedBuild = some byDefault := by
    unfold ReconnectPolicyBuilder.checkedBuild
    rw [if_neg (by decide)]
    rfl
  refine ⟨hbuild, (never_panics_iff hbuild _).mpr ⟨trivial, Or.inr (Or.inr ?_), trivial⟩⟩
  refine Or.inr ⟨by decide, ?_⟩
  have hbase : ((2000 : ℕ) : ℚ≥0) * (1 / 2) = (1000 : ℕ) := by norm_num
  exact hbase.trans_lt (Nat.cast_lt.mpr (by decide +kernel))

/-- The settings of a file that says `initial_delay_ms = 0`. -/
def fromZero : ReconnectPolicyBuilder where
  initialDelay := 0
  jitterFactor := (1 / 2 : ℚ).toNNRat

/-- **The first failure of the network ends the program.** -/
theorem not_alive_fromZero :
    ({ initialDelayMs := some 0 } : ReconnectSection).frameworkReconnectPolicy = fromZero.build ∧
    ¬ ∀ (b : ReconnectPolicyBuilder) (p : ReconnectPolicy), b.checkedBuild = some p →
      ∀ calls, Alive (checked.run (some p) calls).1 := by
  refine ⟨rfl, fun h => ?_⟩
  obtain ⟨p, hp⟩ : ∃ p, fromZero.checkedBuild = some p := by
    unfold ReconnectPolicyBuilder.checkedBuild
    rw [if_neg (by decide)]
    exact ⟨_, rfl⟩
  obtain ⟨hmax, hladder, -, hinitial, -, hattempts, hjitter, hclosed, hcurrent, hfailures⟩ :=
    of_checkedBuild hp
  have hanswers : Answers (some p) networkFails :=
    (alive_checkedStep_iff hmax hladder).mp (h fromZero p hp [networkFails])
  replace hanswers : p.AnswersAt 0 (.transportError "connection refused") := hanswers
  unfold AnswersAt isLast at hanswers
  rw [hclosed, hattempts] at hanswers
  rcases hanswers with hup | hzero | hrung
  · exact nomatch hup
  · exact nomatch hzero
  · have hpos : (0 : ℚ≥0) < (1 / 2 : ℚ).toNNRat := Rat.toNNRat_pos.mpr (by norm_num)
    rcases hrung with hzero | ⟨hms, -⟩
    · exact hpos.ne' (hjitter.symm.trans hzero)
    · rw [hcurrent, hinitial] at hms
      exact absurd hms (by decide)

end ReconnectPolicy
