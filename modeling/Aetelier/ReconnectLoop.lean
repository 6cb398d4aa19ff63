import Aetelier.ReconnectPolicy
import Mathlib.Data.Rat.Floor

/-!
# The reconnect loop of a worker

The framework worker runs one connection after another. When one has ended it
derives a reason from the way its adapter task ended, asks its reconnect
policy, sleeps for as long as it is told, and connects. The first event of a
connection tells the policy that the connection works.

The breaker of the policy and the worker keep step by themselves. The policy
takes the failure of the connection that follows a cooldown for the end of the
cooldown: it answers with a short pause, as if the probe were still to be
made, and only the failure of the next connection doubles the cooldown. So
there are two connections to each cooldown where one was meant;
`ReconnectLoop.one_probe_iff` says exactly when there is one.

The clock is an input: how long a connection lasted, and how late a sleep
wakes up.
-/

/-- How an adapter task ended, a failure with its reason. -/
inductive AdapterExit where
  /-- A natural end, or a stop that was drained. -/
  | completed
  /-- A stop whose drain took too long. -/
  | drainTimedOut
  /-- A failure. -/
  | failed (reason : DisconnectReason)
  /-- A finite source has delivered everything. -/
  | exhausted
deriving DecidableEq, Repr

/-- What the policy is asked about: an end that is no failure counts as a
clean close. -/
def AdapterExit.policyReason : AdapterExit → DisconnectReason
  | failed reason => reason
  | _ => .cleanClose

/-- The reconnect settings of a configuration file. -/
structure ReconnectSection where
  /-- The first delay, in milliseconds. -/
  initialDelayMs : Option ℕ := none
  /-- The longest delay. -/
  maxDelayMs : Option ℕ := none
  /-- From how many failures on the breaker opens. -/
  maxAttempts : Option ℕ := none
  /-- The jitter, as a fraction of the delay. -/
  jitterFactor : Option ℚ := none

/-- The policy of a worker: its settings, with a second, half a minute, no
maximum and half of the delay where the file says nothing. -/
def ReconnectSection.frameworkReconnectPolicy (s : ReconnectSection) : Option ReconnectPolicy :=
  ReconnectPolicyBuilder.build {
    initialDelay := (s.initialDelayMs.map (· * nsPerMs)).getD (1000 * nsPerMs)
    maxDelay := (s.maxDelayMs.map (· * nsPerMs)).getD (30000 * nsPerMs)
    maxAttempts := s.maxAttempts
    jitterFactor := (s.jitterFactor.getD (1 / 2)).toNNRat }

/-- Where the loop is. -/
inductive LoopPhase where
  /-- A connection is running. -/
  | connected
  /-- It sleeps until this instant. -/
  | waiting (untilNs : ℕ)
  | stopped
deriving DecidableEq, Repr

/-- **The reconnect loop.** -/
structure ReconnectLoop where
  /-- The policy. -/
  policy : ReconnectPolicy
  /-- The current connection has delivered an event. -/
  connectionLive : Bool
  /-- How many connections have ended and were to be made again. -/
  reconnects : ℕ
  /-- When the current connection was made, or the last ended. -/
  nowNs : ℕ
  /-- Where it is. -/
  phase : LoopPhase

/-- What happens to the loop. -/
inductive LoopInput where
  /-- The connection delivers an event. -/
  | event
  /-- It has ended, after this long; with the draw the policy finds. -/
  | ended (exit : AdapterExit) (lastedNs : ℕ) (draw : Draw)
  /-- The sleep is over, this late. -/
  | wake (lateNs : ℕ)
  /-- The worker is stopped. -/
  | stop

/-- What the loop does. -/
inductive LoopEffect where
  /-- The first event of a connection: the policy is told that it works. -/
  | recovered
  /-- The policy was asked. -/
  | decided (d : Decision)
  /-- Another connection is attempted. -/
  | connected (atNs : ℕ)

namespace ReconnectLoop

/-- The first connection. -/
def start (p : ReconnectPolicy) : ReconnectLoop := ⟨p, false, 0, 0, .connected⟩

/-- An event: the first one resets the policy, every one its ladder. -/
def onEvent (w : ReconnectLoop) : ReconnectLoop × List LoopEffect :=
  if w.connectionLive then ({ w with policy := w.policy.onMessageReceived }, [])
  else
    ({ w with policy := w.policy.onConnected.onMessageReceived, connectionLive := true },
      [.recovered])

/-- Where an answer leads. -/
def phaseAfter (nowNs : ℕ) : ReconnectAction → LoopPhase
  | .retryImmediately => .waiting nowNs
  | .retryAfter delayNs => .waiting (nowNs + delayNs)
  | .circuitOpen untilNs => .waiting untilNs
  | .giveUp _ => .stopped

/-- **A connection has ended**: an exhausted source ends the loop, anything
else is for the policy to decide. -/
def onEnded (w : ReconnectLoop) (exit : AdapterExit) (lastedNs : ℕ) (draw : Draw) :
    ReconnectLoop × List LoopEffect :=
  if exit = .exhausted then ({ w with phase := .stopped }, [])
  else
    let now := w.nowNs + lastedNs
    let result := w.policy.nextAction now draw exit.policyReason
    let w' := { w with
      reconnects := w.reconnects + 1
      nowNs := now
      phase := (result.map (fun r => phaseAfter now r.2)).getD .stopped
      policy := (result.map Prod.fst).getD w.policy }
    (w', [.decided ⟨w.policy, now, exit.policyReason, result⟩])

/-- **One step.** A step that is not possible does nothing. -/
def step (w : ReconnectLoop) (i : LoopInput) : ReconnectLoop × List LoopEffect :=
  match w.phase, i with
  | .connected, .event => w.onEvent
  | .connected, .ended exit lastedNs draw => w.onEnded exit lastedNs draw
  | .waiting untilNs, .wake lateNs =>
    let now := max w.nowNs untilNs + lateNs
    ({ w with nowNs := now, connectionLive := false, phase := .connected }, [.connected now])
  | _, .stop => ({ w with phase := .stopped }, [])
  | _, _ => (w, [])

/-- The loop as a machine. -/
def machine : Machine ReconnectLoop LoopInput LoopEffect := ⟨step⟩

/-! ## Cooldowns and probes -/

/-- The cooldown a decision begins, and how long it is. -/
def cooldownOf (d : Decision) : Option ℕ :=
  match d.result with
  | some (_, .circuitOpen untilNs) => some (untilNs - d.nowNs)
  | _ => none

/-- **One probe per cooldown**: since the last cooldown began, at most one
connection is attempted until the next begins or one of them works. -/
def oneProbe : Monitor (Option ℕ) LoopEffect where
  next attempts
    | .recovered => none
    | .decided d => if (cooldownOf d).isSome then some 0 else attempts
    | .connected _ => attempts.map (· + 1)
  ok attempts
    | .connected _ => ∀ n ∈ attempts, n = 0
    | _ => True

/-- **Cooldowns double**: the first is four times the longest delay, each
further one of the same outage twice the one before, up to eight times the
longest delay. -/
def doubling : Monitor (Option ℕ) LoopEffect where
  next last
    | .recovered => none
    | .decided d => (cooldownOf d).or last
    | .connected _ => last
  ok last
    | .decided d => ∀ cooldown ∈ cooldownOf d, cooldown = match last with
        | none => d.before.maxDelay * 4
        | some before => min (before * 2) (d.before.maxDelay * 8)
    | _ => True

/-- **A step that probes no second time**: the worker does not connect while
the breaker is half open, that is after the connection that followed a
cooldown has failed. -/
def ProbesOnce (w : ReconnectLoop) : LoopInput → Prop
  | .wake _ => ∀ untilNs, w.phase = .waiting untilNs → w.policy.circuitState ≠ .halfOpen
  | _ => True

/-! ## The breaker and the worker, in step -/

section Steps

variable {w : ReconnectLoop} {exit : AdapterExit} {lastedNs : ℕ} {draw : Draw}

theorem step_event (h : w.phase = .connected) : w.step .event = w.onEvent := by
  unfold step
  rw [h]

theorem step_ended (h : w.phase = .connected) :
    w.step (.ended exit lastedNs draw) = w.onEnded exit lastedNs draw := by
  unfold step
  rw [h]

theorem step_wake {untilNs : ℕ} (h : w.phase = .waiting untilNs) (lateNs : ℕ) :
    w.step (.wake lateNs)
      = ({ w with
          nowNs := max w.nowNs untilNs + lateNs
          connectionLive := false
          phase := .connected },
        [.connected (max w.nowNs untilNs + lateNs)]) := by
  unfold step
  rw [h]

/-- A step that is possible is one of four. -/
theorem step_cases (w : ReconnectLoop) (i : LoopInput) :
    (w.phase = .connected ∧ i = .event) ∨
    (∃ exit lastedNs draw, w.phase = .connected ∧ i = .ended exit lastedNs draw) ∨
    (∃ untilNs lateNs, w.phase = .waiting untilNs ∧ i = .wake lateNs) ∨
    (w.step i).2 = [] ∧ (w.step i).1.policy = w.policy ∧
      ((w.step i).1 = w ∨ (w.step i).1.phase = .stopped) := by
  cases i with
  | event =>
    cases hphase : w.phase with
    | connected => exact Or.inl ⟨rfl, rfl⟩
    | _ =>
      unfold step
      rw [hphase]
      exact Or.inr (Or.inr (Or.inr ⟨rfl, rfl, Or.inl rfl⟩))
  | ended exit lastedNs draw =>
    cases hphase : w.phase with
    | connected => exact Or.inr (Or.inl ⟨exit, lastedNs, draw, rfl, rfl⟩)
    | _ =>
      unfold step
      rw [hphase]
      exact Or.inr (Or.inr (Or.inr ⟨rfl, rfl, Or.inl rfl⟩))
  | wake lateNs =>
    cases hphase : w.phase with
    | waiting untilNs => exact Or.inr (Or.inr (Or.inl ⟨untilNs, lateNs, rfl, rfl⟩))
    | _ =>
      unfold step
      rw [hphase]
      exact Or.inr (Or.inr (Or.inr ⟨rfl, rfl, Or.inl rfl⟩))
  | stop =>
    refine Or.inr (Or.inr (Or.inr ?_))
    cases hphase : w.phase <;>
    · unfold step
      rw [hphase]
      exact ⟨rfl, rfl, Or.inr rfl⟩

/-- **What the end of a connection comes to**: the source is exhausted, the
policy panics, or it answers. -/
theorem onEnded_cases (w : ReconnectLoop) (exit : AdapterExit) (lastedNs : ℕ) (draw : Draw) :
    w.onEnded exit lastedNs draw = ({ w with phase := .stopped }, []) ∨
    (w.policy.nextAction (w.nowNs + lastedNs) draw exit.policyReason = none ∧
      w.onEnded exit lastedNs draw
        = ({ w with
            reconnects := w.reconnects + 1
            nowNs := w.nowNs + lastedNs
            phase := .stopped },
          [.decided ⟨w.policy, w.nowNs + lastedNs, exit.policyReason, none⟩])) ∨
    ∃ after action, w.policy.Answered (w.nowNs + lastedNs) exit.policyReason after action ∧
      w.onEnded exit lastedNs draw
        = ({ w with
            reconnects := w.reconnects + 1
            nowNs := w.nowNs + lastedNs
            phase := phaseAfter (w.nowNs + lastedNs) action
            policy := after },
          [.decided ⟨w.policy, w.nowNs + lastedNs, exit.policyReason, some (after, action)⟩]) := by
  unfold onEnded
  split
  · exact Or.inl rfl
  · right
    dsimp only
    cases hresult : w.policy.nextAction (w.nowNs + lastedNs) draw exit.policyReason with
    | none =>
      left
      exact ⟨rfl, rfl⟩
    | some r =>
      right
      exact ⟨r.1, r.2, ReconnectPolicy.answered hresult, rfl⟩

end Steps

/-- **A cooldown that is running is slept out**: the worker is not connected
before its end. -/
def SleepsOut (w : ReconnectLoop) : Prop :=
  ∀ untilNs ∈ w.policy.cooldownUntil, w.policy.circuitState = .open →
    (w.phase = .connected → untilNs ≤ w.nowNs) ∧ ∀ v, w.phase = .waiting v → untilNs ≤ v

theorem sleepsOut_step {w : ReconnectLoop} (h : w.SleepsOut) (i : LoopInput) :
    (w.step i).1.SleepsOut := by
  rcases step_cases w i with ⟨hphase, rfl⟩ | ⟨exit, lastedNs, draw, hphase, rfl⟩ |
    ⟨untilNs, lateNs, hphase, rfl⟩ | ⟨-, hpolicy, hstay⟩
  · rw [step_event hphase]
    unfold onEvent
    split
    · exact h
    · exact fun untilNs huntil => by cases huntil
  · rw [step_ended hphase]
    rcases onEnded_cases w exit lastedNs draw with hend | ⟨-, hend⟩ | ⟨after, action, hans, hend⟩
    · rw [hend]
      exact fun u hu hopen => ⟨fun hc => (by cases hc), fun v hv => by cases hv⟩
    · rw [hend]
      exact fun u hu hopen => ⟨fun hc => (by cases hc), fun v hv => by cases hv⟩
    · rw [hend]
      intro u hu hopen
      cases hans with
      | gaveUp hup => exact ⟨fun hc => (by cases hc), fun v hv => by cases hv⟩
      | atOnce hup hclosed hfactor => exact absurd (hclosed.symm.trans hopen) (by decide)
      | rung hup hclosed hpos hlast delayMs hle hge =>
        exact absurd (hclosed.symm.trans hopen) (by decide)
      | opened hup hclosed hlast =>
        obtain rfl := Option.some.inj hu
        exact ⟨fun hc => (by cases hc), fun v hv => (LoopPhase.waiting.inj hv).le⟩
      | cooling hup hopen' untilNs huntil hlt =>
        refine ⟨fun hc => (by cases hc), fun v hv => ?_⟩
        obtain rfl := Option.some.inj (huntil.symm.trans hu)
        exact (LoopPhase.waiting.inj hv).le
      | halfOpened hup hopen' hover => cases hopen
      | reopened hup hhalf =>
        obtain rfl := Option.some.inj hu
        exact ⟨fun hc => (by cases hc), fun v hv => (LoopPhase.waiting.inj hv).le⟩
  · rw [step_wake hphase]
    intro u hu hopen
    refine ⟨fun _ => ?_, fun v hv => by cases hv⟩
    exact (((h u hu hopen).2 untilNs hphase).trans (le_max_right _ _)).trans (Nat.le_add_right _ _)
  · intro u hu hopen
    rw [hpolicy] at hu hopen
    rcases hstay with hstay | hstop
    · rw [hstay]
      exact h u hu hopen
    · rw [hstop]
      exact ⟨fun hc => (by cases hc), fun v hv => by cases hv⟩

/-! ## Cooldowns double -/

/-- What the monitor of the cooldowns has seen: nothing while the breaker is
closed, and then the last cooldown. -/
structure Cooling (w : ReconnectLoop) (last : Option ℕ) : Prop where
  sleepsOut : w.SleepsOut
  closed : w.policy.circuitState = .closed → last = none
  tripped : w.policy.circuitState ≠ .closed → last = some w.policy.cooldownDuration

/-- One step keeps this, and the cooldown it begins is the right one. -/
theorem cooling_step {w : ReconnectLoop} {last : Option ℕ} (h : Cooling w last) (i : LoopInput) :
    doubling.Accepts last (w.step i).2 ∧
      Cooling (w.step i).1 (doubling.after last (w.step i).2) := by
  have hsleeps := sleepsOut_step h.sleepsOut i
  rcases step_cases w i with ⟨hphase, rfl⟩ | ⟨exit, lastedNs, draw, hphase, rfl⟩ |
    ⟨untilNs, lateNs, hphase, rfl⟩ | ⟨heffects, hpolicy, -⟩
  · rw [step_event hphase] at hsleeps ⊢
    unfold onEvent at hsleeps ⊢
    split at hsleeps
    · next hlive =>
      rw [if_pos hlive]
      exact ⟨trivial, hsleeps, h.closed, h.tripped⟩
    · next hlive =>
      rw [if_neg hlive]
      exact ⟨⟨trivial, trivial⟩, hsleeps, fun _ => rfl, fun hopen => absurd rfl hopen⟩
  · rw [step_ended hphase] at hsleeps ⊢
    rcases onEnded_cases w exit lastedNs draw with hend | ⟨-, hend⟩ | ⟨after, action, hans, hend⟩
    · rw [hend] at hsleeps ⊢
      exact ⟨trivial, hsleeps, h.closed, h.tripped⟩
    · rw [hend] at hsleeps ⊢
      exact ⟨⟨fun c hc => (by cases hc), trivial⟩, hsleeps, h.closed, h.tripped⟩
    · rw [hend] at hsleeps ⊢
      cases hans with
      | gaveUp hup =>
        exact ⟨⟨fun c hc => (by cases hc), trivial⟩, hsleeps, h.closed, h.tripped⟩
      | atOnce hup hclosed hfactor =>
        exact ⟨⟨fun c hc => (by cases hc), trivial⟩, hsleeps, h.closed, h.tripped⟩
      | rung hup hclosed hpos hlast delayMs hle hge =>
        exact ⟨⟨fun c hc => (by cases hc), trivial⟩, hsleeps, h.closed, h.tripped⟩
      | opened hup hclosed hlast =>
        obtain rfl := h.closed hclosed
        refine ⟨⟨fun c hc => ?_, trivial⟩, hsleeps, fun hc => (by cases hc), fun _ => ?_⟩
        · obtain rfl := Option.some.inj hc
          exact Nat.add_sub_cancel_left _ _
        · exact congrArg some (Nat.add_sub_cancel_left _ _)
      | cooling hup hopen untilNs huntil hlt =>
        -- the worker has slept out the cooldown
        have hslept := (h.sleepsOut untilNs huntil hopen).1 hphase
        exact absurd (hlt.trans_le hslept) (Nat.not_lt.mpr (Nat.le_add_right _ _))
      | halfOpened hup hopen hover =>
        have hlast := h.tripped (hopen ▸ (by decide))
        exact ⟨⟨fun c hc => (by cases hc), trivial⟩, hsleeps, fun hc => (by cases hc),
          fun _ => hlast⟩
      | reopened hup hhalf =>
        obtain rfl := h.tripped (hhalf ▸ (by decide))
        refine ⟨⟨fun c hc => ?_, trivial⟩, hsleeps, fun hc => (by cases hc), fun _ => ?_⟩
        · obtain rfl := Option.some.inj hc
          exact Nat.add_sub_cancel_left _ _
        · exact congrArg some (Nat.add_sub_cancel_left _ _)
  · rw [step_wake hphase] at hsleeps ⊢
    exact ⟨⟨trivial, trivial⟩, hsleeps, h.closed, h.tripped⟩
  · rw [heffects]
    refine ⟨trivial, hsleeps, fun hclosed => ?_, fun hopen => ?_⟩
    · exact h.closed (hpolicy ▸ hclosed)
    · rw [hpolicy] at hopen ⊢
      exact h.tripped hopen

/-- **Every cooldown of every run is twice the one before**, from four up to
eight times the longest delay. -/
theorem cooldowns_double {p : ReconnectPolicy} (hclosed : p.circuitState = .closed)
    (hnone : p.cooldownUntil = none) (inputs : List LoopInput) :
    doubling.Accepts none (machine.run (start p) inputs).2 := by
  have hfree : machine.Along (fun (_ : Unit) _ _ => ()) (fun _ _ _ => True) () (start p) inputs :=
    Machine.along_of_forall (fun _ _ _ _ => trivial) () _
  refine machine.accepts_of_invariant doubling (I := fun _ w last => Cooling w last)
    (fun _ w last i h _ => cooling_step h i) ?_ hfree
  refine ⟨fun u hu => ?_, fun _ => rfl, fun hopen => absurd hclosed hopen⟩
  rw [show (start p).policy.cooldownUntil = none from hnone] at hu
  cases hu

/-! ## One probe -/

/-- What the monitor of the probes has seen: nothing while the breaker is
closed; while it is open, the connection that runs; and while it is half open,
the connection that failed. -/
structure Probing (w : ReconnectLoop) (attempts : Option ℕ) : Prop where
  closed : w.policy.circuitState = .closed → attempts = none
  probes : w.policy.circuitState = .open → w.phase = .connected → attempts = some 1
  sleeps : ∀ v, w.policy.circuitState = .open → w.phase = .waiting v → attempts = some 0
  failed : w.policy.circuitState = .halfOpen →
    w.phase ≠ .connected ∧ ∀ v, w.phase = .waiting v → attempts = some 1

/-- A connection is accepted exactly if the breaker is not half open. -/
theorem accepts_step_iff {w : ReconnectLoop} {attempts : Option ℕ} (h : Probing w attempts)
    (i : LoopInput) : oneProbe.Accepts attempts (w.step i).2 ↔ w.ProbesOnce i := by
  rcases step_cases w i with ⟨hphase, rfl⟩ | ⟨exit, lastedNs, draw, hphase, rfl⟩ |
    ⟨untilNs, lateNs, hphase, rfl⟩ | ⟨heffects, -, hstay⟩
  · rw [step_event hphase]
    unfold onEvent
    split
    · exact iff_of_true trivial trivial
    · exact iff_of_true ⟨trivial, trivial⟩ trivial
  · rw [step_ended hphase]
    rcases onEnded_cases w exit lastedNs draw with
      hend | ⟨-, hend⟩ | ⟨after, action, hans, hend⟩ <;> rw [hend]
    · exact iff_of_true trivial trivial
    · exact iff_of_true ⟨trivial, trivial⟩ trivial
    · exact iff_of_true ⟨trivial, trivial⟩ trivial
  · rw [step_wake hphase]
    show (∀ n ∈ attempts, n = 0) ∧ True
      ↔ ∀ v, w.phase = .waiting v → w.policy.circuitState ≠ .halfOpen
    rw [and_true]
    constructor
    · intro hzero v _ hhalf
      exact absurd (hzero 1 ((h.failed hhalf).2 untilNs hphase)) Nat.one_ne_zero
    · intro hopen n hn
      cases hstate : w.policy.circuitState with
      | closed =>
        rw [h.closed hstate] at hn
        cases hn
      | «open» =>
        rw [h.sleeps untilNs hstate hphase] at hn
        exact (Option.some.inj hn).symm
      | halfOpen => exact absurd hstate (hopen untilNs hphase)
  · rw [heffects]
    refine iff_of_true trivial ?_
    cases i with
    | wake lateNs =>
      intro untilNs hphase hhalf
      rw [step_wake hphase] at heffects
      cases heffects
    | _ => trivial

/-- A step that probes no second time keeps the account. -/
theorem probing_step {w : ReconnectLoop} {attempts : Option ℕ} (h : Probing w attempts)
    {i : LoopInput} (hi : w.ProbesOnce i) :
    Probing (w.step i).1 (oneProbe.after attempts (w.step i).2) := by
  rcases step_cases w i with ⟨hphase, rfl⟩ | ⟨exit, lastedNs, draw, hphase, rfl⟩ |
    ⟨untilNs, lateNs, hphase, rfl⟩ | ⟨heffects, hpolicy, hstay⟩
  · rw [step_event hphase]
    unfold onEvent
    split
    · exact ⟨h.closed, h.probes, h.sleeps, h.failed⟩
    · exact ⟨fun _ => rfl, fun hopen => (by cases hopen), fun v hopen => (by cases hopen),
        fun hhalf => by cases hhalf⟩
  · rw [step_ended hphase]
    rcases onEnded_cases w exit lastedNs draw with hend | ⟨-, hend⟩ | ⟨after, action, hans, hend⟩
    · rw [hend]
      exact ⟨h.closed, fun _ hc => (by cases hc), fun v _ hv => (by cases hv),
        fun _ => ⟨fun hc => (by cases hc), fun v hv => by cases hv⟩⟩
    · rw [hend]
      exact ⟨h.closed, fun _ hc => (by cases hc), fun v _ hv => (by cases hv),
        fun _ => ⟨fun hc => (by cases hc), fun v hv => by cases hv⟩⟩
    · rw [hend]
      cases hans with
      | gaveUp hup =>
        exact ⟨h.closed, fun _ hc => (by cases hc), fun v _ hv => (by cases hv),
          fun _ => ⟨fun hc => (by cases hc), fun v hv => by cases hv⟩⟩
      | atOnce hup hclosed hfactor =>
        exact ⟨h.closed, fun hopen => absurd (hclosed.symm.trans hopen) (by decide),
          fun v hopen => absurd (hclosed.symm.trans hopen) (by decide),
          fun hhalf => absurd (hclosed.symm.trans hhalf) (by decide)⟩
      | rung hup hclosed hpos hlast delayMs hle hge =>
        exact ⟨h.closed, fun hopen => absurd (hclosed.symm.trans hopen) (by decide),
          fun v hopen => absurd (hclosed.symm.trans hopen) (by decide),
          fun hhalf => absurd (hclosed.symm.trans hhalf) (by decide)⟩
      | opened hup hclosed hlast =>
        exact ⟨fun hc => (by cases hc), fun _ hc => (by cases hc), fun v _ _ => rfl,
          fun hhalf => by cases hhalf⟩
      | cooling hup hopen untilNs huntil hlt =>
        exact ⟨fun hc => absurd (hopen.symm.trans hc) (by decide), fun _ hc => (by cases hc),
          fun v _ _ => rfl, fun hhalf => absurd (hopen.symm.trans hhalf) (by decide)⟩
      | halfOpened hup hopen hover =>
        -- the probe is the connection that has just failed
        refine ⟨fun hc => (by cases hc), fun hc => (by cases hc), fun v hc => (by cases hc),
          fun _ => ⟨fun hc => (by cases hc), fun v _ => ?_⟩⟩
        exact h.probes hopen hphase
      | reopened hup hhalf => exact absurd hphase (h.failed hhalf).1
  · rw [step_wake hphase]
    refine ⟨fun hclosed => ?_, fun hopen _ => ?_, fun v _ hv => (by cases hv), fun hhalf => ?_⟩
    · exact congrArg (Option.map (· + 1)) (h.closed hclosed)
    · exact congrArg (Option.map (· + 1)) (h.sleeps untilNs hopen hphase)
    · exact absurd hhalf (hi untilNs hphase)
  · rw [heffects]
    rcases hstay with hstay | hstop
    · rw [hstay]
      exact h
    · refine ⟨fun hclosed => h.closed (hpolicy ▸ hclosed), fun _ hc => ?_, fun v _ hv => ?_,
        fun _ => ⟨fun hc => ?_, fun v hv => ?_⟩⟩
      · exact absurd (hstop.symm.trans hc) (fun hne => by cases hne)
      · exact absurd (hstop.symm.trans hv) (fun hne => by cases hne)
      · exact absurd (hstop.symm.trans hc) (fun hne => by cases hne)
      · exact absurd (hstop.symm.trans hv) (fun hne => by cases hne)

/-- The policy of a worker starts closed, with no cooldown, on its first rung. -/
theorem fresh_of_frameworkReconnectPolicy {s : ReconnectSection} {p : ReconnectPolicy}
    (h : s.frameworkReconnectPolicy = some p) :
    p.circuitState = .closed ∧ p.cooldownUntil = none ∧ p.currentDelay = p.initialDelay := by
  unfold ReconnectSection.frameworkReconnectPolicy ReconnectPolicyBuilder.build at h
  split at h
  · obtain rfl := Option.some.inj h
    exact ⟨rfl, rfl, rfl⟩
  · cases h

/-- **There is one probe to each cooldown exactly if the worker never connects
while the breaker is half open**, and the cooldowns double in any case: for
every configuration, and whatever happens to the connections. -/
theorem one_probe_iff {s : ReconnectSection} {p : ReconnectPolicy}
    (h : s.frameworkReconnectPolicy = some p) (inputs : List LoopInput) :
    doubling.Accepts none (machine.run (start p) inputs).2 ∧
      (oneProbe.Accepts none (machine.run (start p) inputs).2 ↔
        machine.Meets ProbesOnce (start p) inputs) := by
  obtain ⟨hclosed, hnone, -⟩ := fresh_of_frameworkReconnectPolicy h
  refine ⟨cooldowns_double hclosed hnone inputs, ?_⟩
  refine machine.accepts_iff_meets oneProbe (I := Probing) (fun w m i hw => accepts_step_iff hw i)
    (fun w m i hw hi => probing_step hw hi) ?_ inputs
  exact ⟨fun _ => rfl, fun hopen => absurd (hclosed.symm.trans hopen) (by decide),
    fun v hopen => absurd (hclosed.symm.trans hopen) (by decide),
    fun hhalf => absurd (hclosed.symm.trans hhalf) (by decide)⟩

/-! ## A sample -/

/-- The breaker opens at the first failure. -/
def oneFailure : ReconnectSection := { maxAttempts := some 1 }

/-- The policy of these settings. -/
def oneFailurePolicy : ReconnectPolicy where
  initialDelay := 1000 * nsPerMs
  maxDelay := 30000 * nsPerMs
  maxAttempts := some 1
  jitterFactor := (1 / 2 : ℚ).toNNRat
  currentDelay := 1000 * nsPerMs
  consecutiveFailures := 0
  circuitState := .closed
  cooldownUntil := none
  cooldownDuration := 30000 * nsPerMs * 4
  dataEverReceived := false
  initialDelay_le := ReconnectPolicy.byDefault.initialDelay_le

/-- A connection that is refused. -/
def refused : LoopInput :=
  .ended (.failed (.transportError "connection refused")) 0 ReconnectPolicy.middle

/-- The breaker opens, the cooldown is slept out, and the probe is refused. The
worker connects again after a second. -/
def refusedTwice : List LoopInput := [refused, .wake 0, refused, .wake 0]

/-- **Two probes after one cooldown.** -/
theorem not_oneProbe_refusedTwice :
    ¬ oneProbe.Accepts none (machine.run (start oneFailurePolicy) refusedTwice).2 := by
  intro h
  obtain ⟨-, -, -, hsecond, -⟩ := h
  exact absurd (hsecond 1 rfl) Nat.one_ne_zero

/-- The breaker opens, and the probe works. -/
def probeWorks : List LoopInput := [refused, .wake 0, .event]

/-- There is one probe. -/
theorem oneProbe_probeWorks :
    oneProbe.Accepts none (machine.run (start oneFailurePolicy) probeWorks).2 := by
  have hpolicy : oneFailure.frameworkReconnectPolicy = some oneFailurePolicy := rfl
  refine ((one_probe_iff hpolicy probeWorks).2).mpr ⟨trivial, ?_, trivial, trivial⟩
  -- at the only wake-up the breaker is open
  exact fun untilNs _ hhalf => by cases hhalf

end ReconnectLoop
