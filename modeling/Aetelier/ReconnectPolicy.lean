import Aetelier.Trace
import Mathlib.Algebra.Order.Floor.Semiring
import Mathlib.Data.NNRat.Floor

/-!
# The reconnect policy

A worker asks its policy what to do each time a connection has ended. The
policy classifies the reason, keeps a ladder of delays – each retry waits for
the delay of its rung, times a factor of the reason, plus jitter – and counts
the failures: from a number of them on a circuit breaker opens, and the policy
answers with a cooldown.

Reasons that no retry can heal make it give up, with an exception: once a
message has been received, a protocol close of the venue is retried. The
factor of that reason was chosen as zero because it was never to be used, and
a factor of zero means to retry at once and not to count. So such a close is
retried without a pause, for ever. `ReconnectPolicy.retries_paced_iff` says
exactly which calls are answered as they should be.

Durations and instants are in nanoseconds and are not bounded; delays are
computed in milliseconds, with rationals for the floating-point numbers of the
source. A draw of the random generator is an input, and a draw from an empty
range ends the program.
-/

/-- The nanoseconds of a millisecond. -/
def nsPerMs : ℕ := 1000000

/-- The longest delay that is computed, in milliseconds. -/
def longestDelayMs : ℕ := 2 ^ 64 - 1

/-! ## Reasons -/

/-- Why a connection ended. -/
inductive DisconnectReason where
  /-- The server closed normally. -/
  | cleanClose
  /-- The server is going away. -/
  | goingAway (reason : String)
  /-- The server rejected the connection; the code is zero for a rejection by
  the application. -/
  | protocolRejection (code : ℕ) (reason : String)
  /-- The network failed. -/
  | transportError (source : String)
  /-- Nothing was received for this long. -/
  | staleConnection (silenceNs : ℕ)
  /-- The receiver of the events is gone. -/
  | receiverDropped
  /-- A heartbeat could not be written. -/
  | heartbeatFailed (source : String)
deriving DecidableEq, Repr

namespace DisconnectReason

/-- The reason alone warrants a retry. -/
def isRetryable : DisconnectReason → Bool
  | protocolRejection _ _ => false
  | receiverDropped => false
  | _ => true

/-- What the delay is multiplied with; zero is to retry at once. The two that
are not retryable have a factor for the sake of totality. -/
def suggestedDelayFactor : DisconnectReason → ℕ
  | cleanClose => 0
  | goingAway _ => 1
  | protocolRejection _ _ => 0
  | transportError _ => 2
  | staleConnection _ => 1
  | receiverDropped => 0
  | heartbeatFailed _ => 1

/-- The digits after a decimal point, without trailing zeros. -/
def fraction (digits n : ℕ) : String :=
  let text := (String.ofList (List.replicate (digits - (toString n).length) '0')) ++ toString n
  let kept := (text.toList.reverse.dropWhile (· == '0')).reverse
  if kept.isEmpty then "" else "." ++ String.ofList kept

/-- A duration as it is printed for debugging, in the largest unit that does
not make it a fraction. -/
def debugDuration (ns : ℕ) : String :=
  if 1000000000 ≤ ns then toString (ns / 1000000000) ++ fraction 9 (ns % 1000000000) ++ "s"
  else if 1000000 ≤ ns then toString (ns / 1000000) ++ fraction 6 (ns % 1000000) ++ "ms"
  else if 1000 ≤ ns then toString (ns / 1000) ++ fraction 3 (ns % 1000) ++ "µs"
  else toString ns ++ "ns"

/-- The text of a reason. -/
def display : DisconnectReason → String
  | cleanClose => "server closed normally (1000)"
  | goingAway reason => "server going away (1001): " ++ reason
  | protocolRejection code reason =>
    "protocol rejection (" ++ toString code ++ "): " ++ reason
  | transportError source => "transport error: " ++ source
  | staleConnection silenceNs =>
    "stale connection (no data for " ++ debugDuration silenceNs ++ ")"
  | receiverDropped => "receiver dropped (intentional shutdown)"
  | heartbeatFailed source => "heartbeat write failed: " ++ source

/-- What is retryable has a use for its factor, a clean close apart. -/
theorem suggestedDelayFactor_pos {reason : DisconnectReason} (h : reason.isRetryable = true)
    (hclean : reason ≠ .cleanClose) : 0 < reason.suggestedDelayFactor := by
  cases reason with
  | cleanClose => exact absurd rfl hclean
  | protocolRejection code text => exact Bool.noConfusion h
  | receiverDropped => exact Bool.noConfusion h
  | transportError source => exact Nat.two_pos
  | _ => exact Nat.one_pos

/-- What is not retryable has none. -/
theorem suggestedDelayFactor_of_not_isRetryable {reason : DisconnectReason}
    (h : reason.isRetryable = false) : reason.suggestedDelayFactor = 0 := by
  cases reason with
  | protocolRejection code text => rfl
  | receiverDropped => rfl
  | _ => exact Bool.noConfusion h

end DisconnectReason

/-! ## The policy -/

/-- The states of the circuit breaker. -/
inductive CircuitState where
  /-- Connections are attempted. -/
  | closed
  /-- None is, until the cooldown is over. -/
  | open
  /-- One probe is. -/
  | halfOpen
deriving DecidableEq, Repr

/-- What the caller is to do. -/
inductive ReconnectAction where
  /-- Wait this long, then reconnect. -/
  | retryAfter (delayNs : ℕ)
  | retryImmediately
  /-- Stop, for this reason. -/
  | giveUp (reason : String)
  /-- Wait until this instant, then probe. -/
  | circuitOpen (untilNs : ℕ)
deriving DecidableEq, Repr

/-- How long an action makes the caller wait, unless it is to stop. -/
def ReconnectAction.waitNs (nowNs : ℕ) : ReconnectAction → Option ℕ
  | retryAfter delayNs => some delayNs
  | retryImmediately => some 0
  | giveUp _ => none
  | circuitOpen untilNs => some (untilNs - nowNs)

/-- Where in its range a draw of the random generator lies. -/
structure Draw where
  /-- The fraction of the range. -/
  val : ℚ≥0
  lt_one : val < 1

/-- **A reconnect policy**: its settings and its state. -/
structure ReconnectPolicy where
  /-- The first delay. -/
  initialDelay : ℕ
  /-- The longest delay. -/
  maxDelay : ℕ
  /-- From how many failures on the breaker opens. -/
  maxAttempts : Option ℕ
  /-- The jitter, as a fraction of the delay. -/
  jitterFactor : ℚ≥0
  /-- The delay of the current rung. -/
  currentDelay : ℕ
  /-- Failures since the last connection that worked. -/
  consecutiveFailures : ℕ
  /-- State of the breaker. -/
  circuitState : CircuitState
  /-- When the cooldown is over. -/
  cooldownUntil : Option ℕ
  /-- Length of the cooldown. -/
  cooldownDuration : ℕ
  /-- A message has been received. -/
  dataEverReceived : Bool
  /-- The ladder goes up. -/
  initialDelay_le : initialDelay ≤ maxDelay

/-- The settings of a policy. -/
structure ReconnectPolicyBuilder where
  /-- The first delay. -/
  initialDelay : ℕ := 1000 * nsPerMs
  /-- The longest delay. -/
  maxDelay : ℕ := 30000 * nsPerMs
  /-- From how many failures on the breaker opens. -/
  maxAttempts : Option ℕ := none
  /-- The jitter, as a fraction of the delay. -/
  jitterFactor : ℚ≥0 := 1 / 2

/-- A policy of these settings; a ladder that goes down is refused. -/
def ReconnectPolicyBuilder.build (b : ReconnectPolicyBuilder) : Option ReconnectPolicy :=
  if h : b.initialDelay ≤ b.maxDelay then
    some {
      initialDelay := b.initialDelay
      maxDelay := b.maxDelay
      maxAttempts := b.maxAttempts
      jitterFactor := b.jitterFactor
      currentDelay := b.initialDelay
      consecutiveFailures := 0
      circuitState := .closed
      cooldownUntil := none
      cooldownDuration := b.maxDelay * 4
      dataEverReceived := false
      initialDelay_le := h }
  else none

namespace ReconnectPolicy

/-- A protocol close after data, retried although its reason is not
retryable. -/
def postDataProtocolClose (p : ReconnectPolicy) : DisconnectReason → Bool
  | .protocolRejection code _ => p.dataEverReceived && code != 0
  | _ => false

/-- The policy gives up. -/
def givesUp (p : ReconnectPolicy) (reason : DisconnectReason) : Bool :=
  !reason.isRetryable && !p.postDataProtocolClose reason

/-- The breaker opens for a cooldown. -/
def trip (p : ReconnectPolicy) (nowNs cooldownNs : ℕ) : ReconnectPolicy × ReconnectAction :=
  ({ p with
      cooldownDuration := cooldownNs
      cooldownUntil := some (nowNs + cooldownNs)
      circuitState := .open },
    .circuitOpen (nowNs + cooldownNs))

/-- The jitter of a delay, in milliseconds. No number can be drawn from an
empty range. -/
def jitterMs (p : ReconnectPolicy) (baseMs : ℕ) (draw : Draw) : Option ℚ≥0 :=
  if 0 < p.jitterFactor then
    if 0 < (baseMs : ℚ≥0) * p.jitterFactor then some (draw.val * (baseMs * p.jitterFactor))
    else none
  else some 0

/-- The delay of a reason before jitter, in whole milliseconds. -/
def baseMs (p : ReconnectPolicy) (reason : DisconnectReason) : ℕ :=
  p.currentDelay / nsPerMs * reason.suggestedDelayFactor

/-- **One rung of the ladder**: a delay with jitter, in whole milliseconds that
fit into 64 bits, and the next delay is twice this one. -/
def backoff (p : ReconnectPolicy) (draw : Draw) (reason : DisconnectReason) :
    Option (ReconnectPolicy × ReconnectAction) :=
  match p.jitterMs (p.baseMs reason) draw with
  | none => none
  | some jitterMs =>
    let delayMs := min ⌊(p.baseMs reason : ℚ≥0) + jitterMs⌋₊ longestDelayMs
    some ({ p with currentDelay := min (p.currentDelay * 2) p.maxDelay },
      .retryAfter (delayMs * nsPerMs))

/-- The failure is the one that opens the breaker. -/
def isLast (p : ReconnectPolicy) : Bool := p.maxAttempts.any (· ≤ p.consecutiveFailures + 1)

/-- **What to do after a disconnection.** -/
def nextAction (p : ReconnectPolicy) (nowNs : ℕ) (draw : Draw) (reason : DisconnectReason) :
    Option (ReconnectPolicy × ReconnectAction) :=
  if p.givesUp reason then some (p, .giveUp reason.display)
  else
    match p.circuitState with
    | .open =>
      match p.cooldownUntil.filter (nowNs < ·) with
      | some untilNs => some (p, .circuitOpen untilNs)
      | none => some ({ p with circuitState := .halfOpen }, .retryAfter p.initialDelay)
    | .halfOpen => some (p.trip nowNs (min (p.cooldownDuration * 2) (p.maxDelay * 8)))
    | .closed =>
      if reason.suggestedDelayFactor = 0 then some (p, .retryImmediately)
      else if p.isLast then
        some ({ p with consecutiveFailures := p.consecutiveFailures + 1 }.trip nowNs
          (p.maxDelay * 4))
      else { p with consecutiveFailures := p.consecutiveFailures + 1 }.backoff draw reason

/-- A connection was established. -/
def onConnected (p : ReconnectPolicy) : ReconnectPolicy :=
  { p with
    consecutiveFailures := 0
    currentDelay := p.initialDelay
    cooldownUntil := none
    cooldownDuration := p.maxDelay * 4
    circuitState := .closed }

/-- A message was received. -/
def onMessageReceived (p : ReconnectPolicy) : ReconnectPolicy :=
  { p with currentDelay := p.initialDelay, dataEverReceived := true }

end ReconnectPolicy

/-! ## Calls -/

/-- A call of a policy. -/
inductive PolicyCall where
  /-- A connection has ended; with the clock and the draw it finds. -/
  | nextAction (nowNs : ℕ) (draw : Draw) (reason : DisconnectReason)
  | onConnected
  | onMessageReceived

/-- **A decision**: what the policy was asked and what it answered. No answer
is a panic. -/
structure Decision where
  /-- The policy before. -/
  before : ReconnectPolicy
  /-- The clock. -/
  nowNs : ℕ
  /-- Why the connection ended. -/
  reason : DisconnectReason
  /-- The policy afterwards, and the answer. -/
  result : Option (ReconnectPolicy × ReconnectAction)

namespace ReconnectPolicy

/-- **One call**, of a policy that has not panicked. -/
def step : Option ReconnectPolicy → PolicyCall → Option ReconnectPolicy × List Decision
  | none, _ => (none, [])
  | some p, .nextAction nowNs draw reason =>
    ((p.nextAction nowNs draw reason).map Prod.fst,
      [⟨p, nowNs, reason, p.nextAction nowNs draw reason⟩])
  | some p, .onConnected => (some p.onConnected, [])
  | some p, .onMessageReceived => (some p.onMessageReceived, [])

/-- A policy as a machine. -/
def machine : Machine (Option ReconnectPolicy) PolicyCall Decision := ⟨step⟩

/-- **A failure counts**: the counter goes up, and from the maximum on the
breaker opens; a breaker that has opened does not close. -/
def Counts (before after : ReconnectPolicy) : Prop :=
  (before.circuitState = .closed →
    after.consecutiveFailures = before.consecutiveFailures + 1 ∧
      ∀ limit ∈ before.maxAttempts, limit ≤ after.consecutiveFailures →
        after.circuitState = .open) ∧
  (before.circuitState ≠ .closed → after.circuitState ≠ .closed)

end ReconnectPolicy

/-- **A paced decision**: only a clean close is retried at once; any other
reason that is retryable, or retried, makes the caller wait and counts. -/
def Decision.Paced (d : Decision) : Prop :=
  ∃ after action, d.result = some (after, action) ∧
    (action = .retryImmediately → d.reason = .cleanClose) ∧
    (d.reason ≠ .cleanClose → d.reason.isRetryable = true ∨ action.waitNs d.nowNs ≠ none →
      (∃ w, action.waitNs d.nowNs = some w ∧ 0 < w) ∧ d.before.Counts after)

namespace ReconnectPolicy

/-- **A call that is answered with a pause.** While the breaker is closed the
reason has to be retryable by itself, and the delay that is due – the next
rung, or the cooldown – must not be empty; afterwards only the latter
matters. -/
def PausesAt (p : ReconnectPolicy) (nowNs : ℕ) (reason : DisconnectReason) : Prop :=
  p.givesUp reason = true ∨ reason = .cleanClose ∨
    match p.circuitState with
    | .closed => reason.isRetryable = true ∧
        if p.isLast then 0 < p.maxDelay else nsPerMs ≤ p.currentDelay
    | .open => (∃ untilNs ∈ p.cooldownUntil, nowNs < untilNs) ∨ 0 < p.initialDelay
    | .halfOpen => 0 < p.cooldownDuration ∧ 0 < p.maxDelay

/-- The same of a call. -/
def Pauses : Option ReconnectPolicy → PolicyCall → Prop
  | some p, .nextAction nowNs _ reason => p.PausesAt nowNs reason
  | _, _ => True

/-! ## What a rung waits -/

section Answers

variable {p : ReconnectPolicy} {nowNs : ℕ} {draw : Draw} {reason : DisconnectReason}

theorem nextAction_of_givesUp (h : p.givesUp reason = true) :
    p.nextAction nowNs draw reason = some (p, .giveUp reason.display) :=
  if_pos h

theorem nextAction_of_closed (h : p.givesUp reason = false) (hclosed : p.circuitState = .closed)
    (hfactor : 0 < reason.suggestedDelayFactor) :
    p.nextAction nowNs draw reason
      = if p.isLast then
          some ({ p with consecutiveFailures := p.consecutiveFailures + 1 }.trip nowNs
            (p.maxDelay * 4))
        else { p with consecutiveFailures := p.consecutiveFailures + 1 }.backoff draw reason := by
  unfold nextAction
  rw [if_neg (h ▸ Bool.false_ne_true), hclosed]
  exact if_neg hfactor.ne'

theorem nextAction_of_open (h : p.givesUp reason = false) (hopen : p.circuitState = .open) :
    p.nextAction nowNs draw reason
      = match p.cooldownUntil.filter (nowNs < ·) with
        | some untilNs => some (p, .circuitOpen untilNs)
        | none => some ({ p with circuitState := .halfOpen }, .retryAfter p.initialDelay) := by
  unfold nextAction
  rw [if_neg (h ▸ Bool.false_ne_true), hopen]

theorem nextAction_of_halfOpen (h : p.givesUp reason = false)
    (hhalf : p.circuitState = .halfOpen) :
    p.nextAction nowNs draw reason
      = some (p.trip nowNs (min (p.cooldownDuration * 2) (p.maxDelay * 8))) := by
  unfold nextAction
  rw [if_neg (h ▸ Bool.false_ne_true), hhalf]

variable (draw) in
/-- **A rung waits for at least its delay**, if that is not empty. -/
theorem backoff_of_pos (h : 0 < p.baseMs reason) :
    ∃ delayMs, p.backoff draw reason = some
      ({ p with currentDelay := min (p.currentDelay * 2) p.maxDelay },
        .retryAfter (delayMs * nsPerMs)) ∧
      min (p.baseMs reason) longestDelayMs ≤ delayMs := by
  have hcast : (0 : ℚ≥0) < p.baseMs reason := Nat.cast_pos.mpr h
  obtain ⟨jitterMs, hjitter⟩ : ∃ jitterMs, p.jitterMs (p.baseMs reason) draw = some jitterMs := by
    unfold jitterMs
    split
    · next hpos => exact ⟨_, if_pos (mul_pos hcast hpos)⟩
    · exact ⟨0, rfl⟩
  refine ⟨min ⌊(p.baseMs reason : ℚ≥0) + jitterMs⌋₊ longestDelayMs, ?_, ?_⟩
  · unfold backoff
    rw [hjitter]
  · refine min_le_min_right _ (Nat.le_floor ?_)
    exact le_add_of_nonneg_right zero_le

variable (draw) in
/-- An empty one waits for nothing, or panics. -/
theorem backoff_of_baseMs_eq_zero (h : p.baseMs reason = 0) :
    p.backoff draw reason = none ∨
      ∃ p', p.backoff draw reason = some (p', .retryAfter 0) := by
  unfold backoff jitterMs
  rw [h]
  by_cases hpos : 0 < p.jitterFactor
  · left
    rw [if_pos hpos, if_neg (by simp)]
  · right
    rw [if_neg hpos]
    refine ⟨{ p with currentDelay := min (p.currentDelay * 2) p.maxDelay }, ?_⟩
    dsimp only
    rw [Nat.cast_zero, add_zero, Nat.floor_zero, Nat.zero_min, Nat.zero_mul]

theorem baseMs_pos_iff (h : 0 < reason.suggestedDelayFactor) :
    0 < p.baseMs reason ↔ nsPerMs ≤ p.currentDelay := by
  unfold baseMs
  rw [Nat.pos_iff_ne_zero, Nat.mul_ne_zero_iff, and_iff_left h.ne', Nat.div_ne_zero_iff]
  exact and_iff_right (by decide)

variable (p nowNs reason) in
/-- **What an answer can be.** -/
inductive Answered : ReconnectPolicy → ReconnectAction → Prop
  | gaveUp (h : p.givesUp reason = true) : Answered p (.giveUp reason.display)
  /-- A reason without a factor is retried at once. -/
  | atOnce (hup : p.givesUp reason = false) (hclosed : p.circuitState = .closed)
    (h : reason.suggestedDelayFactor = 0) : Answered p .retryImmediately
  /-- A rung of the ladder, with up to the jitter on top. -/
  | rung (hup : p.givesUp reason = false) (hclosed : p.circuitState = .closed)
    (h : 0 < reason.suggestedDelayFactor) (hlast : p.isLast = false) (delayMs : ℕ)
    (hle : min (p.baseMs reason) longestDelayMs ≤ delayMs)
    (hge : (delayMs : ℚ≥0) ≤ p.baseMs reason + p.baseMs reason * p.jitterFactor) :
    Answered
      { p with
        consecutiveFailures := p.consecutiveFailures + 1
        currentDelay := min (p.currentDelay * 2) p.maxDelay }
      (.retryAfter (delayMs * nsPerMs))
  /-- The last failure opens the breaker. -/
  | opened (hup : p.givesUp reason = false) (hclosed : p.circuitState = .closed)
    (h : p.isLast = true) :
    Answered
      ({ p with consecutiveFailures := p.consecutiveFailures + 1 }.trip nowNs (p.maxDelay * 4)).1
      (.circuitOpen (nowNs + p.maxDelay * 4))
  /-- The cooldown goes on. -/
  | cooling (hup : p.givesUp reason = false) (hopen : p.circuitState = .open) (untilNs : ℕ)
    (h : untilNs ∈ p.cooldownUntil) (hlt : nowNs < untilNs) : Answered p (.circuitOpen untilNs)
  /-- The cooldown is over. -/
  | halfOpened (hup : p.givesUp reason = false) (hopen : p.circuitState = .open)
    (hover : ∀ untilNs ∈ p.cooldownUntil, untilNs ≤ nowNs) :
    Answered { p with circuitState := .halfOpen } (.retryAfter p.initialDelay)
  /-- The failure of a half-open breaker opens it again. -/
  | reopened (hup : p.givesUp reason = false) (hhalf : p.circuitState = .halfOpen) :
    Answered (p.trip nowNs (min (p.cooldownDuration * 2) (p.maxDelay * 8))).1
      (.circuitOpen (nowNs + min (p.cooldownDuration * 2) (p.maxDelay * 8)))

/-- A rung waits for its delay and for less than its jitter. -/
theorem backoff_eq_some {r : ReconnectPolicy × ReconnectAction}
    (h : p.backoff draw reason = some r) :
    ∃ delayMs, r = ({ p with currentDelay := min (p.currentDelay * 2) p.maxDelay },
        .retryAfter (delayMs * nsPerMs)) ∧
      min (p.baseMs reason) longestDelayMs ≤ delayMs ∧
      (delayMs : ℚ≥0) ≤ p.baseMs reason + p.baseMs reason * p.jitterFactor := by
  have hjitter : ∀ jitterMs ∈ p.jitterMs (p.baseMs reason) draw,
      jitterMs ≤ p.baseMs reason * p.jitterFactor := by
    intro drawn hj
    unfold jitterMs at hj
    split at hj
    · split at hj
      · obtain rfl := Option.some.inj hj
        exact mul_le_of_le_one_left zero_le draw.lt_one.le
      · cases hj
    · obtain rfl := Option.some.inj hj
      exact zero_le
  unfold backoff at h
  cases hdrawn : p.jitterMs (p.baseMs reason) draw with
  | none =>
    rw [hdrawn] at h
    cases h
  | some jitterMs =>
    rw [hdrawn] at h
    refine ⟨_, (Option.some.inj h).symm, ?_, ?_⟩
    · refine min_le_min_right _ (Nat.le_floor ?_)
      exact le_add_of_nonneg_right zero_le
    · have hcut : ((min ⌊(p.baseMs reason : ℚ≥0) + jitterMs⌋₊ longestDelayMs : ℕ) : ℚ≥0)
          ≤ (⌊(p.baseMs reason : ℚ≥0) + jitterMs⌋₊ : ℚ≥0) := Nat.cast_le.mpr (min_le_left _ _)
      have hfloor : (⌊(p.baseMs reason : ℚ≥0) + jitterMs⌋₊ : ℚ≥0) ≤ p.baseMs reason + jitterMs :=
        Nat.floor_le zero_le
      exact (hcut.trans hfloor).trans (add_le_add_right (hjitter jitterMs hdrawn) _)

/-- **Every answer is one of these.** -/
theorem answered {r : ReconnectPolicy × ReconnectAction}
    (h : p.nextAction nowNs draw reason = some r) : p.Answered nowNs reason r.1 r.2 := by
  cases hup : p.givesUp reason with
  | true =>
    rw [nextAction_of_givesUp hup] at h
    obtain rfl := Option.some.inj h
    exact .gaveUp hup
  | false =>
    cases hstate : p.circuitState with
    | closed =>
      rcases Nat.eq_zero_or_pos reason.suggestedDelayFactor with hfactor | hfactor
      · unfold nextAction at h
        rw [if_neg (hup ▸ Bool.false_ne_true), hstate] at h
        obtain rfl := Option.some.inj ((if_pos hfactor).symm.trans h)
        exact .atOnce hup hstate hfactor
      · rw [nextAction_of_closed hup hstate hfactor] at h
        split at h
        · next hlast =>
          obtain rfl := Option.some.inj h
          exact .opened hup hstate hlast
        · next hlast =>
          obtain ⟨delayMs, rfl, hle, hge⟩ := backoff_eq_some h
          exact .rung hup hstate hfactor (Bool.eq_false_iff.mpr hlast) delayMs hle hge
    | «open» =>
      rw [nextAction_of_open hup hstate] at h
      split at h
      · next untilNs hrest =>
        obtain ⟨huntil, hlt⟩ := Option.filter_eq_some_iff.mp hrest
        obtain rfl := Option.some.inj h
        exact .cooling hup hstate untilNs huntil (of_decide_eq_true hlt)
      · next hrest =>
        obtain rfl := Option.some.inj h
        refine .halfOpened hup hstate (fun untilNs huntil => Nat.le_of_not_lt (fun hlt => ?_))
        exact absurd (decide_eq_true hlt) (Option.filter_eq_none_iff.mp hrest untilNs huntil)
    | halfOpen =>
      rw [nextAction_of_halfOpen hup hstate] at h
      obtain rfl := Option.some.inj h
      exact .reopened hup hstate

/-- **A panic** is a draw for a delay of less than a millisecond. -/
theorem nextAction_eq_none (h : p.nextAction nowNs draw reason = none) :
    p.givesUp reason = false ∧ p.circuitState = .closed ∧ p.isLast = false ∧
      p.currentDelay < nsPerMs := by
  cases hup : p.givesUp reason with
  | true =>
    rw [nextAction_of_givesUp hup] at h
    cases h
  | false =>
    cases hstate : p.circuitState with
    | closed =>
      rcases Nat.eq_zero_or_pos reason.suggestedDelayFactor with hfactor | hfactor
      · unfold nextAction at h
        rw [if_neg (hup ▸ Bool.false_ne_true), hstate] at h
        cases (if_pos hfactor).symm.trans h
      · rw [nextAction_of_closed hup hstate hfactor] at h
        split at h
        · cases h
        · next hlast =>
          refine ⟨rfl, rfl, Bool.eq_false_iff.mpr hlast, Nat.lt_of_not_le (fun hle => ?_)⟩
          obtain ⟨delayMs, hdelay, -⟩ := backoff_of_pos draw (p :=
            { p with consecutiveFailures := p.consecutiveFailures + 1 })
            ((baseMs_pos_iff (p := p) hfactor).mpr hle)
          rw [hdelay] at h
          cases h
    | «open» =>
      rw [nextAction_of_open hup hstate] at h
      split at h <;> cases h
    | halfOpen =>
      rw [nextAction_of_halfOpen hup hstate] at h
      cases h

end Answers

/-! ## Which decisions are paced -/

theorem paced_of_giveUp {d : Decision} {after : ReconnectPolicy} {text : String}
    (h : d.result = some (after, .giveUp text)) (hreason : d.reason.isRetryable = false) :
    d.Paced :=
  ⟨after, _, h, fun himm => (by cases himm), fun _ hasked => hasked.elim
    (fun hretry => Bool.noConfusion (hreason.symm.trans hretry)) (fun hwait => absurd rfl hwait)⟩

/-- Of a decision that is neither for a clean close nor to give up, only the
pause and the count are in question. -/
theorem paced_iff_of_wait {d : Decision} {after : ReconnectPolicy} {action : ReconnectAction}
    {w : ℕ} (h : d.result = some (after, action)) (hclean : d.reason ≠ .cleanClose)
    (hwait : action.waitNs d.nowNs = some w) : d.Paced ↔ 0 < w ∧ d.before.Counts after := by
  constructor
  · rintro ⟨after', action', h', -, hpause⟩
    obtain ⟨rfl, rfl⟩ : after = after' ∧ action = action' := by
      rw [h] at h'
      exact Prod.mk.inj (Option.some.inj h')
    obtain ⟨⟨w', hw', hpos⟩, hcounts⟩ :=
      hpause hclean (Or.inr (by rw [hwait]; exact Option.some_ne_none w))
    rw [hwait] at hw'
    exact ⟨Option.some.inj hw' ▸ hpos, hcounts⟩
  · rintro ⟨hpos, hcounts⟩
    refine ⟨after, action, h, fun himm => ?_, fun _ _ => ⟨⟨w, hwait, hpos⟩, hcounts⟩⟩
    -- an immediate retry waits for nothing
    rw [himm] at hwait
    exact absurd hpos (Option.some.inj hwait ▸ lt_irrefl 0)

theorem isRetryable_of_givesUp {p : ReconnectPolicy} {reason : DisconnectReason}
    (h : p.givesUp reason = true) : reason.isRetryable = false := by
  unfold givesUp at h
  exact (Bool.not_eq_true' _).mp (Bool.and_eq_true_iff.mp h).1

/-- A clean close is always answered, and never with the end. -/
theorem paced_cleanClose (p : ReconnectPolicy) (nowNs : ℕ) (draw : Draw) :
    Decision.Paced ⟨p, nowNs, .cleanClose, p.nextAction nowNs draw .cleanClose⟩ := by
  obtain ⟨r, hr⟩ : ∃ r, p.nextAction nowNs draw .cleanClose = some r := by
    have hup : p.givesUp .cleanClose = false := rfl
    cases hstate : p.circuitState with
    | closed =>
      unfold nextAction
      rw [if_neg (hup ▸ Bool.false_ne_true), hstate]
      exact ⟨_, rfl⟩
    | «open» =>
      rw [nextAction_of_open hup hstate]
      split <;> exact ⟨_, rfl⟩
    | halfOpen => exact ⟨_, nextAction_of_halfOpen hup hstate⟩
  exact ⟨r.1, r.2, hr, fun _ => rfl, fun hclean => absurd rfl hclean⟩

section Exact

variable {p : ReconnectPolicy} {nowNs : ℕ} {draw : Draw} {reason : DisconnectReason}

/-- While the breaker is open: either the cooldown goes on, or a probe is made
after the first delay. -/
theorem paced_open_iff (hup : p.givesUp reason = false) (hclean : reason ≠ .cleanClose)
    (hopen : p.circuitState = .open) :
    Decision.Paced ⟨p, nowNs, reason, p.nextAction nowNs draw reason⟩
      ↔ (∃ untilNs ∈ p.cooldownUntil, nowNs < untilNs) ∨ 0 < p.initialDelay := by
  have hanswer : p.nextAction nowNs draw reason = _ := nextAction_of_open hup hopen
  have hcounts : ∀ after : ReconnectPolicy, after.circuitState ≠ .closed → p.Counts after :=
    fun after h => ⟨fun hclosed => (by rw [hopen] at hclosed; cases hclosed), fun _ => h⟩
  cases hrest : p.cooldownUntil.filter (nowNs < ·) with
  | some untilNs =>
    rw [hrest] at hanswer
    obtain ⟨huntil, hlt⟩ := Option.filter_eq_some_iff.mp hrest
    have hlt : nowNs < untilNs := of_decide_eq_true hlt
    rw [paced_iff_of_wait hanswer hclean rfl]
    refine iff_of_true ⟨Nat.sub_pos_of_lt hlt, hcounts _ ?_⟩ (Or.inl ⟨untilNs, huntil, hlt⟩)
    rw [hopen]
    exact fun h => by cases h
  | none =>
    rw [hrest] at hanswer
    rw [paced_iff_of_wait hanswer hclean rfl,
      and_iff_left (hcounts _ (fun h => by cases h)), or_iff_right]
    rintro ⟨untilNs, huntil, hlt⟩
    have hkept : p.cooldownUntil.filter (nowNs < ·) = some untilNs :=
      Option.filter_eq_some_iff.mpr ⟨huntil, decide_eq_true hlt⟩
    rw [hrest] at hkept
    cases hkept

/-- While it is half open: the probe has failed, and the cooldown doubles. -/
theorem paced_halfOpen_iff (hup : p.givesUp reason = false) (hclean : reason ≠ .cleanClose)
    (hhalf : p.circuitState = .halfOpen) :
    Decision.Paced ⟨p, nowNs, reason, p.nextAction nowNs draw reason⟩
      ↔ 0 < p.cooldownDuration ∧ 0 < p.maxDelay := by
  rw [paced_iff_of_wait (nextAction_of_halfOpen hup hhalf) hclean rfl, Nat.add_sub_cancel_left]
  have hcounts : p.Counts (p.trip nowNs (min (p.cooldownDuration * 2) (p.maxDelay * 8))).1 :=
    ⟨fun hclosed => (by rw [hhalf] at hclosed; cases hclosed), fun _ h => by cases h⟩
  refine (and_iff_left hcounts).trans ?_
  rw [lt_min_iff, Nat.mul_pos_iff_of_pos_right Nat.two_pos,
    Nat.mul_pos_iff_of_pos_right (by decide : 0 < 8)]

/-- While it is closed: the reason must have a factor, and the delay that is
due must not be empty. -/
theorem paced_closed_iff (hup : p.givesUp reason = false) (hclean : reason ≠ .cleanClose)
    (hclosed : p.circuitState = .closed) :
    Decision.Paced ⟨p, nowNs, reason, p.nextAction nowNs draw reason⟩
      ↔ reason.isRetryable = true ∧
        if p.isLast then 0 < p.maxDelay else nsPerMs ≤ p.currentDelay := by
  cases hretry : reason.isRetryable with
  | false =>
    -- retried for the data that came before, and at once
    have hanswer : p.nextAction nowNs draw reason = some (p, .retryImmediately) := by
      unfold nextAction
      rw [if_neg (hup ▸ Bool.false_ne_true), hclosed]
      exact if_pos (DisconnectReason.suggestedDelayFactor_of_not_isRetryable hretry)
    rw [paced_iff_of_wait hanswer hclean rfl]
    exact iff_of_false (fun h => lt_irrefl 0 h.1) (fun h => Bool.noConfusion h.1)
  | true =>
    have hfactor := DisconnectReason.suggestedDelayFactor_pos hretry hclean
    have hanswer : p.nextAction nowNs draw reason = _ := nextAction_of_closed hup hclosed hfactor
    rw [and_iff_right rfl]
    cases hlast : p.isLast with
    | true =>
      rw [hlast, if_pos rfl] at hanswer
      rw [paced_iff_of_wait hanswer hclean rfl, Nat.add_sub_cancel_left, if_pos rfl,
        Nat.mul_pos_iff_of_pos_right (by decide : 0 < 4), and_iff_left]
      exact ⟨fun _ => ⟨rfl, fun _ _ _ => rfl⟩, fun h => absurd hclosed h⟩
    | false =>
      rw [hlast, if_neg Bool.false_ne_true] at hanswer
      rw [if_neg Bool.false_ne_true, ← baseMs_pos_iff (p := p) hfactor]
      by_cases hbase : 0 < p.baseMs reason
      · obtain ⟨delayMs, hdelay, hle⟩ := backoff_of_pos draw (p :=
          { p with consecutiveFailures := p.consecutiveFailures + 1 }) hbase
        rw [hdelay] at hanswer
        rw [paced_iff_of_wait hanswer hclean rfl]
        have hpos : 0 < delayMs := lt_of_lt_of_le (lt_min hbase (by decide)) hle
        refine iff_of_true ⟨Nat.mul_pos hpos (by decide), ?_⟩ hbase
        refine ⟨fun _ => ⟨rfl, fun limit hlimit hreached => ?_⟩, fun h => absurd hclosed h⟩
        -- the maximum is not reached by this failure
        have hreach : p.isLast = true := by
          unfold isLast
          rw [hlimit]
          exact decide_eq_true hreached
        exact Bool.noConfusion (hlast.symm.trans hreach)
      · refine iff_of_false (fun hpaced => ?_) hbase
        rcases backoff_of_baseMs_eq_zero draw (p :=
          { p with consecutiveFailures := p.consecutiveFailures + 1 })
          (Nat.eq_zero_of_not_pos hbase) with hnone | ⟨p', hzero⟩
        · obtain ⟨after, action, hresult, -⟩ := hpaced
          rw [hanswer, hnone] at hresult
          cases hresult
        · rw [hzero] at hanswer
          exact lt_irrefl 0 ((paced_iff_of_wait hanswer hclean rfl).mp hpaced).1

end Exact

/-- **Exactly the calls that pause are answered with a paced decision.** -/
theorem pausesAt_iff (p : ReconnectPolicy) (nowNs : ℕ) (draw : Draw) (reason : DisconnectReason) :
    p.PausesAt nowNs reason
      ↔ Decision.Paced ⟨p, nowNs, reason, p.nextAction nowNs draw reason⟩ := by
  unfold PausesAt
  by_cases hup : p.givesUp reason = true
  · exact iff_of_true (Or.inl hup)
      (paced_of_giveUp (nextAction_of_givesUp hup) (isRetryable_of_givesUp hup))
  · rw [or_iff_right hup]
    have hup : p.givesUp reason = false := Bool.eq_false_iff.mpr hup
    by_cases hclean : reason = .cleanClose
    · subst hclean
      exact iff_of_true (Or.inl rfl) (paced_cleanClose p nowNs draw)
    · rw [or_iff_right hclean]
      cases hstate : p.circuitState with
      | closed => exact (paced_closed_iff hup hclean hstate).symm
      | «open» => exact (paced_open_iff hup hclean hstate).symm
      | halfOpen => exact (paced_halfOpen_iff hup hclean hstate).symm

/-- **Every retry of a run is paced exactly if every call pauses**, for every
policy and any calls. -/
theorem retries_paced_iff (p : ReconnectPolicy) (calls : List PolicyCall) :
    (∀ d ∈ (machine.run (some p) calls).2, d.Paced) ↔ machine.Meets Pauses (some p) calls := by
  refine (machine.meets_iff_forall (fun s call => ?_) (some p) calls).symm
  cases s with
  | none => exact iff_of_true trivial (fun d hd => absurd hd List.not_mem_nil)
  | some p =>
    cases call with
    | nextAction nowNs draw reason =>
      show p.PausesAt nowNs reason ↔ ∀ d ∈ [_], Decision.Paced d
      rw [List.forall_mem_singleton]
      exact pausesAt_iff p nowNs draw reason
    | onConnected => exact iff_of_true trivial (fun d hd => absurd hd List.not_mem_nil)
    | onMessageReceived => exact iff_of_true trivial (fun d hd => absurd hd List.not_mem_nil)

/-! ## A sample -/

/-- The default policy. -/
def byDefault : ReconnectPolicy where
  initialDelay := 1000 * nsPerMs
  maxDelay := 30000 * nsPerMs
  maxAttempts := none
  jitterFactor := 1 / 2
  currentDelay := 1000 * nsPerMs
  consecutiveFailures := 0
  circuitState := .closed
  cooldownUntil := none
  cooldownDuration := 30000 * nsPerMs * 4
  dataEverReceived := false
  initialDelay_le := by decide

example : ({} : ReconnectPolicyBuilder).build = some byDefault := rfl

/-- A draw from the middle. -/
def middle : Draw := ⟨1 / 2, by norm_num⟩

/-- A message is received, and the venue closes with a policy violation. -/
def policyViolation : List PolicyCall :=
  [.onMessageReceived, .nextAction 0 middle (.protocolRejection 1008 "policy violation")]

/-- **The rejection is retried at once.** -/
theorem not_paced_policyViolation :
    ¬ ∀ d ∈ (machine.run (some byDefault) policyViolation).2, d.Paced := by
  intro h
  obtain ⟨after, action, hresult, himm, -⟩ := h _ (List.mem_singleton.mpr rfl)
  have haction : action = .retryImmediately := (congrArg Prod.snd (Option.some.inj hresult)).symm
  exact absurd (himm haction) (fun hreason => by cases hreason)

end ReconnectPolicy
