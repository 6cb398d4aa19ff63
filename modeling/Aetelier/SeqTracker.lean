import Aetelier.Trace
import Mathlib.Order.Nat
import Mathlib.Algebra.Group.Nat.Defs

/-!
# The sequence tracker of the book socket

A socket numbers all its frames, and its heartbeats a second time. A frame that
is missing leaves a hole in the first counter; a missing heartbeat leaves one in
the second, too, which shows at the next heartbeat. The tracker counts the
missing slots, takes off those that the heartbeats explain, and reports the
rest once a deadline has passed: ten milliseconds after the first hole was
seen, plus jitter.

A stream is a list of slots, each a data frame or a heartbeat that arrives at
some time or is dropped. No loss is masked: the tracker holds at least as many
slots as data frames were dropped, whatever else was, and reports them at the
first frame past the deadline (`FrameStream.masks_nothing`). But a dropped
heartbeat alone can be reported as a loss, since the next heartbeat is a second
away and the deadline is not (`FrameStream.never_confirms_iff`).

Counters are numbers of 64 bits, and sums stop at the largest; times are in
nanoseconds.
-/

/-- A sum of 64 bits that stops at the largest number. -/
def saturatingAdd (a b : ℕ) : ℕ := min (a + b) (2 ^ 64 - 1)

theorem saturatingAdd_of_lt {a b : ℕ} (h : a + b < 2 ^ 64) : saturatingAdd a b = a + b :=
  Nat.min_eq_left (Nat.le_sub_one_of_lt h)

/-- The wait before a suspected gap is confirmed. -/
def gapDebounceFloorNs : ℕ := 10000000

/-- The jitter on top of it, in milliseconds. -/
structure GapDebounceJitter where
  /-- The number drawn. -/
  ms : ℕ
  two_le : 2 ≤ ms
  le_twenty : ms ≤ 20

/-- The wait with jitter. -/
def GapDebounceJitter.debounceNs (jitter : GapDebounceJitter) : ℕ :=
  gapDebounceFloorNs + jitter.ms * 1000000

theorem GapDebounceJitter.debounceNs_pos (jitter : GapDebounceJitter) : 0 < jitter.debounceNs :=
  Nat.add_pos_left (by decide) _

/-- **The continuity of one socket.** -/
structure SeqTracker where
  /-- The last sequence number seen. -/
  lastSeq : Option ℕ
  /-- The last heartbeat counter seen. -/
  lastHb : Option ℕ
  /-- Missing slots not explained by a heartbeat. -/
  unattributed : ℕ
  /-- When they are reported. -/
  deadline : Option ℕ
deriving DecidableEq, Repr

namespace SeqTracker

/-- Nothing seen yet. -/
def new : SeqTracker := ⟨none, none, 0, none⟩

/-- Note a sequence number: slots it skips are missing, and the first that are
start the clock. -/
def suspect (t : SeqTracker) (seq nowNs : ℕ) (jitter : GapDebounceJitter) : SeqTracker :=
  match t.lastSeq with
  | none => { t with lastSeq := some seq }
  | some prev =>
    let jump := seq - saturatingAdd prev 1
    if 0 < jump then
      { t with
        lastSeq := some seq
        unattributed := saturatingAdd t.unattributed jump
        deadline := t.deadline.or (some (nowNs + jitter.debounceNs)) }
    else { t with lastSeq := some seq }

/-- Note a heartbeat counter: the heartbeats it skips explain as many slots. -/
def explain (t : SeqTracker) (hb : ℕ) : SeqTracker :=
  let explained := match t.lastHb with
    | none => 0
    | some prev => hb - saturatingAdd prev 1
  { t with
    lastHb := some hb
    unattributed := t.unattributed - explained
    deadline := if t.unattributed - explained = 0 then none else t.deadline }

/-- Report what is unexplained at the deadline. -/
def confirm (t : SeqTracker) (nowNs : ℕ) : SeqTracker × Option ℕ :=
  match t.deadline with
  | some d =>
    if d ≤ nowNs ∧ 0 < t.unattributed then
      ({ t with unattributed := 0, deadline := none }, some t.unattributed)
    else (t, none)
  | none => (t, none)

/-- **Observe a frame**: the number of dropped data frames, once a gap is
confirmed. -/
def observe (t : SeqTracker) (seq : ℕ) (hbCounter : Option ℕ) (nowNs : ℕ)
    (jitter : GapDebounceJitter) : SeqTracker × Option ℕ :=
  match hbCounter with
  | some hb => ((t.suspect seq nowNs jitter).explain hb).confirm nowNs
  | none => (t.suspect seq nowNs jitter).confirm nowNs

/-! ## What a frame does -/

/-- A clock runs exactly while slots are missing. -/
def Armed (t : SeqTracker) : Prop := t.deadline.isSome = true ↔ 0 < t.unattributed

/-- **The counters fit** the next frame: it is past the last one seen, and no
sum overflows. -/
structure Fits (t : SeqTracker) (last seq : ℕ) : Prop where
  lastSeq : t.lastSeq = some last
  lt : last < seq
  le : t.unattributed ≤ last
  seq_lt : seq < 2 ^ 64

section Frame

variable {t : SeqTracker} {last seq nowNs : ℕ} {jitter : GapDebounceJitter}

theorem suspect_eq (h : t.Fits last seq) :
    t.suspect seq nowNs jitter
      = { t with
          lastSeq := some seq
          unattributed := t.unattributed + (seq - (last + 1))
          deadline := if 0 < seq - (last + 1) then
            t.deadline.or (some (nowNs + jitter.debounceNs)) else t.deadline } := by
  have hlt := h.lt
  have hle := h.le
  have hseq := h.seq_lt
  unfold suspect
  rw [h.lastSeq]
  dsimp only
  rw [saturatingAdd_of_lt (by omega), saturatingAdd_of_lt (by omega)]
  split
  · rfl
  · next hjump => rw [Nat.eq_zero_of_not_pos hjump, Nat.add_zero]

/-- A hole starts the clock. -/
theorem armed_suspect (h : t.Fits last seq) (ht : t.Armed) :
    (t.suspect seq nowNs jitter).Armed := by
  rw [suspect_eq h]
  show (if _ then _ else _ : Option ℕ).isSome = true ↔ 0 < t.unattributed + (seq - (last + 1))
  split
  · next hjump =>
    refine iff_of_true ?_ (Nat.add_pos_right _ hjump)
    cases t.deadline <;> rfl
  · next hjump =>
    rw [Nat.eq_zero_of_not_pos hjump, Nat.add_zero]
    exact ht

/-- A heartbeat that explains everything stops it. -/
theorem armed_explain (ht : t.Armed) (hb : ℕ) : (t.explain hb).Armed := by
  unfold explain Armed
  dsimp only
  generalize (match t.lastHb with
    | none => 0
    | some prev => hb - saturatingAdd prev 1) = explained
  split
  · next hzero => exact iff_of_false Bool.false_ne_true (by omega)
  · next hleft => exact iff_of_true (ht.mpr (by omega)) (Nat.pos_of_ne_zero hleft)

/-- **Either nothing is reported, and nothing changes, or it is past the
deadline**, and everything is reported. -/
theorem confirm_cases (ht : t.Armed) (nowNs : ℕ) :
    (t.confirm nowNs = (t, none) ∧ ∀ d ∈ t.deadline, nowNs < d) ∨
      ∃ d ∈ t.deadline, d ≤ nowNs ∧
        t.confirm nowNs
          = ({ t with unattributed := 0, deadline := none }, some t.unattributed) := by
  unfold confirm
  cases hd : t.deadline with
  | none => exact Or.inl ⟨rfl, fun d hd => by cases hd⟩
  | some d =>
    dsimp only
    have hpos : 0 < t.unattributed := ht.mp (hd ▸ rfl)
    by_cases hdue : d ≤ nowNs
    · right
      exact ⟨d, rfl, hdue, if_pos ⟨hdue, hpos⟩⟩
    · left
      refine ⟨if_neg (fun h => hdue h.1), fun d' hd' => ?_⟩
      obtain rfl := Option.some.inj hd'
      exact Nat.lt_of_not_le hdue

end Frame

end SeqTracker

/-! ## Streams -/

/-- When a frame arrives, and the jitter that is drawn if it shows the first
hole. -/
structure Arrival where
  /-- The clock. -/
  nowNs : ℕ
  /-- The draw. -/
  jitter : GapDebounceJitter

/-- **A slot of the stream**: one sequence number. -/
structure Slot where
  /-- The frame is a heartbeat. -/
  heartbeat : Bool
  /-- When it arrives, unless it is dropped. -/
  arrival : Option Arrival

/-- **A stream in order**: its counters and its slots. The first frame is
observed, and the counters fit into 64 bits. -/
structure FrameStream where
  /-- The sequence number of the first frame. -/
  firstSeq : ℕ
  /-- The counter of the first heartbeat. -/
  firstHb : ℕ
  /-- The first frame is a heartbeat. -/
  heartbeat : Bool
  /-- When it arrives. -/
  arrival : Arrival
  /-- The slots that follow. -/
  rest : List Slot
  seq_le : firstSeq + 1 + rest.length ≤ 2 ^ 64
  hb_le : (firstHb + if heartbeat then 1 else 0) + rest.countP (·.heartbeat) ≤ 2 ^ 64

/-- **A stream as far as it has come**, and its tracker. -/
structure SlotStream where
  /-- The tracker. -/
  tracker : SeqTracker
  /-- The sequence number of the next slot. -/
  nextSeq : ℕ
  /-- The counter of the next heartbeat. -/
  nextHb : ℕ
  /-- Data frames dropped so far. -/
  lost : ℕ
  /-- A gap has been confirmed. -/
  confirmed : Bool

/-- **What a frame brings**: the tracker before and after it, and its answer. -/
structure Observation where
  /-- The tracker before. -/
  before : SeqTracker
  /-- The clock. -/
  nowNs : ℕ
  /-- Data frames dropped so far. -/
  lost : ℕ
  /-- A gap was confirmed before. -/
  confirmed : Bool
  /-- The tracker afterwards. -/
  after : SeqTracker
  /-- The answer. -/
  result : Option ℕ

namespace SlotStream

/-- One slot. -/
def step (s : SlotStream) (slot : Slot) : SlotStream × List Observation :=
  match slot.arrival with
  | none =>
    ({ s with
        nextSeq := s.nextSeq + 1
        nextHb := s.nextHb + if slot.heartbeat then 1 else 0
        lost := s.lost + if slot.heartbeat then 0 else 1 }, [])
  | some a =>
    let r := s.tracker.observe s.nextSeq (if slot.heartbeat then some s.nextHb else none) a.nowNs
      a.jitter
    ({ s with
        tracker := r.1
        nextSeq := s.nextSeq + 1
        nextHb := s.nextHb + if slot.heartbeat then 1 else 0
        confirmed := s.confirmed || r.2.isSome },
      [⟨s.tracker, a.nowNs, s.lost, s.confirmed, r.1, r.2⟩])

/-- A stream as a machine. -/
def machine : Machine SlotStream Slot Observation := ⟨step⟩

end SlotStream

namespace FrameStream

/-- Before the first frame. -/
def start (fs : FrameStream) : SlotStream := ⟨.new, fs.firstSeq, fs.firstHb, 0, false⟩

/-- All slots. -/
def slots (fs : FrameStream) : List Slot := ⟨fs.heartbeat, some fs.arrival⟩ :: fs.rest

/-- What the frames of a stream bring. -/
def observations (fs : FrameStream) : List Observation :=
  (SlotStream.machine.run fs.start fs.slots).2

end FrameStream

/-! ## What the tracker has to go on -/

namespace SlotStream

/-- Slots dropped since the last frame. -/
def pending (s : SlotStream) : ℕ :=
  match s.tracker.lastSeq with
  | some last => s.nextSeq - (last + 1)
  | none => 0

/-- Heartbeats dropped since the last one seen, if one was seen. -/
def missedHb (s : SlotStream) : ℕ :=
  match s.tracker.lastHb with
  | some last => s.nextHb - (last + 1)
  | none => 0

/-- The slot has its numbers. -/
def InRange (s : SlotStream) (slot : Slot) : Prop :=
  s.nextSeq < 2 ^ 64 ∧ (slot.heartbeat = true → s.nextHb < 2 ^ 64)

/-- **The tracker follows the stream**: its counters are behind those of the
stream, and its clock is right. -/
structure Follows (s : SlotStream) : Prop where
  seq : ∃ last, s.tracker.lastSeq = some last ∧ last < s.nextSeq ∧ s.tracker.unattributed ≤ last
  hb : ∀ last ∈ s.tracker.lastHb, last < s.nextHb
  armed : s.tracker.Armed

/-- What the tracker holds once it has noted a frame, before it looks at the
clock. -/
def noted (s : SlotStream) (heartbeat : Bool) (a : Arrival) : SeqTracker :=
  let t := s.tracker.suspect s.nextSeq a.nowNs a.jitter
  if heartbeat then t.explain s.nextHb else t

/-- What the clock of a tracker says once a hole is noted. -/
def clock (s : SlotStream) (a : Arrival) : Option ℕ :=
  if 0 < s.pending then s.tracker.deadline.or (some (a.nowNs + a.jitter.debounceNs))
  else s.tracker.deadline

section Noted

variable {s : SlotStream} {slot : Slot} {a : Arrival}

theorem observe_eq (heartbeat : Bool) :
    s.tracker.observe s.nextSeq (if heartbeat then some s.nextHb else none) a.nowNs a.jitter
      = (s.noted heartbeat a).confirm a.nowNs := by
  cases heartbeat <;> rfl

/-- **A data frame**: the slots before it are missing. -/
theorem noted_data (h : s.Follows) (hrange : s.nextSeq < 2 ^ 64) :
    s.noted false a = { s.tracker with
      lastSeq := some s.nextSeq
      unattributed := s.tracker.unattributed + s.pending
      deadline := s.clock a } := by
  obtain ⟨last, hlast, hlt, hle⟩ := h.seq
  have hpending : s.pending = s.nextSeq - (last + 1) := by
    unfold pending
    rw [hlast]
  unfold clock
  rw [hpending]
  exact SeqTracker.suspect_eq ⟨hlast, hlt, hle, hrange⟩

/-- **A heartbeat**: of these, the heartbeats are explained. -/
theorem noted_heartbeat (h : s.Follows) (hrange : s.nextSeq < 2 ^ 64) (hhb : s.nextHb < 2 ^ 64) :
    s.noted true a =
      { lastSeq := some s.nextSeq
        lastHb := some s.nextHb
        unattributed := s.tracker.unattributed + s.pending - s.missedHb
        deadline := if s.tracker.unattributed + s.pending - s.missedHb = 0 then none
          else s.clock a } := by
  have hmissed : (match s.tracker.lastHb with
      | none => 0
      | some prev => s.nextHb - saturatingAdd prev 1) = s.missedHb := by
    unfold missedHb
    cases hlast : s.tracker.lastHb with
    | none => rfl
    | some last =>
      have hlt := h.hb last hlast
      dsimp only
      rw [saturatingAdd_of_lt (by omega)]
  show (s.noted false a).explain s.nextHb = _
  rw [noted_data h hrange]
  unfold SeqTracker.explain
  dsimp only
  rw [hmissed]

theorem armed_noted (h : s.Follows) (hrange : s.nextSeq < 2 ^ 64) (heartbeat : Bool) :
    (s.noted heartbeat a).Armed := by
  obtain ⟨last, hlast, hlt, hle⟩ := h.seq
  have hsuspect : (s.tracker.suspect s.nextSeq a.nowNs a.jitter).Armed :=
    SeqTracker.armed_suspect ⟨hlast, hlt, hle, hrange⟩ h.armed
  cases heartbeat with
  | false => exact hsuspect
  | true => exact SeqTracker.armed_explain hsuspect _

theorem pending_le (h : s.Follows) : s.tracker.unattributed + s.pending < s.nextSeq := by
  obtain ⟨last, hlast, hlt, hle⟩ := h.seq
  unfold pending
  rw [hlast]
  dsimp only
  omega

variable (slot) in
/-- What is noted is about this frame, and is behind the next. -/
theorem noted_spec (h : s.Follows) (hrange : s.InRange ⟨slot.heartbeat, some a⟩) :
    (s.noted slot.heartbeat a).lastSeq = some s.nextSeq ∧
      (s.noted slot.heartbeat a).unattributed ≤ s.nextSeq ∧
      ∀ last ∈ (s.noted slot.heartbeat a).lastHb,
        last < s.nextHb + if slot.heartbeat then 1 else 0 := by
  have hle := (pending_le h).le
  cases hkind : slot.heartbeat with
  | false =>
    rw [noted_data h hrange.1]
    exact ⟨rfl, hle, fun last hlast => (h.hb last hlast).trans_le (Nat.le_add_right _ _)⟩
  | true =>
    rw [noted_heartbeat h hrange.1 (hrange.2 hkind)]
    refine ⟨rfl, (Nat.sub_le _ _).trans hle, fun last hlast => ?_⟩
    obtain rfl := Option.some.inj hlast
    exact Nat.lt_succ_self _

end Noted

/-- **One slot leaves the tracker behind the stream.** -/
theorem follows_step {s : SlotStream} (h : s.Follows) {slot : Slot} (hrange : s.InRange slot) :
    (s.step slot).1.Follows := by
  unfold step
  cases harrival : slot.arrival with
  | none =>
    obtain ⟨last, hlast, hlt, hle⟩ := h.seq
    exact ⟨⟨last, hlast, hlt.trans (Nat.lt_succ_self _), hle⟩,
      fun last hlast => (h.hb last hlast).trans_le (Nat.le_add_right _ _), h.armed⟩
  | some a =>
    dsimp only
    rw [observe_eq]
    have harmed := armed_noted (a := a) h hrange.1 slot.heartbeat
    obtain ⟨hseq, hle, hhb⟩ := noted_spec slot (a := a) h hrange
    rcases SeqTracker.confirm_cases harmed a.nowNs with ⟨heq, -⟩ | ⟨d, -, -, heq⟩
    · rw [heq]
      exact ⟨⟨_, hseq, Nat.lt_succ_self _, hle⟩, hhb, harmed⟩
    · rw [heq]
      exact ⟨⟨_, hseq, Nat.lt_succ_self _, Nat.zero_le _⟩, hhb,
        iff_of_false Bool.false_ne_true (lt_irrefl 0)⟩

/-! ## What a step does to the account -/

section Step

variable {s : SlotStream} {slot : Slot} {a : Arrival}

theorem step_dropped (h : slot.arrival = none) :
    s.step slot = ({ s with
        nextSeq := s.nextSeq + 1
        nextHb := s.nextHb + if slot.heartbeat then 1 else 0
        lost := s.lost + if slot.heartbeat then 0 else 1 }, []) := by
  unfold step
  rw [h]

/-- A dropped slot is one more that is missing. -/
theorem pending_dropped (hs : s.Follows) (h : slot.arrival = none) :
    (s.step slot).1.pending = s.pending + 1 := by
  obtain ⟨last, hlast, hlt, -⟩ := hs.seq
  rw [step_dropped h]
  unfold pending
  dsimp only
  rw [hlast]
  dsimp only
  omega

/-- A dropped heartbeat is one more to be explained, once one was seen. -/
theorem missedHb_dropped (hs : s.Follows) (h : slot.arrival = none) :
    (s.step slot).1.missedHb
      = s.missedHb + if slot.heartbeat = true ∧ s.tracker.lastHb.isSome = true then 1 else 0 := by
  rw [step_dropped h]
  unfold missedHb
  dsimp only
  cases hlast : s.tracker.lastHb with
  | none =>
    have hnone : ¬ (slot.heartbeat = true ∧ (none : Option ℕ).isSome = true) :=
      fun hboth => Bool.false_ne_true hboth.2
    rw [if_neg hnone]
  | some last =>
    have hlt := hs.hb last hlast
    dsimp only
    cases slot.heartbeat with
    | false => rfl
    | true =>
      show s.nextHb + 1 - (last + 1) = s.nextHb - (last + 1) + 1
      omega

theorem step_observed (h : slot.arrival = some a) :
    s.step slot = ({ s with
        tracker := ((s.noted slot.heartbeat a).confirm a.nowNs).1
        nextSeq := s.nextSeq + 1
        nextHb := s.nextHb + if slot.heartbeat then 1 else 0
        confirmed := s.confirmed || ((s.noted slot.heartbeat a).confirm a.nowNs).2.isSome },
      [⟨s.tracker, a.nowNs, s.lost, s.confirmed, ((s.noted slot.heartbeat a).confirm a.nowNs).1,
        ((s.noted slot.heartbeat a).confirm a.nowNs).2⟩]) := by
  unfold step
  rw [h]
  dsimp only
  rw [observe_eq]

/-- **The balance of a frame**: what was missing is held or explained. -/
theorem noted_balance (hs : s.Follows) (hrange : s.InRange slot) {n : ℕ}
    (hn : n + s.missedHb ≤ s.tracker.unattributed + s.pending) :
    n ≤ (s.noted slot.heartbeat a).unattributed ∧
      (slot.heartbeat = false →
        n + s.missedHb ≤ (s.noted slot.heartbeat a).unattributed ∧
          (s.noted slot.heartbeat a).lastHb = s.tracker.lastHb) ∧
      (slot.heartbeat = true → (s.noted slot.heartbeat a).lastHb = some s.nextHb) := by
  cases hkind : slot.heartbeat with
  | false =>
    rw [noted_data hs hrange.1]
    exact ⟨(Nat.le_add_right _ _).trans hn, fun _ => ⟨hn, rfl⟩, fun h => Bool.noConfusion h⟩
  | true =>
    rw [noted_heartbeat hs hrange.1 (hrange.2 hkind)]
    exact ⟨Nat.le_sub_of_add_le hn, fun h => Bool.noConfusion h, fun _ => rfl⟩

end Step

/-! ## No loss is masked -/

/-- **The tracker holds the loss**: until a gap is confirmed, the data frames
dropped so far, and the heartbeats that will be explained, are among the slots
it holds or will see missing. -/
structure HoldsLost (s : SlotStream) : Prop where
  follows : s.Follows
  lost : s.confirmed = false → s.lost + s.missedHb ≤ s.tracker.unattributed + s.pending

end SlotStream

/-- **An observation that masks nothing**, up to the first confirmed gap: at
least as many slots are held as data frames were dropped, or reported; the
clock runs exactly while slots are held; and past the deadline a loss is
reported. -/
structure Observation.MasksNothing (o : Observation) : Prop where
  holds : o.confirmed = false → o.result = none → o.lost ≤ o.after.unattributed
  armed : o.after.deadline.isSome = true ↔ 0 < o.after.unattributed
  reports : o.confirmed = false → ∀ n, o.result = some n → o.lost ≤ n
  due : o.confirmed = false → 0 < o.lost → ∀ d ∈ o.before.deadline, d ≤ o.nowNs →
    o.result.isSome = true

namespace SlotStream

/-- The clock of a tracker goes on while a loss is held. -/
theorem deadline_noted {s : SlotStream} {slot : Slot} {a : Arrival} (hs : s.Follows)
    (hrange : s.InRange slot) {d : ℕ} (hd : s.tracker.deadline = some d)
    (hpos : 0 < (s.noted slot.heartbeat a).unattributed) :
    (s.noted slot.heartbeat a).deadline = some d := by
  have hclock : s.clock a = some d := by
    unfold clock
    rw [hd]
    split <;> rfl
  cases hkind : slot.heartbeat with
  | false =>
    rw [noted_data hs hrange.1]
    exact hclock
  | true =>
    rw [hkind] at hpos
    rw [noted_heartbeat hs hrange.1 (hrange.2 hkind)] at hpos ⊢
    exact (if_neg hpos.ne').trans hclock

/-- **One slot keeps the loss**, and masks nothing. -/
theorem holdsLost_step {s : SlotStream} (h : s.HoldsLost) {slot : Slot} (hrange : s.InRange slot) :
    (s.step slot).1.HoldsLost ∧ ∀ o ∈ (s.step slot).2, o.MasksNothing := by
  have hfollows := follows_step h.follows hrange
  cases harrival : slot.arrival with
  | none =>
    refine ⟨⟨hfollows, fun hc => ?_⟩, ?_⟩
    · have hlost := h.lost (by rw [step_dropped harrival] at hc; exact hc)
      rw [pending_dropped h.follows harrival, missedHb_dropped h.follows harrival,
        step_dropped harrival]
      show s.lost + (if slot.heartbeat then 0 else 1) + _ ≤ s.tracker.unattributed + _
      cases slot.heartbeat with
      | false =>
        rw [if_neg Bool.false_ne_true, if_neg (fun hboth => Bool.false_ne_true hboth.1)]
        omega
      | true =>
        rw [if_pos rfl]
        split <;> omega
    · rw [step_dropped harrival]
      exact fun o ho => absurd ho List.not_mem_nil
  | some a =>
    rw [step_observed harrival] at hfollows ⊢
    have harmed := armed_noted (a := a) h.follows hrange.1 slot.heartbeat
    have hbalance := fun hc : s.confirmed = false =>
      noted_balance (a := a) h.follows hrange (h.lost hc)
    obtain ⟨hseq, -, -⟩ := noted_spec slot (a := a) h.follows hrange
    rcases SeqTracker.confirm_cases harmed a.nowNs with ⟨heq, hlater⟩ | ⟨d, hd, hdue, heq⟩
    · rw [heq] at hfollows ⊢
      refine ⟨⟨hfollows, fun hc => ?_⟩, List.forall_mem_singleton.mpr ⟨?_, harmed, ?_, ?_⟩⟩
      · -- the frame itself leaves nothing pending
        rw [Option.isSome_none, Bool.or_false] at hc
        obtain ⟨hheld, hdata, hheartbeat⟩ := hbalance hc
        have hpending : ∀ hb n b, (⟨s.noted slot.heartbeat a, s.nextSeq + 1, hb, n, b⟩ :
            SlotStream).pending = 0 := by
          intro hb n b
          unfold pending
          dsimp only
          rw [hseq]
          exact Nat.sub_self _
        rw [hpending, Nat.add_zero]
        unfold missedHb
        dsimp only
        cases hkind : slot.heartbeat with
        | false =>
          obtain ⟨hmissed, hlast⟩ := hdata hkind
          rw [hkind] at hmissed hlast
          rw [hlast]
          exact hmissed
        | true =>
          have hlast := hheartbeat hkind
          rw [hkind] at hlast hheld
          rw [hlast]
          dsimp only
          rw [if_pos rfl, Nat.sub_self]
          exact hheld
      · exact fun hc _ => (hbalance hc).1
      · exact fun hc n hn => by cases hn
      · intro hc hpos d hd hdue
        have hheld := deadline_noted h.follows hrange hd (hpos.trans_le (hbalance hc).1)
        exact absurd hdue (Nat.not_le.mpr (hlater d hheld))
    · rw [heq] at hfollows ⊢
      refine ⟨⟨hfollows, fun hc => ?_⟩, List.forall_mem_singleton.mpr ⟨?_, ?_, ?_, ?_⟩⟩
      · rw [Option.isSome_some, Bool.or_true] at hc
        cases hc
      · exact fun _ hnone => by cases hnone
      · exact iff_of_false Bool.false_ne_true (lt_irrefl 0)
      · intro hc n hn
        obtain rfl := Option.some.inj hn
        exact (hbalance hc).1
      · exact fun _ _ _ _ _ => rfl

/-- Slots whose numbers fit have them. -/
theorem meets_inRange {s : SlotStream} {slots : List Slot}
    (hseq : s.nextSeq + slots.length ≤ 2 ^ 64)
    (hhb : s.nextHb + slots.countP (·.heartbeat) ≤ 2 ^ 64) : machine.Meets InRange s slots := by
  induction slots generalizing s with
  | nil => trivial
  | cons slot slots ih =>
    rw [List.length_cons] at hseq
    rw [List.countP_cons] at hhb
    refine ⟨⟨by omega, fun hkind => ?_⟩, ih ?_ ?_⟩
    · rw [if_pos hkind] at hhb
      omega
    · have hnext : (s.step slot).1.nextSeq = s.nextSeq + 1 := by
        unfold step
        split <;> rfl
      show (s.step slot).1.nextSeq + _ ≤ _
      omega
    · have hnext : (s.step slot).1.nextHb = s.nextHb + if slot.heartbeat then 1 else 0 := by
        unfold step
        split <;> rfl
      show (s.step slot).1.nextHb + _ ≤ _
      omega

end SlotStream

namespace FrameStream

/-- The stream after its first frame. -/
def afterFirst (fs : FrameStream) : SlotStream where
  tracker := ⟨some fs.firstSeq, if fs.heartbeat then some fs.firstHb else none, 0, none⟩
  nextSeq := fs.firstSeq + 1
  nextHb := fs.firstHb + if fs.heartbeat then 1 else 0
  lost := 0
  confirmed := false

theorem step_first (fs : FrameStream) :
    fs.start.step ⟨fs.heartbeat, some fs.arrival⟩
      = (fs.afterFirst, [⟨.new, fs.arrival.nowNs, 0, false, fs.afterFirst.tracker, none⟩]) := by
  unfold afterFirst
  cases hkind : fs.heartbeat <;> rfl

theorem observations_eq (fs : FrameStream) :
    fs.observations = ⟨.new, fs.arrival.nowNs, 0, false, fs.afterFirst.tracker, none⟩
      :: (SlotStream.machine.run fs.afterFirst fs.rest).2 := by
  show (fs.start.step _).2 ++ (SlotStream.machine.run (fs.start.step _).1 fs.rest).2 = _
  rw [step_first]
  rfl

theorem follows_afterFirst (fs : FrameStream) : fs.afterFirst.Follows := by
  refine ⟨⟨fs.firstSeq, rfl, Nat.lt_succ_self _, Nat.zero_le _⟩, fun last hlast => ?_,
    iff_of_false Bool.false_ne_true (lt_irrefl 0)⟩
  unfold afterFirst at hlast ⊢
  dsimp only at hlast ⊢
  split at hlast
  · next hkind =>
    obtain rfl := Option.some.inj hlast
    rw [if_pos hkind]
    exact Nat.lt_succ_self _
  · cases hlast

/-- The first frame leaves nothing to be explained. -/
theorem missedHb_afterFirst (fs : FrameStream) :
    fs.afterFirst.missedHb = 0 ∧ fs.afterFirst.pending = 0 := by
  refine ⟨?_, Nat.sub_self _⟩
  unfold SlotStream.missedHb afterFirst
  cases fs.heartbeat with
  | false => rfl
  | true => exact Nat.sub_self _

/-- **No loss is masked**: in every stream, whatever is dropped of it and
whenever the rest arrives. -/
theorem masks_nothing (fs : FrameStream) : ∀ o ∈ fs.observations, o.MasksNothing := by
  rw [observations_eq]
  refine List.forall_mem_cons.mpr ⟨⟨fun _ _ => Nat.zero_le _, fs.follows_afterFirst.armed,
    fun _ n hn => (by cases hn), fun _ hpos => absurd hpos (lt_irrefl 0)⟩, ?_⟩
  refine (SlotStream.machine.forall_of_invariant (I := SlotStream.HoldsLost)
    (fun s slot h hrange => SlotStream.holdsLost_step h hrange)
    ⟨fs.follows_afterFirst, fun _ => ?_⟩
    (SlotStream.meets_inRange fs.seq_le fs.hb_le)).2
  rw [fs.missedHb_afterFirst.1]
  exact Nat.zero_le _

end FrameStream

/-! ## Dropped heartbeats -/

/-- **What a hole of heartbeats has come to.** -/
inductive Episode where
  /-- None is missing since the last one seen. -/
  | quiet
  /-- Some are, and no frame has shown it yet. -/
  | missing
  /-- A data frame has, and the clock runs until this instant. -/
  | shown (deadlineNs : ℕ)
deriving DecidableEq, Repr

namespace Episode

/-- After a slot: a heartbeat that arrives ends the episode, the first data frame
to arrive shows it. -/
def next (e : Episode) (slot : Slot) : Episode :=
  match slot.arrival, slot.heartbeat, e with
  | some _, true, _ => .quiet
  | some a, false, .missing => .shown (a.nowNs + a.jitter.debounceNs)
  | none, _, .quiet => .missing
  | _, _, e => e

/-- **The slots come in time**: between the data frame that shows a hole and the
next heartbeat, no data frame arrives at the deadline or later. -/
def InTime (e : Episode) : List Slot → Prop
  | [] => True
  | slot :: rest =>
    (∀ a d, slot.arrival = some a → slot.heartbeat = false → e = .shown d → a.nowNs < d) ∧
      (e.next slot).InTime rest

end Episode

/-- **Only heartbeats are dropped**, and none before the first one seen. -/
def OnlyHeartbeatsDropped (seen : Bool) : List Slot → Prop
  | [] => True
  | slot :: rest =>
    (slot.arrival = none → slot.heartbeat = true ∧ seen = true) ∧
      OnlyHeartbeatsDropped (seen || (slot.heartbeat && slot.arrival.isSome)) rest

namespace SlotStream

/-- **The tracker reflects the episode**: what it holds and will see missing are
the heartbeats to be explained. -/
structure Reflects (s : SlotStream) (e : Episode) (seen : Bool) : Prop where
  follows : s.Follows
  seen : s.tracker.lastHb.isSome = seen
  balance : s.tracker.unattributed + s.pending = s.missedHb
  quiet : e = .quiet → s.missedHb = 0
  missing : e = .missing → s.tracker.deadline = none ∧ 0 < s.pending
  shown : ∀ d, e = .shown d → s.tracker.deadline = some d

section Reflects

variable {s : SlotStream} {e : Episode} {seen : Bool} {slot : Slot} {a : Arrival}

theorem deadline_of_quiet (h : s.Reflects .quiet seen) :
    s.tracker.deadline = none ∧ s.tracker.unattributed = 0 ∧ s.pending = 0 := by
  have hzero := h.balance.trans (h.quiet rfl)
  have hnone : s.tracker.deadline.isSome ≠ true :=
    fun hsome => absurd (h.follows.armed.mp hsome) (by omega)
  refine ⟨?_, by omega, by omega⟩
  exact Option.not_isSome_iff_eq_none.mp hnone

/-- A dropped heartbeat opens an episode, or is one more of it. -/
theorem reflects_dropped (h : s.Reflects e seen) (hrange : s.InRange slot)
    (harrival : slot.arrival = none) (hkind : slot.heartbeat = true) (hseen : seen = true) :
    (s.step slot).1.Reflects (e.next slot) true := by
  have hmissed := missedHb_dropped h.follows harrival
  rw [if_pos ⟨hkind, h.seen.trans hseen⟩] at hmissed
  have hpending := pending_dropped h.follows harrival
  have htracker : (s.step slot).1.tracker = s.tracker := by rw [step_dropped harrival]
  have hnext : e.next slot = if e = .quiet then .missing else e := by
    unfold Episode.next
    rw [harrival]
    cases e <;> cases slot.heartbeat <;> rfl
  have hbalance := h.balance
  refine ⟨follows_step h.follows hrange, ?_, ?_, ?_, ?_, ?_⟩
  · rw [htracker, h.seen, hseen]
  · rw [htracker, hmissed, hpending]
    omega
  · intro hquiet
    rw [hnext] at hquiet
    split at hquiet
    · cases hquiet
    · next hother => exact absurd hquiet hother
  · intro hmissing
    rw [htracker, hpending]
    refine ⟨?_, Nat.succ_pos _⟩
    rw [hnext] at hmissing
    split at hmissing
    · next hquiet =>
      subst hquiet
      exact (deadline_of_quiet h).1
    · exact (h.missing hmissing).1
  · intro d hshown
    rw [htracker]
    rw [hnext] at hshown
    split at hshown
    · cases hshown
    · exact h.shown d hshown

/-- After a frame that reports nothing, nothing is pending. -/
theorem pending_quietly (h : s.Follows) (hrange : s.InRange slot) (harrival : slot.arrival = some a)
    (hquiet : (s.noted slot.heartbeat a).confirm a.nowNs = (s.noted slot.heartbeat a, none)) :
    (s.step slot).1.pending = 0 := by
  obtain ⟨hseq, -, -⟩ := noted_spec slot (a := a) h hrange
  rw [step_observed harrival, hquiet]
  unfold pending
  dsimp only
  rw [hseq]
  exact Nat.sub_self _

/-- **A heartbeat explains everything**, and ends the episode. -/
theorem reflects_heartbeat (h : s.Reflects e seen) (hrange : s.InRange slot)
    (harrival : slot.arrival = some a) (hkind : slot.heartbeat = true) :
    (∀ o ∈ (s.step slot).2, o.result = none) ∧ (s.step slot).1.Reflects (e.next slot) true := by
  have hfollows := follows_step h.follows hrange
  have hnoted := noted_heartbeat (a := a) h.follows hrange.1 (hrange.2 hkind)
  rw [h.balance, Nat.sub_self, if_pos rfl] at hnoted
  have hquiet : (s.noted slot.heartbeat a).confirm a.nowNs = (s.noted slot.heartbeat a, none) := by
    rw [hkind, hnoted]
    rfl
  have hpending := pending_quietly h.follows hrange harrival hquiet
  have htracker : (s.step slot).1.tracker = s.noted true a := by
    rw [step_observed harrival, hquiet, hkind]
  have hmissed : (s.step slot).1.missedHb = 0 := by
    unfold missedHb
    rw [htracker, hnoted, step_observed harrival]
    dsimp only
    rw [hkind, if_pos rfl]
    exact Nat.sub_self _
  have hnext : e.next slot = .quiet := by
    unfold Episode.next
    rw [harrival, hkind]
  rw [hnext]
  refine ⟨?_, hfollows, ?_, ?_, fun _ => hmissed, fun hne => (by cases hne),
    fun d hne => by cases hne⟩
  · rw [step_observed harrival, hquiet]
    exact List.forall_mem_singleton.mpr rfl
  · rw [htracker, hnoted]
    rfl
  · rw [htracker, hnoted, hpending, hmissed]

/-- The clock that a data frame finds or starts: it is that of a missing update,
and shown from then on. -/
theorem clock_of_data (h : s.Reflects e seen) (hrange : s.InRange slot)
    (harrival : slot.arrival = some a) (hkind : slot.heartbeat = false) {d : ℕ}
    (hd : (s.noted false a).deadline = some d) :
    (a.nowNs < d ↔ ∀ d', e = .shown d' → a.nowNs < d') ∧ e.next slot = .shown d := by
  rw [noted_data (a := a) h.follows hrange.1] at hd
  change s.clock a = some d at hd
  unfold clock at hd
  have hnext : e.next slot
      = if e = .missing then .shown (a.nowNs + a.jitter.debounceNs) else e := by
    unfold Episode.next
    rw [harrival, hkind]
    cases e <;> rfl
  cases e with
  | quiet =>
    obtain ⟨hnone, -, hzero⟩ := deadline_of_quiet h
    rw [hzero, if_neg (lt_irrefl 0), hnone] at hd
    cases hd
  | missing =>
    obtain ⟨hnone, hpos⟩ := h.missing rfl
    rw [if_pos hpos, hnone] at hd
    obtain rfl := Option.some.inj hd
    rw [hnext, if_pos rfl]
    refine ⟨iff_of_true ?_ (fun d' hne => by cases hne), rfl⟩
    exact Nat.lt_add_of_pos_right a.jitter.debounceNs_pos
  | shown d' =>
    have hsame : s.tracker.deadline = some d' := h.shown d' rfl
    rw [hsame] at hd
    have hd : some d' = some d := by
      split at hd <;> exact hd
    obtain rfl := Option.some.inj hd
    rw [hnext, if_neg (fun hne => by cases hne)]
    exact ⟨⟨fun hlt d'' hd'' => Episode.shown.inj hd'' ▸ hlt, fun hall => hall d' rfl⟩, rfl⟩

/-- A data frame that finds no clock, and starts none, is of a quiet episode. -/
theorem quiet_of_no_clock (h : s.Reflects e seen) (hrange : s.InRange slot)
    (hnone : (s.noted false a).deadline = none) : e = .quiet := by
  rw [noted_data (a := a) h.follows hrange.1] at hnone
  change s.clock a = none at hnone
  unfold clock at hnone
  cases e with
  | quiet => rfl
  | missing =>
    obtain ⟨hunset, hpos⟩ := h.missing rfl
    rw [if_pos hpos, hunset] at hnone
    cases hnone
  | shown d =>
    have hsame : s.tracker.deadline = some d := h.shown d rfl
    rw [hsame] at hnone
    split at hnone <;> cases hnone

/-- A data frame at which no clock runs out. -/
theorem reflects_of_quietly (h : s.Reflects e seen) (hrange : s.InRange slot)
    (harrival : slot.arrival = some a) (hkind : slot.heartbeat = false)
    (hquiet : (s.noted false a).confirm a.nowNs = (s.noted false a, none)) :
    (s.step slot).1.Reflects (e.next slot) seen := by
  have hnoted := noted_data (a := a) h.follows hrange.1
  have hquiet' := hquiet
  rw [← hkind] at hquiet'
  have hpending := pending_quietly h.follows hrange harrival hquiet'
  have htracker : (s.step slot).1.tracker = s.noted false a := by
    rw [step_observed harrival, hquiet', hkind]
  have hmissed : (s.step slot).1.missedHb = s.missedHb := by
    unfold missedHb
    rw [htracker, hnoted, step_observed harrival]
    dsimp only
    rw [hkind]
    rfl
  -- with a clock the next episode shows it, without one it is quiet
  have hnext : (∃ d, (s.noted false a).deadline = some d ∧ e.next slot = .shown d) ∨
      (e = .quiet ∧ e.next slot = .quiet) := by
    cases hd : (s.noted false a).deadline with
    | none =>
      obtain rfl := quiet_of_no_clock h hrange hd
      refine Or.inr ⟨rfl, ?_⟩
      unfold Episode.next
      rw [harrival, hkind]
    | some d => exact Or.inl ⟨d, rfl, (clock_of_data h hrange harrival hkind hd).2⟩
  refine ⟨follows_step h.follows hrange, ?_, ?_, fun hne => ?_, fun hne => ?_, fun d hne => ?_⟩
  · rw [htracker, hnoted]
    exact h.seen
  · rw [htracker, hnoted, hpending, hmissed]
    exact h.balance
  · rw [hmissed]
    obtain ⟨d, -, hshown⟩ | ⟨hidle, -⟩ := hnext
    · rw [hshown] at hne
      cases hne
    · exact h.quiet hidle
  · obtain ⟨d, -, hshown⟩ | ⟨-, hidle⟩ := hnext
    · rw [hshown] at hne
      cases hne
    · rw [hidle] at hne
      cases hne
  · rw [htracker]
    obtain ⟨d', hd', hshown⟩ | ⟨-, hidle⟩ := hnext
    · rw [hshown] at hne
      rw [hd']
      exact congrArg some (Episode.shown.inj hne)
    · rw [hidle] at hne
      cases hne

/-- **A data frame** is reported exactly if it comes at the deadline or later. -/
theorem reflects_data (h : s.Reflects e seen) (hrange : s.InRange slot)
    (harrival : slot.arrival = some a) (hkind : slot.heartbeat = false) :
    ((∀ o ∈ (s.step slot).2, o.result = none) ↔ ∀ d, e = .shown d → a.nowNs < d) ∧
      ((∀ d, e = .shown d → a.nowNs < d) → (s.step slot).1.Reflects (e.next slot) seen) := by
  have harmed := armed_noted (a := a) h.follows hrange.1 false
  have hresult : (∀ o ∈ (s.step slot).2, o.result = none)
      ↔ ((s.noted false a).confirm a.nowNs).2 = none := by
    rw [step_observed harrival, List.forall_mem_singleton, hkind]
  rw [hresult]
  rcases SeqTracker.confirm_cases harmed a.nowNs with ⟨heq, hlater⟩ | ⟨d, hd, hdue, heq⟩
  · refine ⟨iff_of_true (by rw [heq]) ?_,
      fun _ => reflects_of_quietly h hrange harrival hkind heq⟩
    cases hd : (s.noted false a).deadline with
    | none =>
      rw [quiet_of_no_clock h hrange hd]
      exact fun d hne => by cases hne
    | some d => exact (clock_of_data h hrange harrival hkind hd).1.mp (hlater d hd)
  · have hlate : ¬ ∀ d', e = .shown d' → a.nowNs < d' := fun hall =>
      absurd hdue (Nat.not_le.mpr ((clock_of_data h hrange harrival hkind hd).1.mpr hall))
    refine ⟨iff_of_false (fun hnone => ?_) hlate, fun hall => absurd hall hlate⟩
    rw [heq] at hnone
    cases hnone

end Reflects

/-- **Of slots of which only heartbeats are dropped nothing is reported exactly
if they come in time.** -/
theorem silent_iff {s : SlotStream} {e : Episode} {seen : Bool} {slots : List Slot}
    (h : s.Reflects e seen) (hrange : machine.Meets InRange s slots)
    (hdrop : OnlyHeartbeatsDropped seen slots) :
    (∀ o ∈ (machine.run s slots).2, o.result = none) ↔ e.InTime slots := by
  induction slots generalizing s e seen with
  | nil => exact iff_of_true (fun o ho => absurd ho List.not_mem_nil) trivial
  | cons slot slots ih =>
    obtain ⟨hfirst, hrest⟩ := hdrop
    show (∀ o ∈ (s.step slot).2 ++ (machine.run (s.step slot).1 slots).2, o.result = none)
      ↔ (∀ a d, slot.arrival = some a → slot.heartbeat = false → e = .shown d → a.nowNs < d) ∧
        (e.next slot).InTime slots
    rw [List.forall_mem_append]
    cases harrival : slot.arrival with
    | none =>
      obtain ⟨hkind, hseen⟩ := hfirst harrival
      have hquiet : (s.step slot).2 = [] := by rw [step_dropped harrival]
      rw [harrival, Option.isSome_none, Bool.and_false, Bool.or_false, hseen] at hrest
      rw [hquiet, ih (reflects_dropped h hrange.1 harrival hkind hseen) hrange.2 hrest]
      exact and_congr_left (fun _ => iff_of_true (fun o ho => absurd ho List.not_mem_nil)
        (fun a d hne => by cases hne))
    | some a =>
      rw [harrival, Option.isSome_some, Bool.and_true] at hrest
      cases hkind : slot.heartbeat with
      | true =>
        obtain ⟨hquiet, hnext⟩ := reflects_heartbeat h hrange.1 harrival hkind
        rw [hkind, Bool.or_true] at hrest
        rw [ih hnext hrange.2 hrest]
        exact and_congr_left (fun _ => iff_of_true hquiet (fun a' d _ hne => by cases hne))
      | false =>
        obtain ⟨hiff, hnext⟩ := reflects_data h hrange.1 harrival hkind
        rw [hkind, Bool.or_false] at hrest
        have hsame : (∀ a' d, some a = some a' → false = false → e = .shown d → a'.nowNs < d)
            ↔ ∀ d, e = .shown d → a.nowNs < d :=
          ⟨fun hall d hne => hall a d rfl rfl hne, fun hall a' d ha _ hne =>
            Option.some.inj ha ▸ hall d hne⟩
        rw [hsame, hiff]
        exact and_congr_right (fun hall => ih (hnext hall) hrange.2 hrest)

end SlotStream

namespace FrameStream

/-- **A dropped heartbeat forces no resync exactly if the slots come in time**:
for every stream of which only heartbeats are dropped, none before the first
one seen. -/
theorem never_confirms_iff (fs : FrameStream) (h : OnlyHeartbeatsDropped fs.heartbeat fs.rest) :
    (∀ o ∈ fs.observations, o.result = none) ↔ Episode.quiet.InTime fs.rest := by
  obtain ⟨hmissed, hpending⟩ := fs.missedHb_afterFirst
  have hstart : fs.afterFirst.Reflects .quiet fs.heartbeat := by
    refine ⟨fs.follows_afterFirst, ?_, ?_, fun _ => hmissed, fun hne => (by cases hne),
      fun d hne => by cases hne⟩
    · unfold afterFirst
      cases fs.heartbeat <;> rfl
    · rw [hmissed, hpending]
      rfl
  rw [observations_eq, List.forall_mem_cons, and_iff_right rfl]
  exact SlotStream.silent_iff hstart (SlotStream.meets_inRange fs.seq_le fs.hb_le) h

/-! ## A sample -/

/-- A frame that arrives after so many milliseconds. -/
def frameAt (heartbeat : Bool) (ms : ℕ) : Slot :=
  ⟨heartbeat, some ⟨ms * 1000000, ⟨20, by decide, by decide⟩⟩⟩

/-- A heartbeat, one that is dropped, and data frames after so many
milliseconds. -/
def droppedHeartbeat (dataAt : List ℕ) (h : dataAt.length ≤ 1000) : FrameStream where
  firstSeq := 1
  firstHb := 100
  heartbeat := true
  arrival := ⟨0, ⟨20, by decide, by decide⟩⟩
  rest := ⟨true, none⟩ :: dataAt.map (frameAt false)
  seq_le := by
    rw [List.length_cons, List.length_map]
    omega
  hb_le := by
    have hcount : (dataAt.map (frameAt false)).countP (·.heartbeat) = 0 := by
      refine List.countP_eq_zero.mpr (fun slot hslot => ?_)
      obtain ⟨ms, -, rfl⟩ := List.mem_map.mp hslot
      exact Bool.false_ne_true
    rw [List.countP_cons, hcount]
    decide

/-- The second data frame comes forty milliseconds after the one that shows the
hole. -/
def slowFrame : FrameStream := droppedHeartbeat [1000, 1040] (by decide)

/-- **The dropped heartbeat is reported as a loss.** -/
theorem not_silent_slowFrame : OnlyHeartbeatsDropped slowFrame.heartbeat slowFrame.rest ∧
    ¬ ∀ o ∈ slowFrame.observations, o.result = none := by
  refine ⟨⟨fun _ => ⟨rfl, rfl⟩, (fun h => by cases h), (fun h => by cases h), trivial⟩, fun h => ?_⟩
  have hresults : slowFrame.observations.map (·.result) = [none, none, some 1] := by decide
  have hall : ∀ r ∈ slowFrame.observations.map (·.result), r = none := List.forall_mem_map.mpr h
  rw [hresults] at hall
  cases hall (some 1) (by decide)

/-- It comes five milliseconds after it. -/
def promptFrame : FrameStream := droppedHeartbeat [1000, 1005] (by decide)

/-- Nothing is reported. -/
theorem silent_promptFrame :
    promptFrame.observations.length = 3 ∧ ∀ o ∈ promptFrame.observations, o.result = none := by
  refine ⟨by decide, (never_confirms_iff promptFrame
    ⟨fun _ => ⟨rfl, rfl⟩, (fun h => by cases h), (fun h => by cases h), trivial⟩).mpr ?_⟩
  refine ⟨fun a d harrival => (by cases harrival), fun a d _ _ hshown => (by cases hshown),
    fun a d harrival _ hshown => ?_, trivial⟩
  obtain rfl := Option.some.inj harrival
  obtain rfl := Episode.shown.inj hshown
  decide

/-- A heartbeat, a data frame and a heartbeat that are dropped, and two data frames. -/
def lostData : FrameStream where
  firstSeq := 1
  firstHb := 100
  heartbeat := true
  arrival := ⟨0, ⟨20, by decide, by decide⟩⟩
  rest := [⟨false, none⟩, ⟨true, none⟩, frameAt false 1000, frameAt false 1040]
  seq_le := by decide
  hb_le := by decide

/-- The loss is confirmed at the frame past the deadline, the heartbeat with it. -/
theorem masks_nothing_lostData :
    lostData.observations.map (fun o => (o.lost, o.result)) = [(0, none), (1, none), (1, some 2)]
      ∧ ∀ o ∈ lostData.observations, o.MasksNothing :=
  ⟨by decide, masks_nothing lostData⟩

end FrameStream
