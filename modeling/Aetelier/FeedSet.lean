import Aetelier.SourceRuntime

/-!
# Feeds

A feed is what a worker tells the outside about one subscription: an
instrument, a datatype, and a state. The states have a graph of legal
transitions, and every setter asserts its edge where assertions are on. Where
they are off nothing checks, so that a transition is legal has to follow from
who calls what, and when.

A worker has one feed for each instrument and datatype, which is a field of
`FeedSet`. A mark of the set is of one feed, looked up by its key, or of all;
each says which states it skips. What a mark does is written down as the list
of transitions it takes.
-/

namespace Telemetry

/-! ## States -/

/-- The state of a feed. -/
inductive FeedState where
  | requested
  | subscribing
  | live
  | stale
  | resubscribing
  | reconnecting
  | draining
  | closed
  | rejected
  | failed
deriving DecidableEq, Repr

namespace FeedState

/-- The feed is over. -/
def isTerminal : FeedState → Bool
  | closed | rejected | failed => true
  | _ => false

/-- **The legal transitions.** -/
def canTransitionTo : FeedState → FeedState → Bool
  | requested, subscribing | requested, draining => true
  | subscribing, live | subscribing, resubscribing | subscribing, reconnecting
  | subscribing, draining => true
  | live, stale | live, resubscribing | live, reconnecting | live, draining => true
  | stale, live | stale, resubscribing | stale, reconnecting | stale, draining => true
  | resubscribing, live | resubscribing, reconnecting | resubscribing, draining => true
  | reconnecting, subscribing | reconnecting, rejected | reconnecting, failed
  | reconnecting, draining => true
  | draining, closed => true
  | _, _ => false

/-- No transition leaves a terminal state. -/
theorem not_isTerminal_of_canTransitionTo {s t : FeedState} (h : s.canTransitionTo t = true) :
    s.isTerminal = false := by
  cases s with
  | closed | rejected | failed => cases h
  | _ => rfl

/-- The feed is part of a connection. -/
def isOpen : FeedState → Bool
  | subscribing | live | stale | resubscribing => true
  | _ => false

end FeedState

/-- A transition: from a state, to a state. -/
abbrev FeedTransition := FeedState × FeedState

/-! ## One feed -/

/-- **A subscription to one datatype of one instrument.** -/
structure Feed where
  instrument : TradingPair
  datatype : FeedDatatype
  state : FeedState
  /-- It was closed with data outstanding. -/
  closedPartial : Bool
  /-- Why it was rejected, or failed. -/
  terminalReason : Option String
deriving DecidableEq, Repr

namespace Feed

/-- A new feed. -/
def new (key : TradingPair × FeedDatatype) : Feed := ⟨key.1, key.2, .requested, false, none⟩

/-- What a feed is looked up by. -/
def key (f : Feed) : TradingPair × FeedDatatype := (f.instrument, f.datatype)

theorem instrument_of_key {f f' : Feed} (h : f'.key = f.key) : f.instrument = f'.instrument :=
  (congrArg Prod.fst h).symm

theorem datatype_of_key {f f' : Feed} (h : f'.key = f.key) : f.datatype = f'.datatype :=
  (congrArg Prod.snd h).symm

/-- The state is recorded. -/
def transition (f : Feed) (next : FeedState) : Feed := { f with state := next }

/-- Drained past the bound, with data outstanding. -/
def toClosedPartial (f : Feed) : Feed := { f.transition .closed with closedPartial := true }

/-- The venue rejects the subscription. -/
def toRejected (reason : String) (f : Feed) : Feed :=
  { f.transition .rejected with terminalReason := some reason }

/-- The connection is given up. -/
def toFailed (reason : String) (f : Feed) : Feed :=
  { f.transition .failed with terminalReason := some reason }

end Feed

/-- The setters of a feed. -/
inductive FeedSetter where
  | toSubscribing
  | toStale
  | toLive
  | toResubscribing
  | toReconnecting
  | toDraining
  | toClosed
  | toClosedPartial
  | toRejected (reason : String)
  | toFailed (reason : String)

namespace FeedSetter

/-- The state a setter sets. -/
def next : FeedSetter → FeedState
  | toSubscribing => .subscribing
  | toStale => .stale
  | toLive => .live
  | toResubscribing => .resubscribing
  | toReconnecting => .reconnecting
  | toDraining => .draining
  | toClosed | toClosedPartial => .closed
  | toRejected _ => .rejected
  | toFailed _ => .failed

/-- What a setter does to a feed. -/
def set (f : Feed) : FeedSetter → Feed
  | toClosedPartial => f.toClosedPartial
  | toRejected reason => f.toRejected reason
  | toFailed reason => f.toFailed reason
  | setter => f.transition setter.next

@[simp] theorem set_state (f : Feed) (setter : FeedSetter) :
    (setter.set f).state = setter.next := by
  cases setter <;> rfl

@[simp] theorem set_key (f : Feed) (setter : FeedSetter) : (setter.set f).key = f.key := by
  cases setter <;> rfl

end FeedSetter

/-! ## The feeds of a worker -/

/-- **The feeds of a connection**: one for each instrument and datatype. -/
structure FeedSet where
  feeds : List Feed
  keys_nodup : (feeds.map Feed.key).Nodup

/-- What a worker subscribes to. -/
structure Subscriptions where
  keys : List (TradingPair × FeedDatatype)
  nodup : keys.Nodup

namespace FeedSet

/-- A new feed for each subscription. -/
def new (subs : Subscriptions) : FeedSet where
  feeds := subs.keys.map Feed.new
  keys_nodup := by
    have hkeys : (subs.keys.map Feed.new).map Feed.key = subs.keys := by
      rw [List.map_map]
      exact List.map_id _
    rw [hkeys]
    exact subs.nodup

/-- A setter on the feeds that pass a test. -/
def setWhere (test : Feed → Bool) (setter : FeedSetter) (fs : FeedSet) : FeedSet where
  feeds := fs.feeds.map (fun f => if test f then setter.set f else f)
  keys_nodup := by
    have hkeys : (fs.feeds.map (fun f => if test f then setter.set f else f)).map Feed.key
        = fs.feeds.map Feed.key := by
      rw [List.map_map]
      refine List.map_congr_left (fun f _ => ?_)
      show Feed.key (if test f then setter.set f else f) = f.key
      split
      · exact FeedSetter.set_key f setter
      · rfl
    rw [hkeys]
    exact fs.keys_nodup

/-- The transitions of a setter on the feeds that pass a test. -/
def takenWhere (test : Feed → Bool) (setter : FeedSetter) (fs : FeedSet) : List FeedTransition :=
  (fs.feeds.filter test).map (fun f => (f.state, setter.next))

/-- **A mark**: the feeds that pass a test are set, and take a transition. -/
def mark (test : Feed → Bool) (setter : FeedSetter) (fs : FeedSet) :
    FeedSet × List FeedTransition :=
  (fs.setWhere test setter, fs.takenWhere test setter)

/-- `each_live_mut`: every feed that is not over. -/
def eachLiveMut (setter : FeedSetter) (fs : FeedSet) : FeedSet × List FeedTransition :=
  fs.mark (fun f => !f.state.isTerminal) setter

/-- `get_mut`: the first feed of a key. -/
def getMut (fs : FeedSet) (key : TradingPair × FeedDatatype) : Option Feed :=
  fs.feeds.find? (fun f => decide (f.key = key))

/-- The feed of a key is set, if its state passes a test. No other feed has the
key. -/
def markOne (key : TradingPair × FeedDatatype) (test : FeedState → Bool) (setter : FeedSetter)
    (fs : FeedSet) : FeedSet × List FeedTransition :=
  match fs.getMut key with
  | none => (fs, [])
  | some f =>
    if test f.state then
      (fs.setWhere (fun f => decide (f.key = key)) setter, [(f.state, setter.next)])
    else (fs, [])

/-- `mark_all_subscribing`. -/
def markAllSubscribing (fs : FeedSet) : FeedSet × List FeedTransition :=
  fs.eachLiveMut .toSubscribing

/-- `mark_all_reconnecting`. -/
def markAllReconnecting (fs : FeedSet) : FeedSet × List FeedTransition :=
  fs.eachLiveMut .toReconnecting

/-- `mark_live`: first data, or data after silence. -/
def markLive (fs : FeedSet) (instrument : TradingPair) (datatype : FeedDatatype) :
    FeedSet × List FeedTransition :=
  fs.markOne (instrument, datatype) (fun s => !s.isTerminal && decide (s ≠ .live)) .toLive

/-- `mark_stale`: silence past the cadence. -/
def markStale (fs : FeedSet) (instrument : TradingPair) (datatype : FeedDatatype) :
    FeedSet × List FeedTransition :=
  fs.markOne (instrument, datatype) (fun s => decide (s = .live)) .toStale

/-- `mark_resubscribing`: the book gapped. -/
def markResubscribing (fs : FeedSet) (instrument : TradingPair) (datatype : FeedDatatype) :
    FeedSet × List FeedTransition :=
  fs.markOne (instrument, datatype) (fun s => !s.isTerminal && decide (s ≠ .resubscribing))
    .toResubscribing

/-- `mark_all_draining`. -/
def markAllDraining (fs : FeedSet) : FeedSet × List FeedTransition := fs.eachLiveMut .toDraining

/-- `mark_all_closed`. -/
def markAllClosed (drainPartial : Bool) (fs : FeedSet) : FeedSet × List FeedTransition :=
  fs.eachLiveMut (if drainPartial then .toClosedPartial else .toClosed)

/-- `mark_all_rejected`. -/
def markAllRejected (reason : String) (fs : FeedSet) : FeedSet × List FeedTransition :=
  fs.eachLiveMut (.toRejected reason)

/-- `mark_all_failed`. -/
def markAllFailed (reason : String) (fs : FeedSet) : FeedSet × List FeedTransition :=
  fs.eachLiveMut (.toFailed reason)

end FeedSet

/-! ## What a mark does -/

namespace FeedSet

variable {fs : FeedSet} {test : Feed → Bool} {setter : FeedSetter}

/-- The feed looked up by a key is the only one of the key. -/
theorem getMut_eq_some_iff {key : TradingPair × FeedDatatype} {f : Feed} :
    fs.getMut key = some f ↔ f ∈ fs.feeds ∧ f.key = key := by
  have hfound : ∀ {f'}, fs.getMut key = some f' → f' ∈ fs.feeds ∧ f'.key = key := by
    intro f' h
    unfold getMut at h
    exact ⟨List.mem_of_find?_eq_some h, by simpa using List.find?_some h⟩
  refine ⟨hfound, fun ⟨hmem, hkey⟩ => ?_⟩
  cases hfind : fs.getMut key with
  | none => exact absurd (decide_eq_true hkey) (List.find?_eq_none.mp hfind f hmem)
  | some f' =>
    obtain ⟨hmem', hkey'⟩ := hfound hfind
    rw [List.inj_on_of_nodup_map fs.keys_nodup hmem' hmem (hkey'.trans hkey.symm)]

/-- A feed after a mark is one of before, set if it passes. -/
theorem mem_mark {f' : Feed} (h : f' ∈ (fs.mark test setter).1.feeds) :
    ∃ f ∈ fs.feeds, f'.key = f.key ∧ f'.state = if test f then setter.next else f.state := by
  obtain ⟨f, hmem, rfl⟩ := List.mem_map.mp h
  refine ⟨f, hmem, ?_⟩
  split
  · exact ⟨FeedSetter.set_key f setter, FeedSetter.set_state f setter⟩
  · exact ⟨rfl, rfl⟩

/-- A feed that does not pass is there as it was. -/
theorem mem_mark_of_not {f : Feed} (hmem : f ∈ fs.feeds) (h : test f = false) :
    f ∈ (fs.mark test setter).1.feeds := by
  refine List.mem_map.mpr ⟨f, hmem, ?_⟩
  rw [h]
  rfl

/-- The transitions of a mark are those of the feeds that pass. -/
theorem mem_mark_taken {t : FeedTransition} (h : t ∈ (fs.mark test setter).2) :
    ∃ f ∈ fs.feeds, test f = true ∧ t = (f.state, setter.next) := by
  obtain ⟨f, hf, rfl⟩ := List.mem_map.mp h
  obtain ⟨hmem, htest⟩ := List.mem_filter.mp hf
  exact ⟨f, hmem, htest, rfl⟩

/-- **Every transition of a mark is legal**, if it is from the states met. -/
theorem mark_legal (h : ∀ f ∈ fs.feeds, test f = true →
      f.state.canTransitionTo setter.next = true) :
    ∀ t ∈ (fs.mark test setter).2, t.1.canTransitionTo t.2 = true := by
  intro t ht
  obtain ⟨f, hmem, htest, rfl⟩ := mem_mark_taken ht
  exact h f hmem htest

/-- **A mark of one feed** is a mark of those of its key. -/
theorem markOne_eq_mark (key : TradingPair × FeedDatatype) (test : FeedState → Bool)
    (setter : FeedSetter) (fs : FeedSet) :
    (fs.markOne key test setter).1.feeds
        = (fs.mark (fun f => decide (f.key = key) && test f.state) setter).1.feeds ∧
      ∀ t ∈ (fs.markOne key test setter).2,
        t ∈ (fs.mark (fun f => decide (f.key = key) && test f.state) setter).2 := by
  have hskips : (∀ f ∈ fs.feeds, f.key = key → test f.state = false) → fs.feeds
      = (fs.mark (fun f => decide (f.key = key) && test f.state) setter).1.feeds := by
    intro h
    refine (List.map_id fs.feeds).symm.trans (List.map_congr_left (fun f hf => ?_))
    rw [if_neg]
    · rfl
    · rw [Bool.and_eq_true, decide_eq_true_eq]
      exact fun ⟨hkey, htest⟩ => absurd htest (by rw [h f hf hkey]; decide)
  unfold markOne
  split
  · next hnone =>
    refine ⟨hskips (fun f hf hkey => ?_), fun t ht => absurd ht List.not_mem_nil⟩
    rw [getMut_eq_some_iff.mpr ⟨hf, hkey⟩] at hnone
    cases hnone
  · next f hf =>
    obtain ⟨hmem, hkey⟩ := getMut_eq_some_iff.mp hf
    have honly : ∀ f' ∈ fs.feeds, f'.key = key → f' = f := fun f' hf' hkey' =>
      List.inj_on_of_nodup_map fs.keys_nodup hf' hmem (hkey'.trans hkey.symm)
    split
    · next htest =>
      constructor
      · refine List.map_congr_left (fun f' hf' => ?_)
        refine if_congr ?_ rfl rfl
        rw [Bool.and_eq_true, decide_eq_true_eq]
        exact (and_iff_left_of_imp (fun hkey' => by rw [honly f' hf' hkey', htest])).symm
      · intro t ht
        refine List.mem_map.mpr ⟨f, List.mem_filter.mpr ⟨hmem, ?_⟩, (List.mem_singleton.mp ht).symm⟩
        rw [decide_eq_true hkey, htest]
        rfl
    · next htest =>
      refine ⟨hskips (fun f' hf' hkey' => ?_), fun t ht => absurd ht List.not_mem_nil⟩
      rw [honly f' hf' hkey']
      exact Bool.eq_false_iff.mpr htest

/-- A feed after a mark of one is one of before, set if it has the key and
passes. -/
theorem mem_markOne {key : TradingPair × FeedDatatype} {test : FeedState → Bool} {f' : Feed}
    (h : f' ∈ (fs.markOne key test setter).1.feeds) :
    ∃ f ∈ fs.feeds, f'.key = f.key ∧
      f'.state = if f.key = key ∧ test f.state = true then setter.next else f.state := by
  rw [(markOne_eq_mark key test setter fs).1] at h
  obtain ⟨f, hmem, hkey, hstate⟩ := mem_mark h
  refine ⟨f, hmem, hkey, hstate.trans (if_congr ?_ rfl rfl)⟩
  rw [Bool.and_eq_true, decide_eq_true_eq]

/-- Every feed is in one of some states. -/
def All (fs : FeedSet) (P : FeedState → Bool) : Prop := ∀ f ∈ fs.feeds, P f.state = true

theorem All.imp {P Q : FeedState → Bool} (hall : fs.All P) (h : ∀ s, P s = true → Q s = true) :
    fs.All Q := fun f hf => h _ (hall f hf)

/-- **A mark of all feeds takes a stage to the next**: feeds that are over
belong to the next stage, and the others may go where they are set. -/
theorem stage_eachLiveMut {P Q : FeedState → Bool} (hall : fs.All P)
    (h : ∀ s, P s = true →
      (if s.isTerminal then Q s else s.canTransitionTo setter.next) = true)
    (hnext : Q setter.next = true) :
    (fs.eachLiveMut setter).1.All Q ∧
      ∀ t ∈ (fs.eachLiveMut setter).2, t.1.canTransitionTo t.2 = true := by
  constructor
  · intro f' hf'
    obtain ⟨f, hmem, -, hstate⟩ := mem_mark hf'
    have hstage := h f.state (hall f hmem)
    rw [hstate]
    cases hterminal : f.state.isTerminal with
    | true =>
      rw [hterminal] at hstage
      exact hstage
    | false => exact hnext
  · refine mark_legal (fun f hmem htest => ?_)
    have hstage := h f.state (hall f hmem)
    rw [Bool.not_eq_true'] at htest
    rw [htest] at hstage
    exact hstage

/-- A feed that is over is there as it was, after any mark of those that are
not. -/
theorem mem_eachLiveMut {f : Feed} (hmem : f ∈ fs.feeds) (h : f.state.isTerminal = true) :
    f ∈ (fs.eachLiveMut setter).1.feeds :=
  mem_mark_of_not hmem (by rw [h]; rfl)

/-- A mark of one feed keeps the others where they are. -/
theorem all_markOne {P : FeedState → Bool} {key : TradingPair × FeedDatatype}
    {test : FeedState → Bool} (hall : fs.All P) (h : P setter.next = true) :
    (fs.markOne key test setter).1.All P := by
  intro f' hf'
  obtain ⟨f, hmem, -, hstate⟩ := mem_markOne hf'
  rw [hstate]
  split
  · exact h
  · exact hall f hmem

theorem legal_markOne {P : FeedState → Bool} {key : TradingPair × FeedDatatype}
    {test : FeedState → Bool} (hall : fs.All P)
    (h : ∀ s, P s = true → test s = true → s.canTransitionTo setter.next = true) :
    ∀ t ∈ (fs.markOne key test setter).2, t.1.canTransitionTo t.2 = true := by
  intro t ht
  refine mark_legal (fun f hmem htest => ?_) t ((markOne_eq_mark key test setter fs).2 t ht)
  rw [Bool.and_eq_true] at htest
  exact h _ (hall f hmem) htest.2

end FeedSet

end Telemetry
