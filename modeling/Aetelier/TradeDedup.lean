import Aetelier.FrameworkWorker
import Mathlib.Data.List.DropRight

/-!
# Live and recovered prints

A print may reach the worker twice: once live and once recovered over REST,
or live again at a resubscribe. The recovered path looks an id up among those
delivered lately; the live path looks only into the replay filter, which
knows the live ids alone and exists on some venues only. So what reaches the
synchronizer is what the rule `Print.Admits` lets through
(`FrameworkWorker.account`), and an id is delivered once exactly
when every print whose id has arrived before is one the worker recognizes: a
recovered one with an id other than zero, or a live one of an id that was live
before, on a venue with a replay filter
(`FrameworkWorker.delivered_once_iff`). A print that is recovered first and
live afterwards is delivered twice.
-/

/-! ## Bounded queues -/

theorem rtake_succ_tail {l : List ℕ} {n : ℕ} (h : n < l.length) :
    (l.rtake (n + 1)).tail = l.rtake n := by
  unfold List.rtake
  rw [List.tail_drop]
  congr 1
  omega

/-- A bounded queue holds the last of what was pushed. -/
theorem pushRing_rtake {capacity : ℕ} (hpos : 0 < capacity) (l : List ℕ) (id : ℕ) :
    pushRing capacity (l.rtake capacity) id = (l ++ [id]).rtake capacity := by
  obtain ⟨n, rfl⟩ : ∃ n, capacity = n + 1 := ⟨capacity - 1, by omega⟩
  rw [List.rtake_concat_succ]
  unfold pushRing
  have hlen : (l.rtake (n + 1)).length = min l.length (n + 1) := by
    unfold List.rtake
    rw [List.length_drop]
    omega
  rw [List.length_append, List.length_singleton, hlen]
  split
  · next hfull =>
    have hlt : n < l.length := by omega
    rw [List.tail_append_of_ne_nil (by
      intro hnil
      rw [hnil] at hlen
      simp at hlen
      omega), rtake_succ_tail hlt]
  · next hroom =>
    have hle : l.length ≤ n := by omega
    unfold List.rtake
    rw [Nat.sub_eq_zero_of_le hle, Nat.sub_eq_zero_of_le (by omega)]

/-- What was pushed lately is in the queue. -/
theorem mem_rtake {a b : List ℕ} {x n : ℕ} (h : b.length < n) : x ∈ (a ++ x :: b).rtake n := by
  unfold List.rtake
  rw [List.length_append, List.length_cons, List.drop_append]
  have hzero : a.length + (b.length + 1) - n - a.length = 0 := by omega
  rw [hzero, List.drop_zero]
  exact List.mem_append_right _ List.mem_cons_self

theorem mem_of_mem_rtake {l : List ℕ} {x n : ℕ} (h : x ∈ l.rtake n) : x ∈ l :=
  List.mem_of_mem_drop h

/-! ## The rule -/

/-- A print as it arrives: live or recovered, and its id. -/
structure Print where
  /-- Where it comes from. -/
  origin : TradeOrigin
  /-- Its venue id. -/
  id : ℕ
deriving DecidableEq, Repr

namespace Print

variable {replays : Bool}

/-- **The rule**: a live print passes unless the venue has a replay filter and
the id was live before; a recovered print passes if its id is zero or has not
arrived at all. -/
def Admits (replays : Bool) (pre : List Print) (p : Print) : Prop :=
  (p.origin = .ws ∧ ¬ (replays = true ∧ p ∈ pre)) ∨
    (p.origin = .rest ∧ (p.id = 0 ∨ ∀ q ∈ pre, q.id ≠ p.id))

instance (pre : List Print) (p : Print) : Decidable (Admits replays pre p) := by
  unfold Admits
  infer_instance

/-- What passes of a list of prints, after others. -/
def admitted (replays : Bool) (pre : List Print) : List Print → List Print
  | [] => []
  | p :: rest =>
    (if Admits replays pre p then [p] else []) ++ admitted replays (pre ++ [p]) rest

theorem admitted_append (pre xs ys : List Print) :
    admitted replays pre (xs ++ ys)
      = admitted replays pre xs ++ admitted replays (pre ++ xs) ys := by
  induction xs generalizing pre with
  | nil =>
    rw [List.append_nil]
    rfl
  | cons p xs ih =>
    show _ ++ admitted replays (pre ++ [p]) (xs ++ ys) = _ ++ admitted replays (pre ++ [p]) xs ++ _
    rw [ih, List.append_assoc, List.append_assoc, List.singleton_append]

theorem admitted_snoc (replays : Bool) (A : List Print) (p : Print) :
    admitted replays [] (A ++ [p])
      = admitted replays [] A ++ (if Admits replays A p then [p] else []) := by
  rw [admitted_append]
  exact congrArg _ (List.append_nil _)

theorem admitted_sublist (pre xs : List Print) : (admitted replays pre xs).Sublist xs := by
  induction xs generalizing pre with
  | nil => exact List.Sublist.refl _
  | cons p xs ih =>
    show ((if Admits replays pre p then [p] else []) ++ _).Sublist _
    split
    · exact (ih _).cons_cons p
    · exact (ih _).cons p

/-- A print that passes is followed by no more than what follows it. -/
theorem exists_admitted {pre : List Print} {q : Print} (h : Admits replays pre q)
    (mid : List Print) :
    ∃ before after, admitted replays [] (pre ++ q :: mid) = before ++ q :: after ∧
      after.length ≤ mid.length := by
  refine ⟨admitted replays [] pre, admitted replays (pre ++ [q]) mid, ?_,
    (admitted_sublist _ _).length_le⟩
  rw [admitted_append]
  show _ ++ ((if Admits replays pre q then [q] else []) ++ _) = _
  rw [if_pos h]
  rfl

/-- The first print of an id passes. -/
theorem admits_of_first {pre : List Print} {q : Print} (h : ∀ r ∈ pre, r.id ≠ q.id) :
    Admits replays pre q := by
  cases horigin : q.origin with
  | ws => exact Or.inl ⟨horigin, fun hq => h q hq.2 rfl⟩
  | rest => exact Or.inr ⟨horigin, Or.inr h⟩

/-- So does the first live print of an id. -/
theorem admits_of_first_live {pre : List Print} {q : Print} (hws : q.origin = .ws)
    (h : q ∉ pre) : Admits replays pre q :=
  Or.inl ⟨hws, fun hq => h hq.2⟩

/-- The first print of a list with some property. -/
theorem exists_first (P : Print → Prop) [DecidablePred P] {A : List Print} (h : ∃ r ∈ A, P r) :
    ∃ pre q mid, A = pre ++ q :: mid ∧ P q ∧ ∀ r ∈ pre, ¬ P r := by
  cases hfind : A.find? (fun r => decide (P r)) with
  | none =>
    obtain ⟨r, hr, hP⟩ := h
    have := List.find?_eq_none.mp hfind r hr
    simp [hP] at this
  | some q =>
    obtain ⟨hq, pre, mid, hA, hpre⟩ := List.find?_eq_some_iff_append.mp hfind
    exact ⟨pre, q, mid, hA, of_decide_eq_true hq, fun r hr => by simpa using hpre r hr⟩

/-- An id that has arrived has been delivered. -/
theorem mem_admitted_id {A : List Print} {p : Print} (h : ∃ q ∈ A, q.id = p.id) :
    p.id ∈ (admitted replays [] A).map Print.id := by
  obtain ⟨pre, q, mid, rfl, hq, hpre⟩ := exists_first (fun r => r.id = p.id) h
  obtain ⟨before, after, hadmitted, -⟩ :=
    exists_admitted (admits_of_first (fun r hr => by rw [hq]; exact hpre r hr)) mid
  rw [hadmitted, ← hq]
  exact List.mem_map_of_mem (List.mem_append_right _ List.mem_cons_self)

/-! ## When an id is delivered once -/

/-- **A print the worker recognizes** when its id has arrived before: it is
recovered and its id is not zero, or it is live, the venue has a replay
filter, and the id was live before. -/
def Recognized (replays : Bool) (pre : List Print) (p : Print) : Prop :=
  (p.origin = .rest ∧ p.id ≠ 0) ∨ (p.origin = .ws ∧ replays = true ∧ p ∈ pre)

/-- Every print whose id has arrived before is recognized. -/
def Separated (replays : Bool) (A : List Print) : Prop :=
  ∀ pre p post, A = pre ++ p :: post → (∃ q ∈ pre, q.id = p.id) → Recognized replays pre p

/-- Of the prints whose id has arrived, those that do not pass are those
recognized. -/
theorem not_admits_iff {pre : List Print} {p : Print} (h : ∃ q ∈ pre, q.id = p.id) :
    ¬ Admits replays pre p ↔ Recognized replays pre p := by
  have hseen : ¬ ∀ q ∈ pre, q.id ≠ p.id := by
    obtain ⟨q, hq, hid⟩ := h
    exact fun hall => hall q hq hid
  unfold Admits Recognized
  cases p.origin with
  | ws => simp
  | rest => simp [hseen]

theorem separated_snoc {A : List Print} {p : Print} :
    Separated replays (A ++ [p]) ↔
      Separated replays A ∧ ((∃ q ∈ A, q.id = p.id) → Recognized replays A p) := by
  constructor
  · intro h
    refine ⟨fun pre q post hA hq => h pre q (post ++ [p]) (by rw [hA]; simp) hq, fun hq => ?_⟩
    exact h A p [] rfl hq
  · rintro ⟨hA, hp⟩ pre q post heq hq
    rcases List.eq_nil_or_concat post with rfl | ⟨post', r, rfl⟩
    · obtain ⟨rfl, he⟩ := List.append_inj' heq rfl
      cases he
      exact hp hq
    · refine hA pre q post' ?_ hq
      rw [List.concat_eq_append, ← List.cons_append, ← List.append_assoc] at heq
      exact (List.append_inj' heq rfl).1

/-- **What passes has each id once exactly when every repeated id is
recognized.** -/
theorem admitted_nodup_iff (A : List Print) :
    ((admitted replays [] A).map Print.id).Nodup ↔ Separated replays A := by
  induction A using List.reverseRecOn with
  | nil =>
    refine iff_of_true List.nodup_nil (fun pre p post h => ?_)
    simp at h
  | append_singleton A p ih =>
    rw [admitted_snoc, separated_snoc, ← ih]
    by_cases hseen : ∃ q ∈ A, q.id = p.id
    · rw [← not_admits_iff hseen]
      split
      · next hadm =>
        refine iff_of_false (fun hnodup => ?_) (fun h => h.2 hseen hadm)
        rw [List.map_append, List.nodup_append] at hnodup
        exact hnodup.2.2 _ (mem_admitted_id hseen) _ (List.mem_map_of_mem List.mem_cons_self) rfl
      · next hadm =>
        rw [List.append_nil]
        exact (and_iff_left (fun _ => hadm)).symm
    · have hadm : Admits replays A p :=
        admits_of_first (fun q hq hid => hseen ⟨q, hq, hid⟩)
      rw [if_pos hadm, and_iff_left (fun h => absurd h hseen), List.map_append, List.nodup_append]
      refine ⟨fun h => h.1, fun h => ⟨h, List.nodup_singleton _, ?_⟩⟩
      intro a ha b hb hab
      obtain rfl : b = p.id := List.mem_singleton.mp hb
      obtain ⟨q, hq, rfl⟩ := List.mem_map.mp ha
      exact hseen ⟨q, (admitted_sublist [] A).mem hq, hab⟩

end Print

/-! ## What the worker delivers -/

namespace FrameworkWorker

variable {cfg : WorkerConfig} {w : FrameworkWorker}

/-- The print a turn of the loop takes, unless the worker is paused or has
stopped. -/
def arrival (cfg : WorkerConfig) (w : FrameworkWorker) (input : WorkerInput) : Option Print :=
  if w.ended ∨ w.paused then none
  else
    match input with
    | .event (.trade t) _ => (parseU64 t.id).map (Print.mk .ws)
    | .recovered t => if cfg.reconcileActive then (parseU64 t.id).map (Print.mk .rest) else none
    | _ => none

/-- The prints a run takes. -/
def arrivals (cfg : WorkerConfig) (w : FrameworkWorker) (inputs : List WorkerInput) : List Print :=
  (machine cfg).collect (arrival cfg) w inputs

/-- The id of a trade fed to the synchronizer. -/
def fedId : WorkerEffect → Option ℕ
  | .call (.onTrade t) => parseU64 t.id
  | _ => none

/-- **The trade ids that reach the synchronizer in a run.** -/
def deliveredIds (cfg : WorkerConfig) (w : FrameworkWorker) (inputs : List WorkerInput) : List ℕ :=
  ((machine cfg).run w inputs).2.filterMap fedId

/-- The trade ids are numeric. -/
def Numeric : WorkerInput → Prop
  | .event (.trade t) _ => ∃ id, parseU64 t.id = some id
  | .recovered t => ∃ id, parseU64 t.id = some id
  | _ => True

/-- Fewer than `n` prints arrive between any two of one id. -/
def Close (n : ℕ) (A : List Print) : Prop :=
  ∀ pre q mid p post, A = pre ++ q :: (mid ++ p :: post) → q.id = p.id → mid.length < n

theorem Close.init {n : ℕ} {A : List Print} {p : Print} (h : Close n (A ++ [p])) : Close n A :=
  fun pre q mid r post hA hid => h pre q mid r (post ++ [p]) (by rw [hA]; simp) hid

/-- A short run is close together. -/
theorem close_of_length_le {n : ℕ} {A : List Print} (h : A.length ≤ n) : Close n A := by
  rintro pre q mid p post rfl -
  simp only [List.length_append, List.length_cons] at h
  omega

/-- A print is noted among the recent ids. -/
def noted (p : Print) : Bool := decide (p.origin = .ws ∨ p.id ≠ 0)

/-- A print is live. -/
def live (p : Print) : Bool := decide (p.origin = .ws)

/-- **The queues of a worker** hold the last ids of what passed. -/
structure Rings (cfg : WorkerConfig) (w : FrameworkWorker) (A : List Print) : Prop where
  /-- The ids delivered lately. -/
  recent : cfg.reconcileActive = true → w.recentIds
    = (((Print.admitted cfg.resubscribeReplaysTrades [] A).filter noted).map Print.id).rtake
        recentIdsCapacity
  /-- The replay filter. -/
  seen : w.seenTradeIds
    = if cfg.resubscribeReplaysTrades then
        some ⟨(((Print.admitted cfg.resubscribeReplaysTrades [] A).filter live).map Print.id).rtake
          replayDedupCapacity, replayDedupCapacity⟩
      else none

/-- A print that passed and satisfies a filter, followed by fewer than `n`
prints, is in the queue of `n` ids kept by that filter. -/
theorem mem_rtake_admitted {replays : Bool} {pre mid : List Print} {q : Print} {n : ℕ}
    (hadm : Print.Admits replays pre q) (keep : Print → Bool) (hkeep : keep q = true)
    (hmid : mid.length < n) :
    q.id ∈ (((Print.admitted replays [] (pre ++ q :: mid)).filter keep).map Print.id).rtake n := by
  obtain ⟨before, after, hadmitted, hafter⟩ := Print.exists_admitted hadm mid
  rw [hadmitted, List.filter_append, List.filter_cons_of_pos hkeep, List.map_append, List.map_cons]
  refine mem_rtake ?_
  rw [List.length_map]
  exact ((List.filter_sublist).length_le.trans hafter).trans_lt hmid

/-- A recovered print is known exactly when its id has arrived. -/
theorem Rings.mem_recent {A : List Print} (h : Rings cfg w A) (hrec : cfg.reconcileActive = true)
    {p : Print} (hclose : Close recentIdsCapacity (A ++ [p])) (hid : p.id ≠ 0) :
    p.id ∈ w.recentIds ↔ ∃ q ∈ A, q.id = p.id := by
  rw [h.recent hrec]
  constructor
  · intro hmem
    obtain ⟨q, hq, hqid⟩ := List.mem_map.mp (mem_of_mem_rtake hmem)
    exact ⟨q, (Print.admitted_sublist [] A).mem (List.mem_filter.mp hq).1, hqid⟩
  · intro hseen
    obtain ⟨pre, q, mid, rfl, hq, hpre⟩ := Print.exists_first (fun r => r.id = p.id) hseen
    have hmid := hclose pre q mid p [] (by simp) hq
    rw [← hq]
    refine mem_rtake_admitted (Print.admits_of_first (fun r hr => by rw [hq]; exact hpre r hr))
      noted (decide_eq_true (Or.inr (by rw [hq]; exact hid))) hmid

/-- The replay filter knows an id exactly when it was live before. -/
theorem mem_seen (replays : Bool) {A : List Print} {p : Print}
    (hclose : Close recentIdsCapacity (A ++ [p])) (hws : p.origin = .ws) :
    p.id ∈ (((Print.admitted replays [] A).filter live).map Print.id).rtake replayDedupCapacity ↔
      p ∈ A := by
  constructor
  · intro hmem
    obtain ⟨q, hq, hqid⟩ := List.mem_map.mp (mem_of_mem_rtake hmem)
    obtain ⟨hqA, hlive⟩ := List.mem_filter.mp hq
    have hqp : q = p := by
      cases q
      cases p
      have hqws := of_decide_eq_true hlive
      simp only at hqws hws hqid
      rw [hqws, hws, hqid]
    exact hqp ▸ (Print.admitted_sublist [] A).mem hqA
  · intro hp
    obtain ⟨pre, q, mid, rfl, rfl, hpre⟩ := Print.exists_first (fun r => r = p) ⟨p, hp, rfl⟩
    have hmid := hclose pre q mid q [] (by simp) rfl
    refine mem_rtake_admitted (Print.admits_of_first_live hws (fun hq => hpre q hq rfl)) live
      (decide_eq_true hws) (hmid.trans (by decide))

/-- Queues that did not move still fit after a print that did not pass. -/
theorem Rings.of_rejected {A : List Print} (h : Rings cfg w A) {p : Print}
    (hadm : ¬ Print.Admits cfg.resubscribeReplaysTrades A p) : Rings cfg w (A ++ [p]) := by
  have hsame := Print.admitted_snoc cfg.resubscribeReplaysTrades A p
  rw [if_neg hadm, List.append_nil] at hsame
  exact ⟨by rw [hsame]; exact h.recent, by rw [hsame]; exact h.seen⟩

/-- Queues that took the id of a print fit after it has passed. -/
theorem Rings.of_admitted {A : List Print} (h : Rings cfg w A) {p : Print} {w' : FrameworkWorker}
    (hadm : Print.Admits cfg.resubscribeReplaysTrades A p)
    (hrecent : cfg.reconcileActive = true → w'.recentIds
      = if noted p then pushRing recentIdsCapacity w.recentIds p.id else w.recentIds)
    (hseen : w'.seenTradeIds
      = if live p then
          w.seenTradeIds.map (fun s => { s with order := pushRing s.capacity s.order p.id })
        else w.seenTradeIds) : Rings cfg w' (A ++ [p]) := by
  have hmore := Print.admitted_snoc cfg.resubscribeReplaysTrades A p
  rw [if_pos hadm] at hmore
  refine ⟨fun hrec => ?_, ?_⟩
  · rw [hrecent hrec, hmore, List.filter_append, h.recent hrec]
    cases hnoted : noted p with
    | true =>
      rw [if_pos rfl, pushRing_rtake (by decide), List.filter_cons_of_pos hnoted, List.filter_nil,
        List.map_append]
      rfl
    | false =>
      rw [if_neg Bool.false_ne_true,
        List.filter_cons_of_neg (by rw [hnoted]; exact Bool.false_ne_true), List.filter_nil,
        List.append_nil]
  · rw [hseen, hmore, List.filter_append, h.seen]
    cases hlive : live p with
    | true =>
      rw [if_pos rfl, List.filter_cons_of_pos hlive, List.filter_nil, List.map_append]
      cases cfg.resubscribeReplaysTrades with
      | true =>
        simp only [if_true, Option.map_some,
          pushRing_rtake (show 0 < replayDedupCapacity by decide)]
        rfl
      | false => rfl
    | false =>
      rw [if_neg Bool.false_ne_true,
        List.filter_cons_of_neg (by rw [hlive]; exact Bool.false_ne_true), List.filter_nil,
        List.append_nil]

/-- Delivering a live print feeds it, and notes its id where there is a
reconciler. -/
theorem deliverLive_spec (cfg : WorkerConfig) (w : FrameworkWorker) {t : Trade} {id : ℕ}
    (hid : parseU64 t.id = some id) :
    ((w.deliverLive cfg t).1.seenTradeIds = w.seenTradeIds ∧
      (cfg.reconcileActive = true →
        (w.deliverLive cfg t).1.recentIds = pushRing recentIdsCapacity w.recentIds id)) ∧
      (w.deliverLive cfg t).2 = [.call (.onTrade t)] := by
  unfold deliverLive
  rw [hid]
  cases cfg.reconcileActive with
  | true => exact ⟨⟨rfl, fun _ => rfl⟩, rfl⟩
  | false => exact ⟨⟨rfl, fun h => by cases h⟩, rfl⟩

theorem fedId_drainAndEmit (cfg : WorkerConfig) : (drainAndEmit cfg).filterMap fedId = [] := by
  unfold drainAndEmit
  split <;> rfl

/-- What a turn adds to the account: the queues fit the prints taken, and the
ids fed are those of the prints that passed. -/
def Accounts (cfg : WorkerConfig) (A : List Print) (p : Print)
    (r : FrameworkWorker × List WorkerEffect) : Prop :=
  Rings cfg r.1 (A ++ [p]) ∧
    r.2.filterMap fedId
      = if Print.Admits cfg.resubscribeReplaysTrades A p then [p.id] else []

/-- A live print that passes, once the replay filter has taken its id. -/
theorem Rings.deliverLive {A : List Print} (h : Rings cfg w A) {t : Trade} {id : ℕ}
    (hid : parseU64 t.id = some id)
    (hadm : Print.Admits cfg.resubscribeReplaysTrades A ⟨.ws, id⟩) {w₀ : FrameworkWorker}
    (hrecent : w₀.recentIds = w.recentIds)
    (hseen : w₀.seenTradeIds
      = w.seenTradeIds.map (fun s => { s with order := pushRing s.capacity s.order id })) :
    Accounts cfg A ⟨.ws, id⟩
      ((w₀.deliverLive cfg t).1, (w₀.deliverLive cfg t).2 ++ drainAndEmit cfg) := by
  obtain ⟨⟨hkept, hpush⟩, heffects⟩ := deliverLive_spec cfg w₀ hid
  refine ⟨h.of_admitted hadm (fun hrec => ?_) ?_, ?_⟩
  · rw [if_pos (show noted ⟨.ws, id⟩ = true from decide_eq_true (Or.inl rfl)), hpush hrec, hrecent]
  · rw [if_pos (show live ⟨.ws, id⟩ = true from decide_eq_true rfl), hkept, hseen]
  · rw [if_pos hadm, List.filterMap_append, fedId_drainAndEmit, heffects]
    simp [fedId, hid]

/-- **A live print** passes by the rule. -/
theorem Rings.onLiveTrade {A : List Print} (h : Rings cfg w A) {t : Trade} {id : ℕ}
    (hid : parseU64 t.id = some id) (hclose : Close recentIdsCapacity (A ++ [⟨.ws, id⟩])) :
    Accounts cfg A ⟨.ws, id⟩ (w.onLiveTrade cfg t) := by
  have hseen := h.seen
  cases hreplays : cfg.resubscribeReplaysTrades with
  | false =>
    have hadm : Print.Admits cfg.resubscribeReplaysTrades A ⟨.ws, id⟩ :=
      Or.inl ⟨rfl, fun hr => by rw [hreplays] at hr; cases hr.1⟩
    have hnone : w.seenTradeIds = none := by
      rw [hseen, hreplays, if_neg Bool.false_ne_true]
    have hdeliver := h.deliverLive hid hadm (rfl : w.recentIds = w.recentIds) (by rw [hnone]; rfl)
    unfold FrameworkWorker.onLiveTrade
    rw [hnone]
    exact hdeliver
  | true =>
    have hmem := mem_seen cfg.resubscribeReplaysTrades hclose rfl
    rw [hreplays, if_pos rfl, ← hreplays] at hseen
    unfold FrameworkWorker.onLiveTrade
    rw [hid, hseen]
    dsimp only
    unfold SeenTradeIds.insert
    by_cases hknown : (⟨.ws, id⟩ : Print) ∈ A
    · have hadm : ¬ Print.Admits cfg.resubscribeReplaysTrades A ⟨.ws, id⟩ := by
        rintro (⟨-, hnew⟩ | ⟨horigin, -⟩)
        · exact hnew ⟨hreplays, hknown⟩
        · cases horigin
      rw [if_pos (hmem.mpr hknown), if_neg Bool.false_ne_true]
      exact ⟨h.of_rejected hadm, (if_neg hadm).symm⟩
    · have hadm : Print.Admits cfg.resubscribeReplaysTrades A ⟨.ws, id⟩ :=
        Print.admits_of_first_live rfl hknown
      rw [if_neg (fun hin => hknown (hmem.mp hin)), if_pos rfl]
      refine h.deliverLive hid hadm ?_ ?_
      · rfl
      · rw [hseen, Option.map_some]

/-- **A recovered print** passes by the rule. -/
theorem Rings.onRecovered {A : List Print} (h : Rings cfg w A) (hpaused : w.paused = false)
    (hrec : cfg.reconcileActive = true) {t : Trade} {id : ℕ} (hid : parseU64 t.id = some id)
    (hclose : Close recentIdsCapacity (A ++ [⟨.rest, id⟩])) :
    Accounts cfg A ⟨.rest, id⟩ (w.onRecovered t) := by
  unfold FrameworkWorker.onRecovered
  rw [hid, hpaused]
  simp only [Option.getD_some, Bool.false_eq_true, false_or]
  by_cases hzero : id = 0
  · have hadm : Print.Admits cfg.resubscribeReplaysTrades A ⟨.rest, id⟩ :=
      Or.inr ⟨rfl, Or.inl hzero⟩
    rw [if_neg (fun hdup => hdup.1 hzero), if_pos hzero]
    refine ⟨h.of_admitted hadm (fun _ => ?_) rfl, ?_⟩
    · rw [if_neg (by simp [noted, hzero])]
    · simp [fedId, hid, hadm]
  · have hmem := h.mem_recent hrec hclose hzero
    by_cases hknown : ∃ q ∈ A, q.id = id
    · have hadm : ¬ Print.Admits cfg.resubscribeReplaysTrades A ⟨.rest, id⟩ :=
        (Print.not_admits_iff hknown).mpr (Or.inl ⟨rfl, hzero⟩)
      rw [if_pos ⟨hzero, hmem.mpr hknown⟩]
      exact ⟨h.of_rejected hadm, (if_neg hadm).symm⟩
    · have hadm : Print.Admits cfg.resubscribeReplaysTrades A ⟨.rest, id⟩ :=
        Print.admits_of_first (fun q hq hqid => hknown ⟨q, hq, hqid⟩)
      rw [if_neg (fun hdup => hknown (hmem.mp hdup.2)), if_neg hzero]
      refine ⟨h.of_admitted hadm (fun _ => ?_) rfl, ?_⟩
      · exact (if_pos (show noted ⟨.rest, id⟩ = true from decide_eq_true (Or.inr hzero))).symm
      · simp [fedId, hid, hadm]

/-- The queues do not notice a turn that takes no print. -/
theorem Rings.congr {A : List Print} {w' : FrameworkWorker} (h : Rings cfg w A)
    (hrecent : w'.recentIds = w.recentIds) (hseen : w'.seenTradeIds = w.seenTradeIds) :
    Rings cfg w' A :=
  ⟨fun hrec => hrecent.trans (h.recent hrec), hseen.trans h.seen⟩

/-- The first event of a connection touches neither queue and feeds
nothing. -/
theorem arrive_frame (cfg : WorkerConfig) (w : FrameworkWorker) (nowUs : ℕ) :
    (w.arrive cfg nowUs).1.recentIds = w.recentIds ∧
      (w.arrive cfg nowUs).1.seenTradeIds = w.seenTradeIds ∧
      (w.arrive cfg nowUs).1.paused = w.paused ∧
      (w.arrive cfg nowUs).2.filterMap fedId = [] := by
  unfold arrive
  split
  · exact ⟨rfl, rfl, rfl, rfl⟩
  · split
    · exact ⟨rfl, rfl, rfl, rfl⟩
    · refine ⟨rfl, rfl, rfl, ?_⟩
      split <;> rfl

/-- Neither does the stop. -/
theorem fedId_stop (w : FrameworkWorker) (nowUs : ℕ) :
    (w.stop cfg nowUs).2.filterMap fedId = [] := by
  unfold stop
  cases w.gapOpen <;> rfl

/-- An event that is no trade, or any event while paused, feeds no trade. -/
theorem handle_quiet (cfg : WorkerConfig) {ev : ReconstructedEvent}
    (h : w.paused = true ∨ ∀ t, ev ≠ .trade t) :
    (w.handle cfg ev).1 = w ∧ (w.handle cfg ev).2.filterMap fedId = [] := by
  unfold handle
  by_cases hpaused : w.paused = true
  · rw [if_pos hpaused]
    exact ⟨rfl, rfl⟩
  rw [if_neg hpaused]
  cases ev with
  | trade t => exact absurd rfl (h.resolve_left hpaused t)
  | _ => exact ⟨rfl, fedId_drainAndEmit cfg⟩

/-- **A turn that takes no print** moves neither queue and feeds no trade. -/
theorem step_of_no_arrival {input : WorkerInput} (hnum : Numeric input)
    (h : arrival cfg w input = none) :
    (w.step cfg input).1.recentIds = w.recentIds ∧
      (w.step cfg input).1.seenTradeIds = w.seenTradeIds ∧
      (w.step cfg input).2.filterMap fedId = [] := by
  unfold step
  by_cases hended : w.ended = true
  · rw [if_pos hended]
    exact ⟨rfl, rfl, rfl⟩
  rw [if_neg hended]
  cases input with
  | event ev nowUs =>
    obtain ⟨hrecent, hseen, hpaused, hfed⟩ := arrive_frame cfg w nowUs
    -- a trade of a worker that is not paused would have been an arrival
    have hquiet : (w.arrive cfg nowUs).1.paused = true ∨ ∀ t, ev ≠ .trade t := by
      rw [hpaused]
      by_cases hp : w.paused = true
      · exact Or.inl hp
      · refine Or.inr (fun t ht => ?_)
        subst ht
        obtain ⟨id, hid⟩ := hnum
        unfold arrival at h
        rw [if_neg (fun ho => ho.elim hended hp)] at h
        simp only [hid] at h
        cases h
    obtain ⟨hsame, hnone⟩ := handle_quiet cfg hquiet
    dsimp only
    rw [hsame, List.filterMap_append, hfed, hnone]
    exact ⟨hrecent, hseen, rfl⟩
  | recovered t =>
    dsimp only
    split
    · next hrec =>
      unfold arrival at h
      by_cases hp : w.paused = true
      · unfold onRecovered
        rw [if_pos (Or.inl hp)]
        exact ⟨rfl, rfl, rfl⟩
      · obtain ⟨id, hid⟩ := hnum
        rw [if_neg (fun ho => ho.elim hended hp)] at h
        simp only [hrec, hid] at h
        cases h
    · exact ⟨rfl, rfl, rfl⟩
  | timer nowUs =>
    dsimp only
    split <;> exact ⟨rfl, rfl, rfl⟩
  | connectionLost outcome nowUs =>
    dsimp only
    unfold openGap
    split <;> exact ⟨rfl, rfl, rfl⟩
  | stopped nowUs => exact ⟨rfl, rfl, fedId_stop w nowUs⟩
  | connected | pause | resume => exact ⟨rfl, rfl, rfl⟩

/-- **A turn that takes a print** passes it by the rule. -/
theorem Rings.step_of_arrival {A : List Print} (h : Rings cfg w A) {input : WorkerInput} {p : Print}
    (harrival : arrival cfg w input = some p) (hclose : Close recentIdsCapacity (A ++ [p])) :
    Accounts cfg A p (w.step cfg input) := by
  unfold arrival at harrival
  obtain ⟨hopen, hprint⟩ := Option.ite_none_left_eq_some.mp harrival
  rw [not_or] at hopen
  unfold FrameworkWorker.step
  rw [if_neg hopen.1]
  cases input with
  | event ev nowUs =>
    cases ev with
    | trade t =>
      obtain ⟨id, hid, rfl⟩ := Option.map_eq_some_iff.mp hprint
      obtain ⟨hrecent, hseen, hpaused, hfed⟩ := arrive_frame cfg w nowUs
      obtain ⟨hrings, hpassed⟩ := (h.congr hrecent hseen).onLiveTrade hid hclose
      dsimp only
      unfold FrameworkWorker.handle
      rw [if_neg (by rw [hpaused]; exact hopen.2)]
      refine ⟨hrings, ?_⟩
      dsimp only
      rw [List.filterMap_append, hfed, List.nil_append]
      exact hpassed
    | _ => cases hprint
  | recovered t =>
    obtain ⟨hrec, hprint⟩ := Option.ite_none_right_eq_some.mp hprint
    obtain ⟨id, hid, rfl⟩ := Option.map_eq_some_iff.mp hprint
    dsimp only
    rw [if_pos hrec]
    exact h.onRecovered (Bool.not_eq_true _ ▸ hopen.2) hrec hid hclose
  | _ => cases hprint

/-- A worker that has taken nothing has empty queues. -/
theorem rings_start (cfg : WorkerConfig) (hasher : RandomState TradingPair) :
    Rings cfg (start cfg hasher) [] := by
  have hnone : Print.admitted cfg.resubscribeReplaysTrades [] [] = [] := rfl
  refine ⟨fun _ => ?_, ?_⟩
  · rw [hnone, List.filter_nil, List.map_nil, List.rtake_nil]
    rfl
  · rw [hnone, List.filter_nil, List.map_nil, List.rtake_nil]
    rfl

/-- Along every run whose ids are numeric and close together, the queues fit
and what reaches the synchronizer is what passes. -/
theorem account {hasher : RandomState TradingPair} {inputs : List WorkerInput}
    (hnum : ∀ i ∈ inputs, Numeric i)
    (hclose : Close recentIdsCapacity (arrivals cfg (start cfg hasher) inputs)) :
    Rings cfg ((machine cfg).run (start cfg hasher) inputs).1
        (arrivals cfg (start cfg hasher) inputs) ∧
      deliveredIds cfg (start cfg hasher) inputs
        = (Print.admitted cfg.resubscribeReplaysTrades []
            (arrivals cfg (start cfg hasher) inputs)).map Print.id := by
  unfold arrivals deliveredIds at *
  induction inputs using List.reverseRecOn with
  | nil => exact ⟨rings_start cfg hasher, rfl⟩
  | append_singleton inputs input ih =>
    rw [Machine.collect_append_singleton] at hclose ⊢
    rw [Machine.run_append_singleton, Machine.run_append]
    have hnum' : ∀ i ∈ inputs, Numeric i := fun i hi => hnum i (List.mem_append_left _ hi)
    have hlast : Numeric input := hnum input (List.mem_append_right _ List.mem_cons_self)
    show Rings cfg (FrameworkWorker.step cfg _ input).1 _ ∧
      (_ ++ ((FrameworkWorker.step cfg _ input).2 ++ [])).filterMap fedId = _
    rw [List.append_nil, List.filterMap_append]
    cases harrival : arrival cfg ((machine cfg).run (start cfg hasher) inputs).1 input with
    | none =>
      rw [harrival, Option.toList_none, List.append_nil] at hclose
      rw [Option.toList_none, List.append_nil]
      obtain ⟨hrings, hids⟩ := ih hnum' hclose
      obtain ⟨hrecent, hseen, hfed⟩ := step_of_no_arrival hlast harrival
      rw [hfed, List.append_nil]
      exact ⟨hrings.congr hrecent hseen, hids⟩
    | some p =>
      rw [harrival, Option.toList_some] at hclose
      rw [Option.toList_some]
      obtain ⟨hrings, hids⟩ := ih hnum' hclose.init
      obtain ⟨hrings', hfed⟩ := hrings.step_of_arrival harrival hclose
      refine ⟨hrings', ?_⟩
      rw [Print.admitted_snoc, List.map_append, hids, hfed]
      split <;> rfl

/-- **When each trade id is delivered once.** For every interleaving of live
and recovered prints, pauses, reconnects and all else the loop takes, on a
venue of numeric ids with fewer than 2048 prints between any two of one id:
no id reaches the synchronizer twice exactly when every print whose id has
arrived before is recognized. -/
theorem delivered_once_iff {hasher : RandomState TradingPair} {inputs : List WorkerInput}
    (hnum : ∀ i ∈ inputs, Numeric i)
    (hclose : Close recentIdsCapacity (arrivals cfg (start cfg hasher) inputs)) :
    (deliveredIds cfg (start cfg hasher) inputs).Nodup ↔
      Print.Separated cfg.resubscribeReplaysTrades (arrivals cfg (start cfg hasher) inputs) := by
  rw [(account hnum hclose).2]
  exact Print.admitted_nodup_iff _

/-! ## A sample -/

/-- A print that is recovered before it is live. -/
def recoveredFirst : List WorkerInput :=
  [.connected, .event (.trade (btcPrint "6")) 1, .recovered (btcPrint "7"),
    .event (.trade (btcPrint "7")) 2]

/-- **It is delivered twice.** -/
theorem delivered_twice :
    (∀ i ∈ recoveredFirst, Numeric i) ∧
      Close recentIdsCapacity (arrivals reconciling (start reconciling RandomState.table)
        recoveredFirst) ∧
      ¬ (deliveredIds reconciling (start reconciling RandomState.table) recoveredFirst).Nodup := by
  refine ⟨?_, close_of_length_le (by decide), by decide⟩
  simp only [recoveredFirst, List.forall_mem_cons, List.not_mem_nil, false_imp_iff, implies_true,
    and_true]
  exact ⟨trivial, ⟨6, by decide⟩, ⟨7, by decide⟩, ⟨7, by decide⟩⟩

/-- A print that is live before it is recovered. -/
def liveFirst : List WorkerInput :=
  [.connected, .event (.trade (btcPrint "6")) 1, .event (.trade (btcPrint "7")) 2,
    .recovered (btcPrint "7")]

/-- It is delivered once. -/
theorem delivered_once_of_live_first :
    (deliveredIds reconciling (start reconciling RandomState.table) liveFirst).Nodup ↔
      Print.Separated reconciling.resubscribeReplaysTrades
        (arrivals reconciling (start reconciling RandomState.table) liveFirst) := by
  with_reducible
    refine delivered_once_iff ?_ (close_of_length_le ?_)
  · simp only [liveFirst, List.forall_mem_cons, List.not_mem_nil, false_imp_iff, implies_true,
      and_true]
    exact ⟨trivial, ⟨6, by decide⟩, ⟨7, by decide⟩, ⟨7, by decide⟩⟩
  · decide

end FrameworkWorker
