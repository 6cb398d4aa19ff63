import Aetelier.BufferedSink
import Aetelier.EntrepotReplay

/-!
# Provenance

Every record a source pushes is stamped with the epoch of its connection and a
receive counter. The counter restarts with every spawn, so it is the epoch that
tells the records of two spawns apart, and a batch is freed of repetitions on
the strength of it.

A live source mints its epoch when its socket opens: the clock, but at least one
more than the last. An archive opens no socket, and its records carry the epoch
zero, whichever spawn pushed them. The two kinds of sources are one machine
here, over spawns, openings of sockets and pushes.

The stamps of a run are distinct, and no batch of its records loses one, as long
as the epochs of a live source do not run out and an archive pushes its funding
rates and open interests in one spawn (`Stamping.lossless_of_told_apart`). An
archive that is respawned pushes two records under one stamp
(`Stamping.not_lossless_of_respawn`).
-/

/-! ## Freeing a batch of repetitions -/

section Dedup

variable {α κ : Type} [DecidableEq κ] {key : α → Option κ}

/-- Where the keys are distinct and new, nothing is dropped. -/
theorem dedupBy_eq_self {seen : List κ} {as : List α} (hnodup : (as.filterMap key).Nodup)
    (hnew : ∀ k ∈ as.filterMap key, k ∉ seen) : dedupBy key seen as = as := by
  induction as generalizing seen with
  | nil => rfl
  | cons a as ih =>
    cases hkey : key a with
    | none =>
      rw [List.filterMap_cons_none hkey] at hnodup hnew
      rw [dedupBy, hkey]
      exact congrArg (a :: ·) (ih hnodup hnew)
    | some k =>
      rw [List.filterMap_cons_some hkey] at hnodup hnew
      obtain ⟨hfirst, hlater⟩ := List.nodup_cons.mp hnodup
      rw [dedupBy, hkey]
      dsimp only
      rw [if_neg (hnew k List.mem_cons_self)]
      refine congrArg (a :: ·) (ih hlater (fun k' hk' hmem => ?_))
      rcases List.mem_cons.mp hmem with rfl | hold
      · exact hfirst hk'
      · exact hnew k' (List.mem_cons_of_mem k hk') hold

end Dedup

/-! ## Stamps -/

/-- The key of a funding rate, whether or not its counter is zero. -/
def FundingRate.stampKey (fr : FundingRate) : ProvenanceKey :=
  (fr.exchange, fr.pair.toCanonical, fr.connEpochUs, fr.recvSeq)

/-- The same of an open-interest record. -/
def OpenInterest.stampKey (oi : OpenInterest) : ProvenanceKey :=
  (oi.exchange, oi.pair.toCanonical, oi.connEpochUs, oi.recvSeq)

namespace DomainEvent

/-- The funding rate an event is. -/
def rate? : DomainEvent → Option FundingRate
  | fundingRate fr => some fr
  | _ => none

/-- The open-interest record an event is. -/
def interest? : DomainEvent → Option OpenInterest
  | openInterest oi => some oi
  | _ => none

/-- The epoch and the counter of a record that carries them. -/
def stamp? : DomainEvent → Option (ℕ × ℕ)
  | fundingRate fr => some (fr.connEpochUs, fr.recvSeq)
  | openInterest oi => some (oi.connEpochUs, oi.recvSeq)
  | _ => none

end DomainEvent

/-- Where the records of a worker come from. -/
inductive SourceKind where
  | live
  | archive
deriving DecidableEq

/-- The greatest epoch there is. -/
def lastEpochUs : ℕ := 2 ^ 64 - 1

/-- `next_conn_epoch_us`: the clock, but more than the epoch before. -/
def nextConnEpochUs (nowUs : UInt64) (prev : ℕ) : ℕ := max nowUs.toNat (min (prev + 1) lastEpochUs)

/-- **The stamping side of a source.** -/
structure Stamping where
  /-- The epoch minted last. -/
  epoch : ℕ
  /-- The spawn may push: its socket is open, or it has none. -/
  connected : Bool
  /-- The receive counter. -/
  recvSeq : ℕ
  /-- The records of the spawns before. -/
  before : List DomainEvent
  /-- The records of this spawn. -/
  current : List DomainEvent

/-- What a source does. -/
inductive StampStep where
  /-- It is spawned. -/
  | spawn
  /-- Its socket opens. -/
  | connect (nowUs : UInt64)
  /-- It pushes a record. -/
  | push (ev : DomainEvent) (localUs rttUs : ℕ)

namespace Stamping

variable (source : SourceKind)

/-- A worker before its first spawn. -/
def start : Stamping := ⟨0, false, 0, [], []⟩

/-- All the records pushed. -/
def pushed (s : Stamping) : List DomainEvent := s.before ++ s.current

/-- The epoch a record is stamped with. -/
def stampEpoch (s : Stamping) : ℕ :=
  match source with
  | .live => s.epoch
  | .archive => archiveConnEpochUs

/-- **One step.** A step that is not possible does nothing. -/
def step (s : Stamping) (i : StampStep) : Stamping × List Unit :=
  match i with
  | .spawn =>
    ({ s with
        connected := source = .archive
        recvSeq := 0
        before := s.before ++ s.current
        current := [] }, [])
  | .connect nowUs =>
    if source = .live ∧ s.connected = false then
      ({ s with epoch := nextConnEpochUs nowUs s.epoch, connected := true }, [])
    else (s, [])
  | .push ev localUs rttUs =>
    if s.connected then
      ({ s with
          recvSeq := s.recvSeq + 1
          current := s.current
            ++ [ev.stampLocal localUs rttUs (s.recvSeq + 1) (s.stampEpoch source)] }, [])
    else (s, [])

/-- The source as a machine. -/
def machine : Machine Stamping StampStep Unit := ⟨step source⟩

/-- **Provenance is unique and nothing is dropped for it**: no two funding rates
pushed have the same key, nor two open-interest records, and a batch of
snapshots that holds each at most once is taken apart without loss. -/
structure Lossless (pushed : List DomainEvent) : Prop where
  rates : ((pushed.filterMap DomainEvent.rate?).map FundingRate.stampKey).Nodup
  interests : ((pushed.filterMap DomainEvent.interest?).map OpenInterest.stampKey).Nodup
  ratesKept : ∀ batch : List MarketSnapshot,
    (batch.flatMap MarketSnapshot.fundingRate).Subperm (pushed.filterMap DomainEvent.rate?) →
      (decomposeSnapshots batch).fundingRates = batch.flatMap MarketSnapshot.fundingRate
  interestsKept : ∀ batch : List MarketSnapshot,
    (batch.flatMap MarketSnapshot.openInterest).Subperm (pushed.filterMap DomainEvent.interest?) →
      (decomposeSnapshots batch).openInterests = batch.flatMap MarketSnapshot.openInterest

/-- **The epoch tells the spawns apart**: a socket that opens finds the epochs
not run out, and a funding rate or an open-interest record of an archive is
pushed while no spawn before has pushed one. -/
def ToldApart (s : Stamping) : StampStep → Prop
  | .spawn => True
  | .connect _ => s.epoch < lastEpochUs
  | .push ev _ _ => source = .archive → ev.stamp? ≠ none →
      s.before.filterMap DomainEvent.stamp? = []

/-! ## Distinct stamps are enough -/

theorem filterMap_sublist_filterMap {α β : Type} {f g : α → Option β}
    (h : ∀ a b, f a = some b → g a = some b) (as : List α) :
    (as.filterMap f).Sublist (as.filterMap g) := by
  induction as with
  | nil => exact List.Sublist.refl _
  | cons a as ih =>
    cases hf : f a with
    | none =>
      rw [List.filterMap_cons_none hf]
      cases hg : g a with
      | none => rwa [List.filterMap_cons_none hg]
      | some c =>
        rw [List.filterMap_cons_some hg]
        exact ih.cons c
    | some b =>
      rw [List.filterMap_cons_some hf, List.filterMap_cons_some (h a b hf)]
      exact ih.cons_cons b

section Kind

/-! The two kinds of records that carry a stamp. -/

variable {α : Type} {record? : DomainEvent → Option α} {key : α → ProvenanceKey}
  {provenance : α → Option ProvenanceKey} {pushed : List DomainEvent}

/-- The keys of the records of one kind are distinct. -/
theorem nodup_keys (hstamp : ∀ ev a, record? ev = some a → ev.stamp? = some (key a).2.2)
    (h : (pushed.filterMap DomainEvent.stamp?).Nodup) :
    ((pushed.filterMap record?).map key).Nodup := by
  refine List.Nodup.of_map (fun k : ProvenanceKey => k.2.2) ?_
  rw [List.map_map, List.map_filterMap]
  refine h.sublist (filterMap_sublist_filterMap (fun ev st hst => ?_) pushed)
  obtain ⟨a, ha, rfl⟩ := Option.map_eq_some_iff.mp hst
  exact hstamp ev a ha

/-- A batch of such records loses none. -/
theorem dedupBy_of_nodup_keys (hkey : ∀ a k, provenance a = some k → some (key a) = some k)
    (h : ((pushed.filterMap record?).map key).Nodup) {batch : List α}
    (hbatch : batch.Subperm (pushed.filterMap record?)) :
    dedupBy provenance [] batch = batch := by
  obtain ⟨batch', hperm, hsub⟩ := hbatch
  have hnodup : (batch.map key).Nodup :=
    (hperm.map key).nodup_iff.mp (h.sublist (hsub.map key))
  refine dedupBy_eq_self (hnodup.sublist ?_) (fun k _ => List.not_mem_nil)
  rw [← List.filterMap_eq_map]
  exact filterMap_sublist_filterMap hkey batch

end Kind

/-- **Distinct stamps lose nothing.** -/
theorem lossless_of_nodup {pushed : List DomainEvent}
    (h : (pushed.filterMap DomainEvent.stamp?).Nodup) : Lossless pushed := by
  have hrate : ∀ (fr : FundingRate) k, fr.provenance = some k → some fr.stampKey = some k := by
    intro fr k hk
    unfold FundingRate.provenance at hk
    split at hk
    · cases hk
    · exact hk
  have hinterest : ∀ (oi : OpenInterest) k, oi.provenance = some k → some oi.stampKey = some k := by
    intro oi k hk
    unfold OpenInterest.provenance at hk
    split at hk
    · cases hk
    · exact hk
  have hrates : ((pushed.filterMap DomainEvent.rate?).map FundingRate.stampKey).Nodup :=
    nodup_keys (fun ev fr hfr => by cases ev <;> cases hfr; rfl) h
  have hinterests : ((pushed.filterMap DomainEvent.interest?).map OpenInterest.stampKey).Nodup :=
    nodup_keys (fun ev oi hoi => by cases ev <;> cases hoi; rfl) h
  exact ⟨hrates, hinterests, fun batch hbatch => dedupBy_of_nodup_keys hrate hrates hbatch,
    fun batch hbatch => dedupBy_of_nodup_keys hinterest hinterests hbatch⟩

/-! ## Runs -/

/-- **What keeps the stamps distinct**: those of this spawn carry its epoch and
counters that grow; those of the spawns before are distinct, and carry another
epoch if this spawn has stamped a record. -/
structure Distinct (s : Stamping) : Prop where
  growing : (s.current.filterMap DomainEvent.stamp?).Pairwise (fun a b => a.2 < b.2)
  ours : ∀ st ∈ s.current.filterMap DomainEvent.stamp?,
    st.1 = s.stampEpoch source ∧ st.2 ≤ s.recvSeq
  earlier : (s.before.filterMap DomainEvent.stamp?).Nodup
  apart : s.current.filterMap DomainEvent.stamp? ≠ [] →
    ∀ st ∈ s.before.filterMap DomainEvent.stamp?, st.1 ≠ s.stampEpoch source
  minted : source = .live → ∀ st ∈ s.before.filterMap DomainEvent.stamp?,
    st.1 ≤ s.epoch ∧ (s.connected = true → st.1 < s.epoch)
  closed : source = .live → s.connected = false → s.current = []

variable {source}

theorem Distinct.nodup {s : Stamping} (h : Distinct source s) :
    (s.pushed.filterMap DomainEvent.stamp?).Nodup := by
  unfold pushed
  rw [List.filterMap_append, List.nodup_append']
  refine ⟨h.earlier, h.growing.imp (fun hlt heq => ?_), fun st hbefore hcurrent => ?_⟩
  · rw [heq] at hlt
    exact lt_irrefl _ hlt
  · exact h.apart (List.ne_nil_of_mem hcurrent) st hbefore (h.ours st hcurrent).1

theorem distinct_start : Distinct source start where
  growing := List.Pairwise.nil
  ours := fun _ h => absurd h List.not_mem_nil
  earlier := List.nodup_nil
  apart := fun h => absurd rfl h
  minted := fun _ _ h => absurd h List.not_mem_nil
  closed := fun _ _ => rfl

/-- A spawn: what was this spawn's is now a spawn's before. -/
theorem Distinct.spawn {s : Stamping} (h : Distinct source s) :
    Distinct source (s.step source .spawn).1 where
  growing := List.Pairwise.nil
  ours := fun _ h => absurd h List.not_mem_nil
  earlier := h.nodup
  apart := fun h => absurd rfl h
  minted := by
    intro hlive st hst
    refine ⟨?_, fun hconnected => ?_⟩
    · rw [show (s.step source .spawn).1.before = s.before ++ s.current from rfl,
        List.filterMap_append, List.mem_append] at hst
      rcases hst with hst | hst
      · exact (h.minted hlive st hst).1
      · have hepoch := (h.ours st hst).1
        rw [hlive] at hepoch
        exact hepoch.le
    · rw [hlive] at hconnected
      cases hconnected
  closed := fun _ _ => rfl

/-- A socket opens: its epoch is greater than all before. -/
theorem Distinct.connect {s : Stamping} (h : Distinct source s) (nowUs : UInt64)
    (hroom : s.epoch < lastEpochUs) : Distinct source (s.step source (.connect nowUs)).1 := by
  unfold step
  dsimp only
  split
  · next hopen =>
    obtain ⟨hlive, hclosed⟩ := hopen
    have hnone := h.closed hlive hclosed
    have hgreater : s.epoch < nextConnEpochUs nowUs s.epoch :=
      lt_max_of_lt_right (lt_min (Nat.lt_succ_self _) hroom)
    refine ⟨?_, ?_, h.earlier, ?_, fun _ st hst => ?_, fun _ hopened => nomatch hopened⟩
    · dsimp only
      rw [hnone]
      exact List.Pairwise.nil
    · dsimp only
      rw [hnone]
      exact fun _ hmem => absurd hmem List.not_mem_nil
    · dsimp only
      rw [hnone]
      exact fun hne => absurd rfl hne
    · have hle := (h.minted hlive st hst).1
      exact ⟨hle.trans hgreater.le, fun _ => lt_of_le_of_lt hle hgreater⟩
  · exact h

/-- What a stamp of a record is. -/
theorem stamp?_stampLocal (ev : DomainEvent) (localUs rttUs recvSeq connEpochUs : ℕ) :
    (ev.stampLocal localUs rttUs recvSeq connEpochUs).stamp?
      = ev.stamp?.map (fun _ => (connEpochUs, recvSeq)) := by
  cases ev <;> rfl

/-- A record is pushed: its counter is greater than all of this spawn. -/
theorem Distinct.push {s : Stamping} (h : Distinct source s) (ev : DomainEvent)
    (localUs rttUs : ℕ)
    (hapart : source = .archive → ev.stamp? ≠ none →
      s.before.filterMap DomainEvent.stamp? = []) :
    Distinct source (s.step source (.push ev localUs rttUs)).1 := by
  unfold step
  dsimp only
  split
  · next hconnected =>
    have hstamp := stamp?_stampLocal ev localUs rttUs (s.recvSeq + 1) (s.stampEpoch source)
    cases hev : ev.stamp? with
    | none =>
      -- a record without a stamp changes none of this
      rw [hev, Option.map_none] at hstamp
      have hsame : (s.current ++ [ev.stampLocal localUs rttUs (s.recvSeq + 1)
          (s.stampEpoch source)]).filterMap DomainEvent.stamp?
            = s.current.filterMap DomainEvent.stamp? := by
        rw [List.filterMap_append, List.filterMap_cons_none hstamp]
        exact List.append_nil _
      refine ⟨?_, ?_, h.earlier, ?_, h.minted, fun _ hclosed => ?_⟩
      · rw [hsame]
        exact h.growing
      · rw [hsame]
        exact fun st hst => ⟨(h.ours st hst).1, Nat.le_succ_of_le (h.ours st hst).2⟩
      · rw [hsame]
        exact h.apart
      · exact absurd (hclosed.symm.trans hconnected) Bool.false_ne_true
    | some old =>
      rw [hev, Option.map_some] at hstamp
      have hlast : (s.current ++ [ev.stampLocal localUs rttUs (s.recvSeq + 1)
          (s.stampEpoch source)]).filterMap DomainEvent.stamp?
            = s.current.filterMap DomainEvent.stamp? ++ [(s.stampEpoch source, s.recvSeq + 1)] := by
        rw [List.filterMap_append, List.filterMap_cons_some hstamp, List.filterMap_nil]
      refine ⟨?_, ?_, h.earlier, fun _ st hst => ?_, h.minted, fun _ hclosed => ?_⟩
      · rw [hlast, List.pairwise_append]
        refine ⟨h.growing, List.pairwise_singleton _ _, fun st hst last hmem => ?_⟩
        rw [List.mem_singleton.mp hmem]
        exact Nat.lt_succ_of_le (h.ours st hst).2
      · rw [hlast]
        intro st hst
        rcases List.mem_append.mp hst with hst | hst
        · exact ⟨(h.ours st hst).1, Nat.le_succ_of_le (h.ours st hst).2⟩
        · rw [List.mem_singleton.mp hst]
          exact ⟨rfl, le_refl _⟩
      · cases source with
        | live => exact ((h.minted rfl st hst).2 hconnected).ne
        | archive =>
          rw [hapart rfl (by rw [hev]; exact Option.some_ne_none _)] at hst
          exact absurd hst List.not_mem_nil
      · exact absurd (hclosed.symm.trans hconnected) Bool.false_ne_true
  · exact h

/-- **Provenance is unique over every run whose spawns are told apart**, on
either source, with any number of spawns: no two records pushed have the same
key, and a batch that holds each at most once is taken apart without loss. -/
theorem lossless_of_told_apart (source : SourceKind) (steps : List StampStep)
    (hsteps : (machine source).Meets (ToldApart source) start steps) :
    Lossless ((machine source).run start steps).1.pushed := by
  have hdistinct := (machine source).forall_of_invariant (I := Distinct source)
    (Q := fun _ => True)
    (fun s i h hi => by
      refine ⟨?_, fun _ _ => trivial⟩
      cases i with
      | spawn => exact h.spawn
      | connect nowUs => exact h.connect nowUs hi
      | push ev localUs rttUs => exact h.push ev localUs rttUs hi)
    distinct_start hsteps
  exact lossless_of_nodup hdistinct.1.nodup

/-! ## The archive -/

section Archive

open EntrepotAdapter (stampAll traceOf)

theorem length_stampAll (recvSeq : ℕ) (found : List (DomainEvent × ℕ)) :
    (stampAll recvSeq found).length = found.length := by
  induction found generalizing recvSeq with
  | nil => rfl
  | cons ev rest ih =>
    rw [stampAll, List.length_cons, ih, List.length_cons]

theorem stampAll_append (recvSeq : ℕ) (found later : List (DomainEvent × ℕ)) :
    stampAll recvSeq (found ++ later)
      = stampAll recvSeq found ++ stampAll (recvSeq + found.length) later := by
  induction found generalizing recvSeq with
  | nil => rfl
  | cons ev rest ih =>
    rw [List.cons_append, stampAll, ih, stampAll, List.length_cons, Nat.add_assoc,
      Nat.add_comm 1]
    rfl

theorem take_stampAll (recvSeq n : ℕ) (found : List (DomainEvent × ℕ)) :
    (stampAll recvSeq found).take n = stampAll recvSeq (found.take n) := by
  induction found generalizing recvSeq n with
  | nil => rw [stampAll, List.take_nil, List.take_nil, stampAll]
  | cons ev rest ih =>
    cases n with
    | zero => rfl
    | succ n => rw [stampAll, List.take_succ_cons, List.take_succ_cons, stampAll, ih]

/-- What a spawn sends is stamped from its counter on. -/
theorem exists_stampAll_replay (x : EntrepotAdapter) (a : Attempt) (recvSeq : ℕ)
    (room : Option ℕ) (keys : List String) :
    ∃ found, (x.replay a recvSeq room keys).1.filterMap ReplayEffect.event?
      = stampAll recvSeq found := by
  induction keys generalizing recvSeq room with
  | nil => exact ⟨[], rfl⟩
  | cons key rest ih =>
    rw [EntrepotAdapter.replay]
    split
    · exact ⟨[], rfl⟩
    · split
      · exact ⟨[], rfl⟩
      · next found hfound =>
        dsimp only
        split
        · refine ⟨found.take (room.getD 0), ?_⟩
          rw [ReplayEffect.filterMap_event?_sent, take_stampAll]
        · obtain ⟨later, hlater⟩ := ih (recvSeq + (stampAll recvSeq found).length)
            (room.map (· - (stampAll recvSeq found).length))
          refine ⟨found ++ later, ?_⟩
          rw [List.filterMap_append, List.filterMap_append, ReplayEffect.filterMap_event?_sent,
            EntrepotAdapter.filterMap_event?_writeCursor, List.append_nil, hlater, stampAll_append,
            length_stampAll]

/-- Pushing some records of an archive. -/
theorem current_run_push {s : Stamping} (hconnected : s.connected = true)
    (found : List (DomainEvent × ℕ)) :
    ((machine .archive).run s (found.map (fun e => .push e.1 e.2 0))).1
      = { s with
          recvSeq := s.recvSeq + found.length
          current := s.current ++ stampAll s.recvSeq found } := by
  induction found generalizing s with
  | nil => exact congrArg (fun c => { s with current := c }) (List.append_nil _).symm
  | cons e rest ih =>
    have hstep : ((machine .archive).step s (.push e.1 e.2 0)).1
        = { s with
            recvSeq := s.recvSeq + 1
            current := s.current
              ++ [e.1.stampLocal e.2 0 (s.recvSeq + 1) archiveConnEpochUs] } :=
      congrArg Prod.fst (if_pos hconnected)
    show ((machine .archive).run ((machine .archive).step s (.push e.1 e.2 0)).1 _).1 = _
    rw [hstep]
    refine (ih ?_).trans ?_
    · exact hconnected
    dsimp only
    rw [stampAll, List.append_assoc, List.length_cons, Nat.add_assoc, Nat.add_comm 1]
    rfl

/-- **A replay is a run of the machine**: what the spawns of an archive send, one
after another, is what a run pushes. -/
theorem exists_run_respawn (x : EntrepotAdapter) (cursor : Option String)
    (attempts : List Attempt) (s : Stamping) :
    ∃ steps, ((machine .archive).run s steps).1.pushed
      = s.pushed ++ (traceOf (x.respawn cursor attempts)).filterMap ReplayEffect.event? := by
  induction attempts generalizing cursor s with
  | nil => exact ⟨[], (List.append_nil _).symm⟩
  | cons a attempts ih =>
    have hspawn : ∃ found, (x.spawn a cursor).1.filterMap ReplayEffect.event?
        = stampAll 0 found := by
      unfold EntrepotAdapter.spawn
      split
      · exact ⟨[], rfl⟩
      · exact exists_stampAll_replay x a 0 a.room _
    obtain ⟨found, hfound⟩ := hspawn
    -- the spawn, then the ones after it from the file it leaves
    obtain ⟨later, hlater⟩ := ih
      (EntrepotAdapter.cursorAfter cursor (x.spawn a cursor).1)
      ((machine .archive).run s (.spawn :: found.map (fun e => .push e.1 e.2 0))).1
    refine ⟨.spawn :: found.map (fun e => .push e.1 e.2 0) ++ later, ?_⟩
    rw [Machine.fst_run_append, hlater]
    have hthis : ((machine .archive).run s
        (.spawn :: found.map (fun e => .push e.1 e.2 0))).1.pushed
          = s.pushed ++ (x.spawn a cursor).1.filterMap ReplayEffect.event? := by
      show ((machine .archive).run ((machine .archive).step s .spawn).1 _).1.pushed = _
      rw [current_run_push rfl, hfound]
      rfl
    rw [hthis, List.append_assoc]
    refine congrArg (s.pushed ++ ·) ?_
    show _ = (((x.spawn a cursor).1 ++ traceOf _).filterMap ReplayEffect.event?)
    rw [List.filterMap_append]

/-- **Two spawns of an archive whose first record is a funding rate of the same
instrument** push two records under one key. -/
theorem not_lossless_of_respawn (fr fr' : FundingRate) (hexchange : fr.exchange = fr'.exchange)
    (hpair : fr.pair = fr'.pair) (localUs localUs' : ℕ) :
    ¬ Lossless ((machine .archive).run start
      [.spawn, .push (.fundingRate fr) localUs 0, .spawn,
        .push (.fundingRate fr') localUs' 0]).1.pushed := by
  intro h
  have hnodup : ([FundingRate.stampKey { fr with
        localFundingTsUs := localUs, recvSeq := 1, connEpochUs := archiveConnEpochUs },
      FundingRate.stampKey { fr' with
        localFundingTsUs := localUs', recvSeq := 1, connEpochUs := archiveConnEpochUs }]).Nodup :=
    h.rates
  refine (List.nodup_cons.mp hnodup).1 (List.mem_singleton.mpr ?_)
  unfold FundingRate.stampKey
  dsimp only
  rw [hexchange, hpair]

/-- The funding rate of SOL at a time. -/
def solRate (tsUs : ℕ) (rate : Decimal) : FundingRate where
  fundingRateTsUs := tsUs
  localFundingTsUs := 0
  recvSeq := 0
  connEpochUs := 0
  pair := ⟨"SOL", "USDC"⟩
  fundingRate := rate
  premium := none
  intervalHours := 1
  nextFundingTsUs := 0
  exchange := "hyperliquid"

/-- A spawn pushes the rate of a day and loses its connection; the next one goes
on with the day after. -/
def twoDays : List StampStep :=
  [.spawn, .push (.fundingRate (solRate 86400000000 ⟨1, 0⟩)) 86400000000 0,
    .spawn, .push (.fundingRate (solRate 172800000000 ⟨2, 0⟩)) 172800000000 0]

/-- **Both rates have the counter one and the epoch zero.** -/
theorem not_lossless_twoDays : ¬ Lossless ((machine .archive).run start twoDays).1.pushed :=
  not_lossless_of_respawn (solRate 86400000000 ⟨1, 0⟩) (solRate 172800000000 ⟨2, 0⟩) rfl rfl _ _

/-- The same rates, over two sockets. -/
def twoSockets : List StampStep :=
  [.spawn, .connect 5, .push (.fundingRate (solRate 86400000000 ⟨1, 0⟩)) 86400000000 0,
    .spawn, .connect 3, .push (.fundingRate (solRate 172800000000 ⟨2, 0⟩)) 172800000000 0]

/-- The clock went back in between; the epoch did not. -/
theorem lossless_twoSockets : Lossless ((machine .live).run start twoSockets).1.pushed :=
  lossless_of_told_apart .live twoSockets
    ⟨trivial, (by decide : 0 < lastEpochUs), nofun, trivial,
      (by decide : nextConnEpochUs 5 0 < lastEpochUs), nofun, trivial⟩

end Archive

end Stamping
