import Aetelier.CaseTables
import Aetelier.VenueTrades
import Mathlib.Algebra.BigOperators.Group.Finset.Piecewise

/-!
# The sentinel of Bitso

Bitso numbers the messages that change the orders of a book, book by book and without
holes. The normalizer keeps the last number of each book and reports a connection gap
where numbers are jumped over. However the messages of the books are mixed on a socket,
the gaps it reports add up to exactly the numbers that are missing in the books
(`Venue.gaps_bitso_run`). Messages that were lost before the first of a book or after
its last are in no gap.

A gap is reported before the message that shows it, and ends the run of the runtime that
receives it. So a runtime that goes on has been handed the messages of every book without
a hole, and one that is handed a hole never takes what comes after (`Venue.hole_free_run`).

The trades of a book have no number. A gap is all that tells that some may be missing.
-/

variable {F : Type} (env : WireEnv F)

/-! ## The numbers of a book -/

/-- The book and the number of a message with changes. -/
def BitsoWssEvent.numbered : BitsoWssEvent → Option (String × ℕ)
  | diffOrders m => m.sequence.map fun seq => (m.book, seq)
  | trades _ => none

/-- The numbers of a book. -/
def numbersOf (book : String) (ms : List (String × ℕ)) : List ℕ :=
  ms.filterMap fun m => if m.1 = book then some m.2 else none

theorem numbersOf_concat (book : String) (ms : List (String × ℕ)) (m : String × ℕ) :
    numbersOf book (ms ++ [m]) = numbersOf book ms ++ if m.1 = book then [m.2] else [] := by
  unfold numbersOf
  rw [List.filterMap_append]
  refine congrArg _ ?_
  split
  · next h => exact List.filterMap_cons_some (if_pos h)
  · next h => exact List.filterMap_cons_none (if_neg h)

/-- A book without messages has no numbers, so those with messages are enough. -/
theorem increasing_of_forall {ms : List (String × ℕ)}
    (h : ∀ m ∈ ms, (numbersOf m.1 ms).Pairwise (· < ·)) (book : String) :
    (numbersOf book ms).Pairwise (· < ·) := by
  by_cases hbook : ∃ m ∈ ms, m.1 = book
  · obtain ⟨m, hm, rfl⟩ := hbook
    exact h m hm
  · have hnil : numbersOf book ms = [] :=
      List.filterMap_eq_nil_iff.mpr fun m hm => if_neg fun heq => hbook ⟨m, hm, heq⟩
    rw [hnil]
    exact List.Pairwise.nil

/-- **A message adds the numbers it jumps over** to those missing in its book. -/
theorem sum_missing_concat {books : Finset String} {ms : List (String × ℕ)} {m : String × ℕ}
    (hbook : m.1 ∈ books) (h : (numbersOf m.1 (ms ++ [m])).Pairwise (· < ·)) :
    ∑ book ∈ books, (missing (numbersOf book (ms ++ [m]))).card
      = ∑ book ∈ books, (missing (numbersOf book ms)).card
        + (numbersOf m.1 ms).getLast?.elim 0 (fun last => m.2 - last - 1) := by
  have hcard : ∀ book ∈ books, (missing (numbersOf book (ms ++ [m]))).card
      = (missing (numbersOf book ms)).card
        + if m.1 = book then (numbersOf m.1 ms).getLast?.elim 0 (fun last => m.2 - last - 1)
          else 0 := by
    intro book _
    rw [numbersOf_concat]
    by_cases hm : m.1 = book
    · subst hm
      rw [numbersOf_concat, if_pos rfl] at h
      rw [if_pos rfl, if_pos rfl]
      exact card_missing_concat h
    · rw [if_neg hm, if_neg hm, List.append_nil, Nat.add_zero]
  rw [Finset.sum_congr rfl hcard, Finset.sum_add_distrib, Finset.sum_ite_eq, if_pos hbook]

namespace Normalized

/-- The messages that a connection gap says were dropped. -/
def gap? : Normalized → Option ℕ
  | emitted (.connectionGap dropped) => some dropped
  | _ => none

/-- The connection gaps, in their order. -/
def gaps (out : List Normalized) : List ℕ := out.filterMap gap?

theorem gaps_append (out out' : List Normalized) : gaps (out ++ out') = gaps out ++ gaps out' :=
  List.filterMap_append

end Normalized

namespace VenuePrint

/-- A print is no gap. -/
theorem gap?_normalize (venue : Venue) (p : VenuePrint) :
    (p.normalize env venue).gap? = none := by
  unfold normalize
  split <;> rfl

theorem gaps_normalizeBatch (venue : Venue) (symbol : Option String)
    (prints : String → List VenuePrint) :
    Normalized.gaps (normalizeBatch env venue symbol prints) = [] := by
  unfold normalizeBatch
  split
  · refine List.filterMap_eq_nil_iff.mpr fun piece hpiece => ?_
    obtain ⟨p, -, rfl⟩ := List.mem_map.mp hpiece
    exact gap?_normalize env venue p
  · rfl

end VenuePrint

/-! ## The sentinel -/

/-- **The sentinel has kept count** of the messages so far. -/
structure Sentinel (books : Finset String) (lastSeq : HashMap String ℕ)
    (out : List Normalized) (ms : List (String × ℕ)) : Prop where
  lastSeq : ∀ book, lastSeq.get? book = (numbersOf book ms).getLast?
  gaps : (Normalized.gaps out).sum = ∑ book ∈ books, (missing (numbersOf book ms)).card

namespace Sentinel

variable {books : Finset String} {lastSeq : HashMap String ℕ} {out : List Normalized}
  {ms : List (String × ℕ)}

/-- What has no gap and no number does not matter. -/
theorem quiet (h : Sentinel books lastSeq out ms) {out' : List Normalized}
    (hout : Normalized.gaps out' = []) : Sentinel books lastSeq (out ++ out') ms where
  lastSeq := h.lastSeq
  gaps := by rw [Normalized.gaps_append, hout, List.append_nil, h.gaps]

/-- **A number is observed.** -/
theorem observed (h : Sentinel books lastSeq out ms) {book : String} {seq : ℕ}
    (hbook : book ∈ books) (hseq : seq < 2 ^ 64)
    (hincreasing : (numbersOf book (ms ++ [(book, seq)])).Pairwise (· < ·)) :
    Sentinel books (WireEnv.observeSeq lastSeq book seq).1
      (out ++ ((WireEnv.observeSeq lastSeq book seq).2.map
        (.emitted ∘ .connectionGap)).toList) (ms ++ [(book, seq)]) := by
  have hconcat := numbersOf_concat book ms (book, seq)
  rw [if_pos rfl] at hconcat
  constructor
  · intro other
    show (lastSeq.insert book seq).get? other = _
    rw [HashMap.get?_insert, numbersOf_concat, h.lastSeq]
    by_cases hother : other = book
    · rw [if_pos hother, if_pos hother.symm, List.getLast?_concat]
    · rw [if_neg hother, if_neg (Ne.symm hother), List.append_nil]
  · -- the jump is what the number adds to those missing
    have hjump : (lastSeq.get? book).elim 0 (fun prev => seq - saturatingAdd prev 1)
        = (numbersOf book ms).getLast?.elim 0 (fun last => seq - last - 1) := by
      rw [h.lastSeq]
      cases hlast : (numbersOf book ms).getLast? with
      | none => rfl
      | some last =>
        rw [hconcat] at hincreasing
        have hlt : last < seq := (List.pairwise_append.mp hincreasing).2.2 last
          (List.mem_of_getLast? hlast) seq List.mem_cons_self
        show seq - saturatingAdd last 1 = seq - last - 1
        rw [saturatingAdd_of_lt (by omega)]
        omega
    rw [sum_missing_concat hbook hincreasing, Normalized.gaps_append, List.sum_append, h.gaps]
    refine congrArg _ ?_
    rw [← hjump]
    unfold WireEnv.observeSeq
    dsimp only
    split
    · exact Nat.add_zero _
    · next hzero => exact (Nat.eq_zero_of_not_pos hzero).symm

/-- **An event keeps the count.** -/
theorem step (h : Sentinel books lastSeq out ms) {ev : BitsoWssEvent}
    (hbook : ∀ m ∈ ev.numbered, m.1 ∈ books ∧ m.2 < 2 ^ 64)
    (hincreasing : ∀ book, (numbersOf book (ms ++ ev.numbered.toList)).Pairwise (· < ·)) :
    Sentinel books (env.normalizeBitso lastSeq ev).1
      (out ++ (env.normalizeBitso lastSeq ev).2) (ms ++ ev.numbered.toList) := by
  cases ev with
  | trades m =>
    rw [show (BitsoWssEvent.trades m).numbered.toList = [] from rfl, List.append_nil]
    exact h.quiet (VenuePrint.gaps_normalizeBatch env _ _ _)
  | diffOrders m =>
    unfold BitsoWssEvent.numbered at hbook hincreasing ⊢
    unfold WireEnv.normalizeBitso
    dsimp only at hbook hincreasing ⊢
    cases hseq : m.sequence with
    | none =>
      show Sentinel books lastSeq (out ++ [.emitted (.book (WireEnv.bitsoDelta m))]) (ms ++ [])
      rw [List.append_nil]
      exact h.quiet rfl
    | some seq =>
      rw [hseq] at hbook hincreasing
      obtain ⟨hin, hlt⟩ := hbook _ rfl
      rw [← List.append_assoc]
      exact (h.observed hin hlt (hincreasing m.book)).quiet rfl

end Sentinel

namespace Venue

/-- The numbered messages of a socket. -/
def numberedOf (ds : List (Decoded F .bitso)) : List (String × ℕ) :=
  ds.filterMap fun d => BitsoWssEvent.numbered d.event

/-- **A socket keeps the count.** -/
theorem sentinel_run {books : Finset String} {declared : List DeclaredDatatype}
    {hasher : RandomState String} {ds : List (Decoded F .bitso)}
    (hbooks : ∀ m ∈ numberedOf ds, m.1 ∈ books ∧ m.2 < 2 ^ 64)
    (hincreasing : ∀ book, (numbersOf book (numberedOf ds)).Pairwise (· < ·)) :
    Sentinel books ((bitso.normalizer env declared).run (HashMap.empty hasher) ds).1
      ((bitso.normalizer env declared).run (HashMap.empty hasher) ds).2 (numberedOf ds) := by
  induction ds using List.reverseRecOn with
  | nil =>
    refine ⟨fun book => HashMap.get?_empty _ _, ?_⟩
    exact (Finset.sum_eq_zero fun book _ => rfl).symm
  | append_singleton ds d ih =>
    have hconcat : numberedOf (ds ++ [d])
        = numberedOf ds ++ (BitsoWssEvent.numbered d.event).toList := by
      unfold numberedOf
      rw [List.filterMap_append]
      refine congrArg _ ?_
      cases h : BitsoWssEvent.numbered d.event with
      | none => exact List.filterMap_cons_none h
      | some m => exact List.filterMap_cons_some h
    rw [hconcat] at hbooks hincreasing ⊢
    have hds : Sentinel books ((bitso.normalizer env declared).run (HashMap.empty hasher) ds).1
        ((bitso.normalizer env declared).run (HashMap.empty hasher) ds).2 (numberedOf ds) := by
      refine ih (fun m hm => hbooks m (List.mem_append_left _ hm)) fun book => ?_
      have hsub : (numbersOf book (numberedOf ds)).Sublist (numbersOf book
          (numberedOf ds ++ (BitsoWssEvent.numbered d.event).toList)) :=
        (List.sublist_append_left _ _).filterMap _
      exact (hincreasing book).sublist hsub
    have hrun := Machine.run_append (bitso.normalizer env declared) (HashMap.empty hasher) ds [d]
    rw [hrun]
    show Sentinel books (env.normalizeBitso _ d.event).1
      (_ ++ ((env.normalizeBitso _ d.event).2 ++ [])) _
    rw [List.append_nil]
    refine hds.step env (fun m hm => hbooks m (List.mem_append_right _ ?_)) hincreasing
    exact Option.mem_toList.mpr hm

/-- **What the sentinel reports is what is missing**: the gaps of a socket add up to the
numbers that are missing in its books. -/
theorem gaps_bitso_run {books : Finset String} {declared : List DeclaredDatatype}
    {hasher : RandomState String} {ds : List (Decoded F .bitso)}
    (hbooks : ∀ m ∈ numberedOf ds, m.1 ∈ books ∧ m.2 < 2 ^ 64)
    (hincreasing : ∀ book, (numbersOf book (numberedOf ds)).Pairwise (· < ·)) :
    (Normalized.gaps ((bitso.normalizer env declared).run (HashMap.empty hasher) ds).2).sum
      = ∑ book ∈ books, (missing (numbersOf book (numberedOf ds))).card :=
  (sentinel_run env hbooks hincreasing).gaps

/-- A message of Bitso that opens a bid. -/
def bitsoMessage (book : String) (sequence : ℕ) : BitsoDiffMessage where
  book := book
  payload := [⟨sequence, some "100", some "2", 0, "bid", "open"⟩]
  sequence := some sequence

/-- Such a message on the wire. -/
def bitsoChanged (book : String) (sequence : ℕ) : Decoded ℕ .bitso where
  event := BitsoWssEvent.diffOrders (bitsoMessage book sequence)
  clock := .zero

/-- The messages of two books, mixed. -/
def twoBooks : List (Decoded ℕ .bitso) :=
  [bitsoChanged "btc_mxn" 5, bitsoChanged "eth_mxn" 1, bitsoChanged "btc_mxn" 8,
    bitsoChanged "eth_mxn" 3]

/-- Three numbers are missing in them, two of one book and one of the other. -/
theorem gaps_bitso_run_twoBooks :
    (Normalized.gaps ((bitso.normalizer .plain []).run (HashMap.empty RandomState.table)
      twoBooks).2).sum = 3 :=
  (@gaps_bitso_run ℕ .plain {"btc_mxn", "eth_mxn"} [] RandomState.table twoBooks (by decide)
    (increasing_of_forall (by decide))).trans
    (by decide)

end Venue

/-! ## The runtime -/

namespace SourceRuntime

variable {cfg : RuntimeConfig}

/-- A run that is over takes nothing more. -/
theorem run_of_outcome {s : SourceRuntime} (h : s.outcome.isSome) (inputs : List Input) :
    (machine cfg).run s inputs = (s, []) := by
  induction inputs with
  | nil => rfl
  | cons input inputs ih =>
    have hstep : (machine cfg).step s input = (s, []) := if_pos h
    unfold Machine.run
    rw [hstep, ih]
    rfl

/-- **A connection gap is taken** by a run that is not over, and ends it. -/
theorem step_of_gap {s : SourceRuntime} (hs : s.Alive) {input : Input} {dropped : ℕ}
    (h : input.event? = some (.connectionGap dropped)) :
    (s.step cfg input).1.outcome = some .resyncRequired := by
  have hbody : input.body = .event (.connectionGap dropped) := by
    unfold Input.event? at h
    split at h
    · next ev hbody => rw [hbody, Option.some.inj h]
    · cases h
  have hhandle : s.handle cfg input.nowUs (.event (.connectionGap dropped))
      = s.onConnectionGap dropped := if_neg (by rw [hs.eventsDone]; exact Bool.false_ne_true)
  have hsettle : (s.onConnectionGap dropped).1.settle.outcome = some .resyncRequired := by
    unfold settle
    rw [if_neg fun hover => by cases hover.1]
    rfl
  unfold step
  rw [if_neg (by rw [hs.outcome]; exact Bool.false_ne_true)]
  dsimp only
  rw [hbody, hhandle]
  split
  · exact hsettle
  · -- what a gap writes is counters, which every receiver takes
    next n _ =>
    have hsends : ((s.onConnectionGap dropped).2.filter isSent).length ≤ n := Nat.zero_le n
    rw [if_pos hsends]
    exact hsettle

/-- A gap ends a run there: what comes behind it is not looked at. -/
theorem run_of_gap {s : SourceRuntime} {pre : List Input} {input : Input} {dropped : ℕ}
    (halive : ((machine cfg).run s pre).1.Alive)
    (h : input.event? = some (.connectionGap dropped)) (post : List Input) :
    ((machine cfg).run s (pre ++ input :: post)).1.outcome = some .resyncRequired ∧
      (machine cfg).run s (pre ++ input :: post) = (machine cfg).run s (pre ++ [input]) := by
  have hlast : ((machine cfg).run s (pre ++ [input])).1.outcome = some .resyncRequired := by
    rw [Machine.run_append_singleton]
    exact step_of_gap halive h
  have hrun : (machine cfg).run s (pre ++ input :: post)
      = (machine cfg).run s (pre ++ [input]) := by
    rw [List.append_cons, Machine.run_append, run_of_outcome (by rw [hlast]; rfl),
      List.append_nil]
  exact ⟨hrun ▸ hlast, hrun⟩

theorem not_alive_of_gap {s : SourceRuntime} {input : Input} {dropped : ℕ}
    (h : input.event? = some (.connectionGap dropped)) : ¬ (s.step cfg input).1.Alive := by
  intro halive
  have hover : (s.step cfg input).1.outcome = some .resyncRequired :=
    step_of_gap halive.of_step h
  rw [halive.outcome] at hover
  cases hover

/-- As long as a run is not over, no loss was reported to it. -/
theorem gap_notMem_of_alive {s : SourceRuntime} {inputs : List Input}
    (h : ((machine cfg).run s inputs).1.Alive) (dropped : ℕ) :
    .connectionGap dropped ∉ inputs.filterMap Input.event? := by
  induction inputs generalizing s with
  | nil => exact List.not_mem_nil
  | cons input inputs ih =>
    intro hmem
    obtain ⟨i, hi, hevent⟩ := List.mem_filterMap.mp hmem
    rcases List.mem_cons.mp hi with rfl | hi
    · exact not_alive_of_gap hevent (.of_run h)
    · exact ih h (List.mem_filterMap.mpr ⟨i, hi, hevent⟩)

end SourceRuntime

/-- Without a gap among the events there is none. -/
theorem Normalized.gaps_eq_nil {out : List Normalized}
    (h : ∀ dropped, .connectionGap dropped ∉ events out) : gaps out = [] := by
  refine List.filterMap_eq_nil_iff.mpr fun piece hpiece => ?_
  cases piece with
  | droppedFrame => rfl
  | emitted ev =>
    cases ev with
    | connectionGap dropped =>
      have hevent : .connectionGap dropped ∈ events out :=
        List.mem_filterMap.mpr ⟨_, hpiece, rfl⟩
      exact absurd hevent (h dropped)
    | _ => rfl

namespace Venue

/-- **A message that shows a hole**: it is on the wire, and jumps over as many numbers of its
book. -/
structure ShowsHole (ds before : List (Decoded F .bitso)) (m : BitsoDiffMessage) (dropped : ℕ) :
    Prop where
  wire : ∃ clock after, ds = before ++ ⟨BitsoWssEvent.diffOrders m, clock⟩ :: after
  jumps : ∃ last seq, (numbersOf m.book (numberedOf before)).getLast? = some last
    ∧ m.sequence = some seq ∧ dropped = seq - last - 1 ∧ 0 < dropped

/-- **A hole is reported before its delta.** -/
theorem ShowsHole.events {books : Finset String} {declared : List DeclaredDatatype}
    {hasher : RandomState String} {ds before : List (Decoded F .bitso)} {m : BitsoDiffMessage}
    {dropped : ℕ} (h : ShowsHole ds before m dropped)
    (hbooks : ∀ m ∈ numberedOf ds, m.1 ∈ books ∧ m.2 < 2 ^ 64)
    (hincreasing : ∀ book, (numbersOf book (numberedOf ds)).Pairwise (· < ·)) :
    ∃ rest, Normalized.events ((bitso.normalizer env declared).run (HashMap.empty hasher) ds).2
      = Normalized.events ((bitso.normalizer env declared).run (HashMap.empty hasher) before).2
        ++ .connectionGap dropped :: .book (WireEnv.bitsoDelta m) :: rest := by
  obtain ⟨⟨clock, after, rfl⟩, last, seq, hlast, hseq, rfl, hpos⟩ := h
  have hsub : (numberedOf before).Sublist
      (numberedOf (before ++ ⟨BitsoWssEvent.diffOrders m, clock⟩ :: after)) :=
    (List.sublist_append_left _ _).filterMap _
  have hsentinel : Sentinel books
      ((bitso.normalizer env declared).run (HashMap.empty hasher) before).1
      ((bitso.normalizer env declared).run (HashMap.empty hasher) before).2
      (numberedOf before) :=
    sentinel_run env (fun m hm => hbooks m (hsub.subset hm)) fun book =>
      (hincreasing book).sublist (hsub.filterMap _)
  have hlt : last < 2 ^ 64 - 1 := by
    have hmem : (m.book, seq) ∈
        numberedOf (before ++ ⟨BitsoWssEvent.diffOrders m, clock⟩ :: after) :=
      List.mem_filterMap.mpr ⟨_, List.mem_append_right _ List.mem_cons_self,
        congrArg (Option.map _) hseq⟩
    have hle := (hbooks _ hmem).2
    dsimp only at hle
    omega
  have hobserved : (WireEnv.observeSeq
      ((bitso.normalizer env declared).run (HashMap.empty hasher) before).1 m.book seq).2
      = some (seq - last - 1) := by
    unfold WireEnv.observeSeq
    dsimp only
    rw [hsentinel.lastSeq, hlast, Option.elim_some, saturatingAdd_of_lt (by omega),
      ← Nat.sub_sub, if_pos hpos]
  have hstep : (env.normalizeBitso
      ((bitso.normalizer env declared).run (HashMap.empty hasher) before).1 (.diffOrders m)).2
      = [.emitted (.connectionGap (seq - last - 1)), .emitted (.book (WireEnv.bitsoDelta m))] := by
    unfold WireEnv.normalizeBitso
    dsimp only
    rw [hseq]
    dsimp only
    rw [hobserved]
    rfl
  have hrun := Machine.run_append (bitso.normalizer env declared) (HashMap.empty hasher) before
    (⟨BitsoWssEvent.diffOrders m, clock⟩ :: after)
  rw [hrun]
  show ∃ rest, Normalized.events (_ ++ ((env.normalizeBitso _ (.diffOrders m)).2 ++ _)) = _
  rw [hstep]
  exact ⟨_, List.filterMap_append⟩

/-- **A runtime that goes on has the books of Bitso without a hole.** As long as the run is
not over, no number is missing between the messages that were handed to it. A message that
shows a hole comes after the report of that hole; and a run that is not over when it gets the
report ends there, and takes nothing of what follows. -/
theorem hole_free_run {books : Finset String} {declared : List DeclaredDatatype}
    {hasher : RandomState String} {ds : List (Decoded F .bitso)} {cfg : RuntimeConfig}
    {s : SourceRuntime} {inputs : List Input}
    (hbooks : ∀ m ∈ numberedOf ds, m.1 ∈ books ∧ m.2 < 2 ^ 64)
    (hincreasing : ∀ book, (numbersOf book (numberedOf ds)).Pairwise (· < ·))
    (hwire : inputs.filterMap Input.event?
      = Normalized.events ((bitso.normalizer env declared).run (HashMap.empty hasher) ds).2) :
    (((SourceRuntime.machine cfg).run s inputs).1.Alive →
        ∀ book ∈ books, missing (numbersOf book (numberedOf ds)) = ∅)
      ∧ ∀ before m dropped, ShowsHole ds before m dropped →
        ∃ pre input post, inputs = pre ++ input :: post
          ∧ pre.filterMap Input.event? = Normalized.events
            ((bitso.normalizer env declared).run (HashMap.empty hasher) before).2
          ∧ input.event? = some (.connectionGap dropped)
          ∧ (post.filterMap Input.event?).head? = some (.book (WireEnv.bitsoDelta m))
          ∧ (((SourceRuntime.machine cfg).run s pre).1.Alive →
            ((SourceRuntime.machine cfg).run s inputs).1.outcome = some .resyncRequired
              ∧ (SourceRuntime.machine cfg).run s inputs
                = (SourceRuntime.machine cfg).run s (pre ++ [input])) := by
  constructor
  · intro halive book hbook
    have hgaps : Normalized.gaps
        ((bitso.normalizer env declared).run (HashMap.empty hasher) ds).2 = [] :=
      Normalized.gaps_eq_nil fun dropped =>
        hwire ▸ SourceRuntime.gap_notMem_of_alive halive dropped
    have hsentinel : Sentinel books
        ((bitso.normalizer env declared).run (HashMap.empty hasher) ds).1
        ((bitso.normalizer env declared).run (HashMap.empty hasher) ds).2 (numberedOf ds) :=
      sentinel_run env hbooks hincreasing
    have hsum : ∑ book ∈ books, (missing (numbersOf book (numberedOf ds))).card = 0 := by
      rw [← hsentinel.gaps, hgaps]
      rfl
    exact Finset.card_eq_zero.mp (Finset.sum_eq_zero_iff.mp hsum book hbook)
  · intro before m dropped hhole
    obtain ⟨rest, hevents⟩ := hhole.events env hbooks hincreasing
    rw [hevents] at hwire
    obtain ⟨pre, more, hinputs, hpre, hmore⟩ := List.filterMap_eq_append_iff.mp hwire
    obtain ⟨idle, input, post, rfl, hidle, hinput, hpost⟩ := List.filterMap_eq_cons_iff.mp hmore
    have hsplit : inputs = pre ++ idle ++ input :: post := by
      rw [hinputs, List.append_assoc]
    refine ⟨pre ++ idle, input, post, hsplit, ?_, hinput, ?_, fun halive => ?_⟩
    · rw [List.filterMap_append, hpre, List.filterMap_eq_nil_iff.mpr hidle, List.append_nil]
    · rw [hpost]
      rfl
    · rw [hsplit]
      exact SourceRuntime.run_of_gap halive hinput post

/-- A runtime of Bitso. -/
def bitsoVenue : RuntimeConfig :=
  { RuntimeConfig.restVenue with
    unicode := .ascii, exchange := "bitso", codec := .underscore false, model := .l3 .restSnapshot }

/-- Messages of two books without a hole. -/
def twoWholeBooks : List (Decoded ℕ .bitso) :=
  [bitsoChanged "btc_mxn" 5, bitsoChanged "eth_mxn" 1, bitsoChanged "btc_mxn" 6,
    bitsoChanged "eth_mxn" 2]

/-- The runtime of two books at its start. -/
def twoBookRuntime : SourceRuntime :=
  (SourceRuntime.start bitsoVenue RandomState.table 0 ["btc_mxn", "eth_mxn"]).1

/-- The runtime goes on after books without a hole, and ends at the first hole of the
others. -/
theorem hole_free_run_twoWholeBooks :
    (missing (numbersOf "btc_mxn" (numberedOf twoWholeBooks)) = ∅
        ∧ missing (numbersOf "eth_mxn" (numberedOf twoWholeBooks)) = ∅)
      ∧ ∃ pre input post, @received .bitso (HashMap.empty RandomState.table) twoBooks
          = pre ++ input :: post
        ∧ pre.filterMap Input.event? = [.book (WireEnv.bitsoDelta (bitsoMessage "btc_mxn" 5)),
          .book (WireEnv.bitsoDelta (bitsoMessage "eth_mxn" 1))]
        ∧ input.event? = some (.connectionGap 2)
        ∧ (post.filterMap Input.event?).head?
          = some (.book (WireEnv.bitsoDelta (bitsoMessage "btc_mxn" 8)))
        ∧ (((SourceRuntime.machine bitsoVenue).run twoBookRuntime pre).1.Alive →
          ((SourceRuntime.machine bitsoVenue).run twoBookRuntime
              (@received .bitso (HashMap.empty RandomState.table) twoBooks)).1.outcome
            = some .resyncRequired
          ∧ (SourceRuntime.machine bitsoVenue).run twoBookRuntime
              (@received .bitso (HashMap.empty RandomState.table) twoBooks)
            = (SourceRuntime.machine bitsoVenue).run twoBookRuntime (pre ++ [input])) := by
  have hwhole := (@hole_free_run ℕ .plain {"btc_mxn", "eth_mxn"} [.trades] RandomState.table
    twoWholeBooks bitsoVenue twoBookRuntime
    (@received .bitso (HashMap.empty RandomState.table) twoWholeBooks) (by decide)
    (increasing_of_forall (by decide)) rfl).1 ⟨by decide, by decide⟩
  refine ⟨⟨hwhole _ (by decide), hwhole _ (by decide)⟩, ?_⟩
  exact (@hole_free_run ℕ .plain {"btc_mxn", "eth_mxn"} [.trades] RandomState.table
    twoBooks bitsoVenue twoBookRuntime
    (@received .bitso (HashMap.empty RandomState.table) twoBooks) (by decide)
    (increasing_of_forall (by decide)) rfl).2 (twoBooks.take 2) (bitsoMessage "btc_mxn" 8) 2
    ⟨⟨.zero, [bitsoChanged "eth_mxn" 3], rfl⟩, 5, 8, rfl, rfl, rfl, by decide⟩

end Venue
