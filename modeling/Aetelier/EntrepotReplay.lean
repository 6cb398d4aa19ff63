import Aetelier.Entrepot

/-!
# Resumable replay

A replay with a cursor may be cut at any fetch and taken up again by another
spawn. Put together, its spawns emit each object of the plan once and in the
order of the plan: the events are those of one spawn that nothing cut, up to
the receive counter, which starts anew with each spawn
(`EntrepotAdapter.replay_exactly_once`).

The invariant is that the cursor file holds the last key behind the part of
the plan that is through. The plan of one coin has no key twice and no key
with white space at its ends, so the next spawn finds that very place again.
-/

namespace Str

theorem dropWhile_isWhitespace_eq_self {cs : List Char} {c : Char} (hc : cs.head? = some c)
    (hw : isWhitespace c = false) : cs.dropWhile isWhitespace = cs := by
  obtain ⟨rest, rfl⟩ := List.head?_eq_some_iff.mp hc
  exact List.dropWhile_cons_of_neg (by simp [hw])

/-- Text that neither starts nor ends with white space is its own trim. -/
theorem trim_eq_self {s : String} {first last : Char} (hfirst : s.toList.head? = some first)
    (hlast : s.toList.getLast? = some last) (hwf : isWhitespace first = false)
    (hwl : isWhitespace last = false) : trim s = s := by
  unfold trim
  rw [dropWhile_isWhitespace_eq_self hfirst hwf,
    dropWhile_isWhitespace_eq_self (List.head?_reverse.trans hlast) hwl, List.reverse_reverse,
    String.ofList_toList]

/-- The text before a separator that it does not hold is known from the
whole. -/
theorem append_cons_inj {c : Char} {d d' rest rest' : List Char} (hd : c ∉ d) (hd' : c ∉ d')
    (h : d ++ c :: rest = d' ++ c :: rest') : d = d' ∧ rest = rest' := by
  have hbefore : ∀ {e r : List Char}, c ∉ e → (e ++ c :: r).takeWhile (· != c) = e := by
    intro e r he
    rw [List.takeWhile_append_of_pos (fun b hb => by simpa using fun h : b = c => he (h ▸ hb)),
      List.takeWhile_cons_of_neg (by simp), List.append_nil]
  have hday : d = d' := by rw [← hbefore hd (r := rest), h, hbefore hd']
  subst hday
  exact ⟨rfl, (List.cons.inj (List.append_cancel_left h)).2⟩

end Str

/-- An event without its receive counter. -/
def DomainEvent.sansSeq : DomainEvent → DomainEvent
  | .fundingRate fr => .fundingRate { fr with recvSeq := 0 }
  | .openInterest oi => .openInterest { oi with recvSeq := 0 }
  | ev => ev

namespace ReplayEffect

/-- An effect without the receive counter of its event. -/
def sansSeq : ReplayEffect → ReplayEffect
  | sent ev => sent ev.sansSeq
  | cursor key => cursor key

/-- The event an effect sends. -/
def event? : ReplayEffect → Option DomainEvent
  | sent ev => some ev
  | cursor _ => none

theorem filterMap_event?_sent (events : List DomainEvent) :
    (events.map sent).filterMap event? = events := by
  rw [List.filterMap_map]
  exact List.filterMap_some

end ReplayEffect

/-- A consumer that never hangs up, and cursor writes that succeed. -/
def Attempt.Undisturbed (a : Attempt) : Prop := a.room = none ∧ ∀ key, a.writes key = true

namespace EntrepotAdapter

/-! ## The plan of one coin -/

/-- A key the cursor file gives back as it was written. -/
def Plain (key : String) : Prop := Str.trim key = key ∧ key ≠ ""

/-- What starts and ends with visible characters is plain. -/
theorem plain_of_ends {key : String} {f l : Char} (hfirst : key.toList.head? = some f)
    (hlast : key.toList.getLast? = some l) (hwf : Str.isWhitespace f = false)
    (hwl : Str.isWhitespace l = false) : Plain key := by
  refine ⟨Str.trim_eq_self hfirst hlast hwf hwl, fun h => ?_⟩
  rw [h] at hfirst
  cases hfirst

theorem toList_assetCtxsKey (day : String) : (assetCtxsKey day).toList
    = "asset_ctxs/".toList ++ (day.toList ++ ".csv.lz4".toList) := by
  show ("asset_ctxs/" ++ day ++ ".csv.lz4").toList = _
  simp only [String.toList_append, List.append_assoc]

theorem toList_l2bookKey (day : String) (hour : ℕ) (coin : String) :
    (l2bookKey day hour coin).toList = "market_data/".toList ++ (day.toList ++ '/' ::
      ((toString hour).toList ++ ("/l2Book/".toList ++ (coin.toList ++ ".lz4".toList)))) := by
  show ("market_data/" ++ day ++ "/" ++ toString hour ++ "/l2Book/" ++ coin ++ ".lz4").toList = _
  simp only [String.toList_append, List.append_assoc]
  rfl

theorem plain_assetCtxsKey (day : String) : Plain (assetCtxsKey day) := by
  refine plain_of_ends (f := 'a') (l := '4') ?_ ?_ rfl rfl
  · rw [toList_assetCtxsKey]
    rfl
  · rw [toList_assetCtxsKey, ← List.append_assoc]
    exact List.getLast?_append_of_ne_nil _ (by decide)

theorem plain_l2bookKey (day : String) (hour : ℕ) (coin : String) :
    Plain (l2bookKey day hour coin) := by
  refine plain_of_ends (f := 'm') (l := '4') ?_ ?_ rfl rfl
  · rw [toList_l2bookKey]
    rfl
  · simp only [toList_l2bookKey, ← List.cons_append, ← List.append_assoc]
    exact List.getLast?_append_of_ne_nil _ (by decide)

/-- The days of two equal book keys are the same, and so are their hours. -/
theorem l2bookKey_inj {day day' : String} {hour hour' : ℕ} {coin : String}
    (hday : '/' ∉ day.toList) (hday' : '/' ∉ day'.toList)
    (h : l2bookKey day hour coin = l2bookKey day' hour' coin) :
    day = day' ∧ toString hour = toString hour' := by
  have hchars := congrArg String.toList h
  rw [toList_l2bookKey, toList_l2bookKey] at hchars
  -- behind the common path, the first slash ends the day
  obtain ⟨hd, hh⟩ := Str.append_cons_inj hday hday' (List.append_cancel_left hchars)
  exact ⟨String.toList_injective hd, String.toList_injective (List.append_cancel_right hh)⟩

theorem assetCtxsKey_inj {day day' : String} (h : assetCtxsKey day = assetCtxsKey day') :
    day = day' := by
  have hchars := congrArg String.toList h
  rw [toList_assetCtxsKey, toList_assetCtxsKey] at hchars
  exact String.toList_injective (List.append_cancel_right (List.append_cancel_left hchars))

/-- A file of contexts is no hour of a book. -/
theorem assetCtxsKey_ne_l2bookKey (day day' : String) (hour : ℕ) (coin : String) :
    assetCtxsKey day ≠ l2bookKey day' hour coin := by
  intro h
  have hchars := congrArg String.toList h
  rw [toList_assetCtxsKey, toList_l2bookKey] at hchars
  exact absurd (List.cons.inj hchars).1 (show 'a' ≠ 'm' by decide)

variable {x : EntrepotAdapter} {coin : String} {a : Attempt}

theorem mem_ctxKeys {date : ℕ} {key : String} (h : key ∈ x.ctxKeys date) :
    key = assetCtxsKey (x.calendar.format date) := by
  unfold ctxKeys at h
  split at h
  · exact List.mem_singleton.mp h
  · cases h

theorem plain_of_mem_plannedKeys {key : String} (h : key ∈ x.plannedKeys) : Plain key := by
  obtain ⟨date, -, hkey⟩ := List.mem_flatMap.mp h
  rcases List.mem_append.mp hkey with hctx | hbook
  · rw [mem_ctxKeys hctx]
    exact plain_assetCtxsKey _
  · obtain ⟨hour, -, hcoin⟩ := List.mem_flatMap.mp hbook
    obtain ⟨coin, -, rfl⟩ := List.mem_map.mp hcoin
    exact plain_l2bookKey _ _ _

/-- The keys of one coin on a day. -/
def dayKeys (x : EntrepotAdapter) (coin : String) (date : ℕ) : List String :=
  x.ctxKeys date
    ++ (List.range 24).map (fun hour => l2bookKey (x.calendar.format date) hour coin)

theorem plannedKeys_eq (hcoin : x.window.coins = [coin]) :
    x.plannedKeys = x.days.flatMap (x.dayKeys coin) := by
  unfold plannedKeys dayKeys
  simp only [hcoin, List.map_eq_flatMap, List.flatMap_singleton]

theorem mem_dayKeys {date : ℕ} {key : String} (h : key ∈ x.dayKeys coin date) :
    key = assetCtxsKey (x.calendar.format date)
      ∨ ∃ hour, key = l2bookKey (x.calendar.format date) hour coin := by
  rcases List.mem_append.mp h with hctx | hbook
  · exact Or.inl (mem_ctxKeys hctx)
  · obtain ⟨hour, -, rfl⟩ := List.mem_map.mp hbook
    exact Or.inr ⟨hour, rfl⟩

/-- A key belongs to one day only. -/
theorem date_eq_of_mem_dayKeys {date date' : ℕ} {key : String} (h : key ∈ x.dayKeys coin date)
    (h' : key ∈ x.dayKeys coin date') : date = date' := by
  refine x.calendar.format_injective ?_
  rcases mem_dayKeys h with rfl | ⟨hour, rfl⟩ <;> rcases mem_dayKeys h' with heq | ⟨hour', heq⟩
  · exact assetCtxsKey_inj heq
  · exact absurd heq (assetCtxsKey_ne_l2bookKey _ _ _ _)
  · exact absurd heq.symm (assetCtxsKey_ne_l2bookKey _ _ _ _)
  · exact (l2bookKey_inj (x.calendar.slash_notMem_format _)
      (x.calendar.slash_notMem_format _) heq).1

/-- Two hours of a day are written differently. -/
theorem hour_eq_of_toString {hour hour' : ℕ} (h : hour ∈ List.range 24)
    (h' : hour' ∈ List.range 24) (heq : toString hour = toString hour') : hour = hour' :=
  List.inj_on_of_nodup_map (show ((List.range 24).map toString).Nodup by decide) h h' heq

theorem nodup_dayKeys (date : ℕ) : (x.dayKeys coin date).Nodup := by
  refine List.Nodup.append ?_ ?_ ?_
  · unfold ctxKeys
    split <;> simp
  · refine List.Nodup.map_on (fun hour hh hour' hh' heq => ?_) List.nodup_range
    exact hour_eq_of_toString hh hh' (l2bookKey_inj (x.calendar.slash_notMem_format _)
      (x.calendar.slash_notMem_format _) heq).2
  · intro key hctx hbook
    obtain ⟨hour, -, rfl⟩ := List.mem_map.mp hbook
    exact assetCtxsKey_ne_l2bookKey _ _ _ _ (mem_ctxKeys hctx).symm

/-- **The plan of one coin has no key twice.** -/
theorem nodup_plannedKeys (hcoin : x.window.coins = [coin]) : x.plannedKeys.Nodup := by
  rw [plannedKeys_eq hcoin, List.nodup_flatMap]
  refine ⟨fun date _ => nodup_dayKeys date, ?_⟩
  have hdays : x.days.Nodup := List.nodup_range'
  refine hdays.imp (fun {date date'} hne => ?_)
  intro key h h'
  exact hne (date_eq_of_mem_dayKeys h h')

/-! ## Finding the place again -/

/-- A key that does not stand before a place is found there. -/
theorem findIdx?_append_cons {past ahead : List String} {key : String} (h : key ∉ past) :
    (past ++ key :: ahead).findIdx? (fun k => k == key) = some past.length := by
  rw [List.findIdx?_append, List.findIdx?_eq_none_iff.mpr, List.findIdx?_cons]
  · simp
  · intro k hk
    simpa using fun heq : k = key => h (heq ▸ hk)

/-- **Resuming.** The last key behind the part of the plan that is through
leads to the part that is ahead. -/
theorem drop_resumeIndex {past ahead : List String} (hnodup : (past ++ ahead).Nodup)
    (hplain : ∀ key ∈ past, Plain key) :
    (past ++ ahead).drop (resumeIndex past.getLast? (past ++ ahead)) = ahead := by
  rcases List.eq_nil_or_concat past with rfl | ⟨past, key, rfl⟩
  · rfl
  · obtain ⟨htrim, hne⟩ := hplain key (by simp)
    have hkey : key ∉ past := by
      rw [List.concat_eq_append] at hnodup
      exact List.disjoint_singleton.mp (List.nodup_append'.mp (List.nodup_append.mp hnodup).1).2.2
    -- the file holds `key`, and its first position is its only one
    rw [List.concat_eq_append, List.append_assoc, List.singleton_append]
    simp only [List.getLast?_append, List.getLast?_singleton, Option.some_or, resumeIndex, htrim,
      if_neg hne, findIdx?_append_cons hkey]
    simp

/-! ## Traces without the receive counter -/

/-- The events sent along a trace, without their receive counters. -/
def emitted (trace : List ReplayEffect) : List DomainEvent :=
  (trace.map ReplayEffect.sansSeq).filterMap ReplayEffect.event?

theorem sansSeq_stampLocal (ev : DomainEvent) (localUs rttUs m n connEpochUs : ℕ) :
    (ev.stampLocal localUs rttUs m connEpochUs).sansSeq
      = (ev.stampLocal localUs rttUs n connEpochUs).sansSeq := by
  cases ev <;> rfl

/-- Up to the counter, a stamp does not depend on where the counter is. -/
theorem map_sansSeq_stampAll (m n : ℕ) (found : List (DomainEvent × ℕ)) :
    (stampAll m found).map DomainEvent.sansSeq = (stampAll n found).map DomainEvent.sansSeq := by
  induction found generalizing m n with
  | nil => rfl
  | cons ev rest ih =>
    simp only [stampAll, List.map_cons, ih (m + 1) (n + 1),
      sansSeq_stampLocal _ _ _ (m + 1) (n + 1)]

/-- **The events of a key**, as a spawn emits them, without their receive
counters. -/
def keyEvents (x : EntrepotAdapter) (a : Attempt) (key : String) : List DomainEvent :=
  match x.objectEvents a key with
  | .ok found => (stampAll 0 found).map DomainEvent.sansSeq
  | .error _ => []

/-- What a spawn that gets through with a key does there. -/
def keyTrace (x : EntrepotAdapter) (a : Attempt) (key : String) : List ReplayEffect :=
  (x.keyEvents a key).map .sent ++ [.cursor key]

/-- A spawn gets an answer for a key that is no failure. -/
def Answers (x : EntrepotAdapter) (a : Attempt) (key : String) : Prop :=
  ∃ found, x.objectEvents a key = .ok found

theorem hangsUp_none (count : ℕ) : hangsUp none count = false := rfl

/-- Up to the counter, what a spawn does at a key it gets through with is the
trace of that key. -/
theorem map_sansSeq_events_writeCursor (hcursor : x.cursor = true) {key : String}
    (hwrite : a.writes key = true) {found : List (DomainEvent × ℕ)}
    (hfound : x.objectEvents a key = .ok found) (recvSeq : ℕ) :
    ((stampAll recvSeq found).map ReplayEffect.sent ++ x.writeCursor a key).map
        ReplayEffect.sansSeq
      = x.keyTrace a key := by
  have hsent : ((stampAll recvSeq found).map ReplayEffect.sent).map ReplayEffect.sansSeq
      = (x.keyEvents a key).map .sent := by
    simp only [keyEvents, hfound]
    rw [← map_sansSeq_stampAll recvSeq 0, List.map_map, List.map_map]
    rfl
  rw [List.map_append, hsent, writeCursor, hcursor, hwrite]
  rfl

/-- **A spawn's loop gets through with a first part of what is ahead of
it**, and with all of it if it ends exhausted. -/
theorem replay_spec (hcursor : x.cursor = true) (hwrites : ∀ key, a.writes key = true)
    (recvSeq : ℕ) (ahead : List String) :
    ∃ done rest, ahead = done ++ rest ∧ (∀ key ∈ done, x.Answers a key)
      ∧ (x.replay a recvSeq none ahead).1.map ReplayEffect.sansSeq = done.flatMap (x.keyTrace a)
      ∧ ((x.replay a recvSeq none ahead).2 = .exhausted → rest = []) := by
  induction ahead generalizing recvSeq with
  | nil => exact ⟨[], [], rfl, by simp, rfl, fun _ => rfl⟩
  | cons key ahead ih =>
    unfold replay
    -- a shutdown and a failed fetch cut the loop before this key
    split
    · exact ⟨[], key :: ahead, rfl, by simp, rfl, by simp⟩
    · split
      · exact ⟨[], key :: ahead, rfl, by simp, rfl, by simp⟩
      · next found hfound =>
        obtain ⟨done, rest, rfl, hanswers, htrace, hend⟩ :=
          ih (recvSeq + (stampAll recvSeq found).length)
        refine ⟨key :: done, rest, rfl, ?_, ?_, ?_⟩
        · exact List.forall_mem_cons.mpr ⟨⟨found, hfound⟩, hanswers⟩
        · simp only [hangsUp_none, Bool.false_eq_true, if_false, Option.map_none]
          rw [List.map_append, htrace,
            map_sansSeq_events_writeCursor hcursor (hwrites key) hfound, List.flatMap_cons]
        · exact hend

/-! ## The cursor file -/

theorem cursorAfter_map_sansSeq (cursor : Option String) (trace : List ReplayEffect) :
    cursorAfter cursor (trace.map ReplayEffect.sansSeq) = cursorAfter cursor trace := by
  unfold cursorAfter
  rw [List.foldl_map]
  congr 1
  funext c effect
  cases effect <;> rfl

theorem cursorAfter_sent_append (cursor : Option String) (evs : List DomainEvent)
    (trace : List ReplayEffect) :
    cursorAfter cursor (evs.map ReplayEffect.sent ++ trace) = cursorAfter cursor trace := by
  induction evs with
  | nil => rfl
  | cons ev evs ih => exact ih

/-- After the traces of some keys the cursor file holds the last of them. -/
theorem cursorAfter_flatMap_keyTrace (cursor : Option String) (done : List String) :
    cursorAfter cursor (done.flatMap (x.keyTrace a)) = done.getLast?.or cursor := by
  induction done generalizing cursor with
  | nil => rfl
  | cons key done ih =>
    have hkey : cursorAfter cursor ((key :: done).flatMap (x.keyTrace a))
        = cursorAfter (some key) (done.flatMap (x.keyTrace a)) := by
      rw [List.flatMap_cons, keyTrace, List.append_assoc, cursorAfter_sent_append]
      rfl
    rw [hkey, ih, List.getLast?_cons]
    cases done.getLast? <;> rfl

/-! ## A spawn -/

/-- With a coin given, a spawn lists nothing: its plan is the window's. -/
theorem spawn_eq (hcoin : x.window.coins = [coin]) (hcursor : x.cursor = true)
    (cursor : Option String) : x.spawn a cursor
      = x.replay a 0 a.room (x.plannedKeys.drop (resumeIndex cursor x.plannedKeys)) := by
  have hplan : x.enumerateWindow a.list = .ok x.plannedKeys := by
    rw [enumerateWindow, hcoin]
    rfl
  rw [spawn, hplan, hcursor]
  rfl

/-- **One spawn.** From the last key behind what is through, it gets through
with a first part of what is ahead, and leaves the cursor behind that. -/
theorem spawn_spec (hcoin : x.window.coins = [coin]) (hcursor : x.cursor = true)
    (ha : a.Undisturbed) {past ahead : List String} (hplan : x.plannedKeys = past ++ ahead) :
    ∃ done rest, ahead = done ++ rest ∧ (∀ key ∈ done, x.Answers a key)
      ∧ (x.spawn a past.getLast?).1.map ReplayEffect.sansSeq = done.flatMap (x.keyTrace a)
      ∧ ((x.spawn a past.getLast?).2 = .exhausted → rest = [])
      ∧ cursorAfter past.getLast? (x.spawn a past.getLast?).1 = (past ++ done).getLast? := by
  have hnodup : (past ++ ahead).Nodup := hplan ▸ nodup_plannedKeys hcoin
  have hplain : ∀ key ∈ past, Plain key := fun key hkey =>
    plain_of_mem_plannedKeys (hplan ▸ List.mem_append_left _ hkey)
  have hspawn : x.spawn a past.getLast? = x.replay a 0 none ahead := by
    rw [spawn_eq hcoin hcursor, ha.1, hplan, drop_resumeIndex hnodup hplain]
  obtain ⟨done, rest, hahead, hanswers, htrace, hend⟩ := replay_spec hcursor ha.2 0 ahead
  rw [hspawn]
  refine ⟨done, rest, hahead, hanswers, htrace, hend, ?_⟩
  rw [← cursorAfter_map_sansSeq, htrace, cursorAfter_flatMap_keyTrace, List.getLast?_append]

/-! ## One spawn after another -/

/-- The trace of a replay. -/
def traceOf (runs : List (List ReplayEffect × TaskExit)) : List ReplayEffect :=
  runs.flatMap Prod.fst

/-- The spawn that got through with a key: `a` for those in `done`. -/
def handOver (done : List String) (a : Attempt) (who : String → Attempt) (key : String) :
    Attempt :=
  if key ∈ done then a else who key

/-- Traces of keys of two spawns, put together. -/
theorem flatMap_handOver {done later : List String} (hnodup : (done ++ later).Nodup)
    (who : String → Attempt) :
    (done ++ later).flatMap (fun key => x.keyTrace (handOver done a who key) key)
      = done.flatMap (x.keyTrace a) ++ later.flatMap (fun key => x.keyTrace (who key) key) := by
  rw [List.flatMap_append]
  congr 1
  · refine List.flatMap_congr (fun key hkey => ?_)
    rw [handOver, if_pos hkey]
  · refine List.flatMap_congr (fun key hkey => ?_)
    have hnot : key ∉ done := fun h => (List.nodup_append'.mp hnodup).2.2 h hkey
    rw [handOver, if_neg hnot]

/-- **A replay.** Its spawns get through with a first part of what is ahead,
each key with one of them, and with all of it once one is exhausted. `who`
names, for a key, the spawn that got through with it; `calm` stands for the
keys none of them did. -/
theorem respawn_spec (hcoin : x.window.coins = [coin]) (hcursor : x.cursor = true)
    (calm : Attempt) (attempts : List Attempt) (ha : ∀ a ∈ attempts, a.Undisturbed)
    {past ahead : List String} (hplan : x.plannedKeys = past ++ ahead) :
    ∃ (done rest : List String) (who : String → Attempt), ahead = done ++ rest
      ∧ (∀ key, who key = calm ∨ who key ∈ attempts ∧ x.Answers (who key) key)
      ∧ (traceOf (x.respawn past.getLast? attempts)).map ReplayEffect.sansSeq
        = done.flatMap (fun key => x.keyTrace (who key) key)
      ∧ ((∃ run ∈ x.respawn past.getLast? attempts, run.2 = .exhausted) → rest = []) := by
  induction attempts generalizing past ahead with
  | nil => exact ⟨[], ahead, fun _ => calm, rfl, fun _ => Or.inl rfl, rfl, by simp [respawn]⟩
  | cons a attempts ih =>
    obtain ⟨done₁, rest₁, rfl, hanswers, htrace₁, hend₁, hcursor₁⟩ :=
      spawn_spec hcoin hcursor (ha a List.mem_cons_self) hplan
    obtain ⟨done₂, rest₂, who, rfl, hwho, htrace₂, hend₂⟩ :=
      ih (fun b hb => ha b (List.mem_cons_of_mem a hb))
        (show x.plannedKeys = (past ++ done₁) ++ rest₁ by rw [hplan, List.append_assoc])
    -- the spawns that follow start from the file this one leaves
    rw [← hcursor₁] at htrace₂ hend₂
    have hnodup : (done₁ ++ done₂).Nodup := by
      have h : (past ++ (done₁ ++ (done₂ ++ rest₂))).Nodup := hplan ▸ nodup_plannedKeys hcoin
      refine h.sublist ((List.Sublist.append_left ?_ done₁).trans (List.sublist_append_right _ _))
      exact List.sublist_append_left _ _
    refine ⟨done₁ ++ done₂, rest₂, handOver done₁ a who, (List.append_assoc _ _ _).symm,
      fun key => ?_, ?_, ?_⟩
    · unfold handOver
      split
      · next hkey => exact Or.inr ⟨List.mem_cons_self, hanswers key hkey⟩
      · exact (hwho key).imp_right (And.imp_left (List.mem_cons_of_mem a))
    · rw [flatMap_handOver hnodup, ← htrace₁, ← htrace₂, ← List.map_append]
      rfl
    · rintro ⟨run, hrun, hexit⟩
      rcases List.mem_cons.mp hrun with rfl | hlater
      · exact (List.append_eq_nil_iff.mp (hend₁ hexit)).2
      · exact hend₂ ⟨run, hlater, hexit⟩

/-! ## An uninterrupted spawn -/

/-- **Nothing cuts the spawn**: no fetch fails, nothing stops it and nothing
disturbs it. -/
def Uninterrupted (x : EntrepotAdapter) (a : Attempt) : Prop :=
  a.Undisturbed ∧ ∀ key ∈ x.plannedKeys, a.stopped key = false ∧ x.Answers a key

theorem replay_of_answers (hcursor : x.cursor = true) (hwrites : ∀ key, a.writes key = true)
    (recvSeq : ℕ) (ahead : List String)
    (hkeys : ∀ key ∈ ahead, a.stopped key = false ∧ x.Answers a key) :
    (x.replay a recvSeq none ahead).1.map ReplayEffect.sansSeq = ahead.flatMap (x.keyTrace a) := by
  induction ahead generalizing recvSeq with
  | nil => rfl
  | cons key ahead ih =>
    obtain ⟨⟨hstopped, found, hfound⟩, hlater⟩ := List.forall_mem_cons.mp hkeys
    rw [List.flatMap_cons, ← map_sansSeq_events_writeCursor hcursor (hwrites key) hfound recvSeq,
      ← ih _ hlater, ← List.map_append, replay, hstopped, hfound]
    rfl

/-- A loop that nothing cuts ends exhausted. -/
theorem exhausted_of_answers (hroom : a.room = none) (recvSeq : ℕ) (ahead : List String)
    (hkeys : ∀ key ∈ ahead, a.stopped key = false ∧ x.Answers a key) :
    (x.replay a recvSeq a.room ahead).2 = .exhausted := by
  rw [hroom]
  induction ahead generalizing recvSeq with
  | nil => rfl
  | cons key ahead ih =>
    obtain ⟨⟨hstopped, found, hfound⟩, hlater⟩ := List.forall_mem_cons.mp hkeys
    rw [replay, hstopped, hfound]
    exact ih _ hlater

/-- Whatever the cursor file holds, a replay is over once nothing cuts a
spawn. -/
theorem exists_exhausted (hcoin : x.window.coins = [coin]) (hcursor : x.cursor = true)
    (ha : x.Uninterrupted a) {attempts : List Attempt} (hmem : a ∈ attempts)
    (cursor : Option String) : ∃ run ∈ x.respawn cursor attempts, run.2 = .exhausted := by
  induction attempts generalizing cursor with
  | nil => cases hmem
  | cons b attempts ih =>
    rcases List.mem_cons.mp hmem with rfl | hlater
    · refine ⟨_, List.mem_cons_self, ?_⟩
      rw [spawn_eq hcoin hcursor]
      exact exhausted_of_answers ha.1.1 0 _ (fun key hkey => ha.2 key (List.mem_of_mem_drop hkey))
    · obtain ⟨run, hrun, hexit⟩ := ih hlater _
      exact ⟨run, List.mem_cons_of_mem _ hrun, hexit⟩

theorem filterMap_event?_keyTrace (key : String) :
    (x.keyTrace a key).filterMap ReplayEffect.event? = x.keyEvents a key := by
  rw [keyTrace, List.filterMap_append, ReplayEffect.filterMap_event?_sent]
  exact List.append_nil _

/-- A cursor write sends nothing. -/
theorem filterMap_event?_writeCursor (x : EntrepotAdapter) (a : Attempt) (key : String) :
    (x.writeCursor a key).filterMap ReplayEffect.event? = [] := by
  unfold writeCursor
  split <;> rfl

/-- The events of the traces of some keys are the events of these keys. -/
theorem filterMap_event?_flatMap (who : String → Attempt) (done : List String) :
    (done.flatMap (fun key => x.keyTrace (who key) key)).filterMap ReplayEffect.event?
      = done.flatMap (fun key => x.keyEvents (who key) key) := by
  rw [List.filterMap_flatMap]
  exact List.flatMap_congr (fun key _ => filterMap_event?_keyTrace key)

/-- The events of an uninterrupted spawn are those of all the keys. -/
theorem emitted_spawn (hcoin : x.window.coins = [coin]) (hcursor : x.cursor = true)
    (ha : x.Uninterrupted a) :
    emitted (x.spawn a none).1 = x.plannedKeys.flatMap (x.keyEvents a) := by
  have hspawn : x.spawn a none = x.replay a 0 none x.plannedKeys := by
    rw [spawn_eq hcoin hcursor, ha.1.1]
    rfl
  rw [emitted, hspawn, replay_of_answers hcursor ha.1.2 0 _ ha.2]
  exact filterMap_event?_flatMap (fun _ => a) _

/-- A cursor stands behind the events sent before it. -/
theorem exists_of_sent_append {evs : List DomainEvent} {rest pre post : List ReplayEffect}
    {key : String} (h : evs.map ReplayEffect.sent ++ rest = pre ++ .cursor key :: post) :
    ∃ mid, pre = evs.map ReplayEffect.sent ++ mid ∧ rest = mid ++ .cursor key :: post := by
  induction evs generalizing pre with
  | nil => exact ⟨pre, rfl, h⟩
  | cons ev evs ih =>
    cases pre with
    | nil => cases h
    | cons effect pre =>
      obtain ⟨hev, htail⟩ := List.cons.inj h
      obtain ⟨mid, rfl, hrest⟩ := ih htail
      exact ⟨mid, by rw [← hev]; rfl, hrest⟩

/-- **Behind every cursor.** Where the traces of some keys write the cursor,
all the events of its key, and of those before it, have been sent. -/
theorem sent_of_cursor {who : String → Attempt} {done : List String} {pre post : List ReplayEffect}
    {key : String}
    (h : done.flatMap (fun k => x.keyTrace (who k) k) = pre ++ .cursor key :: post) :
    ∃ before after, done = before ++ key :: after ∧ pre.filterMap ReplayEffect.event?
      = (before ++ [key]).flatMap (fun k => x.keyEvents (who k) k) := by
  induction done generalizing pre with
  | nil => exact absurd h (by simp)
  | cons k done ih =>
    rw [List.flatMap_cons, keyTrace, List.append_assoc] at h
    obtain ⟨mid, rfl, hmid⟩ := exists_of_sent_append h
    have hevents : ((x.keyEvents (who k) k).map ReplayEffect.sent).filterMap ReplayEffect.event?
        = x.keyEvents (who k) k := by
      rw [List.filterMap_map]
      exact List.filterMap_some
    rw [List.filterMap_append, hevents]
    cases mid with
    | nil =>
      -- the cursor is that of `k`
      obtain ⟨hk, -⟩ := List.cons.inj hmid
      obtain rfl := ReplayEffect.cursor.inj hk
      exact ⟨[], done, rfl, by simp⟩
    | cons effect mid =>
      obtain ⟨rfl, htail⟩ := List.cons.inj hmid
      obtain ⟨before, after, rfl, hpre⟩ := ih htail
      refine ⟨k :: before, after, rfl, ?_⟩
      rw [List.cons_append, List.flatMap_cons, ← hpre]
      rfl

/-! ## Exactly once -/

/-- The spawn that meets at each key what the spawn named for it met. -/
def blend (calm : Attempt) (who : String → Attempt) : Attempt :=
  { calm with fetch := fun key => (who key).fetch key, now := fun key => (who key).now key }

theorem objectEvents_blend (calm : Attempt) (who : String → Attempt) (key : String) :
    x.objectEvents (blend calm who) key = x.objectEvents (who key) key := rfl

/-- Two spawns meet the same at a key: the answer of the fetch and the
clock. -/
def SameAt (a b : Attempt) (key : String) : Prop :=
  a.fetch key = b.fetch key ∧ a.now key = b.now key

/-- A spawn finds in every object what `calm` does, unless its fetch
fails. -/
def Serves (x : EntrepotAdapter) (calm a : Attempt) : Prop :=
  ∀ key ∈ x.plannedKeys, x.Answers a key → x.objectEvents a key = x.objectEvents calm key

/-- **Resumable replay is exactly-once.** For one coin and a cursor, let any
spawns follow one another, each from the cursor file the one before it left,
with any answers of their fetches, failures among them. What they emit
together is, up to the receive counter, a first part of what one
uninterrupted spawn emits, and all of it once one of them is exhausted, as one
that nothing cuts is; that spawn meets at every key what one of the spawns met
there, or else what `calm`, any uninterrupted one, meets, and it emits what
`calm` does where all find the same in the archive. Whenever the cursor is
written, all the events of its key and of those before it have been
emitted. -/
theorem replay_exactly_once (hcoin : x.window.coins = [coin]) (hcursor : x.cursor = true)
    (calm : Attempt) (hcalm : x.Uninterrupted calm) (attempts : List Attempt)
    (ha : ∀ a ∈ attempts, a.Undisturbed) :
    ∃ whole, x.Uninterrupted whole
      ∧ (∀ key, ∃ a ∈ calm :: attempts, SameAt whole a key)
      ∧ ((∀ a ∈ attempts, x.Serves calm a) →
          emitted (x.spawn whole none).1 = emitted (x.spawn calm none).1)
      ∧ emitted (traceOf (x.respawn none attempts)) <+: emitted (x.spawn whole none).1
      ∧ ((∃ run ∈ x.respawn none attempts, run.2 = .exhausted) →
          emitted (traceOf (x.respawn none attempts)) = emitted (x.spawn whole none).1)
      ∧ ((∃ a ∈ attempts, x.Uninterrupted a) →
          ∃ run ∈ x.respawn none attempts, run.2 = .exhausted)
      ∧ ∀ pre key post, traceOf (x.respawn none attempts) = pre ++ .cursor key :: post →
          ∃ before after, x.plannedKeys = before ++ key :: after
            ∧ emitted pre = (before ++ [key]).flatMap (x.keyEvents whole) := by
  obtain ⟨done, rest, who, hplan, hwho, htrace, hend⟩ :=
    respawn_spec hcoin hcursor calm attempts ha (show x.plannedKeys = [] ++ x.plannedKeys from rfl)
  have hwhole : x.Uninterrupted (blend calm who) := by
    refine ⟨hcalm.1, fun key hkey => ⟨(hcalm.2 key hkey).1, ?_⟩⟩
    rcases hwho key with h | ⟨-, h⟩
    · exact h ▸ (hcalm.2 key hkey).2
    · exact h
  have hemitted : emitted (traceOf (x.respawn none attempts))
      = done.flatMap (x.keyEvents (blend calm who)) := by
    rw [emitted]
    exact (congrArg _ htrace).trans (filterMap_event?_flatMap who done)
  refine ⟨blend calm who, hwhole, fun key => ?_, fun hserves => ?_, ?_, fun hexit => ?_,
    fun ⟨a, hmem, hun⟩ => exists_exhausted hcoin hcursor hun hmem none, ?_⟩
  · rcases hwho key with h | ⟨h, -⟩
    · exact ⟨who key, h ▸ List.mem_cons_self, rfl, rfl⟩
    · exact ⟨who key, List.mem_cons_of_mem _ h, rfl, rfl⟩
  · rw [emitted_spawn hcoin hcursor hwhole, emitted_spawn hcoin hcursor hcalm]
    refine List.flatMap_congr (fun key hkey => ?_)
    rw [keyEvents, objectEvents_blend, keyEvents]
    rcases hwho key with h | ⟨hmem, hans⟩
    · rw [h]
    · rw [hserves (who key) hmem key hkey hans]
  · rw [hemitted, emitted_spawn hcoin hcursor hwhole, hplan, List.flatMap_append]
    exact List.prefix_append _ _
  · rw [hemitted, emitted_spawn hcoin hcursor hwhole, hplan, hend hexit, List.append_nil]
  · intro pre key post hpre
    have hmap := congrArg (List.map ReplayEffect.sansSeq) hpre
    rw [List.map_append, List.map_cons] at hmap
    obtain ⟨before, after, hdone, hsent⟩ := sent_of_cursor (htrace.symm.trans hmap)
    refine ⟨before, after ++ rest, ?_, hsent⟩
    rw [hplan, hdone, List.append_assoc, List.cons_append]

/-! A window of one day with one object, a frame that holds one line. The
first spawn loses its connection there. -/

/-- A calendar whose first day is 16 September 2023; the days after it are
written with a mark each. -/
def september : Calendar where
  format date := "20230916" ++ String.ofList (List.replicate date '+')
  format_injective := by
    intro date date' h
    have hlen := congrArg (fun s => s.toList.length) h
    simpa using hlen
  slash_notMem_format := by
    intro date
    rw [String.toList_append, List.mem_append]
    rintro (h | h)
    · exact absurd h (by decide)
    · rw [String.toList_ofList] at h
      exact absurd (List.eq_of_mem_replicate h) (by decide)

/-- The LZ4 frame of the text `x`, stored in one block. -/
def storedFrame : ByteArray :=
  ⟨#[0x04, 0x22, 0x4D, 0x18, 0x60, 0x40, 0x82, 1, 0, 0, 0x80, 0x78, 0, 0, 0, 0]⟩

/-- A print of SOL. -/
def solPrint : Trade where
  sourceTradeTsUs := 7
  pair := ⟨"SOL", "USDC"⟩
  side := .buy
  amount := ⟨1, 0⟩
  price := ⟨100, 0⟩
  exchange := "hyperliquid"
  id := "1"

/-- The adapter for that day, with a decoder that reads a print off the line
`x`. -/
def solAdapter : EntrepotAdapter where
  calendar := september
  crates := Crates.plain
  unicode := ⟨id, id⟩
  readFrame _ bytes := if bytes.data.toList = storedFrame.data.toList then some ⟨#[0x78]⟩ else none
  parseFromRfc3339 _ := none
  decodeLine line := if line = "x" then .ok ⟨[.trade solPrint none], some 5⟩
    else .error (.undecodable "expected value at line 1 column 1")
  window := ⟨0, 0, ["SOL"]⟩
  cursor := true
  declared := [.orderbook]

/-- The key of the object. -/
def solKey : String := l2bookKey "20230916" 9 "SOL"

/-- A spawn that nothing cuts. -/
def through : Attempt where
  list _ := .ok []
  fetch key := if key = solKey then .ok storedFrame
    else .error (.status 404 key "NoSuchKey")
  stopped _ := false
  now _ _ := 0
  room := none
  writes _ := true

/-- A spawn that loses its connection at the object. -/
def cutAtObject : Attempt :=
  { through with fetch := fun key => if key = solKey then .error (.transport "connection reset")
      else through.fetch key }

theorem answers_through (key : String) : solAdapter.Answers through key := by
  unfold Answers objectEvents through
  by_cases hkey : key = solKey
  · simp only [if_pos hkey]
    split
    · exact ⟨_, rfl⟩
    · exact ⟨_, rfl⟩
  · simp only [if_neg hkey]
    exact ⟨_, rfl⟩

theorem serves_cutAtObject : solAdapter.Serves through cutAtObject := by
  rintro key - ⟨found, hfound⟩
  by_cases hkey : key = solKey
  · simp [objectEvents, cutAtObject, hkey, EntrepotError.objectAbsent,
      EntrepotError.isIntegrity] at hfound
  · simp only [objectEvents, cutAtObject, if_neg hkey]

/-- The replay of the two spawns: the object is emitted, and once. -/
theorem replay_after_cut :
    emitted (traceOf (solAdapter.respawn none [cutAtObject, through]))
        = emitted (solAdapter.spawn through none).1
      ∧ (emitted (solAdapter.spawn through none).1).length = 1 := by
  have hun : solAdapter.Uninterrupted through :=
    ⟨⟨rfl, fun _ => rfl⟩, fun key _ => ⟨rfl, answers_through key⟩⟩
  have hserves : ∀ a ∈ [cutAtObject, through], solAdapter.Serves through a := by
    intro a ha
    rcases List.mem_cons.mp ha with rfl | ha
    · exact serves_cutAtObject
    · rw [List.mem_singleton.mp ha]
      exact fun key _ _ => rfl
  refine ⟨?_, by decide⟩
  obtain ⟨whole, -, -, hsame, -, hall, hover, -⟩ :=
    replay_exactly_once (x := solAdapter) rfl rfl through hun
      [cutAtObject, through] (by simp [Attempt.Undisturbed, cutAtObject, through])
  exact (hall (hover ⟨through, by simp, hun⟩)).trans (hsame hserves)

end EntrepotAdapter
