import Aetelier.EntrepotReplay

/-!
# Archive workers of one manifest

A manifest gives its workers a symbol each and everything else in common, the
`[collect.entrepot]` section among it – with the path of the cursor file. Each
worker replays the plan of its own coin: day by day a key of asset contexts,
which all plans share, and the hours of the coin, which are its own. After
every object it writes its key to the cursor file, and when it is started it
goes on behind the key it finds there.

The workers are a machine: a worker is started, makes a turn of its loop, or is
stopped, in any order. A worker that is left alone makes, turn by turn, what
its spawn does (`EntrepotFleet.run_start_turns`). What a worker completed is
kept beside it, over all its starts. A worker goes on right behind the key it
completed last exactly if the key in the file, as far as it is one of its plan,
is that key (`EntrepotFleet.independent_iff`); the file may hold a key of
another worker instead.
-/

/-- The `[collect.entrepot]` section. -/
structure EntrepotSection where
  /-- The first day. -/
  start : ℕ
  /-- The last day. -/
  endDay : ℕ
  /-- The path of the cursor file. -/
  cursor : Option String

/-- What the workers of a manifest share. -/
structure MarketWorkerCollect where
  /-- The data types declared. -/
  datatypes : List DeclaredDatatype
  /-- The archive to replay. -/
  entrepot : Option EntrepotSection

/-- A worker of a manifest. -/
structure MarketWorkerEntry where
  /-- The symbol. -/
  symbol : String
  /-- Its own data types, if it has some. -/
  datatypes : Option (List DeclaredDatatype)

/-- **A manifest.** -/
structure MarketWorkerManifest where
  /-- What the workers share. -/
  collect : MarketWorkerCollect
  /-- The workers. -/
  workers : List MarketWorkerEntry

/-- A worker, with everything filled in. -/
structure MarketWorkerConfig where
  /-- The symbol. -/
  symbol : String
  /-- The data types declared. -/
  datatypes : List DeclaredDatatype
  /-- The archive to replay. -/
  entrepot : Option EntrepotSection

/-- `resolve_entry`. -/
def MarketWorkerManifest.resolveEntry (m : MarketWorkerManifest) (entry : MarketWorkerEntry) :
    MarketWorkerConfig where
  symbol := entry.symbol
  datatypes := entry.datatypes.getD m.collect.datatypes
  entrepot := m.collect.entrepot

namespace MarketWorkerConfig

variable (x : EntrepotAdapter) (cfg : MarketWorkerConfig)

/-- The adapter a worker builds, with the crates of `x`: its window has the
worker's symbol as its one coin. -/
def adapter (sec : EntrepotSection) : EntrepotAdapter :=
  { x with
    window := ⟨sec.start, sec.endDay, [cfg.symbol]⟩
    cursor := sec.cursor.isSome
    declared := cfg.datatypes }

end MarketWorkerConfig

/-- A spawn of a worker. -/
structure ReplayTask where
  /-- What it meets. -/
  attempt : Attempt
  /-- The receive counter. -/
  recvSeq : ℕ
  /-- How many events its consumer still takes, if it hangs up. -/
  room : Option ℕ
  /-- The part of the plan ahead of it. -/
  ahead : List String

/-- **A worker**: its spawn, and the keys it completed over all its spawns. -/
structure ReplayWorker where
  /-- The spawn. -/
  task : Option ReplayTask
  /-- The keys completed, oldest first. -/
  completed : List String

/-- **The workers and the files.** -/
structure EntrepotFleet (n : ℕ) where
  /-- The cursor files, by path. -/
  files : String → Option String
  /-- The workers. -/
  workers : Fin n → ReplayWorker

/-- What happens to a worker. -/
inductive FleetStep (n : ℕ) where
  /-- It is started. -/
  | start (k : Fin n) (a : Attempt)
  /-- Its loop makes a turn. -/
  | turn (k : Fin n)
  /-- It is stopped. -/
  | stop (k : Fin n)

namespace EntrepotFleet

variable (x : EntrepotAdapter) (m : MarketWorkerManifest)

/-- The workers of a manifest. -/
abbrev Of (m : MarketWorkerManifest) := EntrepotFleet m.workers.length

/-- The configuration of a worker. -/
def config (k : Fin m.workers.length) : MarketWorkerConfig := m.resolveEntry (m.workers.get k)

/-- What the cursor file of a section holds. -/
def held (s : Of m) (sec : EntrepotSection) : Option String := sec.cursor.bind s.files

/-- The cursor file of a section after some effects. -/
def write (s : Of m) (sec : EntrepotSection) (effects : List ReplayEffect) :
    String → Option String :=
  match sec.cursor with
  | none => s.files
  | some path =>
    Function.update s.files path (EntrepotAdapter.cursorAfter (s.files path) effects)

/-- A worker that nothing was started of. -/
def idle : ReplayWorker := ⟨none, []⟩

/-- The workers before they are started, over some files. -/
def fresh (files : String → Option String) : Of m := ⟨files, fun _ => idle⟩

/-- `spawn`, up to its loop. -/
def start (s : Of m) (k : Fin m.workers.length) (sec : EntrepotSection) (a : Attempt) : Of m :=
  match ((config m k).adapter x sec).enumerateWindow a.list with
  | .error _ => s
  | .ok keys =>
    let skipped :=
      if ((config m k).adapter x sec).cursor then EntrepotAdapter.resumeIndex (held m s sec) keys
      else 0
    { s with
      workers := Function.update s.workers k
        { s.workers k with task := some ⟨a, 0, a.room, keys.drop skipped⟩ } }

/-- How many events some effects send. -/
def sentCount (effects : List ReplayEffect) : ℕ :=
  (effects.filterMap ReplayEffect.event?).length

/-- A turn of the loop, at a key: what the loop does with that key alone. The
key is completed if the loop would go on. -/
def turn (s : Of m) (k : Fin m.workers.length) (sec : EntrepotSection) (t : ReplayTask)
    (key : String) (rest : List String) : Of m × List ReplayEffect :=
  let r := ((config m k).adapter x sec).replay t.attempt t.recvSeq t.room [key]
  let sent := sentCount r.1
  let w : ReplayWorker :=
    if r.2 = .exhausted then
      ⟨some ⟨t.attempt, t.recvSeq + sent, t.room.map (· - sent), rest⟩,
        (s.workers k).completed ++ [key]⟩
    else { s.workers k with task := none }
  (⟨write m s sec r.1, Function.update s.workers k w⟩, r.1)

/-- The task of a worker is gone. -/
def drop (s : Of m) (k : Fin m.workers.length) : Of m :=
  { s with workers := Function.update s.workers k { s.workers k with task := none } }

/-- **One step.** A step that is not possible does nothing. -/
def step (s : Of m) (i : FleetStep m.workers.length) : Of m × List ReplayEffect :=
  match i with
  | .start k a =>
    match (config m k).entrepot, (s.workers k).task with
    | some sec, none => (start x m s k sec a, [])
    | _, _ => (s, [])
  | .turn k =>
    match (config m k).entrepot, (s.workers k).task with
    | some sec, some t =>
      match t.ahead with
      | [] => (drop m s k, [])
      | key :: rest => turn x m s k sec t key rest
    | _, _ => (s, [])
  | .stop k => (drop m s k, [])

/-- The workers as a machine. -/
def machine : Machine (Of m) (FleetStep m.workers.length) ReplayEffect := ⟨step x m⟩

/-- The plan of a worker. -/
def plan (sec : EntrepotSection) (k : Fin m.workers.length) : List String :=
  ((config m k).adapter x sec).plannedKeys

/-- **The keys right behind a key**, or all of them. -/
def RightAfter (keys : List String) (last : Option String) (ahead : List String) : Prop :=
  ∃ past, keys = past ++ ahead ∧ past.getLast? = last

/-- **A start is the worker's own**: it goes on right behind the key it
completed last. -/
def ResumesOwn (sec : EntrepotSection) (s : Of m) : FleetStep m.workers.length → Prop
  | .start k a => (s.workers k).task = none →
      ∀ t, ((step x m s (.start k a)).1.workers k).task = some t →
        RightAfter (plan x m sec k) (s.workers k).completed.getLast? t.ahead
  | _ => True

/-- **The workers do not disturb one another**: every start of a run is the
worker's own, and no worker skips a key or completes one twice. -/
structure Independent (sec : EntrepotSection) (s : Of m)
    (steps : List (FleetStep m.workers.length)) : Prop where
  resumes : (machine x m).Meets (ResumesOwn x m sec) s steps
  completed : ∀ k, (((machine x m).run s steps).1.workers k).completed <+: plan x m sec k

/-- **The cursor file is the worker's own** when it is started: the key it
holds, if it is one of the worker's plan, is the one the worker completed
last. -/
def OwnCursor (sec : EntrepotSection) (s : Of m) : FleetStep m.workers.length → Prop
  | .start k _ => (s.workers k).task = none →
      ((held m s sec).map Str.trim).filter (fun key => key ∈ plan x m sec k)
        = (s.workers k).completed.getLast?
  | _ => True

/-! ## A worker by itself -/

/-- **The loop, turn by turn**: a turn that does not get through with its key is
the last, one that does hands on the counter and the room. -/
theorem replay_cons (x : EntrepotAdapter) (a : Attempt) (recvSeq : ℕ) (room : Option ℕ)
    (key : String) (rest : List String) :
    ((x.replay a recvSeq room [key]).2 ≠ .exhausted ∧
      x.replay a recvSeq room (key :: rest) = x.replay a recvSeq room [key]) ∨
    ((x.replay a recvSeq room [key]).2 = .exhausted ∧
      (x.replay a recvSeq room (key :: rest)).1 = (x.replay a recvSeq room [key]).1
        ++ (x.replay a (recvSeq + sentCount (x.replay a recvSeq room [key]).1)
          (room.map (· - sentCount (x.replay a recvSeq room [key]).1)) rest).1) := by
  by_cases hstopped : a.stopped key = true
  · have hend : ∀ later, x.replay a recvSeq room (key :: later) = ([], .completed) := by
      intro later
      rw [EntrepotAdapter.replay, if_pos hstopped]
    rw [hend, hend]
    exact Or.inl ⟨fun h => (by cases h), rfl⟩
  · cases hfound : x.objectEvents a key with
    | error e =>
      have hend : ∀ later, x.replay a recvSeq room (key :: later) = ([], .failed e.display) := by
        intro later
        rw [EntrepotAdapter.replay, if_neg hstopped, hfound]
      rw [hend, hend]
      exact Or.inl ⟨fun h => (by cases h), rfl⟩
    | ok found =>
      by_cases hroom :
          EntrepotAdapter.hangsUp room (EntrepotAdapter.stampAll recvSeq found).length = true
      · have hend : ∀ later, x.replay a recvSeq room (key :: later)
            = (((EntrepotAdapter.stampAll recvSeq found).take (room.getD 0)).map .sent,
              .completed) := by
          intro later
          rw [EntrepotAdapter.replay, if_neg hstopped, hfound]
          exact if_pos hroom
        rw [hend, hend]
        exact Or.inl ⟨fun h => (by cases h), rfl⟩
      · have hthrough : ∀ later, x.replay a recvSeq room (key :: later)
            = ((EntrepotAdapter.stampAll recvSeq found).map .sent ++ x.writeCursor a key
                ++ (x.replay a (recvSeq + (EntrepotAdapter.stampAll recvSeq found).length)
                  (room.map (· - (EntrepotAdapter.stampAll recvSeq found).length)) later).1,
              (x.replay a (recvSeq + (EntrepotAdapter.stampAll recvSeq found).length)
                (room.map (· - (EntrepotAdapter.stampAll recvSeq found).length)) later).2) := by
          intro later
          rw [EntrepotAdapter.replay, if_neg hstopped, hfound]
          exact if_neg hroom
        have hone : x.replay a recvSeq room [key]
            = ((EntrepotAdapter.stampAll recvSeq found).map .sent ++ x.writeCursor a key,
              .exhausted) := by
          rw [hthrough, EntrepotAdapter.replay, List.append_nil]
        have hsent : sentCount ((EntrepotAdapter.stampAll recvSeq found).map .sent
            ++ x.writeCursor a key) = (EntrepotAdapter.stampAll recvSeq found).length := by
          unfold sentCount
          rw [List.filterMap_append, ReplayEffect.filterMap_event?_sent,
            EntrepotAdapter.filterMap_event?_writeCursor, List.append_nil]
        rw [hone, hthrough, hsent]
        exact Or.inr ⟨rfl, rfl⟩

/-! ## Where a start goes on -/

theorem rightAfter_drop_iff (keys : List String) (last : Option String) (i : ℕ) :
    RightAfter keys last (keys.drop i) ↔ (keys.take i).getLast? = last := by
  constructor
  · rintro ⟨past, hkeys, hlast⟩
    have hpast : keys.take i = past :=
      List.append_cancel_right ((List.take_append_drop i keys).trans hkeys)
    rw [hpast]
    exact hlast
  · intro h
    exact ⟨keys.take i, (List.take_append_drop i keys).symm, h⟩

/-- **What a start goes on behind**: the key in the cursor file, if it is one of
the plan. -/
theorem getLast?_take_resumeIndex {keys : List String} (hkeys : "" ∉ keys)
    (cursor : Option String) :
    (keys.take (EntrepotAdapter.resumeIndex cursor keys)).getLast?
      = (cursor.map Str.trim).filter (fun key => key ∈ keys) := by
  cases cursor with
  | none => rfl
  | some raw =>
    show (keys.take (if Str.trim raw = "" then 0 else _)).getLast? = Option.filter _ (some _)
    by_cases hempty : Str.trim raw = ""
    · rw [if_pos hempty, Option.filter_some, hempty, if_neg (by simpa using hkeys)]
      rfl
    · rw [if_neg hempty, Option.filter_some]
      cases hidx : keys.findIdx? (fun key => key == Str.trim raw) with
      | none =>
        have hnot : Str.trim raw ∉ keys := fun hmem =>
          absurd (List.findIdx?_eq_none_iff.mp hidx _ hmem) (by simp)
        rw [if_neg (by simpa using hnot)]
        rfl
      | some pos =>
        obtain ⟨hpos, hkey, -⟩ := List.findIdx?_eq_some_iff_getElem.mp hidx
        have hget : keys[pos] = Str.trim raw := by simpa using hkey
        have hmem : Str.trim raw ∈ keys := hget ▸ List.getElem_mem hpos
        rw [if_pos (by simpa using hmem)]
        show (keys.take (pos + 1)).getLast? = _
        rw [List.take_add_one, List.getLast?_append, List.getElem?_eq_getElem hpos, hget]
        rfl

variable {x m} {sec : EntrepotSection}

theorem empty_notMem_plan (k : Fin m.workers.length) : "" ∉ plan x m sec k :=
  fun h => (EntrepotAdapter.plain_of_mem_plannedKeys h).2 rfl

/-- A worker that is started. -/
theorem task_start (hcursor : sec.cursor.isSome = true) (s : Of m) (k : Fin m.workers.length)
    (a : Attempt) :
    start x m s k sec a
      = { s with
          workers := Function.update s.workers k
            { s.workers k with
              task := some ⟨a, 0, a.room, (plan x m sec k).drop
                (EntrepotAdapter.resumeIndex (held m s sec) (plan x m sec k))⟩ } } := by
  have hwindow : ((config m k).adapter x sec).enumerateWindow a.list = .ok (plan x m sec k) := rfl
  have hconfigured : ((config m k).adapter x sec).cursor = true := hcursor
  unfold start
  rw [hwindow]
  dsimp only
  rw [hconfigured, if_pos rfl]

theorem step_start (hsec : m.collect.entrepot = some sec) {s : Of m} {k : Fin m.workers.length}
    (hidle : (s.workers k).task = none) (a : Attempt) :
    step x m s (.start k a) = (start x m s k sec a, []) := by
  have hconfig : (config m k).entrepot = some sec := hsec
  unfold step
  dsimp only
  rw [hconfig, hidle]

/-- **A start is the worker's own exactly if the cursor file is.** -/
theorem resumesOwn_iff (hsec : m.collect.entrepot = some sec) (hcursor : sec.cursor.isSome = true)
    (s : Of m) (i : FleetStep m.workers.length) :
    ResumesOwn x m sec s i ↔ OwnCursor x m sec s i := by
  cases i with
  | start k a =>
    refine imp_congr_right (fun hidle => ?_)
    rw [step_start hsec hidle, task_start hcursor]
    show (∀ t, (Function.update s.workers k _ k).task = some t → _) ↔ _
    rw [Function.update_self]
    rw [← getLast?_take_resumeIndex (empty_notMem_plan k), ← rightAfter_drop_iff]
    constructor
    · intro h
      exact h _ rfl
    · rintro h t ht
      obtain rfl := Option.some.inj ht
      exact h
  | turn k => exact Iff.rfl
  | stop k => exact Iff.rfl

/-- A worker that is not running writes nothing. -/
theorem run_turns_of_idle {s : Of m} {k : Fin m.workers.length}
    (hidle : (s.workers k).task = none) (n : ℕ) :
    ((machine x m).run s (List.replicate n (.turn k))).2 = [] := by
  induction n with
  | zero => rfl
  | succ n ih =>
    have hstep : (machine x m).step s (.turn k) = (s, []) := by
      show step x m s (.turn k) = _
      unfold step
      dsimp only
      rw [hidle]
      cases (config m k).entrepot <;> rfl
    rw [List.replicate_succ]
    show ((machine x m).step s (.turn k)).2 ++ ((machine x m).run _ _).2 = []
    rw [hstep]
    exact ih

/-- **A worker by itself makes, turn by turn, what its spawn does.** -/
theorem run_turns (hsec : m.collect.entrepot = some sec) {s : Of m} {k : Fin m.workers.length}
    {t : ReplayTask} (htask : (s.workers k).task = some t) :
    ((machine x m).run s (List.replicate t.ahead.length (.turn k))).2
      = (((config m k).adapter x sec).replay t.attempt t.recvSeq t.room t.ahead).1 := by
  obtain ⟨a, recvSeq, room, ahead⟩ := t
  dsimp only
  induction ahead generalizing s recvSeq room with
  | nil => rfl
  | cons key rest ih =>
    have hconfig : (config m k).entrepot = some sec := hsec
    have hstep : (machine x m).step s (.turn k)
        = turn x m s k sec ⟨a, recvSeq, room, key :: rest⟩ key rest := by
      show step x m s (.turn k) = _
      unfold step
      dsimp only
      rw [hconfig, htask]
    rw [List.length_cons, List.replicate_succ]
    show ((machine x m).step s (.turn k)).2 ++ ((machine x m).run _ _).2 = _
    rw [hstep]
    unfold turn
    dsimp only
    rcases replay_cons ((config m k).adapter x sec) a recvSeq room key rest with h | h
    · rw [h.2, if_neg h.1, run_turns_of_idle, List.append_nil]
      dsimp only
      rw [Function.update_self]
    · rw [h.2, if_pos h.1, ih]
      dsimp only
      rw [Function.update_self]

/-- The same from its start, over the cursor file it finds. -/
theorem run_start_turns (hsec : m.collect.entrepot = some sec)
    (hcursor : sec.cursor.isSome = true) {s : Of m} {k : Fin m.workers.length}
    (hidle : (s.workers k).task = none) (a : Attempt) {n : ℕ}
    (hn : n = ((plan x m sec k).drop
      (EntrepotAdapter.resumeIndex (held m s sec) (plan x m sec k))).length) :
    ((machine x m).run s (.start k a :: List.replicate n (.turn k))).2
      = (((config m k).adapter x sec).spawn a (held m s sec)).1 := by
  have htask : ((start x m s k sec a).workers k).task = some ⟨a, 0, a.room, (plan x m sec k).drop
      (EntrepotAdapter.resumeIndex (held m s sec) (plan x m sec k))⟩ := by
    rw [task_start hcursor]
    dsimp only
    rw [Function.update_self]
  show (step x m s (.start k a)).2 ++ ((machine x m).run (step x m s (.start k a)).1 _).2 = _
  rw [step_start hsec hidle, EntrepotAdapter.spawn_eq rfl hcursor, hn]
  exact run_turns hsec htask

/-! ## Runs -/

variable (x m sec) in
/-- **What a worker has completed and what is ahead of it are its plan.** -/
def OnPlan (s : Of m) : Prop :=
  ∀ k, (s.workers k).completed <+: plan x m sec k ∧
    ∀ t, (s.workers k).task = some t → plan x m sec k = (s.workers k).completed ++ t.ahead

/-- Two parts of a plan with the same last key are the same. -/
theorem eq_of_getLast? {keys past done ahead rest : List String} (hnodup : keys.Nodup)
    (hpast : keys = past ++ ahead) (hdone : keys = done ++ rest)
    (h : past.getLast? = done.getLast?) : past = done := by
  rcases List.eq_nil_or_concat done with rfl | ⟨done, key, rfl⟩
  · exact List.getLast?_eq_none_iff.mp h
  · rw [List.concat_eq_append, List.getLast?_concat] at h
    obtain ⟨past, rfl⟩ := List.getLast?_eq_some_iff.mp h
    rw [List.concat_eq_append, List.append_assoc] at hdone
    rw [List.append_assoc] at hpast
    rw [hpast] at hdone hnodup
    obtain ⟨-, htail, hdisjoint⟩ := List.nodup_append'.mp hnodup
    have hnotPast : key ∉ past := fun hmem => hdisjoint hmem List.mem_cons_self
    have hsame :=
      ((List.append_cons_inj_of_notMem hnotPast (List.nodup_cons.mp htail).1).mp hdone).1
    rw [List.concat_eq_append, hsame]

theorem nodup_plan (k : Fin m.workers.length) : (plan x m sec k).Nodup :=
  EntrepotAdapter.nodup_plannedKeys
    (show ((config m k).adapter x sec).window.coins = [(config m k).symbol] from rfl)

/-- The other workers are where they were. -/
theorem OnPlan.update {s : Of m} (h : OnPlan x m sec s) {k : Fin m.workers.length}
    {w : ReplayWorker} {files : String → Option String}
    (hcompleted : w.completed <+: plan x m sec k)
    (htask : ∀ t, w.task = some t → plan x m sec k = w.completed ++ t.ahead) :
    OnPlan x m sec ⟨files, Function.update s.workers k w⟩ := by
  intro j
  dsimp only
  by_cases hj : j = k
  · subst hj
    rw [Function.update_self]
    exact ⟨hcompleted, htask⟩
  · rw [Function.update_of_ne hj]
    exact h j

theorem OnPlan.drop {s : Of m} (h : OnPlan x m sec s) (k : Fin m.workers.length) :
    OnPlan x m sec (drop m s k) :=
  h.update (h k).1 (fun _ ht => nomatch ht)

/-- A turn completes the key at the head of what is ahead, or ends the task. -/
theorem OnPlan.turn {s : Of m} (h : OnPlan x m sec s) {k : Fin m.workers.length} {t : ReplayTask}
    {key : String} {rest : List String} (htask : (s.workers k).task = some t)
    (hahead : t.ahead = key :: rest) : OnPlan x m sec (turn x m s k sec t key rest).1 := by
  have hplan : plan x m sec k = (s.workers k).completed ++ [key] ++ rest := by
    rw [(h k).2 t htask, hahead, List.append_assoc]
    rfl
  unfold EntrepotFleet.turn
  dsimp only
  split
  · refine h.update (hplan ▸ List.prefix_append _ _) (fun t' ht' => ?_)
    obtain rfl := Option.some.inj ht'
    exact hplan
  · exact h.update (h k).1 (fun _ ht => nomatch ht)

/-- A start that is the worker's own goes on where the worker was. -/
theorem OnPlan.start {s : Of m} (h : OnPlan x m sec s) (hcursor : sec.cursor.isSome = true)
    {k : Fin m.workers.length} (a : Attempt)
    (hown : RightAfter (plan x m sec k) (s.workers k).completed.getLast? ((plan x m sec k).drop
      (EntrepotAdapter.resumeIndex (held m s sec) (plan x m sec k)))) :
    OnPlan x m sec (start x m s k sec a) := by
  obtain ⟨past, hpast, hlast⟩ := hown
  obtain ⟨rest, hdone⟩ := (h k).1
  rw [task_start hcursor]
  refine h.update (h k).1 (fun t ht => ?_)
  obtain rfl := Option.some.inj ht
  show _ = (s.workers k).completed ++ _
  rw [← eq_of_getLast? (nodup_plan k) hpast hdone.symm hlast]
  exact hpast

/-- **Steps whose starts are the workers' own keep every worker on its
plan.** -/
theorem OnPlan.step {s : Of m} (h : OnPlan x m sec s) (hsec : m.collect.entrepot = some sec)
    (hcursor : sec.cursor.isSome = true) {i : FleetStep m.workers.length}
    (hi : ResumesOwn x m sec s i) : OnPlan x m sec (step x m s i).1 := by
  have hconfig : ∀ k, (config m k).entrepot = some sec := fun _ => hsec
  cases i with
  | start k a =>
    cases htask : (s.workers k).task with
    | none =>
      have hown := hi htask
      rw [step_start hsec htask, task_start hcursor] at hown
      rw [step_start hsec htask]
      refine h.start hcursor a (hown ⟨a, 0, a.room, _⟩ ?_)
      dsimp only
      rw [Function.update_self]
    | some t =>
      unfold EntrepotFleet.step
      dsimp only
      rw [hconfig, htask]
      exact h
  | turn k =>
    unfold EntrepotFleet.step
    dsimp only
    rw [hconfig]
    cases htask : (s.workers k).task with
    | none => exact h
    | some t =>
      dsimp only
      cases hahead : t.ahead with
      | nil => exact h.drop k
      | cons key rest => exact h.turn htask hahead
  | stop k => exact h.drop k

theorem onPlan_fresh (files : String → Option String) : OnPlan x m sec (fresh m files) :=
  fun _ => ⟨List.nil_prefix, fun _ ht => nomatch ht⟩

/-- **The workers of a manifest resume independently exactly if every start
finds its own cursor**: over any files at first, in every order of starts,
turns and stops. -/
theorem independent_iff (x : EntrepotAdapter) (m : MarketWorkerManifest) {sec : EntrepotSection}
    {path : String} (hsec : m.collect.entrepot = some sec) (hcursor : sec.cursor = some path)
    (files : String → Option String) (steps : List (FleetStep m.workers.length)) :
    Independent x m sec (fresh m files) steps
      ↔ (machine x m).Meets (OwnCursor x m sec) (fresh m files) steps := by
  have hsome : sec.cursor.isSome = true := by rw [hcursor]; rfl
  have hiff := (machine x m).meets_congr (fun s i => resumesOwn_iff (x := x) hsec hsome s i)
    (fresh m files) steps
  constructor
  · intro h
    exact hiff.mp h.resumes
  · intro h
    have hresumes := hiff.mpr h
    refine ⟨hresumes, fun k => ?_⟩
    have hplan := (machine x m).forall_of_invariant (I := OnPlan x m sec) (Q := fun _ => True)
      (fun s i hs hi => ⟨hs.step hsec hsome hi, fun _ _ => trivial⟩) (onPlan_fresh files) hresumes
    exact (hplan.1 k).1

/-! ## Two coins -/

section Sample

open EntrepotAdapter (solAdapter storedFrame through)

/-- One day of two coins. -/
def oneDay : EntrepotSection := ⟨0, 0, some "backfill.cursor"⟩

/-- The manifest. -/
def twoCoins : MarketWorkerManifest where
  collect := ⟨[.orderbook], some oneDay⟩
  workers := [⟨"SOL", none⟩, ⟨"ETH", none⟩]

/-- The first worker. -/
def sol : Fin twoCoins.workers.length := ⟨0, by decide⟩

/-- The second. -/
def eth : Fin twoCoins.workers.length := ⟨1, by decide⟩

/-- An archive in which every object is there. -/
def served : Attempt := { through with fetch := fun _ => .ok storedFrame }

/-- Both workers complete their first hour; the first is stopped, started again
and makes a turn. -/
def restarted : List (FleetStep twoCoins.workers.length) :=
  [.start sol served, .start eth served, .turn sol, .turn eth, .stop sol, .start sol served,
    .turn sol]

/-- **The file holds the key of the other worker, and the first hour is replayed
again.** -/
theorem not_independent_restarted :
    ¬ Independent solAdapter twoCoins oneDay (fresh twoCoins (fun _ => none)) restarted := by
  intro h
  exact absurd (h.completed sol) (by decide)

/-- The worker is stopped and started while the other has not begun. -/
def alone : List (FleetStep twoCoins.workers.length) :=
  [.start sol served, .turn sol, .stop sol, .start sol served, .turn sol]

/-- It goes on with the second hour. -/
theorem independent_alone :
    Independent solAdapter twoCoins oneDay (fresh twoCoins (fun _ => none)) alone :=
  (independent_iff solAdapter twoCoins rfl rfl _ alone).mpr
    ⟨fun _ => by decide, trivial, trivial, fun _ => by decide, trivial, trivial⟩

end Sample

end EntrepotFleet
