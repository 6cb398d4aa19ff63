import Aetelier.IndexJson

/-!
# Appends that are cut

An append to the index is one write, and a crash may cut it after any number
of bytes. Nothing repairs the file afterwards: the next append goes on at the
end of what is there. So a torn line is by itself only for as long as it is
the last thing in the file. Whatever is appended behind it stands on the same
line, and a reader that takes the line for torn loses the entry of an append
that went through.

The reader does what the writer needs – the entries of the complete appends,
and one torn line for every append that left a part of its line – under
exactly three conditions: nothing is written behind a torn line, the part that
was written is not the whole text without its line feed (it would be read as
an entry), and it does not end inside a character (it would not be text).
-/

namespace LeafIndex

variable {c : EntryCodec}

/-- **An append that may be cut**: what reaches the file is added to it. The
file is created if there is none. -/
def cutAppend (c : EntryCodec) (index : Option (List UInt8)) (w : LineWrite IndexEntry) :
    Option (List UInt8) :=
  some (index.getD [] ++ w.left c)

/-- An append whose line is complete is `append_entry`. -/
theorem cutAppend_of_isComplete {w : LineWrite IndexEntry} (h : w.IsComplete c)
    (index : Option (List UInt8)) : cutAppend c index w = appendEntry c index w.record := by
  unfold cutAppend appendEntry
  rw [LineWrite.left_of_isComplete h]
  rfl

/-- The file holds what the appends left. -/
theorem getD_foldl_cutAppend (ws : List (LineWrite IndexEntry)) (index : Option (List UInt8)) :
    (ws.foldl (cutAppend c) index).getD [] = index.getD [] ++ LineLog.content c ws := by
  induction ws generalizing index with
  | nil => exact (List.append_nil _).symm
  | cons w ws ih =>
    rw [List.foldl_cons, ih]
    show (index.getD [] ++ w.left c) ++ _ = _
    rw [List.append_assoc]
    rfl

/-- A leaf without an index reads as one with an empty index. -/
theorem readIndex_eq (index : Option (List UInt8)) :
    readIndex c index = readLines c (LineLog.lines (index.getD [])) := by
  cases index <;> rfl

theorem readIndex_foldl_cutAppend (ws : List (LineWrite IndexEntry)) :
    readIndex c (ws.foldl (cutAppend c) none)
      = readLines c (LineLog.lines (LineLog.content c ws)) := by
  rw [readIndex_eq, getD_foldl_cutAppend]
  rfl

/-- **A torn line is last, partial and text**: nothing is written behind an
append that left a part of its line, the part is shorter than the text of the
entry, and it ends between two characters. -/
def TornLast (c : EntryCodec) (ws : List (LineWrite IndexEntry)) : Prop :=
  ∀ before w after, ws = before ++ w :: after → w.IsTorn c →
    (∀ v ∈ after, v.written = 0) ∧ w.written < (w.text c).length
      ∧ (Str.fromUtf8 (w.left c)).isSome

/-! ## Reading the file in parts -/

/-- **Complete lines are read off whatever follows them.** -/
theorem readLines_content_append {ws : List (LineWrite IndexEntry)}
    (h : ∀ w ∈ ws, ¬ w.IsTorn c) (bs : List UInt8) :
    readLines c (LineLog.lines (LineLog.content c ws ++ bs))
      = (readLines c (LineLog.lines bs)).map (fun r => (LineLog.completed c ws ++ r.1, r.2)) := by
  induction ws with
  | nil => cases hr : readLines c (LineLog.lines bs) <;> exact hr
  | cons w ws ih =>
    have ih := ih (fun v hv => h v (List.mem_cons_of_mem _ hv))
    rw [LineLog.content_cons, List.append_assoc]
    rcases LineWrite.isComplete_or_isTorn_or_left_eq_nil c w with hw | hw | hw
    · rw [LineWrite.left_of_isComplete hw, List.append_assoc, List.singleton_append,
        LineLog.lines_line_append (w.lf_notMem_text c) (w.cr_notMem_text c),
        LineLog.completed_cons_of_isComplete hw]
      show readLines c (Str.asBytes (c.render w.record) :: _) = _
      rw [readLines_render, ih]
      cases readLines c (LineLog.lines bs) <;> rfl
    · exact absurd hw (h w List.mem_cons_self)
    · rw [hw, List.nil_append, ih, LineLog.completed_cons_of_not_isComplete
        (fun hc => LineWrite.left_ne_nil_of_isComplete hc hw)]

/-- **What is read of a torn line by itself**: one torn line if it is partial
and text, and in no other case. -/
theorem readLines_left_iff {w : LineWrite IndexEntry} (ht : w.IsTorn c) :
    readLines c (LineLog.lines (w.left c)) = .ok ([], 1)
      ↔ w.written < (w.text c).length ∧ (Str.fromUtf8 (w.left c)).isSome := by
  have hne := LineWrite.left_ne_nil_of_isTorn ht
  have hle : w.written ≤ (w.text c).length := by
    have := ht.2
    rw [LineWrite.length_line] at this
    exact Nat.lt_succ_iff.mp this
  rw [LineLog.lines_eq_singleton (LineWrite.lf_notMem_left_of_isTorn ht) hne]
  cases hs : Str.fromUtf8 (w.left c) with
  | none =>
    rw [readLines, hs]
    exact ⟨fun h => (by cases h), fun h => (by cases h.2)⟩
  | some s =>
    have hbytes : Str.asBytes s = w.left c := Str.fromUtf8_eq_some_iff.mp hs
    rcases Nat.lt_or_eq_of_le hle with hpart | hwhole
    · -- a part of the text is a part of the record's characters, and does not parse
      have hprefix : Str.asBytes s <+: Str.asBytes (c.render w.record) := by
        rw [hbytes, LineWrite.left_of_isTorn ht]
        exact List.take_prefix _ _
      obtain ⟨u, hu⟩ := Str.exists_append_of_asBytes_prefix hprefix
      have hs0 : s ≠ "" := by
        rintro rfl
        exact hne hbytes.symm
      have hu0 : u ≠ "" := by
        rintro rfl
        rw [String.append_empty] at hu
        have hlen := congrArg List.length hbytes
        rw [hu, LineWrite.left_of_isTorn ht, List.length_take, Nat.min_eq_left hle] at hlen
        exact hpart.ne hlen.symm
      rw [← hbytes, readLines_truncated hu hs0 hu0]
      exact ⟨fun _ => ⟨hpart, rfl⟩, fun _ => rfl⟩
    · -- the whole text is an entry, line feed or not
      have hleft : w.left c = Str.asBytes (c.render w.record) := by
        rw [LineWrite.left_of_isTorn ht, hwhole, List.take_length]
        rfl
      rw [hleft, readLines_render]
      exact ⟨fun h => (by cases h), fun h => absurd hwhole h.1.ne⟩

/-! ## The condition is enough, and needed -/

/-- A file whose only torn line is its last. -/
theorem readLines_content_append_cons {before after : List (LineWrite IndexEntry)}
    {w : LineWrite IndexEntry} (hbefore : ∀ v ∈ before, ¬ v.IsTorn c) (ht : w.IsTorn c)
    (hafter : LineLog.content c after = []) :
    readLines c (LineLog.lines (LineLog.content c (before ++ w :: after)))
        = .ok (LineLog.completed c (before ++ w :: after),
            LineLog.tornCount c (before ++ w :: after))
      ↔ readLines c (LineLog.lines (w.left c)) = .ok ([], 1) := by
  obtain ⟨hcompleted, hcount⟩ := LineLog.completed_and_tornCount_of_content_eq_nil hafter
  rw [LineLog.content_append, LineLog.content_cons, hafter, List.append_nil,
    readLines_content_append hbefore, LineLog.completed_append,
    LineLog.completed_cons_of_not_isComplete
      (fun hc => LineWrite.not_isTorn_of_isComplete hc ht), hcompleted,
    LineLog.tornCount_append_cons ht, LineLog.tornCount_eq_zero_iff.mpr hbefore, hcount]
  cases hr : readLines c (LineLog.lines (w.left c)) with
  | error e => exact ⟨fun h => (by cases h), fun h => (by cases h)⟩
  | ok r =>
    show Except.ok (LineLog.completed c before ++ r.1, r.2) = _ ↔ _
    rw [Except.ok.injEq, Except.ok.injEq, Prod.ext_iff, Prod.ext_iff]
    simp

theorem readLines_content_of_tornLast {ws : List (LineWrite IndexEntry)} (h : TornLast c ws) :
    readLines c (LineLog.lines (LineLog.content c ws))
      = .ok (LineLog.completed c ws, LineLog.tornCount c ws) := by
  by_cases hnone : ∀ w ∈ ws, ¬ w.IsTorn c
  · have hread := readLines_content_append hnone []
    rw [List.append_nil] at hread
    rw [hread, LineLog.tornCount_eq_zero_iff.mpr hnone]
    show Except.ok (LineLog.completed c ws ++ [], 0) = _
    rw [List.append_nil]
  · obtain ⟨w, hw, ht⟩ : ∃ w ∈ ws, w.IsTorn c := by
      simpa using hnone
    obtain ⟨before, after, rfl⟩ := List.append_of_mem hw
    obtain ⟨hafter, hpart⟩ := h before w after rfl ht
    -- an earlier torn line would have to be the last one too
    have hbefore : ∀ v ∈ before, ¬ v.IsTorn c := by
      intro v hv hvt
      obtain ⟨b, a, rfl⟩ := List.append_of_mem hv
      have hzero := (h b v (a ++ w :: after) (by simp) hvt).1 w (by simp)
      exact absurd hzero (Nat.ne_of_gt ht.1)
    rw [readLines_content_append_cons hbefore ht (LineLog.content_eq_nil_iff.mpr hafter)]
    exact (readLines_left_iff ht).mpr hpart

theorem tornLast_of_readLines_content {ws : List (LineWrite IndexEntry)}
    (h : readLines c (LineLog.lines (LineLog.content c ws))
      = .ok (LineLog.completed c ws, LineLog.tornCount c ws)) : TornLast c ws := by
  rintro before w after rfl ht
  -- the file has a line for every complete append, and one more if it does not end with one
  have hcount := length_add_torn_le h
  rw [LineLog.length_lines, LineLog.count_content] at hcount
  have htorn := LineLog.tornCount_append_cons ht before after
  have hopen : ¬ (LineLog.content c (before ++ w :: after) = []
      ∨ (LineLog.content c (before ++ w :: after)).getLast? = some 10) := by
    intro hclosed
    rw [if_pos hclosed] at hcount
    dsimp only at hcount
    omega
  rw [if_neg hopen] at hcount
  dsimp only at hcount
  have hbefore : ∀ v ∈ before, ¬ v.IsTorn c := LineLog.tornCount_eq_zero_iff.mp (by omega)
  have hrest : ∀ v ∈ after, ¬ v.IsTorn c := LineLog.tornCount_eq_zero_iff.mp (by omega)
  have hafter : LineLog.content c after = [] := by
    rcases LineLog.content_eq_nil_or_getLast?_eq hrest with hnil | hlast
    · exact hnil
    · refine absurd (Or.inr ?_) hopen
      rw [LineLog.content_append, LineLog.content_cons, List.getLast?_append, List.getLast?_append,
        hlast]
      rfl
  rw [readLines_content_append_cons hbefore ht hafter] at h
  exact ⟨LineLog.content_eq_nil_iff.mp hafter, (readLines_left_iff ht).mp h⟩

/-- **A torn append costs only itself exactly when it is the last one.** After
any run of appends, each cut after any number of bytes or not at all,
`read_index` returns the entries of the complete ones, in order, and as many
torn lines as appends left a part of theirs, if and only if nothing is written
behind a torn line and the part is neither the whole text nor cut inside a
character. -/
theorem readIndex_cutAppends_iff (c : EntryCodec) (ws : List (LineWrite IndexEntry)) :
    readIndex c (ws.foldl (cutAppend c) none)
        = .ok (LineLog.completed c ws, LineLog.tornCount c ws)
      ↔ TornLast c ws := by
  rw [readIndex_foldl_cutAppend]
  exact ⟨tornLast_of_readLines_content, readLines_content_of_tornLast⟩

/-! ## A torn line, and an append behind it -/

/-- An append cut after its first byte, then one of the same entry that goes
through. -/
def tornThenWhole (c : EntryCodec) (e : IndexEntry) : List (LineWrite IndexEntry) :=
  [⟨e, 1⟩, LineWrite.whole c e]

/-- The append behind a torn line is lost with it, whatever the entry. -/
theorem readIndex_tornThenWhole (c : EntryCodec) (e : IndexEntry) :
    LineLog.completed c (tornThenWhole c e) = [e] ∧ LineLog.tornCount c (tornThenWhole c e) = 1
      ∧ readIndex c ((tornThenWhole c e).foldl (cutAppend c) none) ≠ .ok ([e], 1) := by
  have htorn : (⟨e, 1⟩ : LineWrite IndexEntry).IsTorn c := by
    refine ⟨Nat.one_pos, ?_⟩
    rw [LineWrite.length_line]
    exact Nat.succ_lt_succ (List.length_pos_iff.mpr (LineWrite.text_ne_nil _ _))
  have hwhole := LineWrite.isComplete_whole c e
  have hcompleted : LineLog.completed c (tornThenWhole c e) = [e] := by
    unfold tornThenWhole
    rw [LineLog.completed_cons_of_not_isComplete
      (fun hc => LineWrite.not_isTorn_of_isComplete hc htorn),
      LineLog.completed_cons_of_isComplete hwhole]
    rfl
  have hcount : LineLog.tornCount c (tornThenWhole c e) = 1 := by
    have hsplit := LineLog.tornCount_append_cons htorn [] [LineWrite.whole c e]
    have hrest : LineLog.tornCount c [LineWrite.whole c e] = 0 :=
      LineLog.tornCount_eq_zero_iff.mpr (by
        simpa using LineWrite.not_isTorn_of_isComplete hwhole)
    rw [hrest] at hsplit
    exact hsplit
  refine ⟨hcompleted, hcount, fun hread => ?_⟩
  rw [readIndex_foldl_cutAppend, ← hcompleted, ← hcount] at hread
  have hlast := tornLast_of_readLines_content hread [] _ _ rfl htorn
  exact absurd (hlast.1 _ List.mem_cons_self) (Nat.succ_ne_zero _)

/-- An index entry. -/
def sampleEntry : IndexEntry where
  filename := "kraken_BTC-USDT_trades_sync_20231114_221320.000.parquet"
  sha256 := "e3b0c44298fc1c149afbf4c8996fb92427ae41e4649b934ca495991b7852b855"
  rows := 2
  tMinUs := 1700000000000000
  tMaxUs := 1700000000250000
  schemaId := "trades.v1"

/-- **An append that went through is lost behind a torn one.** -/
theorem readIndex_sampleEntry_lost :
    LineLog.completed IndexEntry.json (tornThenWhole IndexEntry.json sampleEntry) = [sampleEntry]
      ∧ LineLog.tornCount IndexEntry.json (tornThenWhole IndexEntry.json sampleEntry) = 1
      ∧ readIndex IndexEntry.json
            ((tornThenWhole IndexEntry.json sampleEntry).foldl (cutAppend IndexEntry.json) none)
          ≠ .ok ([sampleEntry], 1) :=
  readIndex_tornThenWhole IndexEntry.json sampleEntry

end LeafIndex
