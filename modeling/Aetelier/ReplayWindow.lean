import Aetelier.TradeDedup
import Mathlib.Data.Finset.Basic
import Mathlib.Data.Finset.Dedup
import Mathlib.Data.Finset.Lattice.Lemmas
import Mathlib.Data.List.Dedup

/-!
# The window of the replay filter

The replay filter of a worker keeps the ids it has accepted twice, in a queue and
in a set: the set answers, the queue says which id goes when a new one would be
one too many. Both lose that id. What the filter knows is therefore a function
of what it has accepted: the last ids of it, as many as the filter is long
(`DedupWindow.Holds`). Since an id is accepted only while it is outside, these
are distinct (`DedupWindow.window`).

`DedupWindow` is the filter with both containers; `SeenTradeIds`, with which the
worker is modelled, is its queue alone, and answers alike
(`DedupWindow.Holds.queue_insert`).
-/

/-! ## The last entries of a list -/

/-- A bounded queue of any length holds the last of what was pushed. -/
theorem pushRing_rtake_append (capacity : ℕ) (l : List ℕ) (id : ℕ) :
    pushRing capacity (l.rtake capacity) id = (l ++ [id]).rtake capacity := by
  rcases Nat.eq_zero_or_pos capacity with rfl | hpos
  · rw [List.rtake_zero, List.rtake_zero]
    rfl
  · exact pushRing_rtake hpos l id

theorem length_rtake_le (n : ℕ) (l : List ℕ) : (l.rtake n).length ≤ n := by
  unfold List.rtake
  rw [List.length_drop]
  omega

/-- If the last entries of a list are distinct, they are the last distinct
entries. -/
theorem rtake_dedup_of_nodup {n : ℕ} {l : List ℕ} (h : (l.rtake n).Nodup) :
    l.dedup.rtake n = l.rtake n := by
  by_cases hshort : l.length < n
  · have hall : l.rtake n = l := by
      unfold List.rtake
      rw [Nat.sub_eq_zero_of_le hshort.le, List.drop_zero]
    rw [hall] at h
    rw [h.dedup]
  · have hlen : (l.rtake n).length = n := by
      unfold List.rtake
      rw [List.length_drop]
      omega
    have hsplit : l.take (l.length - n) ++ l.rtake n = l := List.take_append_drop _ l
    obtain ⟨t, -, ht⟩ := List.sublist_suffix_of_union (l.take (l.length - n)) (l.rtake n)
    have hdedup : l.dedup = t ++ l.rtake n := by
      conv_lhs => rw [← hsplit]
      rw [List.dedup_append, h.dedup, ht]
    rw [hdedup]
    generalize l.rtake n = last at hlen ⊢
    unfold List.rtake
    rw [List.length_append, hlen, Nat.add_sub_cancel, List.drop_left]

theorem nodup_append_of_notMem {l : List ℕ} {id : ℕ} (hl : l.Nodup) (h : id ∉ l) :
    (l ++ [id]).Nodup := by
  rw [← List.concat_eq_append]
  exact hl.concat h

/-! ## The filter -/

/-- **The replay filter**, with the queue and the set of the source. -/
structure DedupWindow where
  /-- The ids, oldest first. -/
  order : List ℕ
  ids : Finset ℕ
  /-- How many are kept. -/
  capacity : ℕ

namespace DedupWindow

/-- No id yet. -/
def withCapacity (capacity : ℕ) : DedupWindow := ⟨[], ∅, capacity⟩

/-- Note an id; `false` if it is known. -/
def insert (w : DedupWindow) (id : ℕ) : DedupWindow × Bool :=
  if id ∈ w.ids then (w, false)
  else
    let ids := Insert.insert id w.ids
    let order := w.order ++ [id]
    if w.capacity < order.length then
      match order with
      | evicted :: rest => ({ w with order := rest, ids := ids.erase evicted }, true)
      | [] => ({ w with order, ids }, true)
    else ({ w with order, ids }, true)

/-- Note one id after another. -/
def insertAll (w : DedupWindow) : List ℕ → DedupWindow
  | [] => w
  | id :: rest => (w.insert id).1.insertAll rest

/-- The ids among these that are accepted, in order. -/
def accepted (w : DedupWindow) : List ℕ → List ℕ
  | [] => []
  | id :: rest => (if (w.insert id).2 then [id] else []) ++ (w.insert id).1.accepted rest

/-- The queue of a filter. -/
def queue (w : DedupWindow) : SeenTradeIds := ⟨w.order, w.capacity⟩

/-- **What holds of a filter that has accepted the ids `A`**: the queue holds
the last of them, distinct, and the set holds what the queue holds. -/
structure Holds (w : DedupWindow) (A : List ℕ) : Prop where
  order_eq : w.order = A.rtake w.capacity
  nodup : w.order.Nodup
  ids_eq : w.ids = w.order.toFinset

theorem insert_of_mem {w : DedupWindow} {id : ℕ} (h : id ∈ w.ids) : w.insert id = (w, false) := by
  unfold insert
  rw [if_pos h]

/-- **A new id goes to the end of the queue**, and the set follows the queue,
whether or not an id has to go. -/
theorem insert_of_notMem {w : DedupWindow} {id : ℕ} (hnodup : w.order.Nodup)
    (hids : w.ids = w.order.toFinset) (h : id ∉ w.ids) :
    w.insert id = ({ w with order := pushRing w.capacity w.order id,
                            ids := (pushRing w.capacity w.order id).toFinset }, true) := by
  have hnew : id ∉ w.order := by
    rwa [hids, List.mem_toFinset] at h
  have hpushed : (w.order ++ [id]).Nodup := nodup_append_of_notMem hnodup hnew
  have hset : Insert.insert id w.ids = (w.order ++ [id]).toFinset := by
    rw [hids, List.toFinset_append, List.toFinset_cons, List.toFinset_nil,
      insert_empty_eq, Finset.union_comm]
    rfl
  unfold insert pushRing
  rw [if_neg h]
  simp only [hset]
  generalize w.order ++ [id] = pushed at hpushed
  split
  · cases pushed with
    | nil => rfl
    | cons evicted rest =>
      have hgone : (evicted :: rest).toFinset.erase evicted = rest.toFinset := by
        rw [List.toFinset_cons, Finset.erase_insert]
        rw [List.mem_toFinset]
        exact (List.nodup_cons.mp hpushed).1
      simp only [hgone, List.tail_cons]
  · rfl

/-- What holds of an empty filter. -/
theorem holds_withCapacity (capacity : ℕ) : (withCapacity capacity).Holds [] :=
  ⟨(List.rtake_nil _).symm, List.nodup_nil, rfl⟩

section Run

variable {w : DedupWindow} {A : List ℕ}

/-- The answer to an id: it is known exactly when it is among the last that
were accepted. -/
theorem Holds.insert_snd (h : w.Holds A) (id : ℕ) :
    (w.insert id).2 = false ↔ id ∈ A.rtake w.capacity := by
  rw [← h.order_eq, ← List.mem_toFinset, ← h.ids_eq]
  constructor
  · intro hknown
    by_contra hnew
    rw [insert_of_notMem h.nodup h.ids_eq hnew] at hknown
    cases hknown
  · intro hmem
    rw [insert_of_mem hmem]

/-- **One insertion.** What is accepted is added to what has been accepted; an
id that is known changes nothing, its age included. -/
theorem Holds.insert (h : w.Holds A) (id : ℕ) :
    (w.insert id).1.Holds (A ++ if (w.insert id).2 then [id] else []) := by
  by_cases hmem : id ∈ w.ids
  · rw [insert_of_mem hmem]
    simpa using h
  · have hstep := insert_of_notMem h.nodup h.ids_eq hmem
    have hpush : pushRing w.capacity w.order id = (A ++ [id]).rtake w.capacity := by
      rw [h.order_eq, pushRing_rtake_append]
    have hnew : id ∉ w.order := by
      rwa [h.ids_eq, List.mem_toFinset] at hmem
    have hnodup : (pushRing w.capacity w.order id).Nodup := by
      unfold pushRing
      split
      · exact (nodup_append_of_notMem h.nodup hnew).tail
      · exact nodup_append_of_notMem h.nodup hnew
    rw [hstep]
    exact ⟨hpush, hnodup, rfl⟩

theorem capacity_insert (w : DedupWindow) (id : ℕ) : (w.insert id).1.capacity = w.capacity := by
  unfold DedupWindow.insert
  split
  · rfl
  · dsimp only
    split
    · split <;> rfl
    · rfl

theorem capacity_insertAll (w : DedupWindow) (ids : List ℕ) :
    (w.insertAll ids).capacity = w.capacity := by
  induction ids generalizing w with
  | nil => rfl
  | cons id rest ih => exact (ih _).trans (capacity_insert w id)

/-- A run of insertions. -/
theorem Holds.insertAll (h : w.Holds A) (ids : List ℕ) :
    (w.insertAll ids).Holds (A ++ w.accepted ids) := by
  induction ids generalizing w A with
  | nil =>
    show w.Holds (A ++ [])
    rwa [List.append_nil]
  | cons id rest ih =>
    have hrest := ih (h.insert id)
    rwa [List.append_assoc] at hrest

end Run

/-- **The window of the replay filter.** After any insertions into a filter of
any capacity, its queue holds no id twice and the ids of its set, at most as
many as the capacity, and an id is turned away exactly when it is among the last
distinct ids accepted, as many as the capacity. -/
theorem window (capacity : ℕ) (ids : List ℕ) :
    ((withCapacity capacity).insertAll ids).order.Nodup
      ∧ (∀ id, id ∈ ((withCapacity capacity).insertAll ids).order
          ↔ id ∈ ((withCapacity capacity).insertAll ids).ids)
      ∧ ((withCapacity capacity).insertAll ids).order.length ≤ capacity
      ∧ ∀ id, (((withCapacity capacity).insertAll ids).insert id).2 = false
          ↔ id ∈ ((withCapacity capacity).accepted ids).dedup.rtake capacity := by
  have h := (holds_withCapacity capacity).insertAll ids
  have hcap : ((withCapacity capacity).insertAll ids).capacity = capacity :=
    capacity_insertAll _ ids
  rw [List.nil_append] at h
  have horder := h.order_eq
  rw [hcap] at horder
  refine ⟨h.nodup, fun id => ?_, ?_, fun id => ?_⟩
  · rw [h.ids_eq, List.mem_toFinset]
  · rw [horder]
    exact length_rtake_le capacity _
  · have hdistinct := h.nodup
    rw [horder] at hdistinct
    rw [h.insert_snd, hcap, rtake_dedup_of_nodup hdistinct]

/-- **The queue alone answers alike.** -/
theorem Holds.queue_insert {w : DedupWindow} {A : List ℕ} (h : w.Holds A) (id : ℕ) :
    w.queue.insert id = ((w.insert id).1.queue, (w.insert id).2) := by
  have hmem : id ∈ w.queue.order ↔ id ∈ w.ids := by
    rw [h.ids_eq, List.mem_toFinset]
    rfl
  unfold SeenTradeIds.insert
  by_cases hknown : id ∈ w.ids
  · rw [if_pos (hmem.mpr hknown), insert_of_mem hknown]
  · rw [if_neg (fun hin => hknown (hmem.mp hin)), insert_of_notMem h.nodup h.ids_eq hknown]
    rfl

end DedupWindow
