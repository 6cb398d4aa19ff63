import Mathlib.Logic.Function.Iterate

/-!
# Sending over a bounded channel

A task that sends over a bounded channel holds, beside the channel itself,
the messages it has taken up and not sent yet: it sends them one after
another, and each send waits for room. The two together are an *outlet*. A
send moves a message and loses none (`Outlet.content_push`).

Once nobody reads the channel any more, what the task holds either fits into
the room that is left, and then every send goes through
(`Outlet.not_stuck_of_fits`, `Outlet.fits_push`), or it does not, and then the
task is stuck after as many sends as there was room for
(`Outlet.exists_stuck`).
-/

variable {α : Type}

/-- **The sending end of a bounded channel.** -/
structure Outlet (α : Type) where
  /-- What the task has taken up to send, in order. -/
  hand : List α
  /-- What is in the channel, oldest first. -/
  queue : List α
deriving DecidableEq, Repr

namespace Outlet

/-- Nothing sent, nothing to send. -/
def empty : Outlet α := ⟨[], []⟩

/-- Everything that was taken up and not read, oldest first. -/
def content (o : Outlet α) : List α := o.queue ++ o.hand

/-- One send, if there is room. -/
def push (capacity : ℕ) (o : Outlet α) : Outlet α :=
  match o.hand with
  | [] => o
  | a :: rest => if o.queue.length < capacity then ⟨rest, o.queue ++ [a]⟩ else o

/-- The task takes up messages; it has sent those it had. -/
def load (o : Outlet α) (as : List α) : Outlet α := { o with hand := o.hand ++ as }

/-- The reader takes a message. -/
def pop (o : Outlet α) : Outlet α := { o with queue := o.queue.tail }

/-- **The task waits in a send**: it has something to send and there is no
room. -/
def Stuck (capacity : ℕ) (o : Outlet α) : Prop := o.hand ≠ [] ∧ capacity ≤ o.queue.length

/-- **What the task holds fits** into the room left. -/
def Fits (capacity : ℕ) (o : Outlet α) : Prop := o.queue.length + o.hand.length ≤ capacity

@[simp] theorem content_empty : (empty : Outlet α).content = [] := rfl

@[simp] theorem content_load (o : Outlet α) (as : List α) :
    (o.load as).content = o.content ++ as :=
  (List.append_assoc _ _ _).symm

theorem push_of_nil {o : Outlet α} (h : o.hand = []) (capacity : ℕ) : o.push capacity = o := by
  unfold push
  rw [h]

/-- **A send loses nothing.** -/
@[simp] theorem content_push (capacity : ℕ) (o : Outlet α) :
    (o.push capacity).content = o.content := by
  unfold push
  split
  · rfl
  · next a rest hhand =>
    split
    · unfold content
      rw [hhand, List.append_assoc]
      rfl
    · rfl

/-- The oldest message is the one read. -/
theorem content_pop {o : Outlet α} {a : α} {rest : List α} (h : o.queue = a :: rest) :
    o.content = a :: o.pop.content := by
  unfold content pop
  rw [h]
  rfl

theorem not_stuck_of_fits {capacity : ℕ} {o : Outlet α} (h : o.Fits capacity) :
    ¬ o.Stuck capacity := by
  rintro ⟨hhand, hfull⟩
  have hpos : 0 < o.hand.length := List.length_pos_iff.mpr hhand
  unfold Fits at h
  omega

theorem fits_push {capacity : ℕ} {o : Outlet α} (h : o.Fits capacity) :
    (o.push capacity).Fits capacity := by
  have hlength : ∀ p : Outlet α, p.queue.length + p.hand.length = p.content.length := by
    intro p
    unfold content
    rw [List.length_append]
  unfold Fits at h ⊢
  rw [hlength] at h ⊢
  rwa [content_push]

/-- **What does not fit gets stuck**, if nobody reads. -/
theorem exists_stuck {capacity : ℕ} {o : Outlet α} (h : ¬ o.Fits capacity)
    (hroom : o.queue.length ≤ capacity) :
    ((push capacity)^[capacity - o.queue.length] o).Stuck capacity := by
  -- on the room that is left
  induction hn : capacity - o.queue.length generalizing o with
  | zero =>
    unfold Fits at h
    refine ⟨List.length_pos_iff.mp ?_, ?_⟩
    · show 0 < o.hand.length
      omega
    · show capacity ≤ o.queue.length
      omega
  | succ n ih =>
    rw [Function.iterate_succ_apply]
    have hlt : o.queue.length < capacity := by omega
    unfold Fits at h
    cases hhand : o.hand with
    | nil =>
      rw [hhand, List.length_nil] at h
      omega
    | cons a rest =>
      have hpush : o.push capacity = ⟨rest, o.queue ++ [a]⟩ := by
        unfold push
        rw [hhand]
        exact if_pos hlt
      rw [hpush]
      have hlength : (o.queue ++ [a]).length = o.queue.length + 1 := by simp
      refine ih ?_ ?_ ?_
      · unfold Fits
        rw [hhand, List.length_cons] at h
        show ¬ (o.queue ++ [a]).length + rest.length ≤ capacity
        omega
      · show (o.queue ++ [a]).length ≤ capacity
        omega
      · show capacity - (o.queue ++ [a]).length = n
        omega

end Outlet
