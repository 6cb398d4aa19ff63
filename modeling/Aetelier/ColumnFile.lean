import Mathlib.Algebra.GroupWithZero.Nat
import Mathlib.Data.Int.Notation
import Mathlib.Data.List.Basic
import Mathlib.Data.List.Forall2

/-!
# Files of columns

A columnar file holds its records field by field: a column of each field, all of
one length. What reads it is given the rows in batches, asks each batch for its
columns by their number and their type – an absent column or one of another type
is a panic – and makes a record of every row, up to the first row that is none.

A writer is a list of what its columns hold of a record (`Projection`). So the
batches of a written file are written batches (`batches_write`), and where a row
that was written is read alone as `decode` reads it, a file is read as `decode`
reads its records: wholly (`readFile_ok_iff`), or up to the first that it cannot
read, whose row is counted within its batch (`readFile_write`).
-/

variable {F E W α β : Type}

/-- A column. A slot of floating-point numbers may be null. -/
inductive Column (F : Type) where
  | uint64 (values : List ℕ)
  | uint32 (values : List ℕ)
  | int64 (values : List ℤ)
  | float64 (values : List (Option F))
  | utf8 (values : List String)
deriving DecidableEq

namespace Column

def length : Column F → ℕ
  | .uint64 values => values.length
  | .uint32 values => values.length
  | .int64 values => values.length
  | .float64 values => values.length
  | .utf8 values => values.length

/-- The first rows. -/
def take (n : ℕ) : Column F → Column F
  | .uint64 values => .uint64 (values.take n)
  | .uint32 values => .uint32 (values.take n)
  | .int64 values => .int64 (values.take n)
  | .float64 values => .float64 (values.take n)
  | .utf8 values => .utf8 (values.take n)

/-- The other rows. -/
def drop (n : ℕ) : Column F → Column F
  | .uint64 values => .uint64 (values.drop n)
  | .uint32 values => .uint32 (values.drop n)
  | .int64 values => .int64 (values.drop n)
  | .float64 values => .float64 (values.drop n)
  | .utf8 values => .utf8 (values.drop n)

@[simp] theorem length_take (n : ℕ) (c : Column F) : (c.take n).length = min n c.length := by
  cases c <;> exact List.length_take

@[simp] theorem length_drop (n : ℕ) (c : Column F) : (c.drop n).length = c.length - n := by
  cases c <;> exact List.length_drop

end Column

/-- **Rows in columns**, which are named and of one length. -/
@[ext] structure RecordBatch (F : Type) where
  numRows : ℕ
  columns : List (String × Column F)
  length_eq : ∀ c ∈ columns, c.2.length = numRows

/-- How a read ends that gives no records. -/
inductive ReadFailure (E : Type) where
  | panicked
  | failed (e : E)
deriving DecidableEq, Repr

namespace RecordBatch

def numColumns (b : RecordBatch F) : ℕ := b.columns.length

/-- The first rows. -/
def take (n : ℕ) (b : RecordBatch F) : RecordBatch F where
  numRows := min n b.numRows
  columns := b.columns.map fun c => (c.1, c.2.take n)
  length_eq := by
    intro c' hc'
    obtain ⟨c, hc, rfl⟩ := List.mem_map.mp hc'
    rw [Column.length_take, b.length_eq c hc]

/-- The other rows. -/
def drop (n : ℕ) (b : RecordBatch F) : RecordBatch F where
  numRows := b.numRows - n
  columns := b.columns.map fun c => (c.1, c.2.drop n)
  length_eq := by
    intro c' hc'
    obtain ⟨c, hc, rfl⟩ := List.mem_map.mp hc'
    rw [Column.length_drop, b.length_eq c hc]

/-- The rows in batches of the given sizes. -/
def batches : List ℕ → RecordBatch F → List (RecordBatch F)
  | [], _ => []
  | n :: sizes, b => b.take n :: batches sizes (b.drop n)

/-! ## Columns by their number -/

section columns

variable (b : RecordBatch F) (k : ℕ)

def uint64 : Except (ReadFailure E) (ℕ → ℕ) :=
  match b.columns[k]? with
  | some (_, .uint64 values) => .ok fun i => values[i]?.getD 0
  | _ => .error .panicked

def uint32 : Except (ReadFailure E) (ℕ → ℕ) :=
  match b.columns[k]? with
  | some (_, .uint32 values) => .ok fun i => values[i]?.getD 0
  | _ => .error .panicked

def int64 : Except (ReadFailure E) (ℕ → ℤ) :=
  match b.columns[k]? with
  | some (_, .int64 values) => .ok fun i => values[i]?.getD 0
  | _ => .error .panicked

def float64 : Except (ReadFailure E) (ℕ → Option F) :=
  match b.columns[k]? with
  | some (_, .float64 values) => .ok fun i => values[i]?.getD none
  | _ => .error .panicked

def utf8 : Except (ReadFailure E) (ℕ → String) :=
  match b.columns[k]? with
  | some (_, .utf8 values) => .ok fun i => values[i]?.getD ""
  | _ => .error .panicked

/-- A column that not every file has. -/
def appended (column : ℕ → Except (ReadFailure E) (ℕ → α)) :
    Except (ReadFailure E) (Option (ℕ → α)) :=
  if k < b.numColumns then (column k).map some else .ok none

end columns

/-- A record of each row, up to the first that is none. -/
def rows (b : RecordBatch F) (row : ℕ → Except E α) : Except E (List α) :=
  (List.range b.numRows).mapM row

end RecordBatch

/-- The sizes of the batches a file is read in; none is empty. -/
structure BatchSizes where
  sizes : ℕ → List ℕ
  sum_eq : ∀ n, (sizes n).sum = n
  pos : ∀ n, ∀ k ∈ sizes n, 0 < k

/-- A file is read batch by batch. -/
def readFile (sizes : BatchSizes) (readBatch : RecordBatch F → Except E (List α))
    (file : RecordBatch F) : Except E (List α) :=
  ((RecordBatch.batches (sizes.sizes file.numRows) file).mapM readBatch).map List.flatten

/-! ## Writing -/

/-- What a column holds of a record. -/
inductive Projection (F α : Type) where
  | uint64 (field : α → ℕ)
  | uint32 (field : α → ℕ)
  | int64 (field : α → ℤ)
  | float64 (field : α → F)
  | nullable (field : α → Option F)
  | utf8 (field : α → String)

/-- The column of the records. -/
def Projection.column (xs : List α) : Projection F α → Column F
  | .uint64 field => .uint64 (xs.map field)
  | .uint32 field => .uint32 (xs.map field)
  | .int64 field => .int64 (xs.map field)
  | .float64 field => .float64 (xs.map fun x => some (field x))
  | .nullable field => .float64 (xs.map field)
  | .utf8 field => .utf8 (xs.map field)

namespace RecordBatch

/-- The records in columns. -/
def write (columns : List (String × Projection F α)) (xs : List α) : RecordBatch F where
  numRows := xs.length
  columns := columns.map fun c => (c.1, c.2.column xs)
  length_eq := by
    intro c hc
    obtain ⟨⟨name, p⟩, -, rfl⟩ := List.mem_map.mp hc
    cases p <;> exact List.length_map _

variable (columns : List (String × Projection F α)) (xs : List α)

theorem take_write (n : ℕ) : (write columns xs).take n = write columns (xs.take n) := by
  refine RecordBatch.ext (List.length_take).symm ?_
  show (columns.map _).map _ = _
  rw [List.map_map]
  refine List.map_congr_left fun c _ => ?_
  obtain ⟨name, p⟩ := c
  cases p <;> exact congrArg (Prod.mk name ∘ _) List.map_take.symm

theorem drop_write (n : ℕ) : (write columns xs).drop n = write columns (xs.drop n) := by
  refine RecordBatch.ext (List.length_drop).symm ?_
  show (columns.map _).map _ = _
  rw [List.map_map]
  refine List.map_congr_left fun c _ => ?_
  obtain ⟨name, p⟩ := c
  cases p <;> exact congrArg (Prod.mk name ∘ _) List.map_drop.symm

theorem lt_numColumns_write {k : ℕ} (h : k < columns.length)
    (more : List (String × Projection F α)) : k < (write (columns ++ more) xs).numColumns := by
  show k < (List.map _ (columns ++ more)).length
  rw [List.length_map, List.length_append]
  exact Nat.lt_add_right _ h

theorem appended_of_lt {b : RecordBatch F} {k : ℕ} (h : k < b.numColumns)
    (column : ℕ → Except (ReadFailure E) (ℕ → α)) :
    b.appended k column = (column k).map some := if_pos h

end RecordBatch

/-- A list in pieces of the given lengths. -/
def pieces : List ℕ → List α → List (List α)
  | [], _ => []
  | n :: sizes, xs => xs.take n :: pieces sizes (xs.drop n)

/-- **The batches of a written file are written batches.** -/
theorem RecordBatch.batches_write (columns : List (String × Projection F α)) (sizes : List ℕ)
    (xs : List α) :
    batches sizes (write columns xs) = (pieces sizes xs).map (write columns) := by
  induction sizes generalizing xs with
  | nil => rfl
  | cons n sizes ih =>
    show (write columns xs).take n :: batches sizes ((write columns xs).drop n) = _
    rw [take_write, drop_write, ih]
    rfl

/-! ## Rows read alone -/

/-- The records of rows that are numbered, up to the first that is none. -/
def numbered (row : ℕ → α → Except E β) : ℕ → List α → Except E (List β)
  | _, [] => .ok []
  | i, x :: xs => do
    let y ← row i x
    let ys ← numbered row (i + 1) xs
    return y :: ys

theorem mapM_range' {row : ℕ → Except E β} {row' : ℕ → α → Except E β} {xs : List α} {n : ℕ}
    (h : ∀ i x, xs[i]? = some x → row (n + i) = row' (n + i) x) :
    (List.range' n xs.length).mapM row = numbered row' n xs := by
  induction xs generalizing n with
  | nil => rfl
  | cons x xs ih =>
    have hrest : ∀ i y, xs[i]? = some y → row (n + 1 + i) = row' (n + 1 + i) y := by
      intro i y hy
      rw [Nat.add_right_comm]
      exact h (i + 1) y hy
    rw [List.length_cons, List.range'_succ, List.mapM_cons, ih hrest]
    exact congrArg (· >>= _) (h 0 x rfl)

/-- The rows of a written batch, where a row is read as its record is. -/
theorem RecordBatch.rows_write {columns : List (String × Projection F α)} {xs : List α}
    {row : ℕ → Except E β} {row' : ℕ → α → Except E β}
    (h : ∀ i x, xs[i]? = some x → row i = row' i x) :
    (write columns xs).rows row = numbered row' 0 xs := by
  unfold rows
  rw [List.range_eq_range']
  refine mapM_range' fun i x hx => ?_
  rw [Nat.zero_add]
  exact h i x hx

/-- The records, up to the first that cannot be read, with its position. -/
def readAll (decode : α → Except W β) : List α → Except (ℕ × W) (List β)
  | [] => .ok []
  | x :: xs =>
    match decode x with
    | .error w => .error (0, w)
    | .ok y =>
      match readAll decode xs with
      | .error (n, w) => .error (n + 1, w)
      | .ok ys => .ok (y :: ys)

/-- The row of a record within its batch. -/
def rowInBatch : List ℕ → ℕ → ℕ
  | [], n => n
  | size :: sizes, n => if n < size then n else rowInBatch sizes (n - size)

section readAll

variable {decode : α → Except W β} {locate : ℕ → W → E}

theorem readAll_cons (x : α) (xs : List α) :
    readAll decode (x :: xs) = match decode x with
      | .error w => .error (0, w)
      | .ok y => match readAll decode xs with
        | .error (n, w) => .error (n + 1, w)
        | .ok ys => .ok (y :: ys) := rfl

theorem readAll_map (f : β → α) (xs : List β) :
    readAll decode (xs.map f) = readAll (fun x => decode (f x)) xs := by
  induction xs with
  | nil => rfl
  | cons x xs ih =>
    rw [List.map_cons, readAll_cons, readAll_cons, ih]

theorem readAll_ok_iff {xs : List α} {ys : List β} :
    readAll decode xs = .ok ys ↔ List.Forall₂ (fun x y => decode x = .ok y) xs ys := by
  induction xs generalizing ys with
  | nil =>
    rw [List.forall₂_nil_left_iff]
    constructor
    · rintro ⟨⟩
      rfl
    · rintro rfl
      rfl
  | cons x xs ih =>
    rw [List.forall₂_cons_left_iff, readAll_cons]
    cases hx : decode x with
    | error w =>
      refine iff_of_false (fun h => by cases h) ?_
      rintro ⟨y, ys, hy, -⟩
      cases hy
    | ok y =>
      cases hxs : readAll decode xs with
      | error e =>
        refine iff_of_false (fun h => by cases h) ?_
        rintro ⟨y', ys', -, hrest, -⟩
        cases hxs.symm.trans (ih.mpr hrest)
      | ok ys' =>
        constructor
        · rintro ⟨⟩
          exact ⟨y, ys', rfl, ih.mp hxs, rfl⟩
        · rintro ⟨y', ys'', hy, hrest, rfl⟩
          cases hy
          cases hxs.symm.trans (ih.mpr hrest)
          rfl

/-- The position is that of a record that cannot be read. -/
theorem getElem?_of_readAll_error {xs : List α} {n : ℕ} {w : W}
    (h : readAll decode xs = .error (n, w)) : ∃ x, xs[n]? = some x ∧ decode x = .error w := by
  induction xs generalizing n with
  | nil => cases h
  | cons x xs ih =>
    rw [readAll_cons] at h
    cases hx : decode x with
    | error w' =>
      rw [hx] at h
      cases h
      exact ⟨x, rfl, hx⟩
    | ok y =>
      rw [hx] at h
      cases hxs : readAll decode xs with
      | error e =>
        rw [hxs] at h
        cases h
        exact ih hxs
      | ok ys =>
        rw [hxs] at h
        cases h

theorem readAll_append (xs ys : List α) :
    readAll decode (xs ++ ys) = match readAll decode xs with
      | .error e => .error e
      | .ok as => match readAll decode ys with
        | .error (n, w) => .error (xs.length + n, w)
        | .ok bs => .ok (as ++ bs) := by
  induction xs with
  | nil =>
    show readAll decode ys = _
    cases readAll decode ys with
    | error e => exact congrArg (fun n => Except.error (n, e.2)) (Nat.zero_add e.1).symm
    | ok bs => rfl
  | cons x xs ih =>
    rw [List.cons_append, readAll_cons, readAll_cons, ih]
    cases decode x with
    | error w => rfl
    | ok y =>
      cases readAll decode xs with
      | error e => rfl
      | ok as =>
        cases readAll decode ys with
        | error e =>
          have hlength : xs.length + e.1 + 1 = (x :: xs).length + e.1 := by
            rw [List.length_cons, Nat.add_right_comm]
          exact congrArg (fun n => Except.error (n, e.2)) hlength
        | ok bs => rfl

/-- Rows that are numbered are read up to the same record. -/
theorem numbered_eq (n : ℕ) (xs : List α) :
    numbered (fun i x => (decode x).mapError (locate i)) n xs
      = (readAll decode xs).mapError (fun e => locate (n + e.1) e.2) := by
  induction xs generalizing n with
  | nil => rfl
  | cons x xs ih =>
    unfold numbered
    rw [ih, readAll_cons]
    cases decode x with
    | error w => rfl
    | ok y =>
      cases readAll decode xs with
      | error e =>
        have hrow : n + 1 + e.1 = n + (e.1 + 1) := by rw [Nat.add_assoc, Nat.add_comm 1]
        exact congrArg (fun i => Except.error (locate i e.2)) hrow
      | ok ys => rfl

end readAll

/-! ## Files read as their records are -/

/-- **A batch is read as its records are**: each by itself, and an error tells the row. -/
def ReadsAs (readBatch : RecordBatch F → Except E (List β))
    (columns : List (String × Projection F α)) (decode : α → Except W β)
    (locate : ℕ → W → E) : Prop :=
  ∀ xs, readBatch (.write columns xs)
    = numbered (fun i x => (decode x).mapError (locate i)) 0 xs

section readFile

variable {readBatch : RecordBatch F → Except E (List β)}
  {columns : List (String × Projection F α)} {decode : α → Except W β} {locate : ℕ → W → E}

/-- The records of a first batch and of the others. -/
theorem map_flatten_cons (as : List β) (r : Except E (List (List β))) :
    (Except.ok as >>= fun a => r >>= fun as => pure (a :: as)).map List.flatten
      = (r.map List.flatten).map (as ++ ·) := by
  cases r <;> rfl

theorem mapM_pieces (h : ReadsAs readBatch columns decode locate) {sizes : List ℕ} {xs : List α}
    (hsum : sizes.sum = xs.length) :
    (((pieces sizes xs).map (.write columns)).mapM readBatch).map List.flatten
      = (readAll decode xs).mapError (fun e => locate (rowInBatch sizes e.1) e.2) := by
  induction sizes generalizing xs with
  | nil =>
    obtain rfl := List.length_eq_zero_iff.mp hsum.symm
    rfl
  | cons size sizes ih =>
    have hle : size ≤ xs.length := by
      rw [← hsum, List.sum_cons]
      exact Nat.le_add_right _ _
    have hlength : (xs.take size).length = size := by
      rw [List.length_take, Nat.min_eq_left hle]
    have hrest : sizes.sum = (xs.drop size).length := by
      rw [List.length_drop, ← hsum, List.sum_cons, Nat.add_sub_cancel_left]
    have hsplit := @readAll_append _ _ _ decode (xs.take size) (xs.drop size)
    rw [List.take_append_drop, hlength] at hsplit
    rw [hsplit]
    show (((RecordBatch.write columns (xs.take size)
      :: (pieces sizes (xs.drop size)).map (.write columns)).mapM readBatch).map _) = _
    rw [List.mapM_cons, h, numbered_eq]
    cases hfirst : readAll decode (xs.take size) with
    | error e =>
      -- the record is in this batch
      obtain ⟨x, hx, -⟩ := getElem?_of_readAll_error hfirst
      have hlt : e.1 < size := hlength ▸ (List.getElem?_eq_some_iff.mp hx).1
      have hrow : rowInBatch (size :: sizes) e.1 = 0 + e.1 :=
        (if_pos hlt).trans (Nat.zero_add e.1).symm
      show Except.error (locate (0 + e.1) e.2)
        = .error (locate (rowInBatch (size :: sizes) e.1) e.2)
      rw [hrow]
    | ok as =>
      refine (map_flatten_cons as _).trans ?_
      rw [ih hrest]
      cases readAll decode (xs.drop size) with
      | error e =>
        have hrow : rowInBatch (size :: sizes) (size + e.1) = rowInBatch sizes e.1 := by
          show (if size + e.1 < size then _ else rowInBatch sizes (size + e.1 - size)) = _
          rw [if_neg (Nat.not_lt.mpr (Nat.le_add_right _ _)), Nat.add_sub_cancel_left]
        show Except.error (locate (rowInBatch sizes e.1) e.2)
          = .error (locate (rowInBatch (size :: sizes) (size + e.1)) e.2)
        rw [hrow]
      | ok bs => rfl

/-- **A written file is read as its records are**, whatever its batches. -/
theorem readFile_write (h : ReadsAs readBatch columns decode locate) (sizes : BatchSizes)
    (xs : List α) :
    readFile sizes readBatch (.write columns xs)
      = (readAll decode xs).mapError
        (fun e => locate (rowInBatch (sizes.sizes xs.length) e.1) e.2) := by
  unfold readFile
  rw [RecordBatch.batches_write]
  exact mapM_pieces h (sizes.sum_eq _)

/-- **What comes back of a file**: the reading of each of its records, if each has one. -/
theorem readFile_ok_iff (h : ReadsAs readBatch columns decode locate) (sizes : BatchSizes)
    {xs : List α} {ys : List β} :
    readFile sizes readBatch (.write columns xs) = .ok ys
      ↔ List.Forall₂ (fun x y => decode x = .ok y) xs ys := by
  rw [readFile_write h, ← readAll_ok_iff]
  cases readAll decode xs with
  | error e => exact iff_of_false (fun h => by cases h) (fun h => by cases h)
  | ok as => exact ⟨fun h => by cases h; rfl, fun h => by cases h; rfl⟩

/-- A list is related to one that is related back if each of its entries is. -/
theorem exists_forall₂_iff {R : α → β → Prop} {S : β → α → Prop} {xs : List α} :
    (∃ ys, List.Forall₂ R xs ys ∧ List.Forall₂ S ys xs) ↔ ∀ x ∈ xs, ∃ y, R x y ∧ S y x := by
  induction xs with
  | nil => exact iff_of_true ⟨[], .nil, .nil⟩ fun x hx => by cases hx
  | cons x xs ih =>
    rw [List.forall_mem_cons, ← ih]
    constructor
    · rintro ⟨ys, hR, hS⟩
      cases hR with
      | cons hR hRs =>
        cases hS with
        | cons hS hSs => exact ⟨⟨_, hR, hS⟩, _, hRs, hSs⟩
    · rintro ⟨⟨y, hR, hS⟩, ys, hRs, hSs⟩
      exact ⟨y :: ys, .cons hR hRs, .cons hS hSs⟩

/-- A file none of whose batches can be read, unless it has no rows. -/
theorem readFile_eq_error {e : E} (h : ∀ xs, readBatch (.write columns xs) = .error e)
    (sizes : BatchSizes) (xs : List α) :
    readFile sizes readBatch (.write columns xs) = if xs = [] then .ok [] else .error e := by
  unfold readFile
  rw [RecordBatch.batches_write]
  show ((List.map _ (pieces (sizes.sizes xs.length) xs)).mapM readBatch).map _ = _
  cases hsizes : sizes.sizes xs.length with
  | nil =>
    have hlength := sizes.sum_eq xs.length
    rw [hsizes] at hlength
    rw [if_pos (List.length_eq_zero_iff.mp hlength.symm)]
    rfl
  | cons size rest =>
    have hpos := sizes.pos xs.length size (hsizes ▸ List.mem_cons_self)
    have hsum := sizes.sum_eq xs.length
    rw [hsizes, List.sum_cons] at hsum
    have hne : xs ≠ [] := by
      rintro rfl
      rw [List.length_nil] at hsum
      omega
    rw [if_neg hne]
    show ((RecordBatch.write columns (xs.take size) :: _).mapM readBatch).map _ = _
    rw [List.mapM_cons, h]
    rfl

end readFile
