import Mathlib.Data.List.Pairwise
import Mathlib.Order.Lattice

/-!
# Ordered maps kept as sorted lists

An ordered map in the sense of a B-tree: entries in strictly increasing
order of their keys, at most one entry per key. Keys are compared through a
function `ord` into a linear order and not by their own equality, because a
key type may hold several spellings of one value – `1.0` and `1.00` – that
an ordered map takes for one key. Inserting at a key that is present keeps
the spelling already stored and replaces the value.

The map is the list of its entries together with the proof that the list is
sorted, so an unsorted map cannot be written down and no operation below has
to ask for sortedness. What an operation does is said by `get?`, which reads
a map as a partial function on the order; `below?` is the reading that the
predecessor queries of a B-tree give.
-/

variable {K V O : Type} [LinearOrder O]

/-- **An ordered map**: entries sorted strictly by the order value of their
keys. -/
structure OrdMap (K V : Type) {O : Type} [LinearOrder O] (ord : K → O) where
  /-- The entries, least key first. -/
  entries : List (K × V)
  /-- The keys increase strictly. -/
  sorted : entries.Pairwise (fun a b => ord a.1 < ord b.1)

namespace OrdMap

variable {ord : K → O}

theorem ext {m m' : OrdMap K V ord} (h : m.entries = m'.entries) : m = m' := by
  cases m; cases m'; cases h; rfl

instance [DecidableEq K] [DecidableEq V] : DecidableEq (OrdMap K V ord) :=
  fun m m' => decidable_of_iff (m.entries = m'.entries) ⟨ext, fun h => h ▸ rfl⟩

/-- The map with no entries. -/
def empty : OrdMap K V ord := ⟨[], List.Pairwise.nil⟩

instance : Inhabited (OrdMap K V ord) := ⟨empty⟩

/-- The number of entries. -/
def len (m : OrdMap K V ord) : ℕ := m.entries.length

/-- The value stored at an order value, if any. -/
def get? (m : OrdMap K V ord) (o : O) : Option V :=
  (m.entries.find? (fun e => decide (ord e.1 = o))).map Prod.snd

/-- The entry of least key. -/
def first? (m : OrdMap K V ord) : Option (K × V) := m.entries.head?

/-- The entry of greatest key. -/
def last? (m : OrdMap K V ord) : Option (K × V) := m.entries.getLast?

/-- The entry of greatest key strictly below an order value. -/
def below? (m : OrdMap K V ord) (o : O) : Option (K × V) :=
  (m.entries.filter (fun e => decide (ord e.1 < o))).getLast?

/-- Insertion into a sorted entry list. A key already present keeps its
spelling and takes the new value. -/
def insertEntries (ord : K → O) (k : K) (v : V) : List (K × V) → List (K × V)
  | [] => [(k, v)]
  | e :: rest =>
    if ord k < ord e.1 then (k, v) :: e :: rest
    else if ord k = ord e.1 then (e.1, v) :: rest
    else e :: insertEntries ord k v rest

/-- An entry of the result is the inserted one – at the inserted key, in
some spelling – or an old one at another key. -/
theorem mem_insertEntries {k : K} {v : V} {l : List (K × V)} {x : K × V}
    (hl : l.Pairwise (fun a b => ord a.1 < ord b.1)) :
    x ∈ insertEntries ord k v l →
      (ord x.1 = ord k ∧ x.2 = v) ∨ (x ∈ l ∧ ord x.1 ≠ ord k) := by
  induction l with
  | nil =>
    intro hx
    rw [insertEntries, List.mem_singleton] at hx
    subst hx
    exact Or.inl ⟨rfl, rfl⟩
  | cons e rest ih =>
    obtain ⟨hhead, hrest⟩ := List.pairwise_cons.mp hl
    intro hx
    rw [insertEntries] at hx
    split at hx
    · next hlt =>
      rcases List.mem_cons.mp hx with rfl | hx
      · exact Or.inl ⟨rfl, rfl⟩
      · refine Or.inr ⟨hx, ?_⟩
        rcases List.mem_cons.mp hx with rfl | hx
        · exact hlt.ne'
        · exact (hlt.trans (hhead x hx)).ne'
    · next hnlt =>
      split at hx
      · next heq =>
        rcases List.mem_cons.mp hx with rfl | hx
        · exact Or.inl ⟨heq.symm, rfl⟩
        · exact Or.inr ⟨List.mem_cons_of_mem _ hx, by
            rw [heq]; exact (hhead x hx).ne'⟩
      · next hne =>
        rcases List.mem_cons.mp hx with rfl | hx
        · exact Or.inr ⟨List.mem_cons_self, fun h => hne h.symm⟩
        · rcases ih hrest hx with h | ⟨hm, h⟩
          · exact Or.inl h
          · exact Or.inr ⟨List.mem_cons_of_mem _ hm, h⟩

theorem insertEntries_sorted (k : K) (v : V) {l : List (K × V)}
    (hl : l.Pairwise (fun a b => ord a.1 < ord b.1)) :
    (insertEntries ord k v l).Pairwise (fun a b => ord a.1 < ord b.1) := by
  induction l with
  | nil => exact List.pairwise_singleton _ _
  | cons e rest ih =>
    obtain ⟨hhead, hrest⟩ := List.pairwise_cons.mp hl
    rw [insertEntries]
    split
    · next hlt =>
      refine List.pairwise_cons.mpr ⟨fun x hx => ?_, hl⟩
      rcases List.mem_cons.mp hx with rfl | hx
      · exact hlt
      · exact hlt.trans (hhead x hx)
    · next hnlt =>
      split
      · exact List.pairwise_cons.mpr ⟨hhead, hrest⟩
      · next hne =>
        refine List.pairwise_cons.mpr ⟨fun x hx => ?_, ih hrest⟩
        rcases mem_insertEntries hrest hx with ⟨h, -⟩ | ⟨hm, -⟩
        · rw [h]; exact lt_of_le_of_ne (not_lt.mp hnlt) (Ne.symm hne)
        · exact hhead x hm

/-- Store a value at a key. -/
def insert (k : K) (v : V) (m : OrdMap K V ord) : OrdMap K V ord :=
  ⟨insertEntries ord k v m.entries, insertEntries_sorted k v m.sorted⟩

/-- Insert at a key that is vacant: an entry that is there stays. -/
def orInsert (k : K) (v : V) (m : OrdMap K V ord) : OrdMap K V ord :=
  if (m.get? (ord k)).isSome then m else m.insert k v

/-- Keep the entries whose order value satisfies a test. -/
def retain (p : O → Bool) (m : OrdMap K V ord) : OrdMap K V ord :=
  ⟨m.entries.filter (fun e => p (ord e.1)), m.sorted.filter _⟩

/-- Drop the entry at a key. -/
def erase (k : K) (m : OrdMap K V ord) : OrdMap K V ord :=
  m.retain (fun o => decide (o ≠ ord k))

/-- Keep the `n` least entries. -/
def keepFirst (n : ℕ) (m : OrdMap K V ord) : OrdMap K V ord :=
  ⟨m.entries.take n, m.sorted.sublist (List.take_sublist n _)⟩

/-- Keep the `n` greatest entries. -/
def keepLast (n : ℕ) (m : OrdMap K V ord) : OrdMap K V ord :=
  ⟨m.entries.drop (m.entries.length - n), m.sorted.sublist (List.drop_sublist _ _)⟩

/-- Build a map from a list of entries, later ones overriding. -/
def ofList (l : List (K × V)) : OrdMap K V ord :=
  l.foldl (fun m e => m.insert e.1 e.2) empty

/-! ## What a map stores -/

/-- Two entries at one order value are one entry. -/
theorem eq_of_mem (m : OrdMap K V ord) {a b : K × V} (ha : a ∈ m.entries)
    (hb : b ∈ m.entries) (h : ord a.1 = ord b.1) : a = b := by
  by_contra hne
  have : Std.Symm (fun a b : K × V => ord a.1 ≠ ord b.1) := ⟨fun _ _ h => Ne.symm h⟩
  have hsym := m.sorted.imp (S := fun a b => ord a.1 ≠ ord b.1) (fun h => h.ne)
  exact hsym.forall ha hb hne h

theorem get?_of_mem (m : OrdMap K V ord) {e : K × V} (he : e ∈ m.entries) :
    m.get? (ord e.1) = some e.2 := by
  unfold get?
  cases hf : m.entries.find? (fun e' => decide (ord e'.1 = ord e.1)) with
  | none => exact absurd (List.find?_eq_none.mp hf e he) (by simp)
  | some e' =>
    have hm := List.mem_of_find?_eq_some hf
    have ho : ord e'.1 = ord e.1 := by simpa using List.find?_some hf
    rw [m.eq_of_mem hm he ho]
    rfl

theorem mem_of_get? {m : OrdMap K V ord} {o : O} {v : V} (h : m.get? o = some v) :
    ∃ k, ord k = o ∧ (k, v) ∈ m.entries := by
  obtain ⟨e, he, rfl⟩ := Option.map_eq_some_iff.mp h
  exact ⟨e.1, by simpa using List.find?_some he, List.mem_of_find?_eq_some he⟩

/-- **Reading and storing agree**: a value is read at an order value exactly
when an entry carries it there. -/
theorem get?_eq_some_iff {m : OrdMap K V ord} {o : O} {v : V} :
    m.get? o = some v ↔ ∃ k, ord k = o ∧ (k, v) ∈ m.entries := by
  constructor
  · exact mem_of_get?
  · rintro ⟨k, rfl, hk⟩
    exact m.get?_of_mem hk

@[simp] theorem get?_empty (o : O) : (empty : OrdMap K V ord).get? o = none := rfl

@[simp] theorem get?_retain (p : O → Bool) (m : OrdMap K V ord) (o : O) :
    (m.retain p).get? o = if p o then m.get? o else none := by
  apply Option.ext
  intro v
  rw [get?_eq_some_iff]
  constructor
  · rintro ⟨k, rfl, hk⟩
    obtain ⟨hm, hp⟩ := List.mem_filter.mp hk
    rw [if_pos hp, m.get?_of_mem hm]
  · intro h
    split at h
    · next hp =>
      obtain ⟨k, rfl, hk⟩ := mem_of_get? h
      exact ⟨k, rfl, List.mem_filter.mpr ⟨hk, hp⟩⟩
    · exact absurd h (by simp)

@[simp] theorem get?_erase (k : K) (m : OrdMap K V ord) (o : O) :
    (m.erase k).get? o = if o = ord k then none else m.get? o := by
  unfold erase
  rw [get?_retain]
  by_cases h : o = ord k <;> simp [h]

theorem get?_insert_self (k : K) (v : V) (m : OrdMap K V ord) :
    (m.insert k v).get? (ord k) = some v := by
  suffices ∀ l : List (K × V), ∃ k', ord k' = ord k ∧ (k', v) ∈ insertEntries ord k v l from
    get?_eq_some_iff.mpr (this m.entries)
  intro l
  induction l with
  | nil => exact ⟨k, rfl, List.mem_singleton.mpr rfl⟩
  | cons e rest ih =>
    rw [insertEntries]
    split
    · exact ⟨k, rfl, List.mem_cons_self⟩
    · split
      · next heq => exact ⟨e.1, heq.symm, List.mem_cons_self⟩
      · obtain ⟨k', hk', hm⟩ := ih
        exact ⟨k', hk', List.mem_cons_of_mem _ hm⟩

theorem mem_insertEntries_of_ne {k : K} {v : V} {l : List (K × V)} {x : K × V}
    (hx : x ∈ l) (hne : ord x.1 ≠ ord k) : x ∈ insertEntries ord k v l := by
  induction l with
  | nil => exact absurd hx (List.not_mem_nil)
  | cons e rest ih =>
    rw [insertEntries]
    split
    · exact List.mem_cons_of_mem _ hx
    · split
      · next heq =>
        rcases List.mem_cons.mp hx with rfl | hx
        · exact absurd heq.symm hne
        · exact List.mem_cons_of_mem _ hx
      · rcases List.mem_cons.mp hx with rfl | hx
        · exact List.mem_cons_self
        · exact List.mem_cons_of_mem _ (ih hx)

/-- The key of an entry is spelled as the inserted one or as it was. -/
theorem key_of_mem_insertEntries {k : K} {v : V} {l : List (K × V)} {x : K × V}
    (hx : x ∈ insertEntries ord k v l) : x ∈ l ∨ (x.2 = v ∧ (x.1 = k ∨ ∃ w, (x.1, w) ∈ l)) := by
  induction l with
  | nil =>
    rw [insertEntries, List.mem_singleton] at hx
    exact Or.inr ⟨congrArg Prod.snd hx, Or.inl (congrArg Prod.fst hx)⟩
  | cons e rest ih =>
    rw [insertEntries] at hx
    split at hx
    · rcases List.mem_cons.mp hx with rfl | hx
      · exact Or.inr ⟨rfl, Or.inl rfl⟩
      · exact Or.inl hx
    · split at hx
      · rcases List.mem_cons.mp hx with rfl | hx
        · exact Or.inr ⟨rfl, Or.inr ⟨e.2, List.mem_cons_self⟩⟩
        · exact Or.inl (List.mem_cons_of_mem _ hx)
      · rcases List.mem_cons.mp hx with rfl | hx
        · exact Or.inl List.mem_cons_self
        · rcases ih hx with hx | ⟨hv, hk | ⟨w, hw⟩⟩
          · exact Or.inl (List.mem_cons_of_mem _ hx)
          · exact Or.inr ⟨hv, Or.inl hk⟩
          · exact Or.inr ⟨hv, Or.inr ⟨w, List.mem_cons_of_mem _ hw⟩⟩

/-- **Insertion is a pointwise update.** -/
@[simp] theorem get?_insert (k : K) (v : V) (m : OrdMap K V ord) (o : O) :
    (m.insert k v).get? o = if o = ord k then some v else m.get? o := by
  split
  · next h => rw [h, get?_insert_self]
  · next h =>
    apply Option.ext
    intro w
    rw [get?_eq_some_iff, get?_eq_some_iff]
    constructor
    · rintro ⟨k', rfl, hk'⟩
      rcases mem_insertEntries m.sorted hk' with ⟨ho, -⟩ | ⟨hm, -⟩
      · exact absurd ho h
      · exact ⟨k', rfl, hm⟩
    · rintro ⟨k', rfl, hk'⟩
      exact ⟨k', rfl, mem_insertEntries_of_ne hk' h⟩

@[simp] theorem get?_orInsert (k : K) (v : V) (m : OrdMap K V ord) (o : O) :
    (m.orInsert k v).get? o = (m.get? o).or (if o = ord k then some v else none) := by
  unfold orInsert
  split
  · next hsome =>
    obtain ⟨v', hv'⟩ := Option.isSome_iff_exists.mp hsome
    split
    · next ho => rw [ho, hv', Option.some_or]
    · rw [Option.or_none]
  · next hnone =>
    rw [get?_insert]
    split
    · next ho => rw [ho, Option.not_isSome_iff_eq_none.mp hnone, Option.none_or]
    · rw [Option.or_none]

theorem get?_foldl_insert {l : List (K × V)} (hl : l.Pairwise (fun a b => ord a.1 ≠ ord b.1))
    (m : OrdMap K V ord) (o : O) (v : V) :
    (l.foldl (fun m e => m.insert e.1 e.2) m).get? o = some v ↔
      (∃ k, ord k = o ∧ (k, v) ∈ l) ∨ (m.get? o = some v ∧ ∀ e ∈ l, ord e.1 ≠ o) := by
  induction l generalizing m with
  | nil => simp
  | cons e rest ih =>
    obtain ⟨hhead, hrest⟩ := List.pairwise_cons.mp hl
    rw [List.foldl_cons, ih hrest, get?_insert]
    by_cases ho : o = ord e.1
    · subst ho
      rw [if_pos rfl]
      constructor
      · rintro (⟨k, hk, hmem⟩ | ⟨hv, -⟩)
        · exact Or.inl ⟨k, hk, List.mem_cons_of_mem _ hmem⟩
        · cases hv
          exact Or.inl ⟨e.1, rfl, List.mem_cons_self⟩
      · rintro (⟨k, hk, hmem⟩ | ⟨-, hall⟩)
        · rcases List.mem_cons.mp hmem with rfl | hmem
          · exact Or.inr ⟨rfl, fun e' he' h => hhead e' he' h.symm⟩
          · exact Or.inl ⟨k, hk, hmem⟩
        · exact absurd rfl (hall e List.mem_cons_self)
    · rw [if_neg ho]
      constructor
      · rintro (⟨k, hk, hmem⟩ | ⟨hv, hall⟩)
        · exact Or.inl ⟨k, hk, List.mem_cons_of_mem _ hmem⟩
        · exact Or.inr ⟨hv, List.forall_mem_cons.mpr ⟨Ne.symm ho, hall⟩⟩
      · rintro (⟨k, hk, hmem⟩ | ⟨hv, hall⟩)
        · rcases List.mem_cons.mp hmem with rfl | hmem
          · exact absurd hk.symm ho
          · exact Or.inl ⟨k, hk, hmem⟩
        · exact Or.inr ⟨hv, fun e' he' => hall e' (List.mem_cons_of_mem _ he')⟩

/-- Of several insertions at a key the last one counts. -/
theorem get?_foldl_insert_last (l : List (K × V)) (m : OrdMap K V ord) (o : O) :
    (l.foldl (fun m e => m.insert e.1 e.2) m).get? o
      = ((l.reverse.find? (fun e => decide (ord e.1 = o))).map Prod.snd).or (m.get? o) := by
  induction l generalizing m with
  | nil => rfl
  | cons e rest ih =>
    rw [List.foldl_cons, ih, get?_insert, List.reverse_cons, List.find?_append]
    cases rest.reverse.find? (fun e => decide (ord e.1 = o)) with
    | some e' => rfl
    | none =>
      by_cases ho : o = ord e.1
      · simp [ho]
      · simp [ho, Ne.symm ho]

theorem get?_ofList_last (l : List (K × V)) (o : O) :
    (ofList l : OrdMap K V ord).get? o
      = (l.reverse.find? (fun e => decide (ord e.1 = o))).map Prod.snd := by
  unfold ofList
  rw [get?_foldl_insert_last, get?_empty, Option.or_none]

/-- **A map built from distinct keys stores exactly the entries given.** -/
theorem get?_ofList {l : List (K × V)} (hl : l.Pairwise (fun a b => ord a.1 ≠ ord b.1)) (o : O)
    (v : V) : (ofList l : OrdMap K V ord).get? o = some v ↔ ∃ k, ord k = o ∧ (k, v) ∈ l := by
  unfold ofList
  rw [get?_foldl_insert hl, get?_empty]
  simp

/-! ## The first and the last entries -/

/-- The first entries of a sorted list are the first of any sorted list that
has them and has no other keys. -/
theorem take_eq_of_sorted {f : K × V → O} {n : ℕ} {l l' : List (K × V)}
    (hl : l.Pairwise (fun a b => f a < f b)) (hl' : l'.Pairwise (fun a b => f a < f b))
    (hkeys : ∀ e' ∈ l', ∃ e ∈ l, f e = f e') (htop : ∀ e ∈ l.take n, e ∈ l') :
    l'.take n = l.take n := by
  induction n generalizing l l' with
  | zero => rfl
  | succ n ih =>
    cases l with
    | nil =>
      cases l' with
      | nil => rfl
      | cons e' rest' =>
        obtain ⟨e, he, -⟩ := hkeys e' List.mem_cons_self
        cases he
    | cons e rest =>
      cases l' with
      | nil => cases htop e List.mem_cons_self
      | cons e' rest' =>
        obtain ⟨hhead, hrest⟩ := List.pairwise_cons.mp hl
        obtain ⟨hhead', hrest'⟩ := List.pairwise_cons.mp hl'
        -- no key of `l'` is below the least of `l`, so the least entries are one
        have hle : f e ≤ f e' := by
          obtain ⟨d, hd, hde⟩ := hkeys e' List.mem_cons_self
          rw [← hde]
          rcases List.mem_cons.mp hd with rfl | hd
          · exact le_refl _
          · exact (hhead d hd).le
        have heq : e' = e := by
          rcases List.mem_cons.mp (htop e List.mem_cons_self) with h | h
          · exact h.symm
          · exact absurd (hhead' e h) (not_lt.mpr hle)
        subst heq
        rw [List.take_succ_cons, List.take_succ_cons]
        congr 1
        refine ih hrest hrest' (fun d' hd' => ?_) (fun d hd => ?_)
        · obtain ⟨d, hd, hdd⟩ := hkeys d' (List.mem_cons_of_mem _ hd')
          rcases List.mem_cons.mp hd with rfl | hd
          · exact absurd hdd (hhead' d' hd').ne
          · exact ⟨d, hd, hdd⟩
        · have hd' := htop d (by rw [List.take_succ_cons]; exact List.mem_cons_of_mem _ hd)
          rcases List.mem_cons.mp hd' with rfl | hd'
          · exact absurd (hhead d (List.mem_of_mem_take hd)) (lt_irrefl _)
          · exact hd'

section Keep

variable {m m' : OrdMap K V ord} {n : ℕ}

/-- **The least entries of a map** are those of any map that has them and has
no other keys. -/
theorem keepFirst_eq (hkeys : ∀ e' ∈ m'.entries, ∃ e ∈ m.entries, ord e.1 = ord e'.1)
    (htop : ∀ e ∈ (m.keepFirst n).entries, e ∈ m'.entries) :
    m'.keepFirst n = m.keepFirst n :=
  ext (take_eq_of_sorted (f := fun e => ord e.1) m.sorted m'.sorted hkeys htop)

theorem entries_keepLast (m : OrdMap K V ord) (n : ℕ) :
    (m.keepLast n).entries = (m.entries.reverse.take n).reverse := by
  rw [List.take_reverse, List.reverse_reverse]
  rfl

/-- **The greatest entries of a map** are those of any map that has them and
has no other keys. -/
theorem keepLast_eq (hkeys : ∀ e' ∈ m'.entries, ∃ e ∈ m.entries, ord e.1 = ord e'.1)
    (htop : ∀ e ∈ (m.keepLast n).entries, e ∈ m'.entries) :
    m'.keepLast n = m.keepLast n := by
  refine ext ?_
  rw [entries_keepLast, entries_keepLast]
  refine congrArg List.reverse (take_eq_of_sorted (f := fun e => OrderDual.toDual (ord e.1))
    (List.pairwise_reverse.mpr m.sorted) (List.pairwise_reverse.mpr m'.sorted)
    (fun e' he' => ?_) (fun e he => ?_))
  · obtain ⟨e, he, h⟩ := hkeys e' (List.mem_reverse.mp he')
    exact ⟨e, List.mem_reverse.mpr he, congrArg OrderDual.toDual h⟩
  · refine List.mem_reverse.mpr (htop e ?_)
    rw [entries_keepLast]
    exact List.mem_reverse.mpr he

theorem mem_of_mem_keepFirst {e : K × V} (h : e ∈ (m.keepFirst n).entries) : e ∈ m.entries :=
  List.mem_of_mem_take h

theorem mem_of_mem_keepLast {e : K × V} (h : e ∈ (m.keepLast n).entries) : e ∈ m.entries :=
  List.mem_of_mem_drop h

end Keep

/-! ## Least, greatest and preceding entries -/

theorem mem_of_first? {m : OrdMap K V ord} {e : K × V} (h : m.first? = some e) :
    e ∈ m.entries := List.mem_of_head? h

theorem mem_of_last? {m : OrdMap K V ord} {e : K × V} (h : m.last? = some e) :
    e ∈ m.entries := List.mem_of_getLast? h

theorem first?_le {m : OrdMap K V ord} {e x : K × V} (h : m.first? = some e)
    (hx : x ∈ m.entries) : ord e.1 ≤ ord x.1 := by
  obtain ⟨rest, hl⟩ := List.head?_eq_some_iff.mp h
  rw [hl] at hx
  have hs := m.sorted
  rw [hl] at hs
  rcases List.mem_cons.mp hx with rfl | hx
  · exact le_refl _
  · exact ((List.pairwise_cons.mp hs).1 x hx).le

/-- In a sorted list the last entry is the greatest. -/
theorem le_getLast_of_sorted {l : List (K × V)} {e x : K × V}
    (hs : l.Pairwise (fun a b => ord a.1 < ord b.1)) (h : l.getLast? = some e)
    (hx : x ∈ l) : ord x.1 ≤ ord e.1 := by
  obtain ⟨init, hl⟩ := List.getLast?_eq_some_iff.mp h
  rw [hl] at hx hs
  rcases List.mem_append.mp hx with hx | hx
  · exact ((List.pairwise_append.mp hs).2.2 x hx e (List.mem_singleton.mpr rfl)).le
  · rw [List.mem_singleton.mp hx]

theorem le_last? {m : OrdMap K V ord} {e x : K × V} (h : m.last? = some e)
    (hx : x ∈ m.entries) : ord x.1 ≤ ord e.1 :=
  le_getLast_of_sorted m.sorted h hx

/-- **The entry below a bound** is an entry strictly below it, and no entry
strictly below it is greater. -/
theorem below?_eq_some_iff {m : OrdMap K V ord} {o : O} {e : K × V} :
    m.below? o = some e ↔
      e ∈ m.entries ∧ ord e.1 < o ∧ ∀ x ∈ m.entries, ord x.1 < o → ord x.1 ≤ ord e.1 := by
  unfold below?
  constructor
  · intro h
    obtain ⟨hm, hlt⟩ := List.mem_filter.mp (List.mem_of_getLast? h)
    refine ⟨hm, by simpa using hlt, fun x hx hxo => ?_⟩
    exact le_getLast_of_sorted (m.sorted.filter _) h
      (List.mem_filter.mpr ⟨hx, by simpa using hxo⟩)
  · rintro ⟨hm, hlt, hmax⟩
    have hmem : e ∈ m.entries.filter (fun e => decide (ord e.1 < o)) :=
      List.mem_filter.mpr ⟨hm, by simpa using hlt⟩
    cases hg : (m.entries.filter (fun e => decide (ord e.1 < o))).getLast? with
    | none => rw [List.getLast?_eq_none_iff] at hg; rw [hg] at hmem; cases hmem
    | some e' =>
      obtain ⟨hm', hlt'⟩ := List.mem_filter.mp (List.mem_of_getLast? hg)
      have h₁ := le_getLast_of_sorted (m.sorted.filter _) hg hmem
      have h₂ := hmax e' hm' (by simpa using hlt')
      rw [m.eq_of_mem hm' hm (le_antisymm h₂ h₁)]

theorem below?_eq_none_iff {m : OrdMap K V ord} {o : O} :
    m.below? o = none ↔ ∀ x ∈ m.entries, ¬ ord x.1 < o := by
  unfold below?
  rw [List.getLast?_eq_none_iff, List.filter_eq_nil_iff]
  simp

theorem below?_empty (o : O) : (empty : OrdMap K V ord).below? o = none := rfl

/-- **The entry below a bound after an insertion**: the inserted one, if it
is below the bound and nothing below the bound is greater. -/
theorem below?_insert (hord : Function.Injective ord) (k : K) (v : V) (m : OrdMap K V ord)
    (o : O) :
    (m.insert k v).below? o
      = if ord k < o ∧ ∀ e ∈ m.below? o, ord e.1 ≤ ord k then some (k, v) else m.below? o := by
  have hself : (k, v) ∈ (m.insert k v).entries := by
    obtain ⟨k', hk', hmem⟩ := get?_eq_some_iff.mp (get?_insert_self k v m)
    rwa [hord hk'] at hmem
  split
  · next h =>
    refine below?_eq_some_iff.mpr ⟨hself, h.1, fun x hx hxo => ?_⟩
    rcases mem_insertEntries m.sorted hx with ⟨hxk, -⟩ | ⟨hxm, -⟩
    · exact hxk.le
    · cases hb : m.below? o with
      | none => exact absurd hxo (below?_eq_none_iff.mp hb x hxm)
      | some e => exact ((below?_eq_some_iff.mp hb).2.2 x hxm hxo).trans (h.2 e hb)
  · next h =>
    cases hb : m.below? o with
    | none =>
      refine below?_eq_none_iff.mpr (fun x hx hxo => ?_)
      rcases mem_insertEntries m.sorted hx with ⟨hxk, -⟩ | ⟨hxm, -⟩
      · rw [hxk] at hxo
        exact h ⟨hxo, fun e he => by rw [hb] at he; cases he⟩
      · exact below?_eq_none_iff.mp hb x hxm hxo
    | some e =>
      obtain ⟨hem, heo, hmax⟩ := below?_eq_some_iff.mp hb
      have hlt : ord k < o → ord k < ord e.1 := by
        intro hko
        by_contra hle
        refine h ⟨hko, fun e' he' => ?_⟩
        rw [hb] at he'
        cases he'
        exact not_lt.mp hle
      have hne : ord e.1 ≠ ord k := by
        intro heq
        rw [heq] at heo
        exact (hlt heo).ne heq.symm
      refine below?_eq_some_iff.mpr ⟨mem_insertEntries_of_ne hem hne, heo, fun x hx hxo => ?_⟩
      rcases mem_insertEntries m.sorted hx with ⟨hxk, -⟩ | ⟨hxm, -⟩
      · rw [hxk] at hxo ⊢
        exact (hlt hxo).le
      · exact hmax x hxm hxo

/-- Dropping what precedes the entry below a bound changes no entry below a
larger bound. -/
theorem below?_retain {m : OrdMap K V ord} {o o' : O} {e : K × V} (he : m.below? o = some e)
    (ho : o ≤ o') : (m.retain (fun k => decide (ord e.1 ≤ k))).below? o' = m.below? o' := by
  obtain ⟨hem, heo, -⟩ := below?_eq_some_iff.mp he
  cases hb : m.below? o' with
  | none => exact absurd (heo.trans_le ho) (below?_eq_none_iff.mp hb e hem)
  | some e' =>
    obtain ⟨hem', heo', hmax⟩ := below?_eq_some_iff.mp hb
    refine below?_eq_some_iff.mpr ⟨List.mem_filter.mpr ⟨hem', ?_⟩, heo', fun x hx hxo => ?_⟩
    · exact decide_eq_true (hmax e hem (heo.trans_le ho))
    · exact hmax x (List.mem_filter.mp hx).1 hxo

end OrdMap
