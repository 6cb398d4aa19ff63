import Mathlib.Data.List.AList

/-!
# Hash maps with an arbitrary iteration order

A hash map is an association list with distinct keys, together with the
hasher state it was built with. The hasher state is what decides the order
in which the keys are visited: it is a permutation of the key list about
which nothing else is known, so a statement proved for every hasher state
holds whatever the order turns out to be. Everything that does not iterate
is read off the table.
-/

variable {α β : Type}

/-- **The state of a hasher**, reduced to what can be observed of it: the
order in which the keys of a table are visited. -/
structure RandomState (α : Type) where
  /-- The visiting order of a key list. -/
  order : List α → List α
  /-- Every key is visited, once. -/
  perm : ∀ l, (order l).Perm l

/-- The hasher that visits keys in table order. -/
def RandomState.table : RandomState α := ⟨id, fun l => List.Perm.refl l⟩

/-- **A hash map**: a table of distinct keys and the hasher it was built
with. -/
structure HashMap (α β : Type) where
  /-- The hasher the map was created with. -/
  hasher : RandomState α
  /-- The stored entries. -/
  table : AList (fun _ : α => β)

namespace HashMap

/-- A map with no entries. -/
def empty (h : RandomState α) : HashMap α β := ⟨h, ∅⟩

/-- The keys, in visiting order. -/
def keys (m : HashMap α β) : List α := m.hasher.order m.table.keys

theorem keys_perm (m : HashMap α β) : m.keys.Perm m.table.keys := m.hasher.perm _

theorem keys_nodup (m : HashMap α β) : m.keys.Nodup :=
  m.keys_perm.nodup_iff.mpr m.table.keys_nodup

/-- Rewrite every value in place. -/
def mapValues (f : α → β → β) (m : HashMap α β) : HashMap α β :=
  ⟨m.hasher, ⟨m.table.entries.map (Sigma.map id f),
    List.NodupKeys.map₂ f _ m.table.nodupKeys⟩⟩

variable [DecidableEq α]

/-- The value stored at a key. -/
def get? (m : HashMap α β) (k : α) : Option β := m.table.lookup k

/-- Store a value at a key. -/
def insert (k : α) (v : β) (m : HashMap α β) : HashMap α β :=
  ⟨m.hasher, m.table.insert k v⟩

/-- The entries, in visiting order. -/
def iter (m : HashMap α β) : List (α × β) :=
  m.keys.filterMap (fun k => (m.get? k).map (fun v => (k, v)))

/-- The values, in visiting order. -/
def values (m : HashMap α β) : List β := m.iter.map Prod.snd

@[simp] theorem get?_empty (h : RandomState α) (k : α) :
    (empty h : HashMap α β).get? k = none := rfl

@[simp] theorem get?_insert (k k' : α) (v : β) (m : HashMap α β) :
    (m.insert k v).get? k' = if k' = k then some v else m.get? k' := by
  unfold get? insert
  split
  · next h => subst h; exact AList.lookup_insert m.table
  · next h => exact AList.lookup_insert_ne h

@[simp] theorem get?_mapValues (f : α → β → β) (m : HashMap α β) (k : α) :
    (m.mapValues f).get? k = (m.get? k).map (f k) :=
  List.dlookup_map₂ k

theorem mem_keys {m : HashMap α β} {k : α} : k ∈ m.keys ↔ ∃ v, m.get? k = some v := by
  rw [m.keys_perm.mem_iff, ← AList.mem_keys, ← AList.lookup_isSome, Option.isSome_iff_exists]
  rfl

/-- **The entries visited are the entries stored.** -/
theorem mem_iter {m : HashMap α β} {k : α} {v : β} :
    (k, v) ∈ m.iter ↔ m.get? k = some v := by
  unfold iter
  rw [List.mem_filterMap]
  constructor
  · rintro ⟨k', -, h⟩
    obtain ⟨w, hw, he⟩ := Option.map_eq_some_iff.mp h
    cases he
    exact hw
  · intro h
    exact ⟨k, mem_keys.mpr ⟨v, h⟩, by rw [h]; rfl⟩

/-- The keys visited by `iter` are the keys of the map, in the same order. -/
theorem map_fst_iter (m : HashMap α β) : m.iter.map Prod.fst = m.keys := by
  have hsome : ∀ l : List α, (∀ k ∈ l, ∃ v, m.get? k = some v) →
      (l.filterMap (fun k => (m.get? k).map (fun v => (k, v)))).map Prod.fst = l := by
    intro l
    induction l with
    | nil => intro _; rfl
    | cons k rest ih =>
      intro h
      obtain ⟨v, hv⟩ := h k List.mem_cons_self
      rw [List.filterMap_cons, hv]
      simp only [Option.map_some, List.map_cons]
      rw [ih (fun k' hk' => h k' (List.mem_cons_of_mem _ hk'))]
  exact hsome m.keys (fun k hk => mem_keys.mp hk)

/-- The values are those of the keys, in the same order. -/
theorem values_eq_map_keys (m : HashMap α β) (d : β) :
    m.values = m.keys.map (fun k => (m.get? k).getD d) := by
  unfold values
  rw [← m.map_fst_iter, List.map_map]
  refine List.map_congr_left (fun e he => ?_)
  show e.2 = (m.get? e.1).getD d
  rw [mem_iter.mp he]
  rfl

/-- The entries visited of one key: the one stored, if there is one. -/
theorem filter_iter (m : HashMap α β) (key : α) :
    m.iter.filter (fun e => decide (e.1 = key)) = (m.get? key).toList.map (fun v => (key, v)) := by
  have hnodup : (m.iter.filter (fun e => decide (e.1 = key))).Nodup :=
    (List.Nodup.of_map Prod.fst (m.map_fst_iter ▸ m.keys_nodup)).filter _
  have hmem : ∀ e, e ∈ m.iter.filter (fun e => decide (e.1 = key)) ↔
      e.1 = key ∧ m.get? key = some e.2 := by
    intro e
    rw [List.mem_filter, decide_eq_true_iff, and_comm]
    refine and_congr_right (fun he => ?_)
    rw [← he]
    exact mem_iter
  cases hv : m.get? key with
  | none =>
    refine List.eq_nil_iff_forall_not_mem.mpr (fun e he => ?_)
    rw [hmem, hv] at he
    cases he.2
  | some v =>
    refine List.perm_singleton.mp
      ((List.perm_ext_iff_of_nodup hnodup (List.nodup_singleton _)).mpr (fun e => ?_))
    rw [hmem, hv, List.mem_singleton, Option.some.injEq, Prod.ext_iff, eq_comm (a := v)]

/-- An empty map visits nothing. -/
@[simp] theorem iter_empty (h : RandomState α) : (empty h : HashMap α β).iter = [] := by
  have hkeys : (empty h : HashMap α β).keys = [] := List.Perm.eq_nil (keys_perm _)
  unfold iter
  rw [hkeys]
  rfl

/-- A map of one key visits that key. -/
theorem iter_of_alone {m : HashMap α β} {key : α} (h : ∀ k v, m.get? k = some v → k = key) :
    m.iter = (m.get? key).toList.map (fun v => (key, v)) := by
  rw [← filter_iter]
  refine (List.filter_eq_self.mpr (fun e he => ?_)).symm
  exact decide_eq_true (h e.1 e.2 (mem_iter.mp he))

/-- In a map of one key the first value visited is the value of that key. -/
theorem head?_values {m : HashMap α β} {key : α} (h : ∀ k v, m.get? k = some v → k = key) :
    m.values.head? = m.get? key := by
  have hkeys : ∀ k ∈ m.keys, k = key := fun k hk => by
    obtain ⟨v, hv⟩ := mem_keys.mp hk
    exact h k v hv
  unfold values iter
  cases hk : m.keys with
  | nil =>
    cases hv : m.get? key with
    | none => rfl
    | some v =>
      have hmem : key ∈ m.keys := mem_keys.mpr ⟨v, hv⟩
      rw [hk] at hmem
      cases hmem
  | cons k rest =>
    have hkey : k = key := hkeys k (by rw [hk]; exact List.mem_cons_self)
    subst hkey
    obtain ⟨v, hv⟩ := mem_keys.mp (show k ∈ m.keys by rw [hk]; exact List.mem_cons_self)
    rw [List.filterMap_cons, hv]
    rfl

end HashMap
