import Aetelier.OrdMap
import Mathlib.Algebra.Order.Ring.Nat
import Mathlib.Data.List.Sort
import Mathlib.Data.List.Nodup
import Mathlib.Data.List.Induction

/-!
# Rows grouped by a key

A loop over rows finds the group of each row by its key, begins one if there is
none, and adds the row to it. The groups are then met in the order of their
keys. `get?_foldl_upsert` says what a group holds: the rows of its key, in the
order they came. `sum_foldl_upsert` is for groups that count: what the rows add
to their groups is what all groups have together.

The other half is about maps in general: two maps that answer alike are one
map, and a map of values stored each under its own key lists them in the order
of the keys, whatever order they were stored in.
-/

namespace OrdMap

variable {R K V O : Type} [LinearOrder O] {ord : K → O}

/-! ## Groups -/

section upsert

variable (key : R → K) (fresh : R → V) (push : V → R → V)

/-- `entry(key).or_insert_with(fresh)`, and then `push`. -/
def upsert (m : OrdMap K V ord) (r : R) : OrdMap K V ord :=
  m.insert (key r) (push ((m.get? (ord (key r))).getD (fresh r)) r)

/-- A group of rows that come one after the other. -/
def gather : List R → Option V
  | [] => none
  | r :: rest => some (rest.foldl push (push (fresh r) r))

variable {key fresh push}

theorem get?_upsert (m : OrdMap K V ord) (r : R) (o : O) :
    (upsert key fresh push m r).get? o
      = if o = ord (key r) then some (push ((m.get? (ord (key r))).getD (fresh r)) r)
        else m.get? o := get?_insert _ _ m o

theorem gather_concat (rows : List R) (r : R) :
    gather fresh push (rows ++ [r]) = some (push ((gather fresh push rows).getD (fresh r)) r) := by
  cases rows with
  | nil => rfl
  | cons r' rest =>
    show some ((rest ++ [r]).foldl push _) = _
    rw [List.foldl_append]
    rfl

/-- **A group holds the rows of its key, in the order they came.** -/
theorem get?_foldl_upsert (rows : List R) (o : O) :
    (rows.foldl (upsert key fresh push) (empty : OrdMap K V ord)).get? o
      = gather fresh push (rows.filter (fun r => ord (key r) = o)) := by
  induction rows using List.reverseRecOn with
  | nil => rfl
  | append_singleton rows r ih =>
    rw [List.foldl_append, List.filter_append]
    show (upsert key fresh push (rows.foldl _ _) r).get? o = _
    rw [get?_upsert]
    by_cases ho : o = ord (key r)
    · subst ho
      rw [if_pos rfl, ih, List.filter_cons_of_pos (by simp), List.filter_nil, gather_concat]
    · rw [if_neg ho, ih, List.filter_cons_of_neg (by simpa using Ne.symm ho), List.filter_nil,
        List.append_nil]

/-- There is a group of every row's key, and no other. -/
theorem isSome_get?_foldl_upsert (rows : List R) (o : O) :
    ((rows.foldl (upsert key fresh push) (empty : OrdMap K V ord)).get? o).isSome
      ↔ ∃ r ∈ rows, ord (key r) = o := by
  rw [get?_foldl_upsert]
  cases hf : rows.filter (fun r => ord (key r) = o) with
  | nil =>
    refine iff_of_false (by simp [gather]) ?_
    rintro ⟨r, hr, ho⟩
    exact absurd ho (by simpa using List.filter_eq_nil_iff.mp hf r hr)
  | cons r rest =>
    refine iff_of_true (by simp [gather]) ?_
    have hr : r ∈ rows.filter (fun r => ord (key r) = o) := hf ▸ List.mem_cons_self
    exact ⟨r, (List.mem_filter.mp hr).1, by simpa using (List.mem_filter.mp hr).2⟩

/-! ## Sums over groups -/

/-- What an insertion does to a sum over the values: the new one comes, the one
it replaces goes. -/
theorem sum_insertEntries (g : V → ℕ) (k : K) (v : V) {l : List (K × V)}
    (hl : l.Pairwise (fun a b => ord a.1 < ord b.1)) :
    ((insertEntries ord k v l).map (fun e => g e.2)).sum
        + ((l.find? (fun e => decide (ord e.1 = ord k))).map (fun e => g e.2)).getD 0
      = (l.map (fun e => g e.2)).sum + g v := by
  induction l with
  | nil => exact Nat.add_comm _ _
  | cons e rest ih =>
    obtain ⟨hhead, hrest⟩ := List.pairwise_cons.mp hl
    rw [insertEntries]
    split
    · next hlt =>
      have hnone : (e :: rest).find? (fun e => decide (ord e.1 = ord k)) = none := by
        refine List.find?_eq_none.mpr (fun x hx => ?_)
        have hx' : ord k < ord x.1 := by
          cases List.mem_cons.mp hx with
          | inl h => exact h ▸ hlt
          | inr h => exact hlt.trans (hhead x h)
        simpa using hx'.ne'
      rw [hnone, List.map_cons, List.sum_cons]
      show g v + _ + 0 = _ + g v
      omega
    · split
      · next heq =>
        rw [List.find?_cons_of_pos (by simpa using heq.symm)]
        simp only [List.map_cons, List.sum_cons, Option.map_some, Option.getD_some]
        omega
      · next hne =>
        rw [List.find?_cons_of_neg (by simpa using Ne.symm hne)]
        have hsum := ih hrest
        simp only [List.map_cons, List.sum_cons]
        omega

/-- **Each row adds its own amount** to a sum over the groups, if it adds it to
its group and a group begins at zero. -/
theorem sum_foldl_upsert (g : V → ℕ) (amount : R → ℕ) (hfresh : ∀ r, g (fresh r) = 0)
    (hpush : ∀ v r, g (push v r) = g v + amount r) (rows : List R) :
    ((rows.foldl (upsert key fresh push) (empty : OrdMap K V ord)).entries.map
        (fun e => g e.2)).sum = (rows.map amount).sum := by
  induction rows using List.reverseRecOn with
  | nil => rfl
  | append_singleton rows r ih =>
    rw [List.foldl_append, List.map_append, List.sum_append, List.map_singleton,
      List.sum_singleton]
    generalize rows.foldl (upsert key fresh push) (empty : OrdMap K V ord) = m at ih ⊢
    have hsum := sum_insertEntries g (key r) (push ((m.get? (ord (key r))).getD (fresh r)) r)
      m.sorted
    have hold : ((m.entries.find? (fun e => decide (ord e.1 = ord (key r)))).map
        (fun e => g e.2)).getD 0 = g ((m.get? (ord (key r))).getD (fresh r)) := by
      unfold get?
      cases m.entries.find? (fun e => decide (ord e.1 = ord (key r))) with
      | none => exact (hfresh r).symm
      | some e => rfl
    rw [hold, hpush] at hsum
    show ((insertEntries ord (key r) _ m.entries).map (fun e => g e.2)).sum = _
    omega

end upsert

/-- **The last entry at a key is the one that stays.** -/
theorem get?_ofList_eq (l : List (K × V)) (o : O) :
    (ofList l : OrdMap K V ord).get? o
      = (l.filter (fun e => decide (ord e.1 = o))).getLast?.map Prod.snd := by
  induction l using List.reverseRecOn with
  | nil => rfl
  | append_singleton l e ih =>
    have hinsert : (ofList (l ++ [e]) : OrdMap K V ord) = (ofList l).insert e.1 e.2 := by
      unfold ofList
      rw [List.foldl_append]
      rfl
    rw [hinsert, get?_insert, List.filter_append, ih]
    by_cases ho : o = ord e.1
    · have hkeep : [e].filter (fun e => decide (ord e.1 = o)) = [e] := by simp [ho]
      rw [if_pos ho, hkeep, List.getLast?_append, List.getLast?_singleton, Option.some_or]
      rfl
    · have hdrop : [e].filter (fun e => decide (ord e.1 = o)) = [] := by simp [Ne.symm ho]
      rw [if_neg ho, hdrop, List.append_nil]

/-! ## Maps that answer alike -/

/-- Two lists in one strict order with the same members are one list. -/
theorem eq_of_mem_iff {α : Type} {f : α → O} {l l' : List α}
    (hl : l.Pairwise (fun a b => f a < f b)) (hl' : l'.Pairwise (fun a b => f a < f b))
    (h : ∀ a, a ∈ l ↔ a ∈ l') : l = l' := by
  have hnodup : ∀ {l : List α}, l.Pairwise (fun a b => f a < f b) → l.Nodup := fun hl =>
    hl.imp (fun hlt heq => absurd (congrArg f heq) hlt.ne)
  refine List.Perm.eq_of_pairwise (fun a b _ _ hab hba => ?_) hl hl'
    ((List.perm_ext_iff_of_nodup (hnodup hl) (hnodup hl')).mpr h)
  exact absurd hba hab.asymm

/-! ## Values under their own keys -/

section ofValues

variable {key : V → K}

/-- A value is stored under its own key. -/
theorem ord_eq_of_mem_ofList {l : List V} {e : K × V}
    (he : e ∈ (ofList (l.map (fun v => (key v, v))) : OrdMap K V ord).entries) :
    ord e.1 = ord (key e.2) := by
  have hfold : ∀ (l : List V) (m : OrdMap K V ord), (∀ e ∈ m.entries, ord e.1 = ord (key e.2)) →
      ∀ e ∈ ((l.map (fun v => (key v, v))).foldl (fun m e => m.insert e.1 e.2) m).entries,
        ord e.1 = ord (key e.2) := by
    intro l
    induction l with
    | nil => exact fun _ hm => hm
    | cons v l ih =>
      intro m hm
      refine ih _ (fun e he => ?_)
      rcases mem_insertEntries m.sorted he with ⟨hkey, hval⟩ | ⟨hold, -⟩
      · rw [hkey, hval]
      · exact hm e hold
  exact hfold l empty (fun _ h => absurd h List.not_mem_nil) e he

/-- The values of such a map increase. -/
theorem values_ofList_sorted (l : List V) :
    ((ofList (l.map (fun v => (key v, v))) : OrdMap K V ord).entries.map Prod.snd).Pairwise
      (fun a b => ord (key a) < ord (key b)) := by
  refine List.pairwise_map.mpr ((OrdMap.sorted _).imp_of_mem (fun ha hb hlt => ?_))
  rw [← ord_eq_of_mem_ofList ha, ← ord_eq_of_mem_ofList hb]
  exact hlt

/-- **Values under distinct keys are listed in the order of the keys**, in
whatever order they were stored. -/
theorem values_ofList_of_perm {l l' : List V} (hperm : l.Perm l')
    (hl' : l'.Pairwise (fun a b => ord (key a) < ord (key b))) :
    (ofList (l.map (fun v => (key v, v))) : OrdMap K V ord).entries.map Prod.snd = l' := by
  have hdistinct : (l.map (fun v => (key v, v))).Pairwise (fun a b => ord a.1 ≠ ord b.1) := by
    refine List.pairwise_map.mpr ?_
    exact (hperm.pairwise_iff (fun h => Ne.symm h)).mpr (hl'.imp (fun h => h.ne))
  refine eq_of_mem_iff (f := fun v => ord (key v)) (values_ofList_sorted l) hl' (fun v => ?_)
  rw [← hperm.mem_iff]
  constructor
  · intro hv
    obtain ⟨e, he, rfl⟩ := List.mem_map.mp hv
    obtain ⟨k, -, hk⟩ := (get?_ofList hdistinct _ _).mp (get?_of_mem _ he)
    obtain ⟨v, hv, heq⟩ := List.mem_map.mp hk
    cases heq
    exact hv
  · intro hv
    obtain ⟨k, -, hk⟩ := mem_of_get? ((get?_ofList hdistinct (ord (key v)) v).mpr
      ⟨key v, rfl, List.mem_map.mpr ⟨v, hv, rfl⟩⟩)
    exact List.mem_map.mpr ⟨_, hk, rfl⟩

end ofValues

end OrdMap
