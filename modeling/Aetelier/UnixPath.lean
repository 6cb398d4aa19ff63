import Aetelier.LineLog

/-!
# Paths as on Unix

A path is a string of bytes. A slash at its head makes it absolute, slashes
cut it into segments, and a segment that is empty or a single dot says
nothing: two paths of the same kind with the same segments are the same
place, in a tree without symbolic links.

Joining a path to a root appends it, *unless it is absolute*: then the root
is dropped. `under_join_iff` is what a guard against `..` alone is worth.

A text is a path through its UTF-8 bytes, and its segments are texts again
(`exists_asBytes_of_mem_segments`). The other way round a path need not be a
text; its lossy reading replaces what is none, and is the text itself where
there is one (`toStringLossy_asBytes`).
-/

namespace Str

/-! ## The lossy reading -/

/-- The character at the head of the bytes. -/
def decodeHead (bs : List UInt8) : Option Char := ByteArray.utf8DecodeChar? ⟨bs.toArray⟩ 0

/-- A continuation byte. -/
def isContinuation (b : UInt8) : Bool := 0x80 ≤ b && b ≤ 0xBF

/-- Whether a character of three or four bytes may begin with the two. -/
def beginsWith (first second : UInt8) : Bool :=
  if first = 0xE0 then 0xA0 ≤ second && second ≤ 0xBF
  else if first = 0xED then 0x80 ≤ second && second ≤ 0x9F
  else if first = 0xF0 then 0x90 ≤ second && second ≤ 0xBF
  else if first = 0xF4 then 0x80 ≤ second && second ≤ 0x8F
  else 0xE1 ≤ first && first ≤ 0xF3 && isContinuation second

/-- How many bytes at the head, where no character is, are replaced as one:
as many as a character could begin with. -/
def invalidLen : List UInt8 → ℕ
  | first :: second :: rest =>
    if beginsWith first second then
      match rest with
      | third :: _ => if 0xF0 ≤ first && isContinuation third then 3 else 2
      | [] => 2
    else 1
  | _ => 1

/-- The characters of `toStringLossy`, with fuel for each. -/
def lossyFrom : ℕ → List UInt8 → List Char
  | 0, _ => []
  | _ + 1, [] => []
  | n + 1, b :: bs =>
    match decodeHead (b :: bs) with
    | some c => c :: lossyFrom n ((b :: bs).drop c.utf8Size)
    | none => '\uFFFD' :: lossyFrom n ((b :: bs).drop (invalidLen (b :: bs)))

/-- `to_string_lossy`: what is no character is replaced. -/
def toStringLossy (bs : List UInt8) : String := String.ofList (lossyFrom bs.length bs)

theorem decodeHead_utf8EncodeChar_append (c : Char) (bs : List UInt8) :
    decodeHead (String.utf8EncodeChar c ++ bs) = some c := by
  unfold decodeHead
  rw [show (⟨(String.utf8EncodeChar c ++ bs).toArray⟩ : ByteArray)
      = (String.utf8EncodeChar c).toByteArray ++ ⟨bs.toArray⟩ from ?_]
  · exact ByteArray.utf8DecodeChar?_utf8EncodeChar_append
  · refine ByteArray.ext (Array.toList_inj.mp ?_)
    simp

theorem lossyFrom_flatMap (cs : List Char) {n : ℕ}
    (hn : (cs.flatMap String.utf8EncodeChar).length ≤ n) :
    lossyFrom n (cs.flatMap String.utf8EncodeChar) = cs := by
  induction cs generalizing n with
  | nil => cases n <;> rfl
  | cons c cs ih =>
    rw [List.flatMap_cons] at hn ⊢
    have hlen := String.length_utf8EncodeChar c
    have hpos := Char.utf8Size_pos c
    rw [List.length_append] at hn
    obtain ⟨n, rfl⟩ := Nat.exists_eq_succ_of_ne_zero (show n ≠ 0 by omega)
    obtain ⟨b, bs, hbs⟩ : ∃ b bs, String.utf8EncodeChar c = b :: bs :=
      List.exists_cons_of_length_pos (by omega)
    have hhead := decodeHead_utf8EncodeChar_append c (cs.flatMap String.utf8EncodeChar)
    have hdrop : (String.utf8EncodeChar c ++ cs.flatMap String.utf8EncodeChar).drop c.utf8Size
        = cs.flatMap String.utf8EncodeChar := by
      rw [← hlen]
      exact List.drop_left
    rw [hbs, List.cons_append] at hhead hdrop ⊢
    simp only [lossyFrom, hhead, hdrop]
    rw [ih (by omega)]

/-- **The lossy reading loses nothing of a text.** -/
@[simp] theorem toStringLossy_asBytes (s : String) : toStringLossy (asBytes s) = s := by
  unfold toStringLossy
  rw [asBytes_eq_flatMap, lossyFrom_flatMap _ (Nat.le_refl _), String.ofList_toList]

/-! ## A slash in a text and in its bytes -/

theorem slash_mem_utf8EncodeChar {c : Char} : 47 ∈ String.utf8EncodeChar c ↔ c = '/' := by
  refine ⟨fun h => ?_, fun h => h ▸ by decide⟩
  have hv : c.val.toNat = c.toNat := rfl
  have key : c.toNat = 47 := by
    unfold String.utf8EncodeChar at h
    simp only [hv] at h
    split_ifs at h <;> simp only [List.mem_cons, List.not_mem_nil, or_false] at h <;>
      simp only [← UInt8.toNat_inj, UInt8.toNat_ofNat', UInt8.toNat_ofNat] at h <;> omega
  exact Char.toNat_inj.mp key

/-- What stands before the first separator goes to the first part. -/
theorem splitOn_append_of_notMem {α : Type*} [BEq α] [LawfulBEq α] {sep : α} {l : List α}
    (h : sep ∉ l) (m : List α) : (l ++ m).splitOn sep = (m.splitOn sep).modifyHead (l ++ ·) := by
  induction l with
  | nil =>
    rw [List.nil_append]
    cases m.splitOn sep <;> rfl
  | cons a l ih =>
    have ha : ¬ (a == sep) = true := by
      rw [beq_iff_eq]
      exact fun ha => h (ha ▸ List.mem_cons_self)
    rw [List.cons_append, List.splitOn_cons_eq_if_modifyHead, if_neg ha,
      ih (fun hm => h (List.mem_cons_of_mem _ hm))]
    cases m.splitOn sep <;> simp

/-- **A text is cut at its slashes as its bytes are.** -/
theorem splitOn_asBytes (s : String) :
    (asBytes s).splitOn 47 = (s.toList.splitOn '/').map (asBytes ∘ String.ofList) := by
  have hpart : asBytes ∘ String.ofList = List.flatMap String.utf8EncodeChar := by
    funext cs
    rw [Function.comp_apply, asBytes_eq_flatMap, String.toList_ofList]
  rw [hpart, asBytes_eq_flatMap]
  induction s.toList with
  | nil => simp
  | cons c cs ih =>
    rw [List.flatMap_cons]
    by_cases hc : c = '/'
    · subst hc
      rw [show String.utf8EncodeChar '/' ++ cs.flatMap String.utf8EncodeChar
          = [] ++ 47 :: cs.flatMap String.utf8EncodeChar from rfl,
        List.splitOn_append_cons_self, ih, List.splitOn_cons_eq_if_modifyHead]
      simp
    · have hslash : 47 ∉ String.utf8EncodeChar c := fun h => hc (slash_mem_utf8EncodeChar.mp h)
      rw [splitOn_append_of_notMem hslash, ih, List.splitOn_cons_eq_if_modifyHead,
        if_neg (by simpa using hc)]
      cases cs.splitOn '/' <;> simp

theorem asBytes_intercalate (parts : List String) :
    asBytes ("/".intercalate parts) = [47].intercalate (parts.map asBytes) := by
  induction parts with
  | nil => rfl
  | cons part parts ih =>
    cases parts with
    | nil => simp
    | cons part' parts =>
      rw [String.intercalate_cons_cons, asBytes_append, asBytes_append, ih]
      simp only [List.map_cons, List.intercalate_cons_cons]
      rfl

end Str

/-! ## Paths -/

/-- A path is its bytes. -/
abbrev UnixPath := List UInt8

namespace UnixPath

/-- `is_absolute`: a slash stands at the head. -/
def isAbsolute (p : UnixPath) : Bool := p.head? == some 47

/-- What stands between the slashes, where it says something. -/
def segments (p : UnixPath) : List UnixPath :=
  (p.splitOn 47).filter (fun seg => seg ≠ [] && seg ≠ [46])

/-- `join`: a path behind a root, with a slash between them if need be; an
absolute path alone. -/
def join (root p : UnixPath) : UnixPath :=
  if isAbsolute p then p
  else if root = [] ∨ root.getLast? = some 47 then root ++ p
  else root ++ 47 :: p

/-- The two name one place, whatever the tree. -/
def SamePlace (p q : UnixPath) : Prop := isAbsolute p = isAbsolute q ∧ segments p = segments q

/-- **Lexically under the root**: the segments of the root, and none behind
them that leads back up. -/
def Under (root p : UnixPath) : Prop :=
  isAbsolute p = isAbsolute root ∧
    ∃ below, segments p = segments root ++ below ∧ [46, 46] ∉ below

/-- A name of an entry of a directory. -/
def Proper (name : UnixPath) : Prop :=
  name ≠ [] ∧ 47 ∉ name ∧ name ≠ [46] ∧ name ≠ [46, 46]

@[simp] theorem segments_nil : segments [] = [] := by
  unfold segments
  simp

theorem segments_append_slash (p q : UnixPath) :
    segments (p ++ 47 :: q) = segments p ++ segments q := by
  unfold segments
  rw [List.splitOn_append_cons_self, List.filter_append]

theorem segments_join {p : UnixPath} (hp : isAbsolute p = false) (root : UnixPath) :
    segments (join root p) = segments root ++ segments p := by
  unfold join
  rw [if_neg (by simp [hp])]
  split_ifs with hroot
  · obtain rfl | hlast := hroot
    · simp
    · obtain ⟨init, rfl⟩ := List.getLast?_eq_some_iff.mp hlast
      have hinit : segments (init ++ [47]) = segments init := by
        simpa using segments_append_slash init []
      rw [hinit, List.append_assoc]
      exact segments_append_slash init p
  · rw [segments_append_slash]

theorem isAbsolute_join {p : UnixPath} (hp : isAbsolute p = false) (root : UnixPath) :
    isAbsolute (join root p) = isAbsolute root := by
  unfold join
  rw [if_neg (by simp [hp])]
  cases root with
  | nil =>
    rw [if_pos (Or.inl rfl)]
    exact hp
  | cons b bs => split_ifs <;> rfl

theorem join_of_isAbsolute {p : UnixPath} (hp : isAbsolute p = true) (root : UnixPath) :
    join root p = p := if_pos hp

/-- **What a guard against `..` is worth**: a path without such a segment
stays under the root if it is relative, and else only if it happens to name
a place there. -/
theorem under_join_iff {p : UnixPath} (hp : [46, 46] ∉ segments p) (root : UnixPath) :
    Under root (join root p) ↔
      (isAbsolute p = true → isAbsolute root = true ∧ segments root <+: segments p) := by
  cases habs : isAbsolute p with
  | false =>
    refine iff_of_true ?_ (fun h => nomatch h)
    exact ⟨isAbsolute_join habs root, _, segments_join habs root, hp⟩
  | true =>
    rw [join_of_isAbsolute habs]
    unfold Under
    rw [habs]
    constructor
    · rintro ⟨hroot, below, hbelow, -⟩ -
      exact ⟨hroot.symm, below, hbelow.symm⟩
    · intro h
      obtain ⟨hroot, below, hbelow⟩ := h rfl
      refine ⟨hroot.symm, below, hbelow.symm, fun hmem => hp ?_⟩
      rw [← hbelow]
      exact List.mem_append_right _ hmem

/-! ## Names -/

theorem Proper.segments_eq {name : UnixPath} (h : Proper name) : segments name = [name] := by
  unfold segments
  rw [List.splitOn_eq_singleton h.2.1]
  simp [h.1, h.2.2.1]

theorem Proper.isAbsolute_eq {name : UnixPath} (h : Proper name) : isAbsolute name = false := by
  cases name with
  | nil => rfl
  | cons b bs =>
    have hb : b ≠ 47 := fun hb => h.2.1 (hb ▸ List.mem_cons_self)
    simpa [isAbsolute] using hb

/-- Names joined by slashes are the segments of what they make. -/
theorem segments_intercalate {names : List UnixPath} (h : ∀ name ∈ names, Proper name) :
    segments ([47].intercalate names) = names := by
  cases names with
  | nil => simp
  | cons name names =>
    unfold segments
    rw [List.splitOn_intercalate _ (fun l hl => (h l hl).2.1) (by simp)]
    refine List.filter_eq_self.mpr (fun l hl => ?_)
    simp [(h l hl).1, (h l hl).2.2.1]

theorem isAbsolute_intercalate {names : List UnixPath} (h : ∀ name ∈ names, Proper name) :
    isAbsolute ([47].intercalate names) = false := by
  cases names with
  | nil => rfl
  | cons name names =>
    have hname := (h name List.mem_cons_self).isAbsolute_eq
    obtain ⟨b, bs, rfl⟩ := List.exists_cons_of_ne_nil (h name List.mem_cons_self).1
    cases names with
    | nil => simpa using hname
    | cons name' names => simpa [List.intercalate, isAbsolute] using hname

/-! ## Texts as paths -/

/-- **The segments of a text are texts.** -/
theorem exists_asBytes_of_mem_segments {s : String} {seg : UnixPath}
    (h : seg ∈ segments (Str.asBytes s)) : ∃ t, Str.asBytes t = seg := by
  have hmem := (List.mem_filter.mp h).1
  rw [Str.splitOn_asBytes] at hmem
  obtain ⟨cs, -, hcs⟩ := List.mem_map.mp hmem
  exact ⟨_, hcs⟩

/-- A text has a segment exactly if it has the part, cut at its slashes. -/
theorem asBytes_mem_segments_iff {s t : String} (hne : t ≠ "") (hdot : t ≠ ".") :
    Str.asBytes t ∈ segments (Str.asBytes s) ↔ t.toList ∈ s.toList.splitOn '/' := by
  have hempty : Str.asBytes t ≠ [] := fun h => hne (Str.asBytes_injective (h.trans rfl))
  have hone : Str.asBytes t ≠ [46] := fun h => hdot (Str.asBytes_injective (h.trans rfl))
  unfold segments
  rw [List.mem_filter, Str.splitOn_asBytes]
  constructor
  · rintro ⟨hmem, -⟩
    obtain ⟨cs, hcs, heq⟩ := List.mem_map.mp hmem
    rw [← Str.asBytes_injective heq, String.toList_ofList]
    exact hcs
  · intro h
    refine ⟨List.mem_map.mpr ⟨_, h, ?_⟩, by simp [hempty, hone]⟩
    rw [Function.comp_apply, String.ofList_toList]

end UnixPath
