import Mathlib.Data.List.DropRight
import Mathlib.Data.List.TakeWhile
import Mathlib.Tactic.Common

/-!
# URLs as a browser reads them

The living standard reads *any* text as a URL if it can, and mends it on the
way: it drops blanks at both ends and line breaks anywhere, turns a backslash
into a slash, ends the path at a `?` or a `#`, walks over the segments `.` and
`..` (also where they are written with `%2e`), and escapes what may not stand
in a path, but never a percent sign. This is the part of it for `http` and
`https`, over bytes, without a base; which authorities there are is a
parameter.

A server undoes the escapes. What it gets to see of a text that was put
behind an origin is that text if and only if it is `Plain`
(`asksFor_iff_plain`): each step that mends makes it shorter, none makes it
longer, and so none may do anything.
-/

namespace Percent

/-- A hexadecimal digit. -/
def isHex (b : UInt8) : Bool :=
  (48 ≤ b && b ≤ 57) || (65 ≤ b && b ≤ 70) || (97 ≤ b && b ≤ 102)

/-- What a hexadecimal digit stands for. -/
def hexVal (b : UInt8) : UInt8 :=
  if b ≤ 57 then b - 48 else if b ≤ 70 then b - 55 else b - 87

/-- The hexadecimal digit of a number below sixteen. -/
def hexDigit (n : UInt8) : UInt8 := if n < 10 then n + 48 else n + 55

/-- A byte as an escape. -/
def escape (b : UInt8) : List UInt8 := [37, hexDigit (b / 16), hexDigit (b % 16)]

/-- The bytes of a set are escaped. -/
def encode (set : UInt8 → Bool) (bs : List UInt8) : List UInt8 :=
  bs.flatMap fun b => if set b then escape b else [b]

/-- Whether an escape stands at the head. -/
def startsEscape : List UInt8 → Bool
  | b :: h :: l :: _ => b == 37 && isHex h && isHex l
  | _ => false

/-- Whether there is an escape. -/
def hasEscape : List UInt8 → Bool
  | [] => false
  | b :: bs => startsEscape (b :: bs) || hasEscape bs

/-- Escapes are undone; a percent sign that begins none stays. -/
def decode : List UInt8 → List UInt8
  | b :: h :: l :: rest =>
    if startsEscape (b :: h :: l :: rest) then (hexVal h * 16 + hexVal l) :: decode rest
    else b :: decode (h :: l :: rest)
  | bs => bs

theorem decode_cons {b : UInt8} {bs : List UInt8} (h : startsEscape (b :: bs) = false) :
    decode (b :: bs) = b :: decode bs := by
  match bs with
  | [] => rfl
  | [_] => rfl
  | _ :: _ :: _ => rw [decode, if_neg (by rw [h]; decide)]

theorem decode_of_startsEscape {b h l : UInt8} {rest : List UInt8}
    (hs : startsEscape (b :: h :: l :: rest) = true) :
    decode (b :: h :: l :: rest) = (hexVal h * 16 + hexVal l) :: decode rest := by
  rw [decode, if_pos hs]

theorem startsEscape_cons_of_ne {b : UInt8} (hb : b ≠ 37) (bs : List UInt8) :
    startsEscape (b :: bs) = false := by
  match bs with
  | [] => rfl
  | [_] => rfl
  | _ :: _ :: _ => simp [startsEscape, hb]

theorem length_decode_le (bs : List UInt8) : (decode bs).length ≤ bs.length := by
  fun_induction decode bs with
  | case1 b h l rest _ ih =>
    simp only [List.length_cons]
    omega
  | case2 b h l rest _ ih =>
    simp only [List.length_cons] at ih ⊢
    omega
  | case3 bs _ => exact Nat.le_refl _

/-- An escape is three bytes for one. -/
theorem length_decode_lt {bs : List UInt8} (h : hasEscape bs = true) :
    (decode bs).length < bs.length := by
  induction bs with
  | nil => exact absurd h (by decide)
  | cons b bs ih =>
    cases hs : startsEscape (b :: bs) with
    | false =>
      have hbs : hasEscape bs = true := by simpa [hasEscape, hs] using h
      rw [decode_cons hs]
      exact Nat.succ_lt_succ (ih hbs)
    | true =>
      match bs, hs with
      | d :: l :: rest, hs =>
        have hle := length_decode_le rest
        rw [decode_of_startsEscape hs]
        simp only [List.length_cons]
        omega

@[simp] theorem decode_eq_self {bs : List UInt8} (h : hasEscape bs = false) : decode bs = bs := by
  induction bs with
  | nil => rfl
  | cons b bs ih =>
    have hs : startsEscape (b :: bs) = false ∧ hasEscape bs = false := by
      simpa [hasEscape] using h
    rw [decode_cons hs.1, ih hs.2]

/-- **Undoing the escapes keeps the length only where there are none.** -/
theorem length_decode_eq_iff {bs : List UInt8} :
    (decode bs).length = bs.length ↔ hasEscape bs = false := by
  refine ⟨fun h => ?_, fun h => by rw [decode_eq_self h]⟩
  by_contra hne
  have hlt := length_decode_lt (by simpa using hne)
  omega

/-! ## Escaping and undoing it -/

/-- A set that has neither the percent sign nor a hexadecimal digit. -/
def Spares (set : UInt8 → Bool) : Prop := ∀ b, b = 37 ∨ isHex b = true → set b = false

theorem isHex_hexDigit (b : UInt8) :
    isHex (hexDigit (b / 16)) = true ∧ isHex (hexDigit (b % 16)) = true ∧
      hexVal (hexDigit (b / 16)) * 16 + hexVal (hexDigit (b % 16)) = b := by
  have hall : ∀ n < 256, isHex (hexDigit (UInt8.ofNat n / 16)) = true ∧
      isHex (hexDigit (UInt8.ofNat n % 16)) = true ∧
      hexVal (hexDigit (UInt8.ofNat n / 16)) * 16 + hexVal (hexDigit (UInt8.ofNat n % 16))
        = UInt8.ofNat n := by decide +kernel
  have hb := hall b.toNat (UInt8.toNat_lt b)
  rwa [UInt8.ofNat_toNat] at hb

theorem encode_cons (set : UInt8 → Bool) (b : UInt8) (bs : List UInt8) :
    encode set (b :: bs) = (if set b then escape b else [b]) ++ encode set bs := rfl

theorem encode_append (set : UInt8 → Bool) (bs cs : List UInt8) :
    encode set (bs ++ cs) = encode set bs ++ encode set cs := List.flatMap_append

theorem decode_escape_append (b : UInt8) (bs : List UInt8) :
    decode (escape b ++ bs) = b :: decode bs := by
  obtain ⟨hhi, hlo, hval⟩ := isHex_hexDigit b
  show decode (37 :: hexDigit (b / 16) :: hexDigit (b % 16) :: bs) = _
  rw [decode_of_startsEscape (by simp [startsEscape, hhi, hlo]), hval]

/-- An escaped head is no hexadecimal digit. -/
theorem startsEscape_encode {set : UInt8 → Bool} (hset : Spares set) (b : UInt8)
    (bs : List UInt8) : startsEscape (b :: encode set bs) = startsEscape (b :: bs) := by
  by_cases hb : b = 37
  · subst hb
    match bs with
    | [] => rfl
    | h :: bs =>
      by_cases hh : isHex h = true
      · match bs with
        | [] =>
          rw [encode_cons, hset h (Or.inr hh)]
          rfl
        | l :: bs =>
          rw [encode_cons, hset h (Or.inr hh), encode_cons]
          cases hl : set l with
          | false => rfl
          | true =>
            have hlx : isHex l = false := by
              by_contra hne
              rw [hset l (Or.inr (by simpa using hne))] at hl
              exact absurd hl (by decide)
            simp [startsEscape, escape, hlx, show isHex 37 = false by decide]
      · have hx : isHex h = false := by simpa using hh
        have hr : startsEscape (37 :: h :: bs) = false := by
          cases bs <;> simp [startsEscape, hx]
        rw [hr, encode_cons]
        cases hs : set h with
        | true => simp [startsEscape, escape, show isHex 37 = false by decide]
        | false =>
          show startsEscape (37 :: h :: encode set bs) = false
          cases encode set bs <;> simp [startsEscape, hx]
  · rw [startsEscape_cons_of_ne hb, startsEscape_cons_of_ne hb]

/-- **Escaping does not change what is read.** -/
theorem decode_encode {set : UInt8 → Bool} (hset : Spares set) (bs : List UInt8) :
    decode (encode set bs) = decode bs := by
  fun_induction decode bs with
  | case1 b h l rest hs ih =>
    have hx : (b = 37 ∧ isHex h = true) ∧ isHex l = true := by simpa [startsEscape] using hs
    rw [encode_cons, encode_cons, encode_cons, hset b (Or.inl hx.1.1), hset h (Or.inr hx.1.2),
      hset l (Or.inr hx.2)]
    show decode (b :: h :: l :: encode set rest) = _
    rw [decode_of_startsEscape (by exact hs), ih]
  | case2 b h l rest hs ih =>
    rw [encode_cons]
    cases hb : set b with
    | true =>
      show decode (escape b ++ encode set (h :: l :: rest)) = _
      rw [decode_escape_append, ih]
    | false =>
      show decode (b :: encode set (h :: l :: rest)) = _
      rw [decode_cons (by rw [startsEscape_encode hset]; simpa using hs), ih]
  | case3 bs hbs =>
    induction bs with
    | nil => rfl
    | cons b bs ih =>
      have hrest : decode (encode set bs) = bs := by
        refine ih (fun c h l rest hc => ?_)
        exact hbs b c h (l :: rest) (by rw [hc])
      have hs : startsEscape (b :: bs) = false := by
        match bs, hbs with
        | [], _ => rfl
        | [_], _ => rfl
        | h :: l :: rest, hbs => exact (hbs b h l rest rfl).elim
      rw [encode_cons]
      cases hb : set b with
      | true =>
        show decode (escape b ++ encode set bs) = _
        rw [decode_escape_append, hrest]
      | false =>
        show decode (b :: encode set bs) = _
        rw [decode_cons (by rw [startsEscape_encode hset, hs]), hrest]

/-- No escape reaches over a slash. -/
theorem decode_append_slash (bs cs : List UInt8) :
    decode (bs ++ 47 :: cs) = decode bs ++ 47 :: decode cs := by
  fun_induction decode bs with
  | case1 b h l rest hs ih =>
    show decode (b :: h :: l :: (rest ++ 47 :: cs)) = _
    rw [decode_of_startsEscape (by exact hs), ih]
    rfl
  | case2 b h l rest hs ih =>
    show decode (b :: h :: l :: (rest ++ 47 :: cs)) = _
    rw [decode_cons (show startsEscape (b :: h :: l :: (rest ++ 47 :: cs)) = false from
      Bool.eq_false_iff.mpr hs)]
    exact congrArg (b :: ·) ih
  | case3 bs hbs =>
    have hslash : decode (47 :: cs) = 47 :: decode cs :=
      decode_cons (startsEscape_cons_of_ne (by decide) cs)
    match bs, hbs with
    | [], _ => exact hslash
    | [b], _ =>
      have hs : startsEscape (b :: 47 :: cs) = false := by
        cases cs <;> simp [startsEscape, show isHex 47 = false by decide]
      show decode (b :: 47 :: cs) = _
      rw [decode_cons hs, hslash]
      rfl
    | [b, h], _ =>
      have hs : startsEscape (b :: h :: 47 :: cs) = false := by
        simp [startsEscape, show isHex 47 = false by decide]
      have hs' : startsEscape (h :: 47 :: cs) = false := by
        cases cs <;> simp [startsEscape, show isHex 47 = false by decide]
      show decode (b :: h :: 47 :: cs) = _
      rw [decode_cons hs, decode_cons hs', hslash]
      rfl
    | b :: h :: l :: rest, hbs => exact (hbs b h l rest rfl).elim

end Percent

/-! ## Reading a URL -/

/-- A URL that was read, as it is sent. -/
structure SpecialUrl where
  scheme : List UInt8
  authority : List UInt8
  path : List UInt8
  query : Option (List UInt8)
deriving DecidableEq, Repr

namespace SpecialUrl

/-- A control byte or a blank, dropped at both ends. -/
def isBlank (b : UInt8) : Bool := b ≤ 32

/-- What is dropped anywhere: a tab, a line feed, a carriage return. -/
def isBreak (b : UInt8) : Bool := b == 9 || b == 10 || b == 13

/-- The input without the blanks around it and the breaks in it. -/
def clean (input : List UInt8) : List UInt8 :=
  ((input.dropWhile isBlank).rdropWhile isBlank).filter (!isBreak ·)

/-- A slash or a backslash: the same to a special scheme. -/
def isSlash (b : UInt8) : Bool := b == 47 || b == 92

/-- What ends a path. -/
def endsPath (b : UInt8) : Bool := b == 63 || b == 35

/-- What ends an authority. -/
def endsAuthority (b : UInt8) : Bool := isSlash b || endsPath b

/-- A letter, as a scheme begins. -/
def isLetter (b : UInt8) : Bool := (65 ≤ b && b ≤ 90) || (97 ≤ b && b ≤ 122)

/-- What a scheme is made of: letters, digits, a plus, a minus, a dot. -/
def isSchemeByte (b : UInt8) : Bool :=
  isLetter b || (48 ≤ b && b ≤ 57) || b == 43 || b == 45 || b == 46

def toLower (b : UInt8) : UInt8 := if 65 ≤ b && b ≤ 90 then b + 32 else b

/-- `http` or `https`. -/
def isSpecial (scheme : List UInt8) : Bool :=
  scheme == [104, 116, 116, 112] || scheme == [104, 116, 116, 112, 115]

/-- The scheme, and what stands behind its colon. -/
def splitScheme (s : List UInt8) : Option (List UInt8 × List UInt8) :=
  match s.dropWhile isSchemeByte with
  | 58 :: rest =>
    let scheme := (s.takeWhile isSchemeByte).map toLower
    if (s.head?.map isLetter).getD false && isSpecial scheme then some (scheme, rest) else none
  | _ => none

/-- The scheme, the authority, and what stands behind it; any number of
slashes comes before the authority. -/
def splitAuthority (s : List UInt8) : Option (List UInt8 × List UInt8 × List UInt8) :=
  (splitScheme s).map fun p =>
    let behind := p.2.dropWhile isSlash
    (p.1, behind.takeWhile (!endsAuthority ·), behind.dropWhile (!endsAuthority ·))

/-- What the path is read from. -/
def pathInput (tail : List UInt8) : List UInt8 := tail.takeWhile (!endsPath ·)

/-- A backslash in a path is a slash. -/
def toSlash (b : UInt8) : UInt8 := if b = 92 then 47 else b

/-- The segments of a path, the slash before the first one left out. -/
def segments (input : List UInt8) : List (List UInt8) := ((input.map toSlash).drop 1).splitOn 47

/-- `.`, also escaped. -/
def isSingleDot (s : List UInt8) : Bool :=
  s.map toLower == [46] || s.map toLower == [37, 50, 101]

/-- `..`, also with either dot escaped. -/
def isDoubleDot (s : List UInt8) : Bool :=
  s.map toLower == [46, 46] || s.map toLower == [46, 37, 50, 101] ||
    s.map toLower == [37, 50, 101, 46] || s.map toLower == [37, 50, 101, 37, 50, 101]

/-- A segment that says where to go. -/
def isDots (s : List UInt8) : Bool := isDoubleDot s || isSingleDot s

/-- A segment before the last: what was walked so far is at its other end first. -/
def pushSegment (walked : List (List UInt8)) (s : List UInt8) : List (List UInt8) :=
  if isDoubleDot s then walked.tail else if isSingleDot s then walked else s :: walked

/-- The last segment: one that says where to go leaves an empty one. -/
def pushLast (walked : List (List UInt8)) (s : List UInt8) : List (List UInt8) :=
  if isDoubleDot s then [] :: walked.tail else if isSingleDot s then [] :: walked
  else s :: walked

/-- The walk along the segments. -/
def walk (walked : List (List UInt8)) : List (List UInt8) → List (List UInt8)
  | [] => walked.reverse
  | [s] => (pushLast walked s).reverse
  | s :: t :: rest => walk (pushSegment walked s) (t :: rest)

/-- What may not stand in a path: controls, blanks, what is not ASCII, and
a few marks. -/
def pathSet (b : UInt8) : Bool :=
  b ≤ 32 || 126 < b || b == 34 || b == 35 || b == 60 || b == 62 || b == 63 || b == 94 ||
    b == 96 || b == 123 || b == 125

/-- What may not stand in a query of a special scheme. -/
def querySet (b : UInt8) : Bool :=
  b ≤ 32 || 126 < b || b == 34 || b == 35 || b == 39 || b == 60 || b == 62

/-- Segments as a path. -/
def serialise (segs : List (List UInt8)) : List UInt8 := segs.flatMap (47 :: ·)

/-- The path behind an authority. -/
def pathOf (tail : List UInt8) : List UInt8 :=
  serialise ((walk [] (segments (pathInput tail))).map (Percent.encode pathSet))

/-- The query behind an authority: from the first `?`, if no `#` comes
before it, to the first `#`. -/
def queryOf (tail : List UInt8) : Option (List UInt8) :=
  match tail.dropWhile (!endsPath ·) with
  | 63 :: rest => some (Percent.encode querySet (rest.takeWhile (· != 35)))
  | _ => none

/-- A text read as a URL. -/
def parse (accepts : List UInt8 → Bool) (input : List UInt8) : Option SpecialUrl :=
  match splitAuthority (clean input) with
  | some (scheme, authority, tail) =>
    if authority != [] && accepts authority then
      some ⟨scheme, authority, pathOf tail, queryOf tail⟩
    else none
  | none => none

/-! ## The walk along the segments -/

theorem serialise_append (segs more : List (List UInt8)) :
    serialise (segs ++ more) = serialise segs ++ serialise more := List.flatMap_append

theorem serialise_cons (s : List UInt8) (segs : List (List UInt8)) :
    serialise (s :: segs) = 47 :: (s ++ serialise segs) := rfl

theorem length_serialise_reverse (segs : List (List UInt8)) :
    (serialise segs.reverse).length = (serialise segs).length := by
  unfold serialise
  rw [List.length_flatMap, List.length_flatMap, List.map_reverse, List.sum_reverse]

theorem length_serialise_tail_le (segs : List (List UInt8)) :
    (serialise segs.tail).length ≤ (serialise segs).length := by
  cases segs with
  | nil => exact Nat.le_refl _
  | cons s segs =>
    rw [serialise_cons, List.tail_cons, List.length_cons, List.length_append]
    omega

theorem length_pos_of_isDots {s : List UInt8} (h : isDots s = true) : 0 < s.length := by
  cases s with
  | nil => exact absurd h (by decide)
  | cons b s => exact Nat.succ_pos _

theorem pushSegment_of_not_isDots {s : List UInt8} (h : isDots s = false)
    (walked : List (List UInt8)) : pushSegment walked s = s :: walked := by
  have hd : isDoubleDot s = false ∧ isSingleDot s = false := by simpa [isDots] using h
  simp [pushSegment, hd.1, hd.2]

theorem pushLast_of_not_isDots {s : List UInt8} (h : isDots s = false)
    (walked : List (List UInt8)) : pushLast walked s = s :: walked := by
  have hd : isDoubleDot s = false ∧ isSingleDot s = false := by simpa [isDots] using h
  simp [pushLast, hd.1, hd.2]

theorem length_pushSegment_lt {s : List UInt8} (h : isDots s = true)
    (walked : List (List UInt8)) :
    (serialise (pushSegment walked s)).length < (serialise (s :: walked)).length := by
  have htail := length_serialise_tail_le walked
  rw [serialise_cons, List.length_cons, List.length_append]
  unfold pushSegment
  split_ifs with hd hs
  · omega
  · omega
  · simp [isDots, hd, hs] at h

theorem length_pushLast_lt {s : List UInt8} (h : isDots s = true)
    (walked : List (List UInt8)) :
    (serialise (pushLast walked s)).length < (serialise (s :: walked)).length := by
  have htail := length_serialise_tail_le walked
  have hpos := length_pos_of_isDots h
  rw [serialise_cons, List.length_cons, List.length_append]
  unfold pushLast
  split_ifs with hd hs
  · rw [serialise_cons, List.length_cons, List.length_append, List.length_nil]
    omega
  · rw [serialise_cons, List.length_cons, List.length_append, List.length_nil]
    omega
  · simp [isDots, hd, hs] at h

theorem length_pushSegment_le (walked : List (List UInt8)) (s : List UInt8) :
    (serialise (pushSegment walked s)).length ≤ (serialise (s :: walked)).length := by
  cases h : isDots s with
  | true => exact Nat.le_of_lt (length_pushSegment_lt h walked)
  | false => rw [pushSegment_of_not_isDots h]

/-- **A walk makes nothing longer.** -/
theorem length_walk_le (walked segs : List (List UInt8)) :
    (serialise (walk walked segs)).length
      ≤ (serialise walked).length + (serialise segs).length := by
  fun_induction walk walked segs with
  | case1 walked =>
    rw [length_serialise_reverse]
    exact Nat.le_add_right _ _
  | case2 walked s =>
    rw [length_serialise_reverse]
    cases h : isDots s with
    | true =>
      have hlt := length_pushLast_lt h walked
      rw [serialise_cons, List.length_cons, List.length_append] at hlt ⊢
      simp only [serialise, List.flatMap_nil, List.length_nil] at hlt ⊢
      omega
    | false =>
      rw [pushLast_of_not_isDots h, serialise_cons, serialise_cons]
      simp only [List.length_cons, List.length_append, serialise, List.flatMap_nil,
        List.length_nil]
      omega
  | case3 walked s t rest ih =>
    have hle := length_pushSegment_le walked s
    rw [serialise_cons, List.length_cons, List.length_append] at hle
    rw [serialise_cons s, List.length_cons, List.length_append]
    omega

/-- Where to go is never worth its length. -/
theorem length_walk_lt {walked segs : List (List UInt8)} (h : ∃ s ∈ segs, isDots s = true) :
    (serialise (walk walked segs)).length
      < (serialise walked).length + (serialise segs).length := by
  fun_induction walk walked segs with
  | case1 walked => simp at h
  | case2 walked s =>
    have hs : isDots s = true := by simpa using h
    have hlt := length_pushLast_lt hs walked
    rw [length_serialise_reverse]
    rw [serialise_cons, List.length_cons, List.length_append] at hlt ⊢
    simp only [serialise, List.flatMap_nil, List.length_nil] at hlt ⊢
    omega
  | case3 walked s t rest ih =>
    cases hs : isDots s with
    | true =>
      have hlt := length_pushSegment_lt hs walked
      have hle := length_walk_le (pushSegment walked s) (t :: rest)
      rw [serialise_cons, List.length_cons, List.length_append] at hlt
      rw [serialise_cons s, List.length_cons, List.length_append]
      omega
    | false =>
      obtain ⟨d, hd, hdots⟩ := h
      have hmem : d ∈ t :: rest := by
        refine (List.mem_cons.mp hd).resolve_left (fun hds => ?_)
        rw [hds, hs] at hdots
        exact absurd hdots (by decide)
      have hlt := ih ⟨d, hmem, hdots⟩
      have hle := length_pushSegment_le walked s
      rw [serialise_cons, List.length_cons, List.length_append] at hle
      rw [serialise_cons s, List.length_cons, List.length_append]
      omega

theorem walk_of_not_isDots {walked segs : List (List UInt8)}
    (h : ∀ s ∈ segs, isDots s = false) : walk walked segs = walked.reverse ++ segs := by
  fun_induction walk walked segs with
  | case1 walked => exact (List.append_nil _).symm
  | case2 walked s =>
    rw [pushLast_of_not_isDots (h s List.mem_cons_self), List.reverse_cons]
  | case3 walked s t rest ih =>
    rw [ih (fun d hd => h d (List.mem_cons_of_mem _ hd)),
      pushSegment_of_not_isDots (h s List.mem_cons_self), List.reverse_cons, List.append_assoc]
    rfl

/-- Segments before others are walked first. -/
theorem walk_append (walked segs : List (List UInt8)) {more : List (List UInt8)}
    (hmore : more ≠ []) :
    walk walked (segs ++ more) = walk (segs.foldl pushSegment walked) more := by
  induction segs generalizing walked with
  | nil => rfl
  | cons s segs ih =>
    obtain ⟨t, rest, hrest⟩ := List.exists_cons_of_ne_nil
      (show segs ++ more ≠ [] from List.append_ne_nil_of_right_ne_nil _ hmore)
    rw [List.cons_append, List.foldl_cons, ← ih, hrest]
    rfl

/-! ## A text behind a base -/

/-- What the base of an input comes to. -/
def lead (base : List UInt8) : List UInt8 := (base.dropWhile isBlank).filter (!isBreak ·)

/-- What the end of an input comes to. -/
def trail (key : List UInt8) : List UInt8 := (key.rdropWhile isBlank).filter (!isBreak ·)

/-- The segments that are left of the base when those of the key begin. -/
def walkedBefore (tail : List UInt8) : List (List UInt8) :=
  (if tail = [] then [] else segments tail).foldl pushSegment []

/-- Whether nothing but an origin is left of a base: a scheme, an authority,
and a path, if any, that walks back to where it began. -/
def isOrigin (base : List UInt8) : Bool :=
  match splitAuthority (lead base) with
  | some (_, authority, tail) =>
    authority != [] && tail.all (!endsPath ·) && walkedBefore tail == []
  | none => false

/-- The server sees the key behind a slash, and no query. -/
def AsksFor (u : SpecialUrl) (key : List UInt8) : Prop :=
  Percent.decode u.path = 47 :: key ∧ u.query = none

/-- A text that reading it as a path does not change. -/
structure Plain (key : List UInt8) : Prop where
  /-- Nothing that ends the path, is dropped, or becomes a slash. -/
  keeps : ∀ b ∈ key, endsPath b = false ∧ isBreak b = false ∧ b ≠ 92
  /-- No blank at its end. -/
  ends : key.rdropWhile isBlank = key
  /-- No segment that says where to go. -/
  stays : ∀ s ∈ key.splitOn 47, isDots s = false
  /-- No escape. -/
  literal : Percent.hasEscape key = false

section Stop

variable {α : Type*} {p : α → Bool} {a : α}

theorem takeWhile_append_stop (ha : p a = false) (l m : List α) :
    (l ++ a :: m).takeWhile p = l.takeWhile p := by
  induction l with
  | nil => simp [ha]
  | cons b l ih => cases hb : p b <;> simp [hb, ih]

theorem dropWhile_append_stop (ha : p a = false) (l m : List α) :
    (l ++ a :: m).dropWhile p = l.dropWhile p ++ a :: m := by
  induction l with
  | nil => simp [ha]
  | cons b l ih => cases hb : p b <;> simp [hb, ih]

theorem rdropWhile_append_stop (ha : p a = false) (l m : List α) :
    (l ++ a :: m).rdropWhile p = l ++ a :: m.rdropWhile p := by
  unfold List.rdropWhile
  rw [List.reverse_append, List.reverse_cons, List.append_assoc, List.singleton_append,
    dropWhile_append_stop ha, List.reverse_append, List.reverse_cons, List.reverse_reverse,
    List.append_assoc, List.singleton_append]

end Stop

theorem clean_append_slash (base key : List UInt8) :
    clean (base ++ 47 :: key) = lead base ++ 47 :: trail key := by
  unfold clean lead trail
  rw [dropWhile_append_stop (by decide), rdropWhile_append_stop (by decide),
    List.filter_append, List.filter_cons_of_pos (by decide)]

theorem splitScheme_append_slash (base key : List UInt8) :
    splitScheme (base ++ 47 :: key)
      = (splitScheme base).map fun p => (p.1, p.2 ++ 47 :: key) := by
  cases base with
  | nil => rfl
  | cons b base =>
    unfold splitScheme
    rw [dropWhile_append_stop (by decide), takeWhile_append_stop (by decide), List.cons_append,
      List.head?_cons, List.head?_cons]
    match (b :: base).dropWhile isSchemeByte with
    | [] => rfl
    | c :: rest =>
      by_cases hc : c = 58
      · subst hc
        simp only [List.cons_append]
        split_ifs <;> rfl
      · simp [hc]

/-- The slashes before an authority go on in what stands behind the base. -/
theorem splitAuthority_append_slash (base key : List UInt8) :
    splitAuthority (base ++ 47 :: key) = (splitAuthority base).map fun p =>
      if p.2.1 = [] ∧ p.2.2 = [] then
        (p.1, (key.dropWhile isSlash).takeWhile (!endsAuthority ·),
          (key.dropWhile isSlash).dropWhile (!endsAuthority ·))
      else (p.1, p.2.1, p.2.2 ++ 47 :: key) := by
  unfold splitAuthority
  rw [splitScheme_append_slash]
  cases splitScheme base with
  | none => rfl
  | some p =>
    simp only [Option.map_some, Option.some.injEq]
    by_cases hbehind : p.2.dropWhile isSlash = []
    · have hdrop : (p.2 ++ 47 :: key).dropWhile isSlash = key.dropWhile isSlash := by
        rw [List.dropWhile_append, hbehind]
        rfl
      rw [hdrop, hbehind]
      rfl
    · have hdrop : (p.2 ++ 47 :: key).dropWhile isSlash = p.2.dropWhile isSlash ++ 47 :: key := by
        rw [List.dropWhile_append, if_neg (by simpa using hbehind)]
      have hne : ¬ ((p.2.dropWhile isSlash).takeWhile (!endsAuthority ·) = [] ∧
          (p.2.dropWhile isSlash).dropWhile (!endsAuthority ·) = []) := by
        rintro ⟨htake, hrest⟩
        have hwhole := List.takeWhile_append_dropWhile (p := (!endsAuthority ·))
          (l := p.2.dropWhile isSlash)
        rw [htake, hrest] at hwhole
        exact hbehind hwhole.symm
      rw [hdrop, if_neg hne, takeWhile_append_stop (by decide), dropWhile_append_stop (by decide)]

theorem segments_append_slash (tail key : List UInt8) :
    segments (tail ++ 47 :: key)
      = (if tail = [] then [] else segments tail) ++ (key.map toSlash).splitOn 47 := by
  cases tail with
  | nil => rfl
  | cons c tail =>
    rw [if_neg (List.cons_ne_nil c tail)]
    show ((tail ++ 47 :: key).map toSlash).splitOn 47 = (tail.map toSlash).splitOn 47 ++ _
    rw [List.map_append, List.map_cons, show toSlash 47 = 47 from rfl,
      List.splitOn_append_cons_self]

/-- **The path behind a base**: what is left of the base, and then the walk
along the key. -/
theorem pathOf_append_slash {tail : List UInt8} (htail : ∀ b ∈ tail, endsPath b = false)
    (key : List UInt8) :
    pathOf (tail ++ 47 :: key) = serialise ((walk (walkedBefore tail)
      (((pathInput key).map toSlash).splitOn 47)).map (Percent.encode pathSet)) := by
  unfold pathOf walkedBefore
  have hinput : pathInput (tail ++ 47 :: key) = tail ++ 47 :: pathInput key := by
    unfold pathInput
    rw [List.takeWhile_append_of_pos (fun b hb => by simp [htail b hb]),
      List.takeWhile_cons_of_pos (by decide)]
  rw [hinput, segments_append_slash, walk_append _ _ (List.splitOn_ne_nil _ _)]

theorem queryOf_append_slash {tail : List UInt8} (htail : ∀ b ∈ tail, endsPath b = false)
    (key : List UInt8) : queryOf (tail ++ 47 :: key) = queryOf key := by
  unfold queryOf
  rw [List.dropWhile_append_of_pos (fun b hb => by simp [htail b hb]),
    List.dropWhile_cons_of_pos (by decide)]

/-- A path is its segments behind slashes. -/
theorem serialise_splitOn (key : List UInt8) : serialise (key.splitOn 47) = 47 :: key := by
  induction key with
  | nil => rfl
  | cons b key ih =>
    rw [List.splitOn_cons_eq_if_modifyHead]
    by_cases hb : b = 47
    · subst hb
      rw [if_pos (by decide), serialise_cons, ih]
      rfl
    · rw [if_neg (by simpa using hb)]
      obtain ⟨s, segs, hs⟩ := List.exists_cons_of_ne_nil (List.splitOn_ne_nil 47 key)
      rw [hs, serialise_cons] at ih
      rw [hs, List.modifyHead_cons, serialise_cons, List.cons_append, (List.cons.inj ih).2]

theorem spares_pathSet : Percent.Spares pathSet := by
  have hall : ∀ n < 256, UInt8.ofNat n = 37 ∨ Percent.isHex (UInt8.ofNat n) = true →
      pathSet (UInt8.ofNat n) = false := by decide +kernel
  intro b hb
  have hb' := hall b.toNat (UInt8.toNat_lt b)
  rw [UInt8.ofNat_toNat] at hb'
  exact hb' hb

theorem serialise_map_encode (segs : List (List UInt8)) :
    serialise (segs.map (Percent.encode pathSet)) = Percent.encode pathSet (serialise segs) := by
  induction segs with
  | nil => rfl
  | cons s segs ih =>
    rw [List.map_cons, serialise_cons, serialise_cons, ih, Percent.encode_cons,
      Percent.encode_append]
    rfl

theorem decode_serialise_encode (segs : List (List UInt8)) :
    Percent.decode (serialise (segs.map (Percent.encode pathSet)))
      = Percent.decode (serialise segs) := by
  rw [serialise_map_encode, Percent.decode_encode spares_pathSet]

theorem map_toSlash_eq_self_iff {key : List UInt8} : key.map toSlash = key ↔ ∀ b ∈ key, b ≠ 92 := by
  induction key with
  | nil => simp
  | cons b key ih =>
    rw [List.map_cons, List.cons.injEq, ih, List.forall_mem_cons]
    refine and_congr_left' ⟨fun h hb => ?_, fun h => if_neg h⟩
    rw [hb] at h
    exact absurd h (by decide)

theorem pathInput_eq_self_iff {key : List UInt8} :
    pathInput key = key ↔ ∀ b ∈ key, endsPath b = false := by
  unfold pathInput
  rw [List.takeWhile_eq_self_iff]
  simp

theorem length_pathInput_le (key : List UInt8) : (pathInput key).length ≤ key.length :=
  (List.takeWhile_prefix _).length_le

theorem length_trail_le (key : List UInt8) : (trail key).length ≤ key.length :=
  (List.length_filter_le _ _).trans (List.rdropWhile_prefix _ _).length_le

namespace Plain

variable {key : List UInt8} (h : Plain key)
include h

theorem trail_eq : trail key = key := by
  unfold trail
  rw [h.ends, List.filter_eq_self]
  intro b hb
  simp [(h.keeps b hb).2.1]

theorem pathInput_eq : pathInput key = key :=
  pathInput_eq_self_iff.mpr fun b hb => (h.keeps b hb).1

theorem map_toSlash_eq : key.map toSlash = key :=
  map_toSlash_eq_self_iff.mpr fun b hb => (h.keeps b hb).2.2

theorem queryOf_eq : queryOf key = none := by
  unfold queryOf
  rw [List.dropWhile_eq_nil_iff.mpr (fun b hb => by simp [(h.keeps b hb).1])]

/-- A plain text is read as what is left of the base, and itself. -/
theorem decode_pathOf {tail : List UInt8} (htail : ∀ b ∈ tail, endsPath b = false) :
    Percent.decode (pathOf (tail ++ 47 :: trail key))
      = Percent.decode (serialise (walkedBefore tail).reverse) ++ 47 :: key := by
  rw [pathOf_append_slash htail, decode_serialise_encode, h.trail_eq, h.pathInput_eq,
    h.map_toSlash_eq, walk_of_not_isDots h.stays, serialise_append, serialise_splitOn,
    Percent.decode_append_slash, Percent.decode_eq_self h.literal]

end Plain

/-- What is read of a path is no longer than the path. -/
theorem length_decode_walk_le (path : List UInt8) :
    (Percent.decode (serialise (walk [] (path.splitOn 47)))).length ≤ path.length + 1 := by
  calc (Percent.decode (serialise (walk [] (path.splitOn 47)))).length
      ≤ (serialise (walk [] (path.splitOn 47))).length := Percent.length_decode_le _
    _ ≤ 0 + (serialise (path.splitOn 47)).length := length_walk_le [] _
    _ = path.length + 1 := by rw [Nat.zero_add, serialise_splitOn, List.length_cons]

/-- As long as the path it is only if there was nothing to walk and nothing
to undo; it is the path then. -/
theorem decode_walk_eq {path : List UInt8}
    (h : (Percent.decode (serialise (walk [] (path.splitOn 47)))).length = path.length + 1) :
    (∀ s ∈ path.splitOn 47, isDots s = false) ∧ Percent.hasEscape (47 :: path) = false ∧
      Percent.decode (serialise (walk [] (path.splitOn 47))) = 47 :: path := by
  have hdots : ∀ s ∈ path.splitOn 47, isDots s = false := by
    by_contra hne
    push Not at hne
    obtain ⟨s, hs, hsd⟩ := hne
    have hlt := @length_walk_lt [] _ ⟨s, hs, by simpa using hsd⟩
    have hle := Percent.length_decode_le (serialise (walk [] (path.splitOn 47)))
    rw [serialise_splitOn, List.length_cons] at hlt
    have hnil : (serialise []).length = 0 := rfl
    omega
  rw [walk_of_not_isDots hdots, List.reverse_nil, List.nil_append, serialise_splitOn] at h ⊢
  have hescape : Percent.hasEscape (47 :: path) = false :=
    Percent.length_decode_eq_iff.mp (by rw [h, List.length_cons])
  exact ⟨hdots, hescape, Percent.decode_eq_self hescape⟩

/-- **A text is read as itself only if it is plain**: what is read of it is
no longer than any stage on the way, and so each stage is the one before. -/
theorem plain_of_decode_pathOf {tail key : List UInt8} (htail : ∀ b ∈ tail, endsPath b = false)
    (hwalked : walkedBefore tail = [])
    (h : Percent.decode (pathOf (tail ++ 47 :: trail key)) = 47 :: key) : Plain key := by
  rw [pathOf_append_slash htail, decode_serialise_encode, hwalked] at h
  have hdecode := length_decode_walk_le ((pathInput (trail key)).map toSlash)
  have hinput := length_pathInput_le (trail key)
  have hfilter : (trail key).length ≤ (key.rdropWhile isBlank).length := List.length_filter_le _ _
  have hblank := (List.rdropWhile_prefix isBlank key).length_le
  rw [h, List.length_cons, List.length_map] at hdecode
  have hends : key.rdropWhile isBlank = key :=
    (List.rdropWhile_prefix _ _).eq_of_length (by omega)
  have hkeep := List.length_filter_eq_length_iff.mp
    (show (trail key).length = (key.rdropWhile isBlank).length by omega)
  have htrail : trail key = key := by
    unfold trail
    rw [List.filter_eq_self.mpr hkeep, hends]
  have hpath : pathInput key = key :=
    (List.takeWhile_prefix _).eq_of_length (show (pathInput key).length = key.length by
      rw [htrail] at hdecode
      have hle := length_pathInput_le key
      omega)
  rw [htrail, hpath] at h
  obtain ⟨hdots, hescape, hread⟩ := @decode_walk_eq (key.map toSlash) (by
    rw [h, List.length_cons, List.length_map])
  have hslash : key.map toSlash = key := (List.cons.inj (hread.symm.trans h)).2
  rw [hslash] at hdots hescape
  rw [hends] at hkeep
  have hliteral : Percent.startsEscape (47 :: key) = false ∧ Percent.hasEscape key = false := by
    simpa [Percent.hasEscape] using hescape
  exact ⟨fun b hb => ⟨pathInput_eq_self_iff.mp hpath b hb, by simpa using hkeep b hb,
    map_toSlash_eq_self_iff.mp hslash b hb⟩, hends, hdots, hliteral.2⟩

/-- A secure scheme and a host make an origin. -/
theorem isOrigin_https {host : List UInt8} (hhost : ∀ b ∈ host, endsAuthority b = false)
    (hne : host.filter (!isBreak ·) ≠ []) :
    isOrigin ([104, 116, 116, 112, 115, 58, 47, 47] ++ host) = true := by
  have hlead : lead ([104, 116, 116, 112, 115, 58, 47, 47] ++ host)
      = [104, 116, 116, 112, 115, 58, 47, 47] ++ host.filter (!isBreak ·) := rfl
  have hends : ∀ b ∈ host.filter (!isBreak ·), endsAuthority b = false :=
    fun b hb => hhost b (List.mem_of_mem_filter hb)
  have hstay : ∀ b ∈ host.filter (!isBreak ·), (!endsAuthority b) = true :=
    fun b hb => by rw [hends b hb]; rfl
  have hscheme : splitScheme ([104, 116, 116, 112, 115, 58, 47, 47] ++ host.filter (!isBreak ·))
      = some ([104, 116, 116, 112, 115], 47 :: 47 :: host.filter (!isBreak ·)) := rfl
  have hslash : (47 :: 47 :: host.filter (!isBreak ·)).dropWhile isSlash
      = host.filter (!isBreak ·) := by
    obtain ⟨b, rest, hb⟩ := List.exists_cons_of_ne_nil hne
    rw [hb] at hends ⊢
    have hb : isSlash b = false := (Bool.or_eq_false_iff.mp (hends b List.mem_cons_self)).1
    simp [hb, show isSlash 47 = true from rfl]
  have hauth : splitAuthority ([104, 116, 116, 112, 115, 58, 47, 47] ++ host.filter (!isBreak ·))
      = some ([104, 116, 116, 112, 115], host.filter (!isBreak ·), []) := by
    unfold splitAuthority
    rw [hscheme, Option.map_some]
    dsimp only
    rw [hslash, List.takeWhile_eq_self_iff.mpr hstay, List.dropWhile_eq_nil_iff.mpr hstay]
  unfold isOrigin
  rw [hlead, hauth]
  simp [hne, show walkedBefore [] = [] from rfl]

/-- How a base and a key make a URL: the base has an authority, or the
slashes run on and the key gives it up. -/
theorem parse_append_slash {accepts : List UInt8 → Bool} {base key : List UInt8} {u : SpecialUrl}
    (hu : parse accepts (base ++ 47 :: key) = some u) :
    ∃ scheme authority tail, splitAuthority (lead base) = some (scheme, authority, tail) ∧
      ((authority ≠ [] ∧ u = ⟨scheme, authority, pathOf (tail ++ 47 :: trail key),
          queryOf (tail ++ 47 :: trail key)⟩) ∨
        (authority = [] ∧ ∃ name rest, name ≠ [] ∧
          (trail key).dropWhile isSlash = name ++ rest ∧ u.path = pathOf rest)) := by
  unfold parse at hu
  rw [clean_append_slash, splitAuthority_append_slash] at hu
  cases hs : splitAuthority (lead base) with
  | none => rw [hs] at hu; exact nomatch hu
  | some p =>
    obtain ⟨scheme, authority, tail⟩ := p
    rw [hs] at hu
    refine ⟨scheme, authority, tail, rfl, ?_⟩
    simp only [Option.map_some] at hu
    by_cases hempty : authority = [] ∧ tail = []
    · simp only [hempty, and_self, if_true] at hu
      refine Or.inr ⟨hempty.1, _, _, ?_, (List.takeWhile_append_dropWhile
        (p := (!endsAuthority ·)) (l := (trail key).dropWhile isSlash)).symm, ?_⟩
      all_goals split_ifs at hu with hauth
      · simp only [Bool.and_eq_true, bne_iff_ne, ne_eq] at hauth
        exact hauth.1
      · rw [← Option.some.inj hu]
    · simp only [hempty, if_false] at hu
      split_ifs at hu with hauth
      simp only [Bool.and_eq_true, bne_iff_ne, ne_eq] at hauth
      exact Or.inl ⟨hauth.1, (Option.some.inj hu).symm⟩

/-- **Behind an origin, what is asked for is the text if and only if the
text is plain.** -/
theorem asksFor_iff_plain {accepts : List UInt8 → Bool} {base key : List UInt8} {u : SpecialUrl}
    (hbase : isOrigin base = true) (hu : parse accepts (base ++ 47 :: key) = some u) :
    u.AsksFor key ↔ Plain key := by
  obtain ⟨scheme, authority, tail, hs, hcases⟩ := parse_append_slash hu
  unfold isOrigin at hbase
  rw [hs] at hbase
  simp only [Bool.and_eq_true, bne_iff_ne, ne_eq, List.all_eq_true, Bool.not_eq_true',
    beq_iff_eq] at hbase
  obtain ⟨⟨hauth, htail⟩, hwalked⟩ := hbase
  obtain ⟨-, rfl⟩ := hcases.resolve_right (fun h => hauth h.1)
  refine ⟨fun h => plain_of_decode_pathOf htail hwalked h.1, fun h => ⟨?_, ?_⟩⟩
  · show Percent.decode (pathOf (tail ++ 47 :: trail key)) = 47 :: key
    rw [h.decode_pathOf htail, hwalked]
    rfl
  · show queryOf (tail ++ 47 :: trail key) = none
    rw [queryOf_append_slash htail, h.trail_eq, h.queryOf_eq]

theorem length_decode_pathOf_le (tail : List UInt8) :
    (Percent.decode (pathOf tail)).length ≤ tail.length - 1 + 1 := by
  unfold pathOf segments
  rw [decode_serialise_encode]
  have hdecode := length_decode_walk_le (((pathInput tail).map toSlash).drop 1)
  have hinput := length_pathInput_le tail
  rw [List.length_drop, List.length_map] at hdecode
  omega

theorem length_lead_le (base : List UInt8) : (lead base).length ≤ base.length :=
  (List.length_filter_le _ _).trans (List.dropWhile_suffix _).length_le

theorem length_of_splitScheme {s scheme rest : List UInt8}
    (h : splitScheme s = some (scheme, rest)) : rest.length < s.length := by
  have hwhole := (List.dropWhile_suffix (l := s) isSchemeByte).length_le
  unfold splitScheme at h
  split at h
  case h_1 more hmore =>
    dsimp only at h
    split_ifs at h
    rw [hmore, List.length_cons] at hwhole
    rw [Option.some.injEq, Prod.mk.injEq] at h
    rw [← h.2]
    omega
  case h_2 => exact nomatch h

/-- What stands behind the authority is part of the whole, and not all of it. -/
theorem length_tail_lt {s scheme authority tail : List UInt8}
    (h : splitAuthority s = some (scheme, authority, tail)) : tail.length < s.length := by
  unfold splitAuthority at h
  obtain ⟨⟨_, rest⟩, hscheme, hp⟩ := Option.map_eq_some_iff.mp h
  have hrest := length_of_splitScheme hscheme
  have hslash := (List.dropWhile_suffix (l := rest) isSlash).length_le
  have hend := (List.dropWhile_suffix (l := rest.dropWhile isSlash) (!endsAuthority ·)).length_le
  rw [Prod.mk.injEq, Prod.mk.injEq] at hp
  rw [hp.2.2] at hend
  omega

/-- What ends the path of the base leaves the key out. -/
theorem pathOf_append_of_endsPath {tail : List UInt8} (h : ∃ b ∈ tail, endsPath b = true)
    (more : List UInt8) : pathOf (tail ++ more) = pathOf tail := by
  obtain ⟨b, hb, hends⟩ := h
  have hne : ¬ (tail.takeWhile (!endsPath ·)).length = tail.length := by
    intro hlen
    have hall := List.takeWhile_eq_self_iff.mp ((List.takeWhile_prefix _).eq_of_length hlen)
    simpa [hends] using hall b hb
  unfold pathOf pathInput
  rw [List.takeWhile_append, if_neg hne]

/-- **Behind anything but an origin no plain text of its length is asked
for**: a query or a fragment of the base takes the text in, a path of the
base stands before it, an empty authority is taken from it. -/
theorem not_asksFor_of_not_isOrigin {accepts : List UInt8 → Bool} {base key : List UInt8}
    {u : SpecialUrl} (hbase : isOrigin base = false) (hkey : Plain key)
    (hlen : base.length ≤ key.length) (hu : parse accepts (base ++ 47 :: key) = some u) :
    ¬ u.AsksFor key := by
  obtain ⟨scheme, authority, tail, hs, ⟨hauth, rfl⟩ | ⟨-, name, rest, hname, hsplit, hpath⟩⟩ :=
    parse_append_slash hu
  · have hshort := (length_tail_lt hs).trans_le (length_lead_le base)
    rintro ⟨hdecode, -⟩
    change Percent.decode (pathOf (tail ++ 47 :: trail key)) = 47 :: key at hdecode
    by_cases htail : ∀ b ∈ tail, endsPath b = false
    · have hwalked : walkedBefore tail ≠ [] := by
        intro hw
        have hall : tail.all (!endsPath ·) = true := by simpa using htail
        simp [isOrigin, hs, hauth, hw, hall] at hbase
      rw [hkey.decode_pathOf htail] at hdecode
      have hnil := List.append_left_eq_self.mp hdecode
      obtain ⟨s, segs, hsegs⟩ := List.exists_cons_of_ne_nil
        (show (walkedBefore tail).reverse ≠ [] by simpa using hwalked)
      rw [hsegs, serialise_cons,
        Percent.decode_cons (Percent.startsEscape_cons_of_ne (by decide) _)] at hnil
      exact nomatch hnil
    · push Not at htail
      have hle := length_decode_pathOf_le tail
      rw [← pathOf_append_of_endsPath (by simpa using htail) (47 :: trail key), hdecode,
        List.length_cons] at hle
      omega
  · rintro ⟨hdecode, -⟩
    have hle := length_decode_pathOf_le rest
    have htrail := length_trail_le key
    have hslash := (List.dropWhile_suffix (l := trail key) isSlash).length_le
    have hpos := List.length_pos_of_ne_nil hname
    rw [← hpath, hdecode, List.length_cons] at hle
    rw [hsplit, List.length_append] at hslash
    omega

end SpecialUrl
