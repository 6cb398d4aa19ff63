import Aetelier.LeafIndex
import Mathlib.Tactic.IntervalCases

/-!
# The JSON of an index entry

The text `serde_json` writes for an index entry: one object, its fields in
the order of the declaration, no blanks; a quote, a backslash and the control
characters of a string escaped, everything else as it is. The reader below
takes exactly these texts – `serde_json` takes more, with blanks and in any
order of the fields – and it says where it stops, so that the text of an
entry is read off whatever follows it (`readEntry_append`). That no text of an
entry is a truncation of another one's is a consequence.
-/

namespace Json

/-- What follows the backslash in the short escape of a character, if it has
one. -/
def shortEscape (ch : Char) : Option Char :=
  if ch = '"' ∨ ch = '\\' then some ch
  else if ch = Char.ofNat 8 then some 'b'
  else if ch = Char.ofNat 9 then some 't'
  else if ch = Char.ofNat 10 then some 'n'
  else if ch = Char.ofNat 12 then some 'f'
  else if ch = Char.ofNat 13 then some 'r'
  else none

/-- The escape of a character inside a string. -/
def escape (ch : Char) : List Char :=
  match shortEscape ch with
  | some e => ['\\', e]
  | none =>
    if ch.toNat < 32 then
      ['\\', 'u', '0', '0', Nat.digitChar (ch.toNat / 16), Nat.digitChar (ch.toNat % 16)]
    else [ch]

/-- The characters of a string value, up to its closing quote. -/
def quoted (cs : List Char) : List Char := cs.flatMap escape ++ ['"']

/-- The value of a hexadecimal digit. -/
def hexValue (ch : Char) : ℕ :=
  if ch.isDigit then ch.toNat - 48 else ch.toNat - 87

/-- The character that follows a backslash stands for. -/
def unescaped (ch : Char) : Option Char :=
  if ch = '"' ∨ ch = '\\' then some ch
  else if ch = 'b' then some (Char.ofNat 8)
  else if ch = 't' then some (Char.ofNat 9)
  else if ch = 'n' then some (Char.ofNat 10)
  else if ch = 'f' then some (Char.ofNat 12)
  else if ch = 'r' then some (Char.ofNat 13)
  else none

/-- The first character of the rest of a string. -/
def readChar : List Char → Option (Char × List Char)
  | [] => none
  | ch :: rest =>
    if ch ≠ '\\' then some (ch, rest)
    else match rest with
      | 'u' :: '0' :: '0' :: a :: b :: tail =>
        some (Char.ofNat (16 * hexValue a + hexValue b), tail)
      | e :: tail => (unescaped e).map (fun x => (x, tail))
      | [] => none

/-- The rest of a string, and what follows it. -/
def readChars : ℕ → List Char → Option (List Char × List Char)
  | 0, _ => none
  | fuel + 1, cs =>
    if cs.head? = some '"' then some ([], cs.tail)
    else do
      let (ch, rest) ← readChar cs
      let (s, rest) ← readChars fuel rest
      some (ch :: s, rest)

/-- A short escape is undone, and is not taken for a long one. -/
theorem shortEscape_spec {ch e : Char} (h : shortEscape ch = some e) :
    unescaped e = some ch ∧ e ≠ 'u' ∧ 32 ≤ e.toNat := by
  unfold shortEscape at h
  split_ifs at h with h1 h2 h3 h4 h5 h6 <;> cases h
  · rcases h1 with rfl | rfl <;> decide
  · subst h2; decide
  · subst h3; decide
  · subst h4; decide
  · subst h5; decide
  · subst h6; decide

/-- A character without a short escape is neither a quote nor a backslash. -/
theorem ne_of_shortEscape_eq_none {ch : Char} (h : shortEscape ch = none) :
    ch ≠ '"' ∧ ch ≠ '\\' := by
  constructor <;> rintro rfl <;> exact absurd h (by decide)

/-- The escape of a character is its short one, its long one, or itself. -/
theorem escape_cases (ch : Char) :
    (∃ e, shortEscape ch = some e ∧ escape ch = ['\\', e])
      ∨ (ch.toNat < 32 ∧ escape ch
          = ['\\', 'u', '0', '0', Nat.digitChar (ch.toNat / 16), Nat.digitChar (ch.toNat % 16)])
      ∨ (ch ≠ '"' ∧ ch ≠ '\\' ∧ 32 ≤ ch.toNat ∧ escape ch = [ch]) := by
  unfold escape
  cases h : shortEscape ch with
  | some e => exact Or.inl ⟨e, rfl, rfl⟩
  | none =>
    obtain ⟨hq, hb⟩ := ne_of_shortEscape_eq_none h
    by_cases hlt : ch.toNat < 32
    · exact Or.inr (Or.inl ⟨hlt, if_pos hlt⟩)
    · exact Or.inr (Or.inr ⟨hq, hb, Nat.not_lt.mp hlt, if_neg hlt⟩)

theorem readChar_escape_append (ch : Char) (rest : List Char) :
    readChar (escape ch ++ rest) = some (ch, rest) := by
  rcases escape_cases ch with ⟨e, he, h⟩ | ⟨hlt, h⟩ | ⟨-, hb, -, h⟩
  · obtain ⟨hun, hu, -⟩ := shortEscape_spec he
    rw [h]
    show readChar ('\\' :: e :: rest) = _
    simp only [readChar, ne_eq, not_true_eq_false, if_false]
    split
    · next heq =>
      cases heq
      exact absurd rfl hu
    · next heq =>
      cases heq
      rw [hun]
      rfl
    · next heq => cases heq
  · rw [h]
    have hch : Char.ofNat ch.toNat = ch := Char.ofNat_toNat ch
    rw [← hch]
    generalize ch.toNat = n at hlt
    interval_cases n <;> rfl
  · rw [h]
    show readChar (ch :: rest) = _
    unfold readChar
    exact if_pos hb

theorem head?_escape_append_ne (ch : Char) (rest : List Char) :
    (escape ch ++ rest).head? ≠ some '"' := by
  rcases escape_cases ch with ⟨e, -, h⟩ | ⟨-, h⟩ | ⟨hq, -, -, h⟩
  · rw [h]; simp
  · rw [h]; simp
  · rw [h]; simpa using hq

/-- **A string is read off the text that begins with it.** -/
theorem readChars_quoted_append (cs rest : List Char) {fuel : ℕ} (h : cs.length < fuel) :
    readChars fuel (quoted cs ++ rest) = some (cs, rest) := by
  induction cs generalizing fuel with
  | nil =>
    obtain ⟨n, rfl⟩ := Nat.exists_eq_succ_of_ne_zero (Nat.ne_zero_of_lt h)
    rfl
  | cons ch cs ih =>
    obtain ⟨n, rfl⟩ := Nat.exists_eq_succ_of_ne_zero (Nat.ne_zero_of_lt h)
    have hcons : quoted (ch :: cs) ++ rest = escape ch ++ (quoted cs ++ rest) := by
      simp [quoted]
    rw [hcons, readChars, if_neg (head?_escape_append_ne ch _), readChar_escape_append]
    simp only [Option.bind_eq_bind, Option.bind_some, ih (Nat.lt_of_succ_lt_succ h)]

theorem length_lt_length_quoted (cs : List Char) : cs.length < (quoted cs).length := by
  have hpos : ∀ ch, 1 ≤ (escape ch).length := by
    intro ch
    rcases escape_cases ch with ⟨e, -, h⟩ | ⟨-, h⟩ | ⟨-, -, -, h⟩ <;> rw [h] <;> simp
  have hle : cs.length ≤ (cs.flatMap escape).length := by
    induction cs with
    | nil => exact Nat.le_refl _
    | cons ch cs ih =>
      rw [List.flatMap_cons, List.length_append, List.length_cons, Nat.add_comm]
      exact Nat.add_le_add (hpos ch) ih
  simpa [quoted] using Nat.lt_succ_of_le hle

/-- An escape is free of control characters. -/
theorem le_toNat_of_mem_escape {ch x : Char} (hx : x ∈ escape ch) : 32 ≤ x.toNat := by
  have hdigit : ∀ n < 16, 32 ≤ (Nat.digitChar n).toNat := by decide
  rcases escape_cases ch with ⟨e, he, h⟩ | ⟨hlt, h⟩ | ⟨-, -, hge, h⟩
  · rw [h] at hx
    simp only [List.mem_cons, List.not_mem_nil, or_false] at hx
    rcases hx with rfl | rfl
    · decide
    · exact (shortEscape_spec he).2.2
  · rw [h] at hx
    simp only [List.mem_cons, List.not_mem_nil, or_false] at hx
    rcases hx with rfl | rfl | rfl | rfl | rfl | rfl
    · decide
    · decide
    · decide
    · decide
    · exact hdigit _ (by omega)
    · exact hdigit _ (Nat.mod_lt _ (by decide))
  · rw [h, List.mem_singleton] at hx
    exact hx ▸ hge

/-- A string value is free of control characters. -/
theorem le_toNat_of_mem_quoted {cs : List Char} {x : Char} (hx : x ∈ quoted cs) :
    32 ≤ x.toNat := by
  rcases List.mem_append.mp hx with hx | hx
  · obtain ⟨ch, -, hx⟩ := List.mem_flatMap.mp hx
    exact le_toNat_of_mem_escape hx
  · rw [List.mem_singleton.mp hx]
    decide

/-! ## Readers -/

/-- A given text, at the beginning of another. -/
def readText (text : String) (cs : List Char) : Option (List Char) :=
  if text.toList <+: cs then some (cs.drop text.toList.length) else none

/-- The rest of a string value. -/
def readString (cs : List Char) : Option (String × List Char) :=
  (readChars (cs.length + 1) cs).map (fun r => (String.ofList r.1, r.2))

/-- An integer of 64 bits. -/
def readU64 (cs : List Char) : Option (UInt64 × List Char) :=
  let digits := cs.takeWhile Char.isDigit
  if digits.isEmpty || 2 ^ 64 ≤ Nat.ofDigitChars 10 digits 0 then none
  else some (UInt64.ofNat (Nat.ofDigitChars 10 digits 0), cs.dropWhile Char.isDigit)

@[simp] theorem readText_append (text : String) (rest : List Char) :
    readText text (text.toList ++ rest) = some rest := by
  unfold readText
  rw [if_pos (List.prefix_append _ _), List.drop_left]

@[simp] theorem readString_append (s : String) (rest : List Char) :
    readString (quoted s.toList ++ rest) = some (s, rest) := by
  have hfuel : s.toList.length < (quoted s.toList ++ rest).length + 1 := by
    have := length_lt_length_quoted s.toList
    rw [List.length_append]
    omega
  rw [readString, readChars_quoted_append _ _ hfuel, Option.map_some, String.ofList_toList]

/-- A number is read off a text in which no further digit follows it. -/
theorem readU64_append (n : UInt64) {rest : List Char} (h : ∀ d ∈ rest.head?, d.isDigit = false) :
    readU64 (Nat.toDigits 10 n.toNat ++ rest) = some (n, rest) := by
  have hdigits : ∀ d ∈ Nat.toDigits 10 n.toNat, d.isDigit = true := fun d hd =>
    Nat.isDigit_of_mem_toDigits (by decide) (by decide) hd
  have hrest : rest.takeWhile Char.isDigit = [] ∧ rest.dropWhile Char.isDigit = rest := by
    cases rest with
    | nil => exact ⟨rfl, rfl⟩
    | cons d rest =>
      have hd : d.isDigit = false := h d rfl
      exact ⟨List.takeWhile_cons_of_neg (by simp [hd]), List.dropWhile_cons_of_neg (by simp [hd])⟩
  unfold readU64
  rw [List.takeWhile_append_of_pos hdigits, List.dropWhile_append_of_pos hdigits, hrest.1, hrest.2,
    List.append_nil]
  have hne : (Nat.toDigits 10 n.toNat).isEmpty = false :=
    List.isEmpty_eq_false_iff.mpr Nat.toDigits_ne_nil
  have hlt : ¬ 2 ^ 64 ≤ n.toNat := Nat.not_le.mpr n.toNat_lt
  simp only [Nat.ofDigitChars_ten_toDigits, hne, hlt, decide_false, Bool.or_self,
    Bool.false_eq_true, if_false, UInt64.ofNat_toNat]

end Json

/-! ## The entry -/

namespace IndexEntry

/-- The text of an entry, character by character. -/
def chars (e : IndexEntry) : List Char :=
  "\x7b\"filename\":\"".toList ++ (Json.quoted e.filename.toList
    ++ (",\"sha256\":\"".toList ++ (Json.quoted e.sha256.toList
    ++ (",\"rows\":".toList ++ (Nat.toDigits 10 e.rows.toNat
    ++ (",\"t_min_us\":".toList ++ (Nat.toDigits 10 e.tMinUs.toNat
    ++ (",\"t_max_us\":".toList ++ (Nat.toDigits 10 e.tMaxUs.toNat
    ++ (",\"schema_id\":\"".toList ++ (Json.quoted e.schemaId.toList
    ++ "\x7d".toList)))))))))))

/-- The entry at the beginning of a text, and what follows it. -/
def readEntry (cs : List Char) : Option (IndexEntry × List Char) := do
  let cs ← Json.readText "\x7b\"filename\":\"" cs
  let (filename, cs) ← Json.readString cs
  let cs ← Json.readText ",\"sha256\":\"" cs
  let (sha256, cs) ← Json.readString cs
  let cs ← Json.readText ",\"rows\":" cs
  let (rows, cs) ← Json.readU64 cs
  let cs ← Json.readText ",\"t_min_us\":" cs
  let (tMinUs, cs) ← Json.readU64 cs
  let cs ← Json.readText ",\"t_max_us\":" cs
  let (tMaxUs, cs) ← Json.readU64 cs
  let cs ← Json.readText ",\"schema_id\":\"" cs
  let (schemaId, cs) ← Json.readString cs
  let cs ← Json.readText "\x7d" cs
  some (⟨filename, sha256, rows, tMinUs, tMaxUs, schemaId⟩, cs)

/-- A text that begins with a comma does not begin with a digit. -/
theorem head?_isDigit_eq_false {t : String} (ht : t.toList.head? = some ',') (rest : List Char) :
    ∀ d ∈ (t.toList ++ rest).head?, d.isDigit = false := by
  intro d hd
  rw [List.head?_append, ht] at hd
  obtain rfl := Option.some.inj hd
  rfl

/-- **The text of an entry is read off whatever it begins.** -/
theorem readEntry_append (e : IndexEntry) (rest : List Char) :
    readEntry (e.chars ++ rest) = some (e, rest) := by
  unfold readEntry chars
  simp only [List.append_assoc, Json.readText_append, Json.readString_append, Option.bind_eq_bind,
    Option.bind_some,
    Json.readU64_append _ (head?_isDigit_eq_false (t := ",\"t_min_us\":") rfl _),
    Json.readU64_append _ (head?_isDigit_eq_false (t := ",\"t_max_us\":") rfl _),
    Json.readU64_append _ (head?_isDigit_eq_false (t := ",\"schema_id\":\"") rfl _)]

/-- The text of an entry is free of control characters. -/
theorem le_toNat_of_mem_chars {e : IndexEntry} {x : Char} (hx : x ∈ e.chars) : 32 ≤ x.toNat := by
  have hdigits : ∀ {n : ℕ}, x ∈ Nat.toDigits 10 n → 32 ≤ x.toNat := by
    intro n hn
    have hd := Nat.isDigit_of_mem_toDigits (by decide) (by decide) hn
    exact le_trans (by decide) (Char.isDigit_iff_toNat.mp hd).1
  have hall : ["\x7b\"filename\":\"", ",\"sha256\":\"", ",\"rows\":", ",\"t_min_us\":",
      ",\"t_max_us\":", ",\"schema_id\":\"", "\x7d"].all
        (fun t => t.toList.all (fun y => 32 ≤ y.toNat)) = true := by decide
  have htexts : ∀ t ∈ ["\x7b\"filename\":\"", _, _, _, _, _, _], ∀ y ∈ t.toList, 32 ≤ y.toNat :=
    fun t ht y hy =>
      of_decide_eq_true (List.all_eq_true.mp (List.all_eq_true.mp hall t ht) y hy)
  unfold chars at hx
  simp only [List.mem_append] at hx
  rcases hx with h | h | h | h | h | h | h | h | h | h | h | h | h
  · exact htexts _ (by simp) x h
  · exact Json.le_toNat_of_mem_quoted h
  · exact htexts _ (by simp) x h
  · exact Json.le_toNat_of_mem_quoted h
  · exact htexts _ (by simp) x h
  · exact hdigits h
  · exact htexts _ (by simp) x h
  · exact hdigits h
  · exact htexts _ (by simp) x h
  · exact hdigits h
  · exact htexts _ (by simp) x h
  · exact Json.le_toNat_of_mem_quoted h
  · exact htexts _ (by simp) x h

/-- The entry a text is of. -/
def ofText (s : String) : Option IndexEntry :=
  (readEntry s.toList).bind (fun r => if r.1.chars = s.toList then some r.1 else none)

theorem ofText_eq_some_iff {s : String} {e : IndexEntry} :
    ofText s = some e ↔ e.chars = s.toList := by
  unfold ofText
  constructor
  · intro h
    obtain ⟨r, -, hr⟩ := Option.bind_eq_some_iff.mp h
    split at hr
    · next heq => exact Option.some.inj hr ▸ heq
    · cases hr
  · intro h
    rw [← h, ← List.append_nil e.chars, readEntry_append, Option.bind_some, List.append_nil,
      if_pos rfl]

/-- **The JSON of `serde_json`, as far as it writes it.** -/
def json : EntryCodec where
  render e := String.ofList e.chars
  parse := ofText
  parse_render e := ofText_eq_some_iff.mpr String.toList_ofList.symm
  plain_render e x hx := by
    rw [String.toList_ofList] at hx
    exact le_toNat_of_mem_chars hx
  head_render e := by
    rw [String.toList_ofList]
    rfl
  parse_truncated e s u h hu := by
    refine Option.eq_none_iff_forall_ne_some.mpr (fun e' he => hu ?_)
    -- the entry of the truncation is read off the text, with the rest left over
    have hchars : e'.chars ++ u.toList = e.chars ++ [] := by
      rw [ofText_eq_some_iff.mp he, ← String.toList_append, h, String.toList_ofList,
        List.append_nil]
    have hread := congrArg readEntry hchars
    rw [readEntry_append, readEntry_append] at hread
    exact String.toList_inj.mp (congrArg Prod.snd (Option.some.inj hread))

theorem parse_json : json.parse = ofText := rfl

theorem toList_render_json (e : IndexEntry) : (json.render e).toList = e.chars :=
  String.toList_ofList

/-- The text of an entry begins with a brace and a quotation mark. -/
theorem exists_chars_eq (e : IndexEntry) : ∃ rest, e.chars = '\x7b' :: '"' :: rest :=
  ⟨_, rfl⟩

end IndexEntry

/-! ## A line behind a torn one -/

namespace LeafIndex

/-- A line begins with the brace of its entry. -/
theorem take_one_entryLine (c : EntryCodec) (e : IndexEntry) :
    (entryLine c e).take 1 = Str.asBytes "\x7b" := by
  obtain ⟨l, hl⟩ := List.head?_eq_some_iff.mp (c.head_render e)
  unfold entryLine
  rw [Str.asBytes_eq_flatMap, hl, List.flatMap_cons, Str.asBytes_eq_flatMap]
  rfl

/-- **An entry behind a brace is not read.** -/
theorem readIndex_brace_entryLine (e : IndexEntry) :
    ∃ torn, readIndex IndexEntry.json
      (some (Str.asBytes "\x7b" ++ entryLine IndexEntry.json e)) = .ok ([], torn) := by
  have hplain : ∀ b ∈ Str.asBytes ("\x7b" ++ IndexEntry.json.render e), 32 ≤ b.toNat := by
    intro b hb
    refine Str.le_toNat_of_mem_asBytes (fun x hx => ?_) hb
    rw [String.toList_append] at hx
    rcases List.mem_append.mp hx with hx | hx
    · rw [List.mem_singleton.mp hx]
      decide
    · exact IndexEntry.json.plain_render e x hx
  have hline : LineLog.lines (Str.asBytes "\x7b" ++ entryLine IndexEntry.json e)
      = [Str.asBytes ("\x7b" ++ IndexEntry.json.render e)] := by
    unfold entryLine
    rw [← List.append_assoc, ← Str.asBytes_append]
    exact LineLog.lines_line_append (fun h => absurd (hplain 10 h) (by decide))
      (fun h => absurd (hplain 13 h) (by decide)) []
  -- the second character of the text of an entry is a quotation mark
  have hparse : IndexEntry.json.parse ("\x7b" ++ IndexEntry.json.render e) = none := by
    refine Option.eq_none_iff_forall_ne_some.mpr (fun e' he => ?_)
    rw [IndexEntry.parse_json, IndexEntry.ofText_eq_some_iff, String.toList_append,
      IndexEntry.toList_render_json] at he
    obtain ⟨rest, hrest⟩ := e.exists_chars_eq
    obtain ⟨rest', hrest'⟩ := e'.exists_chars_eq
    rw [hrest, hrest'] at he
    exact absurd (List.cons.inj (List.cons.inj he).2).1 (by decide)
  show ∃ torn, readLines IndexEntry.json (LineLog.lines _) = _
  rw [hline]
  simp only [readLines, Str.fromUtf8_asBytes, hparse]
  split
  · exact ⟨0, rfl⟩
  · exact ⟨1, rfl⟩

end LeafIndex
