import Mathlib.Data.List.Basic

/-!
# Trading pairs and their spellings

A trading pair is a base and a quote asset. It is written `BASE/QUOTE` in
canonical form, and each venue has its own wire spelling, decoded by a
`SymbolCodec`. The parser behind `FromStr` tries the canonical form, then a
hyphen, then a known quote suffix; the symbol check of the book engine goes
through it.

The string functions are those of the standard library. Trimming removes
the Unicode white space, which is a short list. Case conversion is written
out for ASCII text and is otherwise a parameter, the case tables of the
Unicode database.
-/

/-! ## Strings -/

/-- The case conversions of the Unicode database, for text that is not
ASCII. -/
structure Unicode where
  /-- Upper-case conversion of a string with a non-ASCII character. -/
  upper : String → String
  /-- Lower-case conversion of a string with a non-ASCII character. -/
  lower : String → String

namespace Str

/-- The characters with the Unicode `White_Space` property. -/
def isWhitespace (c : Char) : Bool :=
  (9 ≤ c.toNat && c.toNat ≤ 13) || c.toNat == 32 || c.toNat == 0x85
    || c.toNat == 0xA0 || c.toNat == 0x1680
    || (0x2000 ≤ c.toNat && c.toNat ≤ 0x200A) || c.toNat == 0x2028
    || c.toNat == 0x2029 || c.toNat == 0x202F || c.toNat == 0x205F
    || c.toNat == 0x3000

/-- `str::trim`. -/
def trim (s : String) : String :=
  String.ofList ((s.toList.dropWhile isWhitespace).reverse.dropWhile isWhitespace).reverse

/-- Whether every character is ASCII. -/
def isAscii (s : String) : Bool := s.toList.all (fun c => c.toNat < 128)

/-- `str::to_uppercase`. -/
def toUppercase (u : Unicode) (s : String) : String :=
  if isAscii s then String.ofList (s.toList.map Char.toUpper) else u.upper s

/-- `str::to_lowercase`. -/
def toLowercase (u : Unicode) (s : String) : String :=
  if isAscii s then String.ofList (s.toList.map Char.toLower) else u.lower s

/-- `str::split_once` at a character: the text before its first occurrence
and the text after it. -/
def splitOnce (c : Char) (s : String) : Option (String × String) :=
  match s.toList.span (fun x => x != c) with
  | (_, []) => none
  | (before, _ :: rest) => some (String.ofList before, String.ofList rest)

/-- `str::strip_suffix`. -/
def stripSuffix (q s : String) : Option String :=
  if q.toList.isSuffixOf s.toList then
    some (String.ofList (s.toList.take (s.toList.length - q.toList.length)))
  else none

/-- `str::contains` of any of the given characters. -/
def containsAny (cs : List Char) (s : String) : Bool := s.toList.any (fun c => cs.contains c)

/-- `char::is_ascii_alphanumeric`, of every character. -/
def allAsciiAlphanumeric (s : String) : Bool :=
  s.toList.all (fun c => c.toNat < 128 && c.isAlphanum)

end Str

/-! ## Pairs -/

/-- **A trading pair**: base and quote asset. -/
structure TradingPair where
  /-- The asset traded. -/
  base : String
  /-- The asset it is priced in. -/
  quote : String
deriving DecidableEq, Repr

/-- The quote assets a concatenated symbol is split against, in the order
they are tried. -/
def knownQuotes : List String :=
  ["USDT", "USDC", "BUSD", "TUSD", "FDUSD", "USDD",
    "USD", "BTC", "ETH", "EUR", "GBP", "DAI", "BNB"]

/-- An asset in stored form: upper case, except that a dex prefix
(`xyz:TSLA`) is lower case. -/
def normalizeAsset (u : Unicode) (asset : String) : String :=
  match Str.splitOnce ':' asset with
  | some (dex, ticker) =>
    if dex ≠ "" ∧ ticker ≠ "" then Str.toLowercase u dex ++ ":" ++ Str.toUppercase u ticker
    else Str.toUppercase u asset
  | none => Str.toUppercase u asset

namespace TradingPair

/-- `TradingPair::new`. -/
def new (u : Unicode) (base quote : String) : TradingPair :=
  ⟨normalizeAsset u (Str.trim base), normalizeAsset u (Str.trim quote)⟩

/-- The canonical `BASE/QUOTE` form. -/
def toCanonical (p : TradingPair) : String := p.base ++ "/" ++ p.quote

/-- Parse the canonical form. -/
def fromCanonical (u : Unicode) (s : String) : Option TradingPair := do
  let (base, quote) ← Str.splitOnce '/' s
  if Str.trim base = "" ∨ Str.trim quote = "" then none
  else some ⟨normalizeAsset u (Str.trim base), normalizeAsset u (Str.trim quote)⟩

/-- Parse a hyphen-separated symbol. -/
def fromHyphenated (u : Unicode) (raw : String) : Option TradingPair := do
  let (base, quote) ← Str.splitOnce '-' raw
  if Str.trim base = "" ∨ Str.trim quote = "" then none
  else some ⟨Str.toUppercase u (Str.trim base), Str.toUppercase u (Str.trim quote)⟩

/-- Parse a concatenated symbol by the first known quote that is a proper
suffix of it. -/
def fromConcatenated (u : Unicode) (raw : String) : Option TradingPair :=
  knownQuotes.findSome? (fun q =>
    match Str.stripSuffix q (Str.toUppercase u raw) with
    | some base => if base ≠ "" then some ⟨base, q⟩ else none
    | none => none)

/-- `FromStr`: canonical, then hyphenated, then concatenated. -/
def fromStr (u : Unicode) (s : String) : Option TradingPair :=
  (fromCanonical u s).or ((fromHyphenated u s).or (fromConcatenated u s))

end TradingPair

/-! ## Spellings of a venue -/

/-- How a venue spells a trading pair on the wire. -/
inductive SymbolCodec where
  /-- `BTCUSDT`; `upper` is the case it is written in. -/
  | concat (upper : Bool)
  /-- `BTC-USDT`. -/
  | hyphen
  /-- `BTC/USDT`. -/
  | slash
  /-- `BTC_USDT`; `upper` is the case it is written in. -/
  | underscore (upper : Bool)
  /-- `KRW-BTC`, quote first. -/
  | quoteFirst (sep : Char)
  /-- `BTC`, with a fixed quote. -/
  | bareCoin (quote : String)
deriving DecidableEq, Repr

namespace SymbolCodec

/-- Put a symbol in the venue's case. -/
def case (u : Unicode) (s : String) (upper : Bool) : String :=
  if upper then Str.toUppercase u s else Str.toLowercase u s

/-- Render a pair to the venue's wire symbol. -/
def encode (u : Unicode) (codec : SymbolCodec) (pair : TradingPair) : String :=
  match codec with
  | concat upper => case u (pair.base ++ pair.quote) upper
  | hyphen => pair.base ++ "-" ++ pair.quote
  | slash => pair.base ++ "/" ++ pair.quote
  | underscore upper => case u (pair.base ++ "_" ++ pair.quote) upper
  | quoteFirst sep => pair.quote ++ sep.toString ++ pair.base
  | bareCoin _ => pair.base

/-- Parse a bare coin: a dex-prefixed one must be alphanumeric on both
sides of its colon, any other must hold no separator. -/
def decodeBareCoin (u : Unicode) (quote raw : String) : Option TradingPair :=
  match Str.splitOnce ':' (Str.trim raw) with
  | some (dex, ticker) =>
    if dex = "" ∨ ticker = "" ∨ ¬ Str.allAsciiAlphanumeric dex
        ∨ ¬ Str.allAsciiAlphanumeric ticker then none
    else some (TradingPair.new u (Str.trim raw) quote)
  | none =>
    if Str.toUppercase u raw = ""
        ∨ Str.containsAny ['@', '/', '-', '_'] (Str.toUppercase u raw) then none
    else some (TradingPair.new u (Str.toUppercase u raw) quote)

/-- Parse a venue wire symbol. -/
def decode (u : Unicode) (codec : SymbolCodec) (raw : String) : Option TradingPair :=
  match codec with
  | hyphen => do
    let (base, quote) ← Str.splitOnce '-' (Str.toUppercase u raw)
    some (TradingPair.new u base quote)
  | slash => do
    let (base, quote) ← Str.splitOnce '/' (Str.toUppercase u raw)
    some (TradingPair.new u base quote)
  | underscore _ => do
    let (base, quote) ← Str.splitOnce '_' (Str.toUppercase u raw)
    some (TradingPair.new u base quote)
  | quoteFirst sep => do
    let (quote, base) ← Str.splitOnce sep (Str.toUppercase u raw)
    some (TradingPair.new u base quote)
  | concat _ => TradingPair.fromConcatenated u (Str.toUppercase u raw)
  | bareCoin quote => decodeBareCoin u quote raw

end SymbolCodec
