import Aetelier.OrderbookDelta

/-!
# Book checksums

A checksummed venue sends, with each update, a CRC-32 of the top of the book
it describes. The engine prints the levels of its own book in the venue's
way, hashes them and compares. Printing and hashing are the crates'.
-/

/-- The checksum recipe of a venue. -/
inductive ChecksumFmt where
  /-- Top 25, bid and ask of a rank together, signed. -/
  | okxTop25
  /-- Top 10 asks, then top 10 bids, digits only. -/
  | krakenTop10
  /-- Shares the recipe of `okxTop25`. -/
  | bitgetBidFirstTop25
deriving DecidableEq, Repr

namespace Checksum

/-- `str::as_bytes`. -/
def asBytes (s : String) : List UInt8 := s.toList.flatMap String.utf8EncodeChar

/-- The printed price and size of a level. -/
def printLevel (x : Crates) (level : Decimal × Decimal) : List String :=
  [x.toString level.1, x.toString level.2]

/-- OKX: the levels interleaved bid then ask per rank, joined by colons; the
hash is read as a signed number. -/
def okxTop25 (x : Crates) (book : OrderbookDelta) : ℤ :=
  let bids := book.topBids 25
  let asks := book.topAsks 25
  let parts := (List.range 25).flatMap (fun i =>
    (bids[i]?.map (printLevel x)).getD [] ++ (asks[i]?.map (printLevel x)).getD [])
  (x.crc32 (asBytes (String.intercalate ":" parts))).toBitVec.toInt

/-- The digits of a decimal without its point and its leading zeros. -/
def pushKraken (x : Crates) (d : Decimal) : List Char :=
  let digits := ((x.toString d).toList.filter (· != '.')).dropWhile (· == '0')
  if digits.isEmpty then ['0'] else digits

/-- The digits of a level. -/
def pushKrakenLevel (x : Crates) (level : Decimal × Decimal) : List Char :=
  pushKraken x level.1 ++ pushKraken x level.2

/-- Kraken: the digits of the asks, then of the bids; the hash is unsigned. -/
def krakenTop10 (x : Crates) (book : OrderbookDelta) : ℤ :=
  let levels := book.topAsks 10 ++ book.topBids 10
  (x.crc32 (asBytes (String.ofList (levels.flatMap (pushKrakenLevel x))))).toNat

/-- **The checksum of a book** under a recipe. -/
def bookChecksum (x : Crates) (fmt : ChecksumFmt) (book : OrderbookDelta) : ℤ :=
  match fmt with
  | .okxTop25 | .bitgetBidFirstTop25 => okxTop25 x book
  | .krakenTop10 => krakenTop10 x book

end Checksum
