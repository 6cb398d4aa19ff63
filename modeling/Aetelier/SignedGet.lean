import Aetelier.Entrepot
import Aetelier.SpecialUrl
import Aetelier.TradingPair
import Aetelier.UnixPath

/-!
# What a signed GET asks for

A request to the bucket is signed: the *canonical request*, a text with the
path in its second line, is hashed under the secret key. There the path is
escaped. The URL that is sent has it as it is, and the URL library reads it
as a browser would.

The signature that is sent is the one over this text
(`S3Config.signedHeaders_eq`). So what is signed is always the key
(`canonicalUri_canonicalRequest`), and what is asked for is the key only where
it is plain: a key `a?b` asks for the object `a`, under a signature for `a?b`.
`asksForSigned_iff` says when.
-/

namespace Str

/-- `str::trim_start_matches`: the pattern is taken off as often as it stands
there, with fuel for each time. -/
def trimStartFrom (pattern : List Char) : ℕ → List Char → List Char
  | 0, cs => cs
  | n + 1, cs =>
    if pattern.isPrefixOf cs then trimStartFrom pattern n (cs.drop pattern.length) else cs

/-- `str::trim_start_matches`. -/
def trimStartMatches (pattern s : String) : String :=
  String.ofList (trimStartFrom pattern.toList s.toList.length s.toList)

/-- `str::trim_end_matches` of a character. -/
def trimEndMatches (c : Char) (s : String) : String :=
  String.ofList (s.toList.rdropWhile (· == c))

/-- `str::split_whitespace`. -/
def splitWhitespace (s : String) : List String :=
  ((s.toList.splitOnP isWhitespace).filter (!·.isEmpty)).map String.ofList

/-- `str::to_ascii_lowercase`. -/
def toAsciiLowercase (s : String) : String := String.ofList (s.toList.map Char.toLower)

/-- `hex::encode`. -/
def hexEncode (bs : List UInt8) : String :=
  String.ofList (bs.flatMap fun b =>
    [Nat.digitChar (b.toNat / 16), Nat.digitChar (b.toNat % 16)])

/-- The order of a pair of texts. -/
def pairLe (p q : String × String) : Bool := p.1 < q.1 || (p.1 == q.1 && !(q.2 < p.2))

end Str

/-! ## Signing -/

/-- `Credentials`. -/
structure Credentials where
  accessKey : String
  secretKey : String
deriving DecidableEq, Repr

/-- `SignedHeaders`. -/
structure SignedHeaders where
  authorization : String
  xAmzDate : String
deriving DecidableEq, Repr

/-- The digests, as their libraries compute them. -/
structure Digests where
  sha256 : List UInt8 → List UInt8
  /-- The key, and the data. -/
  hmacSha256 : List UInt8 → List UInt8 → List UInt8

/-- A time, as it is written into what is signed: `%Y%m%dT%H%M%SZ` and
`%Y%m%d`. -/
structure SigningTime where
  amzDate : String
  date : String
deriving DecidableEq, Repr

namespace Signing

/-- `EMPTY_PAYLOAD_SHA256`. -/
def emptyPayloadSha256 : String :=
  "e3b0c44298fc1c149afbf4c8996fb92427ae41e4649b934ca495991b7852b855"

/-- A byte that is signed as it is: a letter, a digit, or one of `-_.~`. -/
def isUnreserved (b : UInt8) : Bool :=
  (65 ≤ b && b ≤ 90) || (97 ≤ b && b ≤ 122) || (48 ≤ b && b ≤ 57) || b == 45 || b == 95 ||
    b == 46 || b == 126

/-- The upper-case hexadecimal digit. -/
def upperHex (n : ℕ) : Char := (Nat.digitChar n).toUpper

/-- The characters `uri_encode` writes for a byte. -/
def uriEncodeByte (encodeSlash : Bool) (b : UInt8) : List Char :=
  if isUnreserved b then [Char.ofNat b.toNat]
  else if b == 47 && !encodeSlash then ['/']
  else ['%', upperHex (b.toNat / 16), upperHex (b.toNat % 16)]

/-- The loop of `uri_encode`. -/
def uriEncodeBytes (input : List UInt8) (encodeSlash : Bool) : String :=
  String.ofList (input.flatMap (uriEncodeByte encodeSlash))

/-- `uri_encode`. -/
def uriEncode (input : String) (encodeSlash : Bool) : String :=
  uriEncodeBytes (Str.asBytes input) encodeSlash

/-- `canonical_query`. -/
def canonicalQuery (query : List (String × String)) : String :=
  let pairs := (query.map fun p => (uriEncode p.1 true, uriEncode p.2 true)).mergeSort Str.pairLe
  "&".intercalate (pairs.map fun p => p.1 ++ "=" ++ p.2)

/-- `canonical_header_value`. -/
def canonicalHeaderValue (v : String) : String := " ".intercalate (Str.splitWhitespace v)

/-- `build_canonical`: the canonical request, and the names of the headers
in it. -/
def buildCanonical (method host path : String) (query extraHeaders : List (String × String))
    (payloadHash amzDate : String) : String × String :=
  let headers := (extraHeaders.map fun p =>
      (Str.toAsciiLowercase p.1, canonicalHeaderValue p.2))
    ++ [("host", canonicalHeaderValue host), ("x-amz-date", amzDate)]
  let headers := headers.mergeSort Str.pairLe
  let canonicalHeaders := "".intercalate (headers.map fun p => p.1 ++ ":" ++ p.2 ++ "\n")
  let signedHeaders := ";".intercalate (headers.map Prod.fst)
  (method ++ "\n" ++ uriEncode path false ++ "\n" ++ canonicalQuery query ++ "\n" ++
    canonicalHeaders ++ "\n" ++ signedHeaders ++ "\n" ++ payloadHash, signedHeaders)

/-- `sign`, from the canonical request on. -/
def authorization (d : Digests) (creds : Credentials) (canonical : String × String)
    (region service : String) (time : SigningTime) : String :=
  let scope := time.date ++ "/" ++ region ++ "/" ++ service ++ "/aws4_request"
  let stringToSign := "AWS4-HMAC-SHA256\n" ++ time.amzDate ++ "\n" ++ scope ++ "\n" ++
    Str.hexEncode (d.sha256 (Str.asBytes canonical.1))
  let kDate := d.hmacSha256 (Str.asBytes ("AWS4" ++ creds.secretKey)) (Str.asBytes time.date)
  let kRegion := d.hmacSha256 kDate (Str.asBytes region)
  let kService := d.hmacSha256 kRegion (Str.asBytes service)
  let kSigning := d.hmacSha256 kService (Str.asBytes "aws4_request")
  let signature := Str.hexEncode (d.hmacSha256 kSigning (Str.asBytes stringToSign))
  "AWS4-HMAC-SHA256 Credential=" ++ creds.accessKey ++ "/" ++ scope ++ ", SignedHeaders=" ++
    canonical.2 ++ ", Signature=" ++ signature

/-- `sign`. -/
def sign (d : Digests) (creds : Credentials) (method host path : String)
    (query extraHeaders : List (String × String)) (payloadHash region service : String)
    (time : SigningTime) : SignedHeaders :=
  let canonical := buildCanonical method host path query extraHeaders payloadHash time.amzDate
  ⟨authorization d creds canonical region service time, time.amzDate⟩

/-- The canonical URI: the second line of a canonical request. -/
def canonicalUri (canonical : String) : Option String :=
  (canonical.toList.splitOn '\n')[1]?.map String.ofList

end Signing

/-! ## The client -/

/-- `S3Config`. -/
structure S3Config where
  bucket : String
  region : String
  requesterPays : Bool
  credentials : Option Credentials
  endpoint : Option String
deriving DecidableEq, Repr

/-- The HTTP client: which authorities its URL library reads, and which
headers it sends. -/
structure HttpLib where
  acceptsAuthority : List UInt8 → Bool
  acceptsHeader : String × String → Bool

/-- A request as it goes out. -/
structure SentRequest where
  url : SpecialUrl
  headers : List (String × String)
deriving DecidableEq, Repr

namespace S3Config

/-- `S3Config::host`. -/
def host (cfg : S3Config) : String :=
  match cfg.endpoint with
  | some e => Str.trimEndMatches '/'
      (Str.trimStartMatches "http://" (Str.trimStartMatches "https://" e))
  | none => cfg.bucket ++ ".s3." ++ cfg.region ++ ".amazonaws.com"

/-- `S3Config::base_url`. -/
def baseUrl (cfg : S3Config) : String :=
  match cfg.endpoint with
  | some e => Str.trimEndMatches '/' e
  | none => "https://" ++ cfg.host

/-- The headers that are signed with every request. -/
def extraHeaders (cfg : S3Config) : List (String × String) :=
  ("x-amz-content-sha256", Signing.emptyPayloadSha256) ::
    if cfg.requesterPays then [("x-amz-request-payer", "requester")] else []

/-- `S3Client::signed_headers`. -/
def signedHeaders (d : Digests) (cfg : S3Config) (path : String)
    (query : List (String × String)) (now : SigningTime) : List (String × String) :=
  match cfg.credentials with
  | none => []
  | some creds =>
    let signed := Signing.sign d creds "GET" cfg.host path query cfg.extraHeaders
      Signing.emptyPayloadSha256 cfg.region "s3" now
    cfg.extraHeaders ++ [("authorization", signed.authorization), ("x-amz-date", signed.xAmzDate)]

/-- The URL of `S3Client::get_with_retry`, as it is put together. -/
def requestUrl (cfg : S3Config) (path : String) (query : List (String × String)) : String :=
  if query = [] then cfg.baseUrl ++ path
  else cfg.baseUrl ++ path ++ "?" ++
    "&".intercalate (query.map fun p => p.1 ++ "=" ++ Signing.uriEncode p.2 true)

/-- An attempt of `S3Client::get_with_retry`: the request that goes out, if
the URL can be read and the headers can be sent. -/
def request (lib : HttpLib) (d : Digests) (cfg : S3Config) (path : String)
    (query : List (String × String)) (now : SigningTime) : Option SentRequest :=
  match SpecialUrl.parse lib.acceptsAuthority (Str.asBytes (cfg.requestUrl path query)) with
  | none => none
  | some url =>
    let headers := cfg.signedHeaders d path query now
    if headers.all lib.acceptsHeader then some ⟨url, headers⟩ else none

/-- An attempt of `S3Client::get_object`. -/
def getObject (lib : HttpLib) (d : Digests) (cfg : S3Config) (key : String)
    (now : SigningTime) : Option SentRequest :=
  cfg.request lib d ("/" ++ key) [] now

/-- What `sign` hashes for a GET of the path, if anything is signed. -/
def canonicalRequest (cfg : S3Config) (path : String) (query : List (String × String))
    (now : SigningTime) : Option (String × String) :=
  cfg.credentials.map fun _ => Signing.buildCanonical "GET" cfg.host path query cfg.extraHeaders
    Signing.emptyPayloadSha256 now.amzDate

/-- The signature that is sent is the one over this canonical request. -/
theorem signedHeaders_eq {d : Digests} {cfg : S3Config} {creds : Credentials}
    (h : cfg.credentials = some creds) (path : String) (query : List (String × String))
    (now : SigningTime) :
    ∃ canonical, cfg.canonicalRequest path query now = some canonical ∧
      cfg.signedHeaders d path query now = cfg.extraHeaders ++
        [("authorization", Signing.authorization d creds canonical cfg.region "s3" now),
          ("x-amz-date", now.amzDate)] := by
  unfold canonicalRequest signedHeaders
  rw [h]
  exact ⟨_, rfl, rfl⟩

end S3Config

/-! ## What is signed -/

namespace Signing

theorem newline_notMem_uriEncodeByte (b : UInt8) : '\n' ∉ uriEncodeByte false b := by
  have hall : ∀ n < 256, '\n' ∉ uriEncodeByte false (UInt8.ofNat n) := by decide +kernel
  have hb := hall b.toNat (UInt8.toNat_lt b)
  rwa [UInt8.ofNat_toNat] at hb

theorem newline_notMem_uriEncode (input : String) : '\n' ∉ (uriEncode input false).toList := by
  unfold uriEncode uriEncodeBytes
  rw [String.toList_ofList, List.mem_flatMap]
  rintro ⟨b, -, hb⟩
  exact newline_notMem_uriEncodeByte b hb

/-- **The canonical URI is the path, escaped.** -/
theorem canonicalUri_buildCanonical (host path : String)
    (query extraHeaders : List (String × String)) (payloadHash amzDate : String) :
    canonicalUri (buildCanonical "GET" host path query extraHeaders payloadHash amzDate).1
      = some (uriEncode path false) := by
  unfold canonicalUri buildCanonical
  simp only [String.toList_append, List.append_assoc]
  rw [show "GET".toList = ['G', 'E', 'T'] from rfl, show "\n".toList = ['\n'] from rfl,
    List.singleton_append, List.singleton_append,
    List.splitOn_append_cons_self_of_not_mem (by decide),
    List.splitOn_append_cons_self_of_not_mem (newline_notMem_uriEncode path)]
  simp

end Signing

namespace S3Config

/-- **What is signed is the key**, whatever it is. -/
theorem canonicalUri_canonicalRequest {cfg : S3Config} {creds : Credentials}
    (h : cfg.credentials = some creds) (path : String) (query : List (String × String))
    (now : SigningTime) :
    (cfg.canonicalRequest path query now).bind (Signing.canonicalUri ·.1)
      = some (Signing.uriEncode path false) := by
  unfold canonicalRequest
  rw [h, Option.map_some, Option.bind_some, Signing.canonicalUri_buildCanonical]

/-! ## What is asked for -/

/-- Nothing but an origin is left of the configuration's base URL. -/
def NamesOrigin (cfg : S3Config) : Prop := SpecialUrl.isOrigin (Str.asBytes cfg.baseUrl) = true

/-- A key that a URL library leaves as it is. -/
abbrev PlainKey (key : String) : Prop := SpecialUrl.Plain (Str.asBytes key)

/-- **The request asks for what is signed**: its path decodes to the key, it
has no query, and the canonical URI is that path, escaped. -/
def AsksForSigned (cfg : S3Config) (key : String) (now : SigningTime) (r : SentRequest) : Prop :=
  r.url.AsksFor (Str.asBytes key) ∧
    (cfg.canonicalRequest ("/" ++ key) [] now).bind (Signing.canonicalUri ·.1)
      = some (Signing.uriEncodeBytes (Percent.decode r.url.path) false)

/-- Without an endpoint of its own a configuration names an origin, unless
its bucket or its region ends it. -/
theorem namesOrigin_of_endpoint_none {cfg : S3Config} (h : cfg.endpoint = none)
    (hbytes : ∀ b ∈ Str.asBytes cfg.host, SpecialUrl.endsAuthority b = false) :
    cfg.NamesOrigin := by
  have hdot : 46 ∈ Str.asBytes cfg.host := by
    unfold host
    rw [h]
    simp only [Str.asBytes_append, List.mem_append]
    exact Or.inl (Or.inl (Or.inr (by decide)))
  have hbase : Str.asBytes cfg.baseUrl
      = [104, 116, 116, 112, 115, 58, 47, 47] ++ Str.asBytes cfg.host := by
    rw [show [104, 116, 116, 112, 115, 58, 47, 47] = Str.asBytes "https://" by decide,
      ← Str.asBytes_append]
    unfold baseUrl
    rw [h]
  unfold NamesOrigin
  rw [hbase]
  exact SpecialUrl.isOrigin_https hbytes
    (List.ne_nil_of_mem (List.mem_filter.mpr ⟨hdot, by decide⟩))

theorem parse_of_getObject {lib : HttpLib} {d : Digests} {cfg : S3Config} {key : String}
    {now : SigningTime} {r : SentRequest} (h : cfg.getObject lib d key now = some r) :
    SpecialUrl.parse lib.acceptsAuthority (Str.asBytes cfg.baseUrl ++ 47 :: Str.asBytes key)
      = some r.url := by
  have hurl : Str.asBytes (cfg.requestUrl ("/" ++ key) [])
      = Str.asBytes cfg.baseUrl ++ 47 :: Str.asBytes key := by
    unfold requestUrl
    rw [if_pos rfl, Str.asBytes_append, Str.asBytes_append]
    rfl
  unfold getObject request at h
  rw [hurl] at h
  cases hp : SpecialUrl.parse lib.acceptsAuthority
      (Str.asBytes cfg.baseUrl ++ 47 :: Str.asBytes key) with
  | none => rw [hp] at h; exact nomatch h
  | some url =>
    simp only [hp] at h
    split_ifs at h
    rw [← Option.some.inj h]

/-- The signature is for whatever is asked for, if that is the key. -/
theorem asksForSigned_iff_asksFor {cfg : S3Config} {creds : Credentials}
    (h : cfg.credentials = some creds) (key : String) (now : SigningTime) (r : SentRequest) :
    cfg.AsksForSigned key now r ↔ r.url.AsksFor (Str.asBytes key) := by
  refine and_iff_left_of_imp (fun hasks => ?_)
  rw [canonicalUri_canonicalRequest h, hasks.1, Signing.uriEncode, Str.asBytes_append]
  rfl

/-- **When a GET asks for what it signs.** Behind an origin it does so for
plain keys and no others; behind anything else, for no plain key as long as
the base. -/
theorem asksForSigned_iff {lib : HttpLib} {d : Digests} {cfg : S3Config} {creds : Credentials}
    (hcreds : cfg.credentials = some creds) {key : String} {now : SigningTime} {r : SentRequest}
    (hr : cfg.getObject lib d key now = some r) :
    (cfg.NamesOrigin → (cfg.AsksForSigned key now r ↔ PlainKey key)) ∧
      (¬ cfg.NamesOrigin → PlainKey key →
        (Str.asBytes cfg.baseUrl).length ≤ (Str.asBytes key).length →
        ¬ cfg.AsksForSigned key now r) := by
  have hurl := parse_of_getObject hr
  rw [asksForSigned_iff_asksFor hcreds]
  exact ⟨fun horigin => SpecialUrl.asksFor_iff_plain horigin hurl, fun horigin hplain hlen =>
    SpecialUrl.not_asksFor_of_not_isOrigin (by simpa [NamesOrigin] using horigin) hplain hlen hurl⟩

/-- A base that is no origin may ask for a short key by chance: its fragment
takes the key in, and its path is the key. -/
example : (SpecialUrl.parse (fun _ => true) (Str.asBytes "http://h/abc#/abc")).map (·.path)
    = some (Str.asBytes "/abc") := by
  decide

/-- The client of the archive, as the environment configures it. -/
def archive : S3Config :=
  { bucket := "archive", region := "us-east-1", requesterPays := true
    credentials := some ⟨"AKIDEXAMPLE", "secret"⟩, endpoint := none }

theorem namesOrigin_archive : archive.NamesOrigin :=
  namesOrigin_of_endpoint_none rfl (by decide +kernel)

theorem exists_getObject_archive (key : String) (now : SigningTime)
    (h : SpecialUrl.parse (fun _ => true) (Str.asBytes (archive.requestUrl ("/" ++ key) []))
      ≠ none) :
    ∃ r, archive.getObject ⟨fun _ => true, fun _ => true⟩ ⟨id, fun _ => id⟩ key now = some r := by
  unfold getObject request
  cases hp : SpecialUrl.parse (fun _ => true)
      (Str.asBytes (archive.requestUrl ("/" ++ key) [])) with
  | none => exact absurd hp h
  | some url => exact ⟨_, if_pos (List.all_eq_true.mpr fun _ _ => rfl)⟩

theorem asksForSigned_iff_book :
    ∃ r, archive.getObject ⟨fun _ => true, fun _ => true⟩ ⟨id, fun _ => id⟩
        "market_data/BTC.lz4" ⟨"20150830T123600Z", "20150830"⟩ = some r ∧
      archive.AsksForSigned "market_data/BTC.lz4" ⟨"20150830T123600Z", "20150830"⟩ r := by
  obtain ⟨r, hr⟩ := exists_getObject_archive "market_data/BTC.lz4"
    ⟨"20150830T123600Z", "20150830"⟩ (by decide)
  exact ⟨r, hr, ((asksForSigned_iff rfl hr).1 namesOrigin_archive).mpr
    ⟨by decide +kernel, by decide, by decide, by decide⟩⟩

/-- A key with a question mark: the path ends before it. -/
theorem not_asksForSigned_question :
    ¬ ∀ (lib : HttpLib) (d : Digests) (cfg : S3Config) (creds : Credentials) (key : String)
      (now : SigningTime) (r : SentRequest), cfg.credentials = some creds →
      cfg.getObject lib d key now = some r → cfg.AsksForSigned key now r := by
  intro h
  obtain ⟨r, hr⟩ := exists_getObject_archive "a?b" ⟨"20150830T123600Z", "20150830"⟩
    (by decide)
  have hasks := (asksForSigned_iff_asksFor rfl _ _ r).mp (h _ _ _ _ _ _ r rfl hr)
  have hplain := (SpecialUrl.asksFor_iff_plain namesOrigin_archive (parse_of_getObject hr)).mp hasks
  exact absurd (hplain.keeps 63 (by decide)).1 (by decide)

end S3Config
