import Aetelier.BucketListing

/-!
# A listing over many pages

`list` asks a bucket for page after page, each by the token that the page
before named, and stops at the first that is not read to be truncated or is
not read to name a token. The bucket is whatever answers the queries: the
number of the query is a parameter, so it may answer the same query
differently each time.

A listing that is returned has the keys of all pages, exactly, and ends with
one that is not truncated, if and only if each page that was received is
`Readable` (`listsAll_iff`).
-/

open Xml

/-- A bucket: to the query of a number, a page or why there is none. -/
abbrev BucketServer := ℕ → List (String × String) → Except EntrepotError Listing.Page

/-- How a page asks to be continued. -/
def ListPage.continuation (page : ListPage) : Option String :=
  if page.isTruncated then page.nextToken else none

namespace S3Client

/-- The query for a page. -/
def listQuery (start : String) (token : Option String) : List (String × String) :=
  [("list-type", "2"), ("prefix", start)] ++ (token.map ("continuation-token", ·)).toList

/-- The loop of `S3Client::list` from the query of a number on, with fuel for
each query. -/
def listFrom (lib : XmlLib) (serve : BucketServer) (start : String) :
    ℕ → ℕ → Option String → List ObjectMeta → Option (Except EntrepotError (List ObjectMeta))
  | 0, _, _, _ => none
  | fuel + 1, n, token, out =>
    match serve n (listQuery start token) with
    | .error e => some (.error e)
    | .ok body =>
      match parseListPage lib body.reads with
      | .error e => some (.error e)
      | .ok page =>
        match page.continuation with
        | some t => listFrom lib serve start fuel (n + 1) (some t) (out ++ page.objects)
        | none => some (.ok (out ++ page.objects))

/-- `S3Client::list`. -/
def list (lib : XmlLib) (serve : BucketServer) (start : String) (fuel : ℕ) :
    Option (Except EntrepotError (List ObjectMeta)) :=
  listFrom lib serve start fuel 0 none []

/-- The pages that the loop receives. -/
def receivedFrom (lib : XmlLib) (serve : BucketServer) (start : String) :
    ℕ → ℕ → Option String → List Listing.Page
  | 0, _, _ => []
  | fuel + 1, n, token =>
    match serve n (listQuery start token) with
    | .error _ => []
    | .ok body =>
      match parseListPage lib body.reads with
      | .error _ => [body]
      | .ok page =>
        match page.continuation with
        | some t => body :: receivedFrom lib serve start fuel (n + 1) (some t)
        | none => [body]

/-- The pages that a listing receives. -/
def received (lib : XmlLib) (serve : BucketServer) (start : String) (fuel : ℕ) :
    List Listing.Page :=
  receivedFrom lib serve start fuel 0 none

variable {lib : XmlLib} {serve : BucketServer} {start : String}

/-- A page is taken to be continued if and only if it is read to say so. -/
theorem continuation_of_reads (body : Listing.Page) :
    ∃ page, parseListPage lib body.reads = .ok page ∧
      page.objects = body.contents.filterMap Listing.Contents.read ∧
      (page.continuation = none ↔ ¬ body.SaysMore) := by
  obtain ⟨page, hpage, hobjects, htruncated, htoken⟩ := Listing.parseListPage_reads lib body
  refine ⟨page, hpage, hobjects, ?_⟩
  unfold ListPage.continuation Listing.Page.SaysMore
  rw [htruncated, htoken]
  by_cases hrun : body.truncatedRun = some "true"
  · simp [hrun]
  · simp [hrun]

/-- **What a listing returns**: the objects of the pages it received, of
which each but the last is read to be continued. -/
theorem listFrom_eq_ok {fuel n : ℕ} {token : Option String} {out objects : List ObjectMeta}
    (h : listFrom lib serve start fuel n token out = some (.ok objects)) :
    ∃ init last, receivedFrom lib serve start fuel n token = init ++ [last] ∧
      objects = out ++ ((init ++ [last]).flatMap (·.contents)).filterMap Listing.Contents.read ∧
      (∀ p ∈ init, p.SaysMore) ∧ ¬ last.SaysMore := by
  induction fuel generalizing n token out with
  | zero => exact nomatch h
  | succ fuel ih =>
    unfold listFrom at h
    unfold receivedFrom
    cases hserve : serve n (listQuery start token) with
    | error e => simp [hserve] at h
    | ok body =>
      obtain ⟨page, hpage, hobjects, hmore⟩ := @continuation_of_reads lib body
      simp only [hserve, hpage] at h ⊢
      cases hcont : page.continuation with
      | none =>
        simp only [hcont, Option.some.injEq, Except.ok.injEq] at h ⊢
        refine ⟨[], body, rfl, ?_, fun p hp => absurd hp List.not_mem_nil, hmore.mp hcont⟩
        rw [← h, hobjects]
        simp
      | some t =>
        simp only [hcont] at h ⊢
        obtain ⟨init, last, hreceived, hout, hinit, hlast⟩ := ih h
        refine ⟨body :: init, last, by rw [hreceived]; rfl, ?_, fun p hp => ?_, hlast⟩
        · rw [hout, hobjects, List.append_assoc]
          simp
        · obtain rfl | hp := List.mem_cons.mp hp
          · exact not_not.mp (mt hmore.mpr (by simp [hcont]))
          · exact hinit p hp

/-- A listing goes on only as long as each page is read to be continued. -/
theorem saysMore_of_listFrom_eq_none {fuel n : ℕ} {token : Option String}
    {out : List ObjectMeta} (h : listFrom lib serve start fuel n token out = none) :
    ∀ p ∈ receivedFrom lib serve start fuel n token, p.SaysMore := by
  induction fuel generalizing n token out with
  | zero => exact fun p hp => absurd hp List.not_mem_nil
  | succ fuel ih =>
    unfold listFrom at h
    unfold receivedFrom
    cases hserve : serve n (listQuery start token) with
    | error e => simp [hserve] at h
    | ok body =>
      obtain ⟨page, hpage, -, hmore⟩ := @continuation_of_reads lib body
      simp only [hserve, hpage] at h ⊢
      cases hcont : page.continuation with
      | none => simp [hcont] at h
      | some t =>
        simp only [hcont] at h ⊢
        intro p hp
        obtain rfl | hp := List.mem_cons.mp hp
        · exact not_not.mp (mt hmore.mpr (by simp [hcont]))
        · exact ih h p hp

/-! ## Complete or an error -/

/-- **A listing is complete or an error**: what is returned has the keys of
all pages received, each but the last is truncated, and the last is not; and
once a page is received that is not truncated, the listing returns. -/
structure ListsAll (lib : XmlLib) (serve : BucketServer) (start : String) : Prop where
  complete : ∀ fuel objects, list lib serve start fuel = some (.ok objects) →
    ∃ init last, received lib serve start fuel = init ++ [last] ∧
      objects.map ObjectMeta.key = (init ++ [last]).flatMap (·.keys) ∧
      (∀ p ∈ init, p.truncated = true) ∧ last.truncated = false
  returns : ∀ fuel, (∃ p ∈ received lib serve start fuel, p.truncated = false) →
    list lib serve start fuel ≠ none

/-- Two ways to read a list agree if and only if they do at each place and
nothing is left out. -/
theorem map_filterMap_eq_map_iff {α β γ : Type*} {f : α → Option β} {g : β → γ} {h : α → γ}
    {l : List α} : (l.filterMap f).map g = l.map h ↔ ∀ a ∈ l, ∃ b, f a = some b ∧ g b = h a := by
  induction l with
  | nil => simp
  | cons a l ih =>
    rw [List.forall_mem_cons, ← ih]
    cases ha : f a with
    | some b =>
      rw [List.filterMap_cons_some ha, List.map_cons, List.map_cons, List.cons.injEq]
      simp
    | none =>
      rw [List.filterMap_cons_none ha]
      refine iff_of_false (fun heq => ?_) (fun hex => by simp at hex)
      have hlen := congrArg List.length heq
      have hle := List.length_filterMap_le f l
      rw [List.length_map, List.length_map, List.length_cons] at hlen
      omega

/-- The keys are all there if and only if each object is read. -/
theorem keys_eq_iff (ps : List Listing.Page) :
    ((ps.flatMap (·.contents)).filterMap Listing.Contents.read).map ObjectMeta.key
      = ps.flatMap (·.keys) ↔ ∀ p ∈ ps, ∀ c ∈ p.contents, c.IsRead := by
  have hkeys : ps.flatMap (·.keys) = (ps.flatMap (·.contents)).map (·.key.value) := by
    rw [List.map_flatMap]
    rfl
  rw [hkeys, map_filterMap_eq_map_iff]
  simp only [List.mem_flatMap, forall_exists_index, and_imp, ← Listing.Contents.isRead_iff]
  exact ⟨fun h p hp c hc => h c p hp hc, fun h c p hp hc => h p hp c hc⟩

theorem ListsAll.readable (h : ListsAll lib serve start) {fuel : ℕ} {objects : List ObjectMeta}
    (hlist : list lib serve start fuel = some (.ok objects)) :
    ∀ p ∈ received lib serve start fuel, p.Readable := by
  intro p hp
  obtain ⟨init, last, hreceived, hobjects, hinit, hlast⟩ := listFrom_eq_ok hlist
  obtain ⟨init', last', hreceived', hkeys, -, htruncated⟩ := h.complete fuel objects hlist
  obtain ⟨rfl, hlasts⟩ := List.append_inj' (hreceived.symm.trans hreceived') rfl
  obtain rfl : last = last' := List.singleton_inj.mp hlasts
  rw [hobjects, List.nil_append, keys_eq_iff] at hkeys
  rw [received, hreceived] at hp
  refine ⟨hkeys p hp, fun htrue => ?_⟩
  obtain hp | hp := List.mem_append.mp hp
  · exact hinit p hp
  · rw [List.mem_singleton.mp hp, htruncated] at htrue
    exact absurd htrue (by decide)

/-- **When a listing is complete or an error**: if in each run that returns
objects each page received is readable, its keys literal, its sizes numbers,
and, where it is truncated, a run of text that says so and a token. -/
theorem listsAll_iff (lib : XmlLib) (serve : BucketServer) (start : String) :
    ListsAll lib serve start ↔
      ∀ fuel objects, list lib serve start fuel = some (.ok objects) →
        ∀ p ∈ received lib serve start fuel, p.Readable := by
  constructor
  · exact fun h fuel objects hlist => h.readable hlist
  · intro h
    refine ⟨fun fuel objects hlist => ?_, fun fuel => ?_⟩
    · obtain ⟨init, last, hreceived, hobjects, hinit, hlast⟩ := listFrom_eq_ok hlist
      have hread := h fuel objects hlist
      rw [received, hreceived] at hread
      refine ⟨init, last, hreceived, ?_,
        fun p hp => Listing.Page.truncated_of_saysMore (hinit p hp), ?_⟩
      · rw [hobjects, List.nil_append, keys_eq_iff]
        exact fun p hp => (hread p hp).1
      · exact Bool.eq_false_iff.mpr
          (mt (hread last (List.mem_append_right _ List.mem_cons_self)).2 hlast)
    · rintro ⟨p, hp, hfalse⟩ hnone
      have htrue := Listing.Page.truncated_of_saysMore (saysMore_of_listFrom_eq_none hnone p hp)
      rw [hfalse] at htrue
      exact absurd htrue (by decide)

/-- The key `a&b`, as a page has it. -/
def ampersandKey : Body :=
  some ⟨⟨"a", by simp⟩, [(.reference '&', ⟨"b", by simp⟩)]⟩

/-- A page with this key, of an object of one byte. -/
def ampersandPage : Listing.Page where
  items := [.contents ⟨[], ampersandKey, [.size (some ⟨⟨"1", by simp⟩, []⟩)]⟩]
  oneTruncated := by decide
  boolean b hb := absurd hb List.not_mem_nil
  oneToken := by decide

example : ampersandKey.value = "a&b" ∧ ampersandKey.lastRun = some "b" := by decide

theorem not_literal_ampersandKey : ¬ ampersandKey.Literal := by
  rintro ⟨r, -, -, hps⟩
  have hlen : (ampersandKey.pieces.filter (·.text ≠ "")).length = 3 := by decide
  rw [hps] at hlen
  exact absurd hlen (show ¬ 1 = 3 by decide)

/-- A key with a reference: what stands behind the reference is listed. -/
theorem not_listsAll_ampersand :
    ¬ ∀ (lib : XmlLib) (serve : BucketServer) (start : String), ListsAll lib serve start := by
  intro h
  obtain ⟨page, hpage, -, hmore⟩ :=
    @continuation_of_reads ⟨fun s => .ok s, fun _ _ => rfl⟩ ampersandPage
  have hlast : page.continuation = none := hmore.mpr fun hsays => absurd hsays.1 (by decide)
  have hread := (h ⟨fun s => .ok s, fun _ _ => rfl⟩ (fun _ _ => .ok ampersandPage) "").readable
    (show list _ _ _ 1 = some (.ok page.objects) by
      unfold list listFrom
      simp [hpage, hlast])
    ampersandPage (by
      unfold received receivedFrom
      simp [hpage, hlast])
  exact not_literal_ampersandKey (hread.1 _ (List.mem_singleton.mpr rfl)).1

end S3Client
