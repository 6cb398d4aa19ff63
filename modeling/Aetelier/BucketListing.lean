import Aetelier.FrameworkWorker
import Aetelier.LocalDir
import Aetelier.XmlEvents

/-!
# Listing a bucket

A bucket is listed in pages, each an XML document: an element `Contents` for
every object, and two elements that say whether there are more pages and how
to ask for the next. `parse_list_page` pulls events and keeps, for the
element it is in, the *last text* it was delivered. `list` asks for pages
until one is not truncated, *or names no token*.

With a reader that delivers references as events of their own, the last text
of a key `a&amp;b` is `b`. And an object whose size is no number is not
listed at all, and a truncated page without a token ends the listing as if
it were the last. `listsAll_iff` says that nothing else goes wrong.
-/

open Xml

/-- `str::trim_matches` of a character. -/
def Str.trimMatches (c : Char) (s : String) : String :=
  String.ofList ((s.toList.dropWhile (· == c)).rdropWhile (· == c))

/-- `quick_xml::escape::unescape`, of which only this is used: a text without
a reference is as it is. -/
structure XmlLib where
  unescape : String → Except String String
  unescape_plain : ∀ s, '&' ∉ s.toList → unescape s = .ok s

/-! ## The parser -/

/-- `ListPage`. -/
structure ListPage where
  objects : List ObjectMeta
  commonPrefixes : List String
  isTruncated : Bool
  nextToken : Option String
deriving DecidableEq, Repr

/-- The variables of `parse_list_page`; the path has the innermost name
first. -/
structure ListParse where
  objects : List ObjectMeta := []
  commonPrefixes : List String := []
  isTruncated : Bool := false
  nextToken : Option String := none
  path : List String := []
  key : String := ""
  size : Option ℕ := none
  etag : Option String := none
  lastModified : Option String := none
deriving DecidableEq, Repr

namespace ListParse

/-- The arm of `Event::Start`. -/
def onStart (st : ListParse) (name : String) : ListParse :=
  let st := if name = "Contents" then
      { st with key := "", size := none, etag := none, lastModified := none }
    else st
  { st with path := name :: st.path }

/-- The arm of `Event::End`. -/
def onEnd (st : ListParse) (name : String) : ListParse :=
  let st : ListParse := match st.size with
    | some size =>
      if name = "Contents" ∧ st.key ≠ "" then
        { st with objects := st.objects ++ [⟨st.key, size, st.etag, st.lastModified⟩] }
      else st
    | none => st
  { st with path := st.path.tail }

/-- The arm of `Event::Text`, once the text is unescaped. -/
def onText (st : ListParse) (value : String) : ListParse :=
  let inContents := st.path[1]? = some "Contents"
  let inCommon := st.path[1]? = some "CommonPrefixes"
  match st.path.head? with
  | some last =>
    if last = "Prefix" ∧ inCommon then { st with commonPrefixes := st.commonPrefixes ++ [value] }
    else if last = "Key" ∧ inContents then { st with key := value }
    else if last = "Size" ∧ inContents then { st with size := parseU64 value }
    else if last = "ETag" ∧ inContents then { st with etag := some (Str.trimMatches '"' value) }
    else if last = "LastModified" ∧ inContents then { st with lastModified := some value }
    else if last = "IsTruncated" then { st with isTruncated := value == "true" }
    else if last = "NextContinuationToken" then { st with nextToken := some value }
    else st
  | none => st

/-- One event of the loop. -/
def onEvent (lib : XmlLib) (st : ListParse) : Event → Except EntrepotError ListParse
  | .start name => .ok (st.onStart name)
  | .stop name => .ok (st.onEnd name)
  | .text raw =>
    match lib.unescape raw with
    | .error e => .error (.listParse e)
    | .ok value => .ok (st.onText value)
  | .other => .ok st

/-- What the reader returned: an event, or why it cannot go on. -/
def onRead (lib : XmlLib) (st : ListParse) : Except String Event → Except EntrepotError ListParse
  | .error e => .error (.listParse e)
  | .ok ev => st.onEvent lib ev

/-- What is returned at the end. -/
def page (st : ListParse) : ListPage :=
  ⟨st.objects, st.commonPrefixes, st.isTruncated, st.nextToken⟩

end ListParse

/-- `parse_list_page`, over what the reader returns until the end. -/
def parseListPage (lib : XmlLib) (reads : List (Except String Event)) :
    Except EntrepotError ListPage :=
  (reads.foldlM (ListParse.onRead lib) {}).map ListParse.page

/-! ## Pages -/

namespace Listing

/-- The names that the parser acts upon in any element. -/
def anywhere : List String := ["Contents", "IsTruncated", "NextContinuationToken"]

/-- The names that it acts upon in an element `Contents`. -/
def inContents : List String := ["Key", "Size", "ETag", "LastModified"]

/-- A name that says nothing to a listing in an element of the other name. -/
def isForeignName (parent name : String) : Bool :=
  name ∉ anywhere && (parent ≠ "Contents" || name ∉ inContents)

mutual

/-- An element in which nothing is said to a listing: an owner, a storage
class, the prefix that was asked for. -/
def isForeign (parent : String) : Element → Bool
  | .leaf name _ => isForeignName parent name
  | .node name children => isForeignName parent name && areForeign name children
  | .aside => true

/-- Elements in which nothing is said to a listing. -/
def areForeign (parent : String) : List Element → Bool
  | [] => true
  | e :: es => isForeign parent e && areForeign parent es

end

/-- What stands beside the key of an object. -/
inductive Field where
  | size (body : Body)
  | etag (body : Body)
  | lastModified (body : Body)
  | other (e : {e : Element // isForeign "Contents" e = true})

/-- The element of a field. -/
def Field.element : Field → Element
  | size body => .leaf "Size" body
  | etag body => .leaf "ETag" body
  | lastModified body => .leaf "LastModified" body
  | other e => e.val

/-- An element `Contents`: one key, and fields before and behind it. -/
structure Contents where
  before : List Field
  key : Body
  after : List Field

/-- The element of an object. -/
def Contents.element (c : Contents) : Element :=
  .node "Contents" (c.before.map Field.element ++
    .leaf "Key" c.key :: c.after.map Field.element)

/-- What stands in a page. -/
inductive Item where
  | contents (c : Contents)
  | isTruncated (body : Body)
  | nextToken (body : Body)
  | other (e : {e : Element // isForeign "ListBucketResult" e = true})

/-- The element of an item. -/
def Item.element : Item → Element
  | contents c => c.element
  | isTruncated body => .leaf "IsTruncated" body
  | nextToken body => .leaf "NextContinuationToken" body
  | other e => e.val

def Item.contents? : Item → Option Contents
  | contents c => some c
  | _ => none

def Item.isTruncated? : Item → Option Body
  | isTruncated body => some body
  | _ => none

def Item.nextToken? : Item → Option Body
  | nextToken body => some body
  | _ => none

/-- A page of a listing. It says at most once whether it is truncated, in a
boolean, and names at most one token. -/
structure Page where
  items : List Item
  oneTruncated : (items.filterMap Item.isTruncated?).length ≤ 1
  boolean : ∀ b ∈ items.filterMap Item.isTruncated?,
    Xml.trim b.value = "true" ∨ Xml.trim b.value = "false"
  oneToken : (items.filterMap Item.nextToken?).length ≤ 1

namespace Page

/-- The objects of the page. -/
def contents (p : Page) : List Contents := p.items.filterMap Item.contents?

/-- The keys of the page. -/
def keys (p : Page) : List String := p.contents.map (·.key.value)

/-- Whether the page says that there are more. -/
def truncated (p : Page) : Bool :=
  (p.items.filterMap Item.isTruncated?).any fun b => Xml.trim b.value == "true"

/-- What the reader returns of the page: the declaration, then the root. -/
def reads (p : Page) : List (Except String Event) :=
  (.other :: (Element.node "ListBucketResult" (p.items.map Item.element)).events).map .ok

end Page

/-! ## What the parser keeps of a page -/

/-- What is kept of the object that is being read. -/
structure Draft where
  key : String := ""
  size : Option ℕ := none
  etag : Option String := none
  lastModified : Option String := none

/-- What is kept besides. -/
structure Outer where
  objects : List ObjectMeta
  isTruncated : Bool
  nextToken : Option String
  path : List String

/-- What a field leaves of an object. -/
def Field.apply (d : Draft) : Field → Draft
  | size body => (body.lastRun.map fun v => { d with size := parseU64 v }).getD d
  | etag body => (body.lastRun.map fun v => { d with etag := some (Str.trimMatches '"' v) }).getD d
  | lastModified body => (body.lastRun.map fun v => { d with lastModified := some v }).getD d
  | other _ => d

@[simp] theorem Field.key_apply (f : Field) (d : Draft) : (f.apply d).key = d.key := by
  cases f with
  | other e => rfl
  | size body => simp only [apply]; cases body.lastRun <;> rfl
  | etag body => simp only [apply]; cases body.lastRun <;> rfl
  | lastModified body => simp only [apply]; cases body.lastRun <;> rfl

/-- No field changes the key. -/
theorem key_foldl_apply (fs : List Field) (d : Draft) :
    (fs.foldl Field.apply d).key = d.key := by
  induction fs generalizing d with
  | nil => rfl
  | cons f fs ih => rw [List.foldl_cons, ih, Field.key_apply]

/-- What is kept of an object at its end. -/
def Contents.draft (c : Contents) : Draft :=
  c.after.foldl Field.apply
    { c.before.foldl Field.apply {} with key := c.key.lastRun.getD "" }

/-- The object that is listed, if any is. -/
def Contents.read (c : Contents) : Option ObjectMeta :=
  match c.draft.size with
  | some size =>
    if c.draft.key ≠ "" then some ⟨c.draft.key, size, c.draft.etag, c.draft.lastModified⟩ else none
  | none => none

/-- What an item leaves. -/
def Item.apply (o : Outer) : Item → Outer
  | contents c => { o with objects := o.objects ++ c.read.toList }
  | isTruncated body => (body.lastRun.map fun v => { o with isTruncated := v == "true" }).getD o
  | nextToken body => (body.lastRun.map fun v => { o with nextToken := some v }).getD o
  | other _ => o

theorem Item.path_apply (i : Item) (o : Outer) : (i.apply o).path = o.path := by
  cases i with
  | contents c => rfl
  | other e => rfl
  | isTruncated body => simp only [apply]; cases body.lastRun <;> rfl
  | nextToken body => simp only [apply]; cases body.lastRun <;> rfl

end Listing

namespace ListParse

open Listing

def draft (st : ListParse) : Draft := ⟨st.key, st.size, st.etag, st.lastModified⟩

def outer (st : ListParse) : Outer := ⟨st.objects, st.isTruncated, st.nextToken, st.path⟩

/-- An event whose text has no reference in it. -/
def step (st : ListParse) : Event → ListParse
  | .start name => st.onStart name
  | .stop name => st.onEnd name
  | .text raw => st.onText raw
  | .other => st

theorem foldlM_onRead (lib : XmlLib) {evs : List Event}
    (h : ∀ raw, .text raw ∈ evs → '&' ∉ raw.toList) (st : ListParse) :
    (evs.map .ok).foldlM (onRead lib) st = .ok (evs.foldl step st) := by
  induction evs generalizing st with
  | nil => rfl
  | cons ev evs ih =>
    have hev : st.onEvent lib ev = .ok (st.step ev) := by
      cases ev with
      | text raw =>
        show (match lib.unescape raw with
          | .error e => _
          | .ok value => _) = _
        rw [lib.unescape_plain raw (h raw List.mem_cons_self)]
        rfl
      | start name => rfl
      | stop name => rfl
      | other => rfl
    rw [List.map_cons, List.foldlM_cons, List.foldl_cons]
    show (st.onEvent lib ev >>= _) = _
    rw [hev]
    exact ih (fun raw hraw => h raw (List.mem_cons_of_mem _ hraw)) _

@[simp] theorem path_onText (st : ListParse) (v : String) : (st.onText v).path = st.path := by
  unfold onText
  cases st.path.head? with
  | none => rfl
  | some last =>
    dsimp only
    split_ifs <;> rfl

theorem path_foldl_onText (vs : List String) (st : ListParse) :
    (vs.foldl onText st).path = st.path := by
  induction vs generalizing st with
  | nil => rfl
  | cons v vs ih => rw [List.foldl_cons, ih, path_onText]

theorem foldl_pieces (ps : List Piece) (st : ListParse) :
    (ps.flatMap Piece.events).foldl step st = (ps.filterMap Piece.shown).foldl onText st := by
  induction ps generalizing st with
  | nil => rfl
  | cons p ps ih =>
    rw [List.flatMap_cons, List.foldl_append, ih]
    cases p with
    | mark m => rfl
    | run r =>
      rw [show (Piece.run r).events = (Piece.run r).shown.toList.map Event.text from rfl]
      cases hs : (Piece.run r).shown with
      | none => rw [List.filterMap_cons_none hs]; rfl
      | some v => rw [List.filterMap_cons_some hs]; rfl

theorem onEnd_of_ne {name : String} (hname : name ≠ "Contents") (st : ListParse) :
    st.onEnd name = { st with path := st.path.tail } := by
  obtain ⟨_, _, _, _, _, _, size, _, _⟩ := st
  cases size with
  | none => rfl
  | some size => simp [onEnd, hname]

/-- **An element of texts**: each is taken where the element is open. -/
theorem foldl_leaf {name : String} (hname : name ≠ "Contents") (body : Body) (st : ListParse) :
    (Element.leaf name body).events.foldl step st
      = { (body.pieces.filterMap Piece.shown).foldl onText
            { st with path := name :: st.path } with path := st.path } := by
  cases body with
  | none => rfl
  | some d =>
    have hstart : st.step (.start name) = { st with path := name :: st.path } := by
      simp [step, onStart, hname]
    rw [Element.events, List.foldl_cons, hstart, List.foldl_append, foldl_pieces]
    rw [show Body.pieces (some d) = d.pieces from rfl]
    show onEnd _ name = _
    rw [onEnd_of_ne hname, path_foldl_onText, List.tail_cons]

/-- Who overwrites keeps the last. -/
theorem foldl_onText_eq {st : ListParse} {set : String → ListParse}
    (hset : ∀ v, st.onText v = set v) (hagain : ∀ v w, (set v).onText w = set w)
    (vs : List String) : vs.foldl onText st = (vs.getLast?.map set).getD st := by
  induction vs using List.reverseRecOn with
  | nil => rfl
  | append_singleton vs v ih =>
    rw [List.foldl_append, ih, List.foldl_cons, List.foldl_nil, List.getLast?_concat]
    cases vs.getLast? with
    | none => exact hset v
    | some w => exact hagain w v

/-- A text in a foreign element is kept with the prefixes, if at all. -/
theorem onText_of_isForeignName {parent name : String} (h : isForeignName parent name = true)
    {st : ListParse} {rest : List String} (hpath : st.path = name :: parent :: rest) (v : String) :
    (st.onText v).draft = st.draft ∧ (st.onText v).outer = st.outer := by
  have hname : (name ≠ "Contents" ∧ name ≠ "IsTruncated" ∧ name ≠ "NextContinuationToken") ∧
      (parent = "Contents" → name ≠ "Key" ∧ name ≠ "Size" ∧ name ≠ "ETag" ∧
        name ≠ "LastModified") := by
    simp only [isForeignName, anywhere, inContents, Bool.and_eq_true, decide_eq_true_eq,
      Bool.or_eq_true, List.mem_cons, List.not_mem_nil, or_false, not_or] at h
    exact ⟨h.1, fun hp => h.2.resolve_left (fun hne => hne hp)⟩
  unfold onText
  rw [hpath]
  simp only [List.head?_cons, List.getElem?_cons_succ, List.getElem?_cons_zero,
    Option.some.injEq]
  by_cases hparent : parent = "Contents"
  · simp [hname.1, hname.2 hparent, hparent]
  · simp only [hname.1, hparent, and_false, if_false]
    split_ifs <;> simp [draft, outer, hpath]

theorem foldl_onText_of_isForeignName {parent name : String}
    (h : isForeignName parent name = true) (vs : List String) (st : ListParse)
    {rest : List String} (hpath : st.path = name :: parent :: rest) :
    (vs.foldl onText st).draft = st.draft ∧ (vs.foldl onText st).outer = st.outer := by
  induction vs generalizing st with
  | nil => exact ⟨rfl, rfl⟩
  | cons v vs ih =>
    have hv := onText_of_isForeignName h hpath v
    have hvs := ih (st.onText v) (by rw [path_onText, hpath])
    exact ⟨hvs.1.trans hv.1, hvs.2.trans hv.2⟩

theorem name_ne_of_isForeignName {parent name : String} (h : isForeignName parent name = true) :
    name ≠ "Contents" := by
  simp only [isForeignName, anywhere, Bool.and_eq_true, decide_eq_true_eq, List.mem_cons,
    not_or] at h
  exact h.1.1

mutual

/-- **A foreign element leaves nothing.** -/
theorem foldl_of_isForeign {parent : String} : (e : Element) → isForeign parent e = true →
    ∀ (st : ListParse) (rest : List String), st.path = parent :: rest →
      (e.events.foldl step st).draft = st.draft ∧ (e.events.foldl step st).outer = st.outer
  | .leaf name body, h, st, rest, hpath => by
    rw [foldl_leaf (name_ne_of_isForeignName h)]
    obtain ⟨hdraft, houter⟩ := foldl_onText_of_isForeignName h
      (body.pieces.filterMap Piece.shown) { st with path := name :: st.path } (by rw [hpath])
    refine ⟨hdraft, ?_⟩
    have hout := congrArg (fun o : Outer => (o.objects, o.isTruncated, o.nextToken)) houter
    simp only [outer, Prod.mk.injEq] at hout ⊢
    simp [hout]
  | .node name children, h, st, rest, hpath => by
    have hboth : isForeignName parent name = true ∧ areForeign name children = true := by
      simpa [isForeign] using h
    have hname := name_ne_of_isForeignName hboth.1
    have hstart : st.step (.start name) = { st with path := name :: st.path } := by
      simp [step, onStart, hname]
    obtain ⟨hdraft, houter⟩ := foldl_of_areForeign children hboth.2
      { st with path := name :: st.path } st.path rfl
    rw [Element.events, List.foldl_cons, hstart, List.foldl_append]
    show (onEnd _ name).draft = _ ∧ (onEnd _ name).outer = _
    rw [onEnd_of_ne hname]
    refine ⟨hdraft, ?_⟩
    simp only [outer, Outer.mk.injEq] at houter ⊢
    simp [houter]
  | .aside, _, _, _, _ => ⟨rfl, rfl⟩

theorem foldl_of_areForeign {parent : String} : (es : List Element) →
    areForeign parent es = true → ∀ (st : ListParse) (rest : List String),
      st.path = parent :: rest → ((allEvents es).foldl step st).draft = st.draft ∧
        ((allEvents es).foldl step st).outer = st.outer
  | [], _, _, _, _ => ⟨rfl, rfl⟩
  | e :: es, h, st, rest, hpath => by
    have hboth : isForeign parent e = true ∧ areForeign parent es = true := by
      simpa [areForeign] using h
    obtain ⟨hdraft, houter⟩ := foldl_of_isForeign e hboth.1 st rest hpath
    have hpath' : (e.events.foldl step st).path = parent :: rest := by
      rw [← hpath]
      exact congrArg Outer.path houter
    obtain ⟨hdrafts, houters⟩ := foldl_of_areForeign es hboth.2 _ rest hpath'
    rw [allEvents, List.foldl_append]
    exact ⟨hdrafts.trans hdraft, houters.trans houter⟩

end

/-- **An element whose last text is kept.** -/
theorem foldl_leaf_eq {name : String} (hname : name ≠ "Contents") (body : Body) {st : ListParse}
    (keep : String → ListParse)
    (hkeep : ∀ v, { st with path := name :: st.path }.onText v
      = { keep v with path := name :: st.path })
    (hagain : ∀ v w, { keep v with path := name :: st.path }.onText w
      = { keep w with path := name :: st.path })
    (hpath : ∀ v, (keep v).path = st.path) :
    (Element.leaf name body).events.foldl step st = (body.lastRun.map keep).getD st := by
  rw [foldl_leaf hname, foldl_onText_eq hkeep hagain]
  show { ((body.lastRun.map _).getD _ : ListParse) with path := st.path } = _
  cases body.lastRun with
  | none => rfl
  | some v =>
    show { keep v with path := st.path } = keep v
    rw [← hpath v]

/-- A field changes the object that is being read, and nothing else. -/
theorem foldl_field (f : Field) {st : ListParse} {rest : List String}
    (hpath : st.path = "Contents" :: rest) :
    (f.element.events.foldl step st).draft = f.apply st.draft ∧
      (f.element.events.foldl step st).outer = st.outer := by
  cases f with
  | other e => exact foldl_of_isForeign e.val e.property st rest hpath
  | size body =>
    rw [show Field.element (.size body) = .leaf "Size" body from rfl,
      foldl_leaf_eq (by decide) body (fun v => { st with size := parseU64 v })
        (fun v => by simp [onText, hpath]) (fun v w => by simp [onText, hpath]) (fun v => rfl)]
    simp only [Field.apply]
    cases body.lastRun <;> exact ⟨rfl, rfl⟩
  | etag body =>
    rw [show Field.element (.etag body) = .leaf "ETag" body from rfl,
      foldl_leaf_eq (by decide) body (fun v => { st with etag := some (Str.trimMatches '"' v) })
        (fun v => by simp [onText, hpath]) (fun v w => by simp [onText, hpath]) (fun v => rfl)]
    simp only [Field.apply]
    cases body.lastRun <;> exact ⟨rfl, rfl⟩
  | lastModified body =>
    rw [show Field.element (.lastModified body) = .leaf "LastModified" body from rfl,
      foldl_leaf_eq (by decide) body (fun v => { st with lastModified := some v })
        (fun v => by simp [onText, hpath]) (fun v w => by simp [onText, hpath]) (fun v => rfl)]
    simp only [Field.apply]
    cases body.lastRun <;> exact ⟨rfl, rfl⟩

theorem foldl_fields (fs : List Field) {st : ListParse} {rest : List String}
    (hpath : st.path = "Contents" :: rest) :
    ((allEvents (fs.map Field.element)).foldl step st).draft = fs.foldl Field.apply st.draft ∧
      ((allEvents (fs.map Field.element)).foldl step st).outer = st.outer := by
  induction fs generalizing st with
  | nil => exact ⟨rfl, rfl⟩
  | cons f fs ih =>
    obtain ⟨hdraft, houter⟩ := foldl_field f hpath
    obtain ⟨hdrafts, houters⟩ := @ih (f.element.events.foldl step st)
      ((congrArg Outer.path houter).trans hpath)
    rw [List.map_cons, allEvents, List.foldl_append, List.foldl_cons]
    exact ⟨hdrafts.trans (congrArg (fs.foldl Field.apply) hdraft), houters.trans houter⟩

/-- The end of an element `Contents`: the object is kept if it has a size
and a key. -/
theorem outer_onEnd_contents (st : ListParse) :
    (st.onEnd "Contents").outer = { st.outer with
      objects := st.outer.objects ++ (match st.draft.size with
        | some size => if st.draft.key ≠ "" then
            some ⟨st.draft.key, size, st.draft.etag, st.draft.lastModified⟩ else none
        | none => none : Option ObjectMeta).toList
      path := st.outer.path.tail } := by
  obtain ⟨_, _, _, _, _, key, size, _, _⟩ := st
  cases size with
  | none => simp [onEnd, outer, draft]
  | some size =>
    by_cases hkey : key = ""
    · simp [onEnd, outer, draft, hkey]
    · simp [onEnd, outer, draft, hkey]

/-- **An element `Contents` adds what it is read as.** -/
theorem foldl_contents (c : Contents) (st : ListParse) :
    (c.element.events.foldl step st).outer
      = { st.outer with objects := st.objects ++ c.read.toList } := by
  obtain ⟨hbefore, houter⟩ := @foldl_fields c.before (st.onStart "Contents") st.path rfl
  generalize hst₁ : (allEvents (c.before.map Field.element)).foldl step (st.onStart "Contents")
    = st₁ at hbefore houter
  have hpath : st₁.path = "Contents" :: st.path := congrArg Outer.path houter
  have hkey : (Element.leaf "Key" c.key).events.foldl step st₁
      = { st₁ with key := c.key.lastRun.getD st₁.key } := by
    rw [foldl_leaf_eq (by decide) c.key (fun v => { st₁ with key := v })
      (fun v => by simp [onText, hpath]) (fun v w => by simp [onText, hpath]) (fun v => rfl)]
    cases c.key.lastRun <;> rfl
  obtain ⟨hafter, houter'⟩ := @foldl_fields c.after
    { st₁ with key := c.key.lastRun.getD st₁.key } st.path hpath
  have hdraft : ((allEvents (c.after.map Field.element)).foldl step
      { st₁ with key := c.key.lastRun.getD st₁.key }).draft = c.draft := by
    have hempty : st₁.key = "" :=
      (congrArg Draft.key hbefore).trans (key_foldl_apply c.before _)
    refine hafter.trans (congrArg (c.after.foldl Field.apply) ?_)
    rw [hempty]
    show { st₁.draft with key := c.key.lastRun.getD "" } = _
    rw [hbefore]
    rfl
  have hevents : c.element.events = .start "Contents" ::
      (allEvents (c.before.map Field.element) ++ ((Element.leaf "Key" c.key).events ++
        allEvents (c.after.map Field.element)) ++ [.stop "Contents"]) := by
    rw [Contents.element, Element.events, allEvents_append, allEvents]
  rw [hevents, List.foldl_cons, List.foldl_append, List.foldl_append, List.foldl_append]
  show (onEnd (List.foldl step (List.foldl step (List.foldl step (st.onStart "Contents") _) _) _)
    "Contents").outer = _
  rw [hst₁, hkey, outer_onEnd_contents, hdraft, houter']
  rw [show outer { st₁ with key := c.key.lastRun.getD st₁.key } = st₁.outer from rfl, houter]
  rfl

/-- An item changes what it says, and nothing else. -/
theorem foldl_item (i : Item) {st : ListParse} (hpath : st.path = ["ListBucketResult"]) :
    (i.element.events.foldl step st).outer = i.apply st.outer := by
  cases i with
  | contents c => exact foldl_contents c st
  | other e => exact (foldl_of_isForeign e.val e.property st [] hpath).2
  | isTruncated body =>
    rw [show Item.element (.isTruncated body) = .leaf "IsTruncated" body from rfl,
      foldl_leaf_eq (by decide) body (fun v => { st with isTruncated := v == "true" })
        (fun v => by simp [onText, hpath]) (fun v w => by simp [onText, hpath]) (fun v => rfl)]
    simp only [Item.apply]
    cases body.lastRun <;> rfl
  | nextToken body =>
    rw [show Item.element (.nextToken body) = .leaf "NextContinuationToken" body from rfl,
      foldl_leaf_eq (by decide) body (fun v => { st with nextToken := some v })
        (fun v => by simp [onText, hpath]) (fun v w => by simp [onText, hpath]) (fun v => rfl)]
    simp only [Item.apply]
    cases body.lastRun <;> rfl

theorem foldl_items (is : List Item) {st : ListParse} (hpath : st.path = ["ListBucketResult"]) :
    ((allEvents (is.map Item.element)).foldl step st).outer = is.foldl Item.apply st.outer := by
  induction is generalizing st with
  | nil => rfl
  | cons i is ih =>
    have hi := foldl_item i hpath
    have hpath' : (i.element.events.foldl step st).path = ["ListBucketResult"] :=
      (congrArg Outer.path hi).trans ((i.path_apply _).trans hpath)
    rw [List.map_cons, allEvents, List.foldl_append, ih hpath', hi, List.foldl_cons]

end ListParse

namespace Listing

namespace Page

/-- The last text of what says whether there are more. -/
def truncatedRun (p : Page) : Option String :=
  ((p.items.filterMap Item.isTruncated?).filterMap Body.lastRun).getLast?

/-- The last text of what names the token. -/
def tokenRun (p : Page) : Option String :=
  ((p.items.filterMap Item.nextToken?).filterMap Body.lastRun).getLast?

end Page

/-- What is kept of items in order. -/
theorem foldl_apply_eq (is : List Item) (o : Outer) :
    is.foldl Item.apply o =
      { objects := o.objects ++ (is.filterMap Item.contents?).filterMap Contents.read
        isTruncated := (((is.filterMap Item.isTruncated?).filterMap Body.lastRun).getLast?.map
          (· == "true")).getD o.isTruncated
        nextToken := ((is.filterMap Item.nextToken?).filterMap Body.lastRun).getLast?.or
          o.nextToken
        path := o.path } := by
  induction is using List.reverseRecOn with
  | nil => simp
  | append_singleton is i ih =>
    rw [List.foldl_append, ih, List.foldl_cons, List.foldl_nil]
    cases i with
    | contents c =>
      cases hc : c.read <;>
        simp [Item.apply, Item.contents?, Item.isTruncated?, Item.nextToken?, hc,
          List.filterMap_cons, -List.getLast?_filterMap]
    | isTruncated body =>
      cases hb : body.lastRun <;>
        simp [Item.apply, Item.contents?, Item.isTruncated?, Item.nextToken?, hb,
          List.filterMap_cons, -List.getLast?_filterMap]
    | nextToken body =>
      cases hb : body.lastRun <;>
        simp [Item.apply, Item.contents?, Item.isTruncated?, Item.nextToken?, hb,
          List.filterMap_cons, -List.getLast?_filterMap]
    | other e =>
      simp [Item.apply, Item.contents?, Item.isTruncated?, Item.nextToken?,
        List.filterMap_cons, -List.getLast?_filterMap]

/-- **What the parser makes of a page.** -/
theorem parseListPage_reads (lib : XmlLib) (p : Page) :
    ∃ page, parseListPage lib p.reads = .ok page ∧
      page.objects = p.contents.filterMap Contents.read ∧
      page.isTruncated = (p.truncatedRun == some "true") ∧ page.nextToken = p.tokenRun := by
  have hplain : ∀ raw, .text raw ∈ Event.other ::
      (Element.node "ListBucketResult" (p.items.map Item.element)).events → '&' ∉ raw.toList := by
    intro raw hraw
    refine Element.amp_notMem _ ((List.mem_cons.mp hraw).resolve_left ?_)
    exact fun h => nomatch h
  have hitems := @ListParse.foldl_items p.items (ListParse.onStart {} "ListBucketResult") rfl
  rw [foldl_apply_eq] at hitems
  generalize hst : (allEvents (p.items.map Item.element)).foldl ListParse.step
    (ListParse.onStart {} "ListBucketResult") = st at hitems
  have hfold : (Event.other :: (Element.node "ListBucketResult"
      (p.items.map Item.element)).events).foldl ListParse.step {}
      = { st with path := st.path.tail } := by
    rw [List.foldl_cons, Element.events, List.foldl_cons, List.foldl_append]
    show ListParse.onEnd (List.foldl ListParse.step (ListParse.onStart {} "ListBucketResult") _)
      "ListBucketResult" = _
    rw [hst, ListParse.onEnd_of_ne (by decide)]
  refine ⟨st.page, ?_, ?_⟩
  · unfold parseListPage Page.reads
    rw [ListParse.foldlM_onRead lib hplain, hfold]
    rfl
  · simp only [ListParse.outer, Outer.mk.injEq] at hitems
    obtain ⟨hobjects, htruncated, htoken, -⟩ := hitems
    refine ⟨hobjects, ?_, ?_⟩
    · refine htruncated.trans ?_
      show (p.truncatedRun.map (· == "true")).getD false = _
      cases p.truncatedRun <;> rfl
    · refine htoken.trans ?_
      show p.tokenRun.or none = _
      exact Option.or_none

/-! ## What is read -/

def Field.size? : Field → Option Body
  | size body => some body
  | _ => none

namespace Contents

/-- The last text of the sizes of an object. -/
def sizeRun (c : Contents) : Option String :=
  (((c.before ++ c.after).filterMap Field.size?).filterMap Body.lastRun).getLast?

/-- The key is literal, and the size is a number. -/
def IsRead (c : Contents) : Prop := c.key.Literal ∧ ∃ s, c.sizeRun = some s ∧ parseU64 s ≠ none

end Contents

theorem size_foldl_apply (fs : List Field) (d : Draft) :
    (fs.foldl Field.apply d).size = (((fs.filterMap Field.size?).filterMap
      Body.lastRun).getLast?.map parseU64).getD d.size := by
  induction fs using List.reverseRecOn with
  | nil => rfl
  | append_singleton fs f ih =>
    rw [List.foldl_append, List.foldl_cons, List.foldl_nil]
    cases f with
    | size body =>
      cases hb : body.lastRun <;>
        simp [Field.apply, Field.size?, hb, ih, -List.getLast?_filterMap]
    | etag body =>
      cases hb : body.lastRun <;>
        simp [Field.apply, Field.size?, hb, ih, List.filterMap_cons, -List.getLast?_filterMap]
    | lastModified body =>
      cases hb : body.lastRun <;>
        simp [Field.apply, Field.size?, hb, ih, List.filterMap_cons, -List.getLast?_filterMap]
    | other e =>
      simp [Field.apply, Field.size?, ih, List.filterMap_cons, -List.getLast?_filterMap]

namespace Contents

theorem key_draft (c : Contents) : c.draft.key = c.key.lastRun.getD "" := by
  unfold draft
  rw [key_foldl_apply]

theorem size_draft (c : Contents) : c.draft.size = c.sizeRun.bind parseU64 := by
  unfold draft sizeRun
  rw [size_foldl_apply]
  show (Option.map parseU64 _).getD (c.before.foldl Field.apply {}).size = _
  rw [size_foldl_apply, List.filterMap_append, List.filterMap_append, List.getLast?_append]
  cases ((c.after.filterMap Field.size?).filterMap Body.lastRun).getLast? with
  | none => cases ((c.before.filterMap Field.size?).filterMap Body.lastRun).getLast? <;> rfl
  | some s => rfl

/-- **An object is listed under its key if and only if it is read.** -/
theorem isRead_iff (c : Contents) : c.IsRead ↔ ∃ o, c.read = some o ∧ o.key = c.key.value := by
  unfold IsRead read
  rw [← Body.lastRun_eq_some_value_iff, size_draft, key_draft]
  constructor
  · rintro ⟨hkey, s, hs, hsize⟩
    obtain ⟨size, hsize⟩ := Option.ne_none_iff_exists'.mp hsize
    have hne : c.key.value ≠ "" := Body.ne_empty_of_lastRun hkey
    rw [hs, hkey]
    simp [hsize, hne]
  · rintro ⟨o, ho, hkey⟩
    cases hs : c.sizeRun with
    | none => rw [hs] at ho; exact nomatch ho
    | some s =>
      cases hsize : parseU64 s with
      | none => rw [hs, Option.bind_some, hsize] at ho; exact nomatch ho
      | some size =>
        rw [hs, Option.bind_some, hsize] at ho
        cases hlast : c.key.lastRun with
        | none => simp [hlast] at ho
        | some v =>
          have hv : v ≠ "" := Body.ne_empty_of_lastRun hlast
          simp only [hlast, Option.getD_some, ne_eq, hv, not_false_eq_true, if_true,
            Option.some.injEq] at ho
          rw [← hkey, ← ho]
          exact ⟨rfl, s, rfl, by simp [hsize]⟩

end Contents

namespace Page

/-- The page says that there are more, and how to ask for them. -/
def SaysMore (p : Page) : Prop := p.truncatedRun = some "true" ∧ p.tokenRun ≠ none

/-- Each object is read, and so is that there are more, if there are. -/
def Readable (p : Page) : Prop :=
  (∀ c ∈ p.contents, c.IsRead) ∧ (p.truncated = true → p.SaysMore)

/-- Of a page that is not truncated it is never read that it is. -/
theorem truncated_of_saysMore {p : Page} (h : p.SaysMore) : p.truncated = true := by
  obtain ⟨b, hb, hrun⟩ : ∃ b ∈ p.items.filterMap Item.isTruncated?, b.lastRun = some "true" :=
    List.mem_filterMap.mp (List.mem_of_getLast? h.1)
  unfold truncated
  rw [List.any_eq_true]
  refine ⟨b, hb, beq_iff_eq.mpr ((p.boolean b hb).resolve_right (fun hfalse => ?_))⟩
  have hmem := Xml.mem_trim (Body.mem_value_of_lastRun hrun (show 't' ∈ _ by decide)) (by decide)
  rw [hfalse] at hmem
  exact absurd hmem (by decide)

end Page

end Listing
