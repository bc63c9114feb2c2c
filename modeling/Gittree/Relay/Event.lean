import Gittree.Lib.Json
import Gittree.Lib.Map
import Gittree.Lib.Result

/-!
# Events, tag indexes and filters of the relay

`services/relay/src/event.rs`, `tags.rs` and `filter.rs`.  Hashing and Schnorr verification are
fields of `Crypto`.

* `fromTags_isOk_iff`, `has_fromTags`: the tags that are indexed, and what their index has;
* `Filter.accepts_iff`: the events that a filter matches.
-/

namespace Gittree

open Rust

/-- `NostrEvent`. -/
structure NostrEvent where
  id : String
  pubkey : String
  createdAt : ℤ
  kind : ℕ
  tags : List (List String)
  content : String
  sig : String
  deriving DecidableEq, Repr

/-- `EventError`. -/
inductive EventError
  | invalidId
  | invalidSignature
  | invalidPubkey
  deriving DecidableEq, Repr

def EventError.display : EventError → String
  | .invalidId => "event id mismatch"
  | .invalidSignature => "invalid event signature"
  | .invalidPubkey => "invalid event pubkey"

/-- What the relay takes from `sha2` and `secp256k1`: the digest of a text, the texts that are a
signature or a key, whether a signature of a digest verifies under a key, the bytes that are a
secret key, and the signature that a secret key makes of a digest. -/
structure Crypto where
  sha256 : String → List UInt8
  isSignature : String → Bool
  isXOnlyKey : String → Bool
  verifySchnorr : String → List UInt8 → String → Bool
  isSecretKey : List UInt8 → Bool
  signSchnorr : List UInt8 → List UInt8 → List UInt8

namespace NostrEvent

/-- `canonical_json`. -/
def canonicalJson (e : NostrEvent) : String :=
  (Json.Value.array [.number (.posInt 0), .string e.pubkey, Json.ofI64 e.createdAt,
    .number (.posInt e.kind), .array (e.tags.map fun tag => .array (tag.map .string)),
    .string e.content]).toText

/-- `compute_id`. -/
def computeId (crypto : Crypto) (e : NostrEvent) : String :=
  Hex.encode (crypto.sha256 e.canonicalJson)

/-- `verify`. -/
def verify (crypto : Crypto) (e : NostrEvent) : Except EventError Unit := do
  let digest := crypto.sha256 e.canonicalJson
  Result.ensure (e.id = Hex.encode digest) .invalidId
  Result.ensure (crypto.isSignature e.sig = true) .invalidSignature
  Result.ensure (crypto.isXOnlyKey e.pubkey = true) .invalidPubkey
  Result.ensure (crypto.verifySchnorr e.sig digest e.pubkey = true) .invalidSignature

/-- The cryptography that knows the digests and signatures of the given events and no others. -/
def signedBy (events : List NostrEvent) : Crypto where
  sha256 := fun text =>
    ((events.find? fun e => e.canonicalJson == text).bind fun e => Hex.decode e.id).getD []
  isSignature := fun sig => Str.isHexLen sig 128
  isXOnlyKey := fun key => Str.isHexLen key 64
  verifySchnorr := fun sig digest key =>
    events.any fun e => e.sig == sig && e.pubkey == key && Hex.decode e.id == some digest
  isSecretKey := fun bytes => bytes.length == 32
  signSchnorr := fun _ _ => []

example : canonicalJson ⟨"", "ff", 1, 1, [["e", "1"], ["p", "2"]], "hello", ""⟩ =
    "[0,\"ff\",1,1,[[\"e\",\"1\"],[\"p\",\"2\"]],\"hello\"]" := by
  decide +kernel

end NostrEvent

/-! ### Tag index -/

/-- `TagError`. -/
inductive TagError
  | emptyTag
  | emptyName
  | emptyValue
  deriving DecidableEq, Repr

def TagError.display : TagError → String
  | .emptyTag => "tag is empty"
  | .emptyName => "tag name is empty"
  | .emptyValue => "tag value is empty"

/-- `TagIndex`. -/
abbrev TagIndex := Map (List String)

namespace TagIndex

/-- The inner loop of `from_tags`: the values of one tag, each kept once. -/
def addValues (entry : List String) : List String → Except TagError (List String)
  | [] => .ok entry
  | value :: rest => do
    Result.ensure (Str.trim value ≠ "") .emptyValue
    addValues (if value ∈ entry then entry else entry ++ [value]) rest

/-- The outer loop of `from_tags`. -/
def addTags (index : TagIndex) : List (List String) → Except TagError TagIndex
  | [] => .ok index
  | [] :: _ => .error .emptyTag
  | (first :: values) :: rest => do
    let name := Str.trim first
    Result.ensure (name ≠ "") .emptyName
    let entry ← addValues (index[name]?.getD []) values
    addTags (index.insert name entry) rest

/-- `TagIndex::from_tags`. -/
def fromTags (tags : List (List String)) : Except TagError TagIndex := addTags ∅ tags

/-- The tags that `from_tags` accepts: a name and values that are not blank. -/
def Indexable : List String → Prop
  | [] => False
  | name :: values => Str.trim name ≠ "" ∧ ∀ value ∈ values, Str.trim value ≠ ""

/-- The index has a value under a name. -/
def Has (index : TagIndex) (name value : String) : Prop :=
  ∃ values, index[name]? = some values ∧ value ∈ values

/-- A tag with the given name, up to blanks around it, has the value. -/
def Tagged (tags : List (List String)) (name value : String) : Prop :=
  ∃ first values, first :: values ∈ tags ∧ Str.trim first = name ∧ value ∈ values

theorem addValues_eq_ok {entry values entry' : List String}
    (h : addValues entry values = .ok entry') :
    (∀ value ∈ values, Str.trim value ≠ "") ∧
      ∀ value, value ∈ entry' ↔ value ∈ entry ∨ value ∈ values := by
  induction values generalizing entry with
  | nil =>
    cases h
    simp
  | cons first rest ih =>
    simp only [addValues, Result.bind_eq_ok, Result.ensure_eq_ok, exists_const] at h
    obtain ⟨hrest, hmem⟩ := ih h.2
    refine ⟨List.forall_mem_cons.2 ⟨h.1, hrest⟩, fun value => ?_⟩
    have hentry : value ∈ (if first ∈ entry then entry else entry ++ [first]) ↔
        value ∈ entry ∨ value = first := by
      split_ifs with hin
      · exact ⟨Or.inl, fun hv => hv.elim id fun hv => hv ▸ hin⟩
      · simp
    rw [hmem, hentry, List.mem_cons, or_assoc]

theorem addValues_total {values : List String} (h : ∀ value ∈ values, Str.trim value ≠ "")
    (entry : List String) : ∃ entry', addValues entry values = .ok entry' := by
  induction values generalizing entry with
  | nil => exact ⟨_, rfl⟩
  | cons first rest ih =>
    obtain ⟨hfirst, hrest⟩ := List.forall_mem_cons.1 h
    simp only [addValues, Result.bind_eq_ok, Result.ensure_eq_ok, exists_const]
    obtain ⟨entry', he⟩ := ih hrest (if first ∈ entry then entry else entry ++ [first])
    exact ⟨entry', hfirst, he⟩

theorem tagged_cons {tag : List String} {tags : List (List String)} {name value : String} :
    Tagged (tag :: tags) name value ↔ Tagged [tag] name value ∨ Tagged tags name value := by
  simp only [Tagged, List.mem_cons, List.not_mem_nil, or_false]
  constructor
  · rintro ⟨first, values, hm | hm, h⟩
    · exact Or.inl ⟨first, values, hm, h⟩
    · exact Or.inr ⟨first, values, hm, h⟩
  · rintro (⟨first, values, hm, h⟩ | ⟨first, values, hm, h⟩)
    · exact ⟨first, values, Or.inl hm, h⟩
    · exact ⟨first, values, Or.inr hm, h⟩

/-- What `from_tags` accepts, and what it adds to an index. -/
theorem addTags_eq_ok {index index' : TagIndex} {tags : List (List String)}
    (h : addTags index tags = .ok index') :
    (∀ tag ∈ tags, Indexable tag) ∧
      ∀ name value, Has index' name value ↔ Has index name value ∨ Tagged tags name value := by
  induction tags generalizing index with
  | nil =>
    cases h
    simp [Tagged]
  | cons tag rest ih =>
    cases tag with
    | nil => cases h
    | cons first values =>
      simp only [addTags, Result.bind_eq_ok, Result.ensure_eq_ok, exists_const] at h
      obtain ⟨hname, entry, hentry, h⟩ := h
      obtain ⟨hvalues, hin⟩ := addValues_eq_ok hentry
      obtain ⟨hrest, hmem⟩ := ih h
      refine ⟨List.forall_mem_cons.2 ⟨⟨hname, hvalues⟩, hrest⟩, fun name value => ?_⟩
      rw [hmem, tagged_cons, ← or_assoc]
      refine or_congr_left ?_
      -- the entry of this name grows by the values of the tag, the others stay
      have htag : Tagged [first :: values] name value ↔
          Str.trim first = name ∧ value ∈ values := by
        simp [Tagged]
      unfold Has
      rw [htag, Map.get_insert]
      split_ifs with hn
      · subst hn
        simp only [Option.some.injEq, exists_eq_left', hin, true_and]
        refine or_congr_left ?_
        cases index[Str.trim first]? <;> simp
      · simp [hn]

theorem addTags_total {tags : List (List String)} (h : ∀ tag ∈ tags, Indexable tag)
    (index : TagIndex) : ∃ index', addTags index tags = .ok index' := by
  induction tags generalizing index with
  | nil => exact ⟨_, rfl⟩
  | cons tag rest ih =>
    obtain ⟨htag, hrest⟩ := List.forall_mem_cons.1 h
    cases tag with
    | nil => exact htag.elim
    | cons first values =>
      obtain ⟨entry, he⟩ := addValues_total htag.2 (index[Str.trim first]?.getD [])
      obtain ⟨index', hi⟩ := ih hrest (index.insert (Str.trim first) entry)
      refine ⟨index', ?_⟩
      simp only [addTags, Result.bind_eq_ok, Result.ensure_eq_ok, exists_const]
      exact ⟨htag.1, entry, he, hi⟩

/-- The tags that are indexed. -/
theorem fromTags_isOk_iff {tags : List (List String)} :
    (∃ index, fromTags tags = .ok index) ↔ ∀ tag ∈ tags, Indexable tag :=
  ⟨fun ⟨_, h⟩ => (addTags_eq_ok h).1, fun h => addTags_total h ∅⟩

/-- What the index of a list of tags has. -/
theorem has_fromTags {index : TagIndex} {tags : List (List String)} (h : fromTags tags = .ok index)
    (name value : String) : Has index name value ↔ Tagged tags name value := by
  rw [(addTags_eq_ok h).2]
  simp [Has]

end TagIndex

/-! ### Filters -/

/-- `Filter`. -/
structure Filter where
  ids : List String := []
  authors : List String := []
  kinds : List ℕ := []
  since : Option ℤ := none
  «until» : Option ℤ := none
  limit : Option ℕ := none
  tags : Map (List String) := ∅

/-- `Filter::matches`. -/
def Filter.matches (filter : Filter) (event : NostrEvent) (tags : TagIndex) : Bool :=
  (filter.ids.isEmpty || filter.ids.any fun text => Str.startsWith event.id text) &&
    (filter.authors.isEmpty || filter.authors.any fun text => Str.startsWith event.pubkey text) &&
    (filter.kinds.isEmpty || filter.kinds.contains event.kind) &&
    (filter.since.all fun since => decide (since ≤ event.createdAt)) &&
    (filter.until.all fun limit => decide (event.createdAt ≤ limit)) &&
    filter.tags.toList.all fun entry =>
      match tags[entry.1]? with
      | none => false
      | some existing => entry.2.any fun value => existing.contains value

namespace Filter

/-- `Filter::matches`, with the index of the event's own tags. -/
def accepts (filter : Filter) (event : NostrEvent) : Bool :=
  match TagIndex.fromTags event.tags with
  | .ok tags => filter.matches event tags
  | .error _ => false

/-- The conditions of a filter that do not look at the tags. -/
def selects (filter : Filter) (event : NostrEvent) : Bool :=
  (filter.ids.isEmpty || filter.ids.any fun text => Str.startsWith event.id text) &&
    (filter.authors.isEmpty || filter.authors.any fun text => Str.startsWith event.pubkey text) &&
    (filter.kinds.isEmpty || filter.kinds.contains event.kind) &&
    (filter.since.all fun since => decide (since ≤ event.createdAt)) &&
    (filter.until.all fun limit => decide (event.createdAt ≤ limit))

theorem matches_iff {filter : Filter} {event : NostrEvent} {tags : TagIndex} :
    filter.matches event tags = true ↔ filter.selects event = true ∧
      ∀ (name : String) (values : List String), filter.tags[name]? = some values →
        ∃ value ∈ values, TagIndex.Has tags name value := by
  have htags : (filter.tags.toList.all fun entry =>
      match tags[entry.1]? with
      | none => false
      | some existing => entry.2.any fun value => existing.contains value) = true ↔
      ∀ (name : String) (values : List String), filter.tags[name]? = some values →
        ∃ value ∈ values, TagIndex.Has tags name value := by
    rw [List.all_eq_true]
    constructor
    · intro h name values hv
      have hentry := h _ (Std.ExtTreeMap.mem_toList_iff_getElem?_eq_some.2 hv)
      cases he : tags[name]? with
      | none => simp [he] at hentry
      | some existing =>
        simp only [he, List.any_eq_true, List.contains_iff_mem] at hentry
        obtain ⟨value, hm, hc⟩ := hentry
        exact ⟨value, hm, existing, he, hc⟩
    · rintro h ⟨name, values⟩ hm
      obtain ⟨value, hv, existing, he, hc⟩ :=
        h name values (Std.ExtTreeMap.mem_toList_iff_getElem?_eq_some.1 hm)
      simp only [he, List.any_eq_true, List.contains_iff_mem]
      exact ⟨value, hv, hc⟩
  unfold Filter.matches
  rw [Bool.and_eq_true, htags]
  rfl

theorem selects_iff {filter : Filter} {e : NostrEvent} :
    filter.selects e = true ↔
      (filter.ids = [] ∨ ∃ text ∈ filter.ids, Str.startsWith e.id text = true) ∧
      (filter.authors = [] ∨ ∃ text ∈ filter.authors, Str.startsWith e.pubkey text = true) ∧
      (filter.kinds = [] ∨ ∃ kind ∈ filter.kinds, kind = e.kind) ∧
      (∀ since ∈ filter.since, since ≤ e.createdAt) ∧ ∀ limit ∈ filter.until, e.createdAt ≤ limit := by
  unfold selects
  simp only [Bool.and_eq_true, Bool.or_eq_true, List.isEmpty_iff, List.any_eq_true,
    List.contains_iff_mem, Option.all_eq_true, decide_eq_true_eq, Option.mem_def, exists_eq_right,
    and_assoc]

/-- What a filter accepts, among the events with tags that are indexed. -/
theorem accepts_iff {filter : Filter} {event : NostrEvent}
    (h : ∀ tag ∈ event.tags, TagIndex.Indexable tag) :
    filter.accepts event = true ↔ filter.selects event = true ∧
      ∀ (name : String) (values : List String), filter.tags[name]? = some values →
        ∃ value ∈ values, TagIndex.Tagged event.tags name value := by
  obtain ⟨index, hi⟩ := TagIndex.fromTags_isOk_iff.2 h
  unfold accepts
  simp only [hi, matches_iff, TagIndex.has_fromTags hi]

end Filter
end Gittree
