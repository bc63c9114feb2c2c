import Gittree.Relay.Session

/-!
# What a filter means

`Filter::from_json` folds a JSON object into a struct with a `u32` for each kind and a map from tag
names.  `as u32` keeps the low bits of a larger number, `trim_start_matches` takes every leading `#`
off a key, so that two keys can name one tag, and an empty list is stored like one that is absent.

* `Reading`: the constraints that an object makes, with what an event must have to meet them;
* `direct`, `kept`: the constraints as they are written, and as they are stored;
* `accepts_iff_kept`: the parsed filter matches by the stored constraints;
* `keepsMeaning_iff`: when the two are the same.
-/

namespace Gittree

open Rust
open Rust.Json (Value)

/-! ### Texts without leading marks -/

namespace FilterMeaning

/-- The name of a tag under `from_json`, for a key without its first `#`. -/
def storedName (name : String) : String := Str.trimStartMatches name '#'

theorem trimStartMatches_mark (name : String) :
    Str.trimStartMatches ("#" ++ name) '#' = storedName name := by
  unfold storedName Str.trimStartMatches
  rw [Str.chars_eq_toList, Str.chars_eq_toList, String.toList_append]
  rfl

theorem startsWith_mark_iff (name : String) :
    Str.startsWith name "#" = true ↔ name.toList.head? = some '#' := by
  rw [Str.startsWith_iff]
  constructor
  · rintro ⟨rest, rfl⟩
    rw [String.toList_append]
    rfl
  · intro h
    obtain ⟨cs, hcs⟩ := List.head?_eq_some_iff.1 h
    refine ⟨String.ofList cs, ?_⟩
    rw [← String.toList_inj]
    simp only [String.toList_append, String.toList_ofList, hcs]
    rfl

theorem startsWith_storedName (name : String) : Str.startsWith (storedName name) "#" = false := by
  rw [Bool.eq_false_iff]
  intro h
  have hhead := (startsWith_mark_iff _).1 h
  unfold storedName Str.trimStartMatches at hhead
  rw [String.toList_ofList] at hhead
  have hfirst := List.head?_dropWhile_not (· == '#') (Str.chars name)
  rw [hhead] at hfirst
  exact absurd hfirst (by decide)

theorem storedName_eq_self {name : String} (h : Str.startsWith name "#" = false) :
    storedName name = name := by
  unfold storedName Str.trimStartMatches
  rw [Str.chars_eq_toList]
  have hdrop : name.toList.dropWhile (· == '#') = name.toList := by
    rw [List.dropWhile_eq_self_iff]
    intro hl heq
    rw [Bool.eq_false_iff] at h
    refine h ((startsWith_mark_iff name).2 ?_)
    rw [List.head?_eq_getElem?, List.getElem?_eq_getElem hl, eq_of_beq heq]
  rw [hdrop, String.ofList_toList]

end FilterMeaning

/-! ### Readings -/

/-- The constraints of a filter: lists of which one item must fit, bounds on the time, and for each
tag the values of which one must be there. -/
structure Reading where
  ids : Option (List String)
  authors : Option (List String)
  kinds : Option (List ℕ)
  since : Option ℤ
  «until» : Option ℤ
  tags : List (String × List String)

/-- The events that a relay can receive and index. -/
structure NostrEvent.Valid (e : NostrEvent) : Prop where
  kind_lt : e.kind < 2 ^ 32
  createdAt_ge : i64Min ≤ e.createdAt
  createdAt_le : e.createdAt ≤ i64Max
  indexable : ∀ tag ∈ e.tags, TagIndex.Indexable tag

namespace Reading

/-- One item of the list fits, if there is a list; `vacuous` says whether an empty list is like
none. -/
def Among {α : Type} (vacuous : Bool) (items : Option (List α)) (fits : α → Prop) : Prop :=
  ∀ l ∈ items, (vacuous = true ∧ l = []) ∨ ∃ x ∈ l, fits x

/-- The event meets the constraints. -/
structure Holds (vacuous : Bool) (r : Reading) (e : NostrEvent) : Prop where
  ids : Among vacuous r.ids fun text => Str.startsWith e.id text = true
  authors : Among vacuous r.authors fun text => Str.startsWith e.pubkey text = true
  kinds : Among vacuous r.kinds fun kind => kind = e.kind
  since : ∀ since ∈ r.since, since ≤ e.createdAt
  until_ : ∀ limit ∈ r.until, e.createdAt ≤ limit
  tags : ∀ entry ∈ r.tags, ∃ value ∈ entry.2, TagIndex.Tagged e.tags entry.1 value

/-- The constraints can be met. -/
structure Possible (vacuous : Bool) (r : Reading) : Prop where
  ids : vacuous = true ∨ r.ids ≠ some []
  authors : vacuous = true ∨ r.authors ≠ some []
  kinds : Among vacuous r.kinds fun kind => kind < 2 ^ 32
  time : ∃ t, i64Min ≤ t ∧ t ≤ i64Max ∧ (∀ since ∈ r.since, since ≤ t) ∧ ∀ limit ∈ r.until, t ≤ limit
  tags : ∀ entry ∈ r.tags, (entry.1 ≠ "" ∧ Str.trim entry.1 = entry.1) ∧
    ∃ value ∈ entry.2, Str.trim value ≠ ""

theorem Among.imp {α : Type} {vacuous : Bool} {items : Option (List α)} {fits fits' : α → Prop}
    (h : Among vacuous items fits) (himp : ∀ x, fits x → fits' x) : Among vacuous items fits' := by
  intro l hl
  rcases h l hl with hempty | ⟨x, hx, hfits⟩
  · exact Or.inl hempty
  · exact Or.inr ⟨x, hx, himp x hfits⟩

theorem Among.ne_nil {α : Type} {vacuous : Bool} {items : Option (List α)} {fits : α → Prop}
    (h : Among vacuous items fits) : vacuous = true ∨ items ≠ some [] := by
  by_cases hitems : items = some []
  · rcases h [] hitems with ⟨hvacuous, -⟩ | ⟨x, hx, -⟩
    · exact Or.inl hvacuous
    · exact absurd hx List.not_mem_nil
  · exact Or.inr hitems

/-- A text that fits a list of prefixes. -/
theorem exists_among {vacuous : Bool} {items : Option (List String)}
    (h : vacuous = true ∨ items ≠ some []) :
    ∃ text, Among vacuous items fun start => Str.startsWith text start = true := by
  cases items with
  | none => exact ⟨"", fun l hl => nomatch hl⟩
  | some l =>
    cases l with
    | nil => 
      refine ⟨"", fun l hl => Or.inl ?_⟩
      obtain rfl := Option.some.inj hl
      exact ⟨h.resolve_right fun hne => hne rfl, rfl⟩
    | cons text l =>
      refine ⟨text, fun l' hl => Or.inr ?_⟩
      obtain rfl := Option.some.inj hl
      exact ⟨text, List.mem_cons_self, Str.startsWith_iff.2 ⟨"", by simp⟩⟩

/-- A kind of an event that fits a list of kinds. -/
theorem exists_kind {vacuous : Bool} {items : Option (List ℕ)}
    (h : Among vacuous items fun kind => kind < 2 ^ 32) :
    ∃ kind < 2 ^ 32, Among vacuous items fun k => k = kind := by
  cases items with
  | none => exact ⟨0, by decide, fun l hl => nomatch hl⟩
  | some l =>
    rcases h l rfl with hempty | ⟨kind, hkind, hlt⟩
    · exact ⟨0, by decide, fun l' hl => Or.inl (Option.some.inj hl ▸ hempty)⟩
    · exact ⟨kind, hlt, fun l' hl => Or.inr ⟨kind, Option.some.inj hl ▸ hkind, rfl⟩⟩

theorem Holds.possible {vacuous : Bool} {r : Reading} {e : NostrEvent} (hvalid : e.Valid)
    (h : r.Holds vacuous e) : r.Possible vacuous where
  ids := h.ids.ne_nil
  authors := h.authors.ne_nil
  kinds := h.kinds.imp fun kind hkind => hkind ▸ hvalid.kind_lt
  time := ⟨e.createdAt, hvalid.createdAt_ge, hvalid.createdAt_le, h.since, h.until_⟩
  tags := by
    intro entry hentry
    obtain ⟨value, hvalue, first, values, hmem, hname, hin⟩ := h.tags entry hentry
    obtain ⟨hfirst, hvalues⟩ := hvalid.indexable _ hmem
    rw [← hname]
    exact ⟨⟨hfirst, Str.trim_trim first⟩, value, hvalue, hvalues value hin⟩

/-- Constraints that can be met are met by an event with no tags but those asked for. -/
theorem Possible.exists_holds {vacuous : Bool} {r : Reading} (h : r.Possible vacuous) :
    ∃ e : NostrEvent, e.Valid ∧ r.Holds vacuous e ∧
      ∀ name value, TagIndex.Tagged e.tags name value → ∃ entry ∈ r.tags, entry.1 = name := by
  obtain ⟨id, hid⟩ := exists_among h.ids
  obtain ⟨pubkey, hpubkey⟩ := exists_among h.authors
  obtain ⟨kind, hlt, hkind⟩ := exists_kind h.kinds
  obtain ⟨t, hge, hle, hsince, huntil⟩ := h.time
  have hvalues : ∀ entry ∈ r.tags, ∃ value, value ∈ entry.2 ∧ Str.trim value ≠ "" := by
    intro entry hentry
    obtain ⟨value, hmem, hne⟩ := (h.tags entry hentry).2
    exact ⟨value, hmem, hne⟩
  choose! pick hpick using hvalues
  have htagged : ∀ name value,
      TagIndex.Tagged (r.tags.map fun entry => [entry.1, pick entry]) name value ↔
        ∃ entry ∈ r.tags, Str.trim entry.1 = name ∧ value = pick entry := by
    intro name value
    constructor
    · rintro ⟨first, values, hmem, hname, hvalue⟩
      obtain ⟨entry, hentry, heq⟩ := List.mem_map.1 hmem
      obtain ⟨rfl, rfl⟩ := List.cons.inj heq
      exact ⟨entry, hentry, hname, List.mem_singleton.1 hvalue⟩
    · rintro ⟨entry, hentry, hname, rfl⟩
      exact ⟨entry.1, [pick entry], List.mem_map_of_mem hentry, hname, List.mem_singleton.2 rfl⟩
  refine ⟨⟨id, pubkey, t, kind, r.tags.map fun entry => [entry.1, pick entry], "", ""⟩,
    ⟨hlt, hge, hle, ?_⟩, ⟨hid, hpubkey, hkind, hsince, huntil, ?_⟩, ?_⟩
  · intro tag htag
    obtain ⟨entry, hentry, rfl⟩ := List.mem_map.1 htag
    obtain ⟨hne, htrim⟩ := (h.tags entry hentry).1
    refine ⟨htrim.symm ▸ hne, ?_⟩
    intro value hvalue
    rw [List.mem_singleton.1 hvalue]
    exact (hpick entry hentry).2
  · intro entry hentry
    exact ⟨pick entry, (hpick entry hentry).1,
      (htagged _ _).2 ⟨entry, hentry, (h.tags entry hentry).1.2, rfl⟩⟩
  · intro name value htag
    obtain ⟨entry, hentry, hname, -⟩ := (htagged name value).1 htag
    exact ⟨entry, hentry, (h.tags entry hentry).1.2.symm.trans hname⟩

end Reading

/-! ### What is written and what is stored -/

namespace FilterMeaning

/-- The numbers of a list. -/
def readNumbers (v : Value) : Option (List ℕ) := v.asArray.bind fun items => items.mapM Value.asU64

/-- The tags that an object asks for, each with the name that follows the `#`. -/
def tagEntries (members : List (String × Value)) : List (String × List String) :=
  members.filterMap fun member =>
    (Str.stripPrefix member.1 "#").bind fun name =>
      (NostrEvent.readStrings member.2).map fun values => (name, values)

/-- The constraints as they are written. -/
def direct (members : List (String × Value)) : Reading where
  ids := (members.lookup "ids").bind NostrEvent.readStrings
  authors := (members.lookup "authors").bind NostrEvent.readStrings
  kinds := (members.lookup "kinds").bind readNumbers
  since := (members.lookup "since").bind Value.asI64
  «until» := (members.lookup "until").bind Value.asI64
  tags := tagEntries members

/-- Of the tags stored under one name the last. -/
def lastNamed : List (String × List String) → List (String × List String)
  | [] => []
  | entry :: rest =>
    if ∃ later ∈ rest, storedName later.1 = storedName entry.1 then lastNamed rest
    else (storedName entry.1, entry.2) :: lastNamed rest

/-- The constraints as they are stored. -/
def kept (members : List (String × Value)) : Reading :=
  { direct members with
    kinds := (direct members).kinds.map fun kinds => kinds.map (· % 2 ^ 32)
    tags := lastNamed (tagEntries members) }

/-! ### Reading the members -/

/-- What one member of the object does to the filter. -/
inductive Reads (filter : Filter) : String → Value → Filter → Prop
  | ids {value : Value} {ids : List String} (hread : NostrEvent.readStrings value = some ids) :
    Reads filter "ids" value { filter with ids }
  | authors {value : Value} {authors : List String}
    (hread : NostrEvent.readStrings value = some authors) :
    Reads filter "authors" value { filter with authors }
  | kinds {value : Value} {kinds : List ℕ} (hread : readNumbers value = some kinds) :
    Reads filter "kinds" value { filter with kinds := kinds.map (· % 2 ^ 32) }
  | since {value : Value} {since : ℤ} (hread : value.asI64 = some since) :
    Reads filter "since" value { filter with since := some since }
  | «until» {value : Value} {limit : ℤ} (hread : value.asI64 = some limit) :
    Reads filter "until" value { filter with «until» := some limit }
  | limit {value : Value} (limit : Option ℕ) : Reads filter "limit" value { filter with limit }
  | tag {value : Value} {name : String} {values : List String} (hname : storedName name ≠ "")
    (hread : NostrEvent.readStrings value = some values) :
    Reads filter ("#" ++ name) value
      { filter with tags := filter.tags.insert (storedName name) values }
  | other {key : String} {value : Value} (hmark : Str.stripPrefix key "#" = none)
    (hkey : key ∉ ["ids", "authors", "kinds", "since", "until"]) : Reads filter key value filter

theorem parseArray_eq_ok {α : Type} {read : Value → Option α} {field : String} {value : Value}
    {items : List α} :
    Filter.parseArray read field value = .ok items ↔
      (value.asArray.bind fun items => items.mapM read) = some items := by
  unfold Filter.parseArray
  simp only [Result.bind_eq_ok, Result.okOr_eq_ok, Option.bind_eq_some_iff]

theorem mapM_mod_eq_some {items : List Value} {kinds : List ℕ} :
    (items.mapM fun v => v.asU64.map (· % 2 ^ 32)) = some kinds ↔
      ∃ numbers, items.mapM Value.asU64 = some numbers ∧ kinds = numbers.map (· % 2 ^ 32) := by
  induction items generalizing kinds with
  | nil => simp [eq_comm]
  | cons v items ih =>
    simp only [List.mapM_cons, Option.bind_eq_bind, Option.bind_eq_some_iff, Option.pure_def,
      Option.some.injEq, Option.map_eq_some_iff, ih]
    constructor
    · rintro ⟨_, ⟨n, hn, rfl⟩, _, ⟨numbers, hnumbers, rfl⟩, rfl⟩
      exact ⟨n :: numbers, ⟨n, hn, numbers, hnumbers, rfl⟩, rfl⟩
    · rintro ⟨_, ⟨n, hn, numbers, hnumbers, rfl⟩, rfl⟩
      exact ⟨_, ⟨n, hn, rfl⟩, _, ⟨numbers, hnumbers, rfl⟩, rfl⟩

theorem reads_of_readMember {filter filter' : Filter} {key : String} {value : Value}
    (h : Filter.readMember filter key value = .ok filter') : Reads filter key value filter' := by
  unfold Filter.readMember at h
  split_ifs at h with hids hauthors hkinds hsince huntil hlimit hmark
  · obtain ⟨ids, hread, rfl⟩ := Result.map_eq_ok.1 h
    exact hids ▸ .ids (parseArray_eq_ok.1 hread)
  · obtain ⟨authors, hread, rfl⟩ := Result.map_eq_ok.1 h
    exact hauthors ▸ .authors (parseArray_eq_ok.1 hread)
  · obtain ⟨kinds, hread, rfl⟩ := Result.map_eq_ok.1 h
    obtain ⟨items, hitems, hmap⟩ := Option.bind_eq_some_iff.1 (parseArray_eq_ok.1 hread)
    obtain ⟨numbers, hnumbers, rfl⟩ := mapM_mod_eq_some.1 hmap
    exact hkinds ▸ .kinds (Option.bind_eq_some_iff.2 ⟨items, hitems, hnumbers⟩)
  · obtain ⟨since, hread, rfl⟩ := Result.map_eq_ok.1 h
    obtain ⟨t, ht, rfl⟩ := Result.map_eq_ok.1 hread
    exact hsince ▸ .since (Result.okOr_eq_ok.1 ht)
  · obtain ⟨limit, hread, rfl⟩ := Result.map_eq_ok.1 h
    obtain ⟨t, ht, rfl⟩ := Result.map_eq_ok.1 hread
    exact huntil ▸ .until (Result.okOr_eq_ok.1 ht)
  · obtain ⟨limit, -, rfl⟩ := Result.map_eq_ok.1 h
    exact hlimit ▸ .limit limit
  · simp only [Result.bind_eq_ok, Result.ensure_eq_ok, Result.pure_eq_ok] at h
    obtain ⟨_, hname, values, hread, rfl⟩ := h
    obtain ⟨name, rfl⟩ := Str.startsWith_iff.1 hmark
    rw [trimStartMatches_mark] at hname ⊢
    exact .tag hname (parseArray_eq_ok.1 hread)
  · obtain rfl := Except.ok.inj h
    refine .other (Str.stripPrefix_eq_none.2 (Bool.eq_false_iff.2 hmark)) ?_
    simp [hids, hauthors, hkinds, hsince, huntil]

/-- The filter that is read from the members, but for the tags and the limit: each field from its
member, or as it was. -/
structure Stored (members : List (String × Value)) (filter filter' : Filter) : Prop where
  ids : filter'.ids = (direct members).ids.getD filter.ids
  authors : filter'.authors = (direct members).authors.getD filter.authors
  kinds : filter'.kinds = ((direct members).kinds.map fun kinds => kinds.map (· % 2 ^ 32)).getD
    filter.kinds
  since : filter'.since = (direct members).since.or filter.since
  until_ : filter'.until = (direct members).until.or filter.until

theorem lookup_cons_of_ne {members : List (String × Value)} {key other : String} {value : Value}
    (h : other ≠ key) : ((other, value) :: members).lookup key = members.lookup key := by
  rw [List.lookup_cons, beq_eq_false_iff_ne.2 (Ne.symm h)]

/-- A member under another key changes nothing here. -/
theorem stored_skip {members : List (String × Value)} {filter next filter' : Filter} {key : String}
    {value : Value} (h : Stored members next filter')
    (hkey : key ∉ ["ids", "authors", "kinds", "since", "until"])
    (hids : next.ids = filter.ids) (hauthors : next.authors = filter.authors)
    (hkinds : next.kinds = filter.kinds) (hsince : next.since = filter.since)
    (huntil : next.until = filter.until) :
    Stored ((key, value) :: members) filter filter' := by
  simp only [List.mem_cons, List.not_mem_nil, or_false, not_or] at hkey
  obtain ⟨h₁, h₂, h₃, h₄, h₅⟩ := hkey
  refine ⟨?_, ?_, ?_, ?_, ?_⟩
  · simpa only [direct, lookup_cons_of_ne h₁, hids] using h.ids
  · simpa only [direct, lookup_cons_of_ne h₂, hauthors] using h.authors
  · simpa only [direct, lookup_cons_of_ne h₃, hkinds] using h.kinds
  · simpa only [direct, lookup_cons_of_ne h₄, hsince] using h.since
  · simpa only [direct, lookup_cons_of_ne h₅, huntil] using h.until_

theorem stored_readMembers {members : List (String × Value)}
    (hnodup : (members.map Prod.fst).Nodup) {filter filter' : Filter}
    (h : Filter.readMembers filter members = .ok filter') : Stored members filter filter' := by
  induction members generalizing filter with
  | nil =>
    obtain rfl := Except.ok.inj h
    exact ⟨rfl, rfl, rfl, rfl, rfl⟩
  | cons member rest ih =>
    obtain ⟨key, value⟩ := member
    simp only [Filter.readMembers, Result.bind_eq_ok] at h
    obtain ⟨next, hmember, hrest⟩ := h
    obtain ⟨hnew, hnodup⟩ := List.nodup_cons.1 hnodup
    have hstored := ih hnodup hrest
    have hnone : rest.lookup key = none := by
      rw [List.lookup_eq_none_iff]
      intro entry hentry
      refine bne_iff_ne.2 ?_
      rintro rfl
      exact hnew (List.mem_map.2 ⟨entry, hentry, rfl⟩)
    cases reads_of_readMember hmember with
    | ids hread =>
      refine ⟨?_, hstored.authors, hstored.kinds, hstored.since, hstored.until_⟩
      have hids := hstored.ids
      simp only [direct, hnone] at hids
      simp only [direct, List.lookup_cons_self, Option.bind_some, hread]
      exact hids
    | authors hread =>
      refine ⟨hstored.ids, ?_, hstored.kinds, hstored.since, hstored.until_⟩
      have hauthors := hstored.authors
      simp only [direct, hnone] at hauthors
      simp only [direct, List.lookup_cons_self, Option.bind_some, hread]
      exact hauthors
    | kinds hread =>
      refine ⟨hstored.ids, hstored.authors, ?_, hstored.since, hstored.until_⟩
      have hkinds := hstored.kinds
      simp only [direct, hnone] at hkinds
      simp only [direct, List.lookup_cons_self, Option.bind_some, hread]
      exact hkinds
    | since hread =>
      refine ⟨hstored.ids, hstored.authors, hstored.kinds, ?_, hstored.until_⟩
      have hsince := hstored.since
      simp only [direct, hnone] at hsince
      simp only [direct, List.lookup_cons_self, Option.bind_some, hread]
      exact hsince
    | «until» hread =>
      refine ⟨hstored.ids, hstored.authors, hstored.kinds, hstored.since, ?_⟩
      have huntil := hstored.until_
      simp only [direct, hnone] at huntil
      simp only [direct, List.lookup_cons_self, Option.bind_some, hread]
      exact huntil
    | limit => exact stored_skip hstored (by decide) rfl rfl rfl rfl rfl
    | @tag _ name _ hname =>
      have hkey : "#" ++ name ∉ ["ids", "authors", "kinds", "since", "until"] := by
        intro hmem
        have hmark : ∀ key ∈ ["ids", "authors", "kinds", "since", "until"],
            Str.stripPrefix key "#" = none := by
          decide
        cases (Str.stripPrefix_append "#" name).symm.trans (hmark _ hmem)
      exact stored_skip hstored hkey rfl rfl rfl rfl rfl
    | other hmark hkey => exact stored_skip hstored hkey rfl rfl rfl rfl rfl

/-- The tags that are stored: the last of each name, or what was stored before. -/
theorem tags_readMembers {members : List (String × Value)} {filter filter' : Filter}
    (h : Filter.readMembers filter members = .ok filter') (name : String) (values : List String) :
    filter'.tags[name]? = some values ↔ (name, values) ∈ lastNamed (tagEntries members) ∨
      ((∀ entry ∈ tagEntries members, storedName entry.1 ≠ name) ∧
        filter.tags[name]? = some values) := by
  induction members generalizing filter with
  | nil =>
    obtain rfl := Except.ok.inj h
    simp [tagEntries, lastNamed]
  | cons member rest ih =>
    obtain ⟨key, value⟩ := member
    simp only [Filter.readMembers, Result.bind_eq_ok] at h
    obtain ⟨next, hmember, hrest⟩ := h
    rw [ih hrest]
    have hskip : ∀ {key' : String}, Str.stripPrefix key' "#" = none →
        tagEntries ((key', value) :: rest) = tagEntries rest := by
      intro key' hmark
      unfold tagEntries
      rw [List.filterMap_cons, hmark]
      rfl
    cases reads_of_readMember hmember with
    | ids => rw [hskip (by decide)]
    | authors => rw [hskip (by decide)]
    | kinds => rw [hskip (by decide)]
    | since => rw [hskip (by decide)]
    | «until» => rw [hskip (by decide)]
    | limit => rw [hskip (by decide)]
    | other hmark => rw [hskip hmark]
    | @tag _ stored own hname hread =>
      have htags : tagEntries (("#" ++ stored, value) :: rest) = (stored, own) :: tagEntries rest := by
        unfold tagEntries
        rw [List.filterMap_cons, Str.stripPrefix_append]
        simp only [Option.bind_some, hread, Option.map_some]
      rw [htags, List.forall_mem_cons, Map.get_insert, lastNamed]
      by_cases hsame : storedName stored = name
      · subst hsame
        rw [if_pos rfl]
        split_ifs with hlater
        · obtain ⟨later, hmem, heq⟩ := hlater
          have hnot : ¬ ∀ entry ∈ tagEntries rest, storedName entry.1 ≠ storedName stored :=
            fun h => h later hmem heq
          simp only [eq_false hnot, false_and, and_false, or_false]
        · have hall : ∀ entry ∈ tagEntries rest, storedName entry.1 ≠ storedName stored :=
            fun entry hentry heq => hlater ⟨entry, hentry, heq⟩
          simp only [List.mem_cons, Prod.mk.injEq, true_and, ne_eq, not_true_eq_false, false_and,
            or_false, Option.some.injEq]
          rw [and_iff_right hall, or_comm, eq_comm]
      · rw [if_neg hsame]
        split_ifs with hlater
        · simp [hsame]
        · simp [hsame, Ne.symm hsame]

theorem among_map {α β : Type} {vacuous : Bool} {items : Option (List α)} {f : α → β}
    {fits : β → Prop} :
    Reading.Among vacuous (items.map fun l => l.map f) fits ↔
      Reading.Among vacuous items fun x => fits (f x) := by
  cases items with
  | none => simp [Reading.Among]
  | some l => simp [Reading.Among]

/-- A list that a filter stores, empty or not. -/
theorem among_getD {α : Type} {items : Option (List α)} {fits : α → Prop} :
    Reading.Among true items fits ↔ items.getD [] = [] ∨ ∃ x ∈ items.getD [], fits x := by
  cases items with
  | none => simp [Reading.Among]
  | some l => simp [Reading.Among]

/-- The parsed filter matches the events that meet the stored constraints. -/
theorem accepts_iff_kept {members : List (String × Value)} {filter : Filter} {e : NostrEvent}
    (hnodup : (members.map Prod.fst).Nodup)
    (h : Filter.fromJson (.object members) = .ok filter) (hvalid : e.Valid) :
    filter.accepts e = true ↔ (kept members).Holds true e := by
  have hread : Filter.readMembers {} members = .ok filter := h
  have hstored := stored_readMembers hnodup hread
  have hids : filter.ids = (kept members).ids.getD [] := hstored.ids
  have hauthors : filter.authors = (kept members).authors.getD [] := hstored.authors
  have hkinds : filter.kinds = (kept members).kinds.getD [] := hstored.kinds
  have hsince : filter.since = (kept members).since := hstored.since.trans Option.or_none
  have huntil : filter.until = (kept members).until := hstored.until_.trans Option.or_none
  have htags : ∀ name values, filter.tags[name]? = some values ↔
      (name, values) ∈ (kept members).tags := by
    intro name values
    rw [tags_readMembers hread]
    simp [kept]
  rw [Filter.accepts_iff hvalid.indexable, Filter.selects_iff, hids, hauthors, hkinds, hsince, huntil,
    ← among_getD, ← among_getD, ← among_getD]
  constructor
  · rintro ⟨⟨hids, hauthors, hkinds, hsince, huntil⟩, hall⟩
    exact ⟨hids, hauthors, hkinds, hsince, huntil,
      fun entry hentry => hall entry.1 entry.2 ((htags _ _).2 hentry)⟩
  · intro h
    exact ⟨⟨h.ids, h.authors, h.kinds, h.since, h.until_⟩,
      fun name values hv => h.tags (name, values) ((htags name values).1 hv)⟩

/-! ### When the meaning is kept -/

/-- Every constraint is stored as it is written: no tag has a name that begins with another `#`, no
list is empty, unless an empty list is to mean none, and the low bits of a kind are a kind asked
for. -/
structure Plain (vacuous : Bool) (members : List (String × Value)) : Prop where
  names : ∀ entry ∈ tagEntries members, Str.startsWith entry.1 "#" = false
  ids : vacuous = true ∨ (direct members).ids ≠ some []
  authors : vacuous = true ∨ (direct members).authors ≠ some []
  kinds : vacuous = true ∨ (direct members).kinds ≠ some []
  lowBits : ∀ kinds ∈ (direct members).kinds, ∀ kind ∈ kinds, kind % 2 ^ 32 ∈ kinds

theorem nodup_tagEntries {members : List (String × Value)} (h : (members.map Prod.fst).Nodup) :
    ((tagEntries members).map Prod.fst).Nodup := by
  unfold List.Nodup at h ⊢
  rw [List.pairwise_map] at h ⊢
  refine h.filterMap _ ?_
  intro member other hne entry hentry entry' hentry' heq
  obtain ⟨name, hname, hvalues⟩ := Option.bind_eq_some_iff.1 hentry
  obtain ⟨name', hname', hvalues'⟩ := Option.bind_eq_some_iff.1 hentry'
  obtain ⟨values, -, rfl⟩ := Option.map_eq_some_iff.1 hvalues
  obtain ⟨values', -, rfl⟩ := Option.map_eq_some_iff.1 hvalues'
  refine hne ?_
  rw [Str.stripPrefix_eq_some.1 hname, Str.stripPrefix_eq_some.1 hname']
  exact congrArg ("#" ++ ·) heq

theorem mem_lastNamed {entries : List (String × List String)} {entry : String × List String}
    (h : entry ∈ lastNamed entries) : ∃ written ∈ entries, storedName written.1 = entry.1 := by
  induction entries with
  | nil => exact absurd h List.not_mem_nil
  | cons first rest ih =>
    unfold lastNamed at h
    split_ifs at h with hlater
    · obtain ⟨written, hmem, hname⟩ := ih h
      exact ⟨written, List.mem_cons_of_mem first hmem, hname⟩
    · rcases List.mem_cons.1 h with rfl | h
      · exact ⟨first, List.mem_cons_self, rfl⟩
      · obtain ⟨written, hmem, hname⟩ := ih h
        exact ⟨written, List.mem_cons_of_mem first hmem, hname⟩

/-- Tags under different names, none with another `#`, are stored as they are written. -/
theorem lastNamed_eq_self {entries : List (String × List String)}
    (hnodup : (entries.map Prod.fst).Nodup)
    (hnames : ∀ entry ∈ entries, Str.startsWith entry.1 "#" = false) :
    lastNamed entries = entries := by
  induction entries with
  | nil => rfl
  | cons first rest ih =>
    obtain ⟨hnew, hnodup⟩ := List.nodup_cons.1 hnodup
    have hrest : ∀ entry ∈ rest, Str.startsWith entry.1 "#" = false :=
      fun entry hentry => hnames entry (List.mem_cons_of_mem first hentry)
    have hfirst := storedName_eq_self (hnames first List.mem_cons_self)
    unfold lastNamed
    rw [if_neg ?_, ih hnodup hrest, hfirst]
    rintro ⟨later, hlater, heq⟩
    rw [hfirst, storedName_eq_self (hrest later hlater)] at heq
    exact hnew (List.mem_map.2 ⟨later, hlater, heq⟩)

/-- Where no list is empty, it does not matter what an empty list means. -/
theorem among_true_iff {α : Type} {vacuous : Bool} {items : Option (List α)} {fits : α → Prop}
    (h : vacuous = true ∨ items ≠ some []) :
    Reading.Among true items fits ↔ Reading.Among vacuous items fits := by
  rcases h with rfl | hne
  · rfl
  · constructor
    · intro hamong l hl
      refine Or.inr ((hamong l hl).resolve_left ?_)
      rintro ⟨-, rfl⟩
      exact hne hl
    · intro hamong l hl
      refine Or.inr ((hamong l hl).resolve_left ?_)
      rintro ⟨-, rfl⟩
      exact hne hl

/-- What is stored of a plain object means what is written. -/
theorem Plain.holds_iff {vacuous : Bool} {members : List (String × Value)} {e : NostrEvent}
    (hnodup : (members.map Prod.fst).Nodup) (h : Plain vacuous members) (hvalid : e.Valid) :
    (kept members).Holds true e ↔ (direct members).Holds vacuous e := by
  have htags : (kept members).tags = (direct members).tags :=
    lastNamed_eq_self (nodup_tagEntries hnodup) h.names
  have hkinds : Reading.Among true (kept members).kinds (fun kind => kind = e.kind) ↔
      Reading.Among vacuous (direct members).kinds fun kind => kind = e.kind := by
    rw [← among_true_iff h.kinds]
    refine among_map.trans ⟨?_, ?_⟩
    · intro hamong kinds hmem
      rcases hamong kinds hmem with hempty | ⟨kind, hkind, hlow⟩
      · exact Or.inl hempty
      · exact Or.inr ⟨e.kind, hlow ▸ h.lowBits kinds hmem kind hkind, rfl⟩
    · intro hamong
      refine hamong.imp ?_
      rintro kind rfl
      exact Nat.mod_eq_of_lt hvalid.kind_lt
  constructor
  · intro hkept
    exact ⟨(among_true_iff h.ids).1 hkept.ids, (among_true_iff h.authors).1 hkept.authors,
      hkinds.1 hkept.kinds, hkept.since, hkept.until_, htags ▸ hkept.tags⟩
  · intro hdirect
    exact ⟨(among_true_iff h.ids).2 hdirect.ids, (among_true_iff h.authors).2 hdirect.authors,
      hkinds.2 hdirect.kinds, hdirect.since, hdirect.until_, htags.symm ▸ hdirect.tags⟩

/-- A parsed filter matches the events that meet what is written, for every event, if and only if
the object is plain, or nothing meets what is written and nothing meets what is stored.  A tag of an
event is called by its name without the blanks around it, so that a key with blanks around it names no
tag. -/
theorem keepsMeaning_iff {members : List (String × Value)} {filter : Filter}
    (hnodup : (members.map Prod.fst).Nodup)
    (h : Filter.fromJson (.object members) = .ok filter) (vacuous : Bool) :
    (∀ e : NostrEvent, e.Valid →
      (filter.accepts e = true ↔ (direct members).Holds vacuous e)) ↔
      Plain vacuous members ∨
        (¬ (direct members).Possible vacuous ∧ ¬ (kept members).Possible true) := by
  constructor
  · intro hsame
    by_cases hpossible : (kept members).Possible true
    · refine Or.inl ?_
      obtain ⟨e, hvalid, hkept, hnames⟩ := hpossible.exists_holds
      have hdirect := (hsame e hvalid).1 ((accepts_iff_kept hnodup h hvalid).2 hkept)
      refine ⟨?_, hdirect.ids.ne_nil, hdirect.authors.ne_nil, hdirect.kinds.ne_nil, ?_⟩
      · -- the event has no tag whose name begins with a mark
        intro entry hentry
        obtain ⟨value, -, htag⟩ := hdirect.tags entry hentry
        obtain ⟨stored, hstored, hname⟩ := hnames _ _ htag
        obtain ⟨written, -, heq⟩ := mem_lastNamed hstored
        rw [← hname, ← heq]
        exact startsWith_storedName written.1
      · -- the same event, with the low bits as its kind
        intro kinds hkinds kind hkind
        have hvalid' : NostrEvent.Valid { e with kind := kind % 2 ^ 32 } :=
          ⟨Nat.mod_lt _ (by decide), hvalid.createdAt_ge, hvalid.createdAt_le, hvalid.indexable⟩
        have hkept' : (kept members).Holds true { e with kind := kind % 2 ^ 32 } := by
          refine ⟨hkept.ids, hkept.authors, among_map.2 ?_, hkept.since, hkept.until_, hkept.tags⟩
          intro kinds' hkinds'
          obtain rfl := Option.mem_unique hkinds hkinds'
          exact Or.inr ⟨kind, hkind, rfl⟩
        have hdirect' := (hsame _ hvalid').1 ((accepts_iff_kept hnodup h hvalid').2 hkept')
        rcases hdirect'.kinds kinds hkinds with ⟨-, rfl⟩ | ⟨kind', hkind', heq⟩
        · exact absurd hkind List.not_mem_nil
        · have heq : kind' = kind % 2 ^ 32 := heq
          exact heq ▸ hkind'
    · refine Or.inr ⟨?_, hpossible⟩
      intro hdirect
      obtain ⟨e, hvalid, hholds, -⟩ := hdirect.exists_holds
      exact hpossible
        (((accepts_iff_kept hnodup h hvalid).1 ((hsame e hvalid).2 hholds)).possible hvalid)
  · rintro (hplain | ⟨hdirect, hkept⟩) e hvalid
    · exact (accepts_iff_kept hnodup h hvalid).trans (hplain.holds_iff hnodup hvalid)
    · rw [accepts_iff_kept hnodup h hvalid]
      exact iff_of_false (fun hholds => hkept (hholds.possible hvalid))
        fun hholds => hdirect (hholds.possible hvalid)

/-- An object that asks for one kind. -/
def oneKind (kind : ℕ) : List (String × Value) := [("kinds", .array [.number (.posInt kind)])]

theorem keepsMeaning_oneKind :
    (∀ e : NostrEvent, e.Valid → (Filter.accepts { kinds := [1] } e = true ↔
      (direct (oneKind 1)).Holds false e)) ↔
      Plain false (oneKind 1) ∨
        (¬ (direct (oneKind 1)).Possible false ∧ ¬ (kept (oneKind 1)).Possible true) :=
  keepsMeaning_iff (by decide) rfl false

/-- Kind `2 ^ 32 + 1` is stored as kind `1`, and notes match. -/
theorem not_keepsMeaning :
    ¬ ∀ members filter, (members.map Prod.fst).Nodup →
      Filter.fromJson (.object members) = .ok filter → ∀ e : NostrEvent, e.Valid →
      (filter.accepts e = true ↔ (direct members).Holds true e) := by
  intro h
  have hvalid : NostrEvent.Valid ⟨"", "", 0, 1, [], "", ""⟩ :=
    ⟨by decide, by decide, by decide, fun tag htag => absurd htag List.not_mem_nil⟩
  have hholds := (h (oneKind (2 ^ 32 + 1)) { kinds := [1] } (by decide) rfl _ hvalid).1 (by decide)
  have hkinds : (direct (oneKind (2 ^ 32 + 1))).kinds = some [2 ^ 32 + 1] := rfl
  rcases hholds.kinds _ hkinds with ⟨-, hempty⟩ | ⟨kind, hmem, heq⟩
  · cases hempty
  · rw [List.mem_singleton.1 hmem] at heq
    exact absurd heq (by decide)

end FilterMeaning
end Gittree
