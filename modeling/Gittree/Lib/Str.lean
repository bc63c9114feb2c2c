import Mathlib.Data.String.Basic
import Mathlib.Data.List.DropRight
import Mathlib.Data.List.Sort
import Mathlib.Tactic

/-!
# String slices

The operations of Rust's `str` that text-processing programs use, over Lean's `String`.  A Rust
`str` is a sequence of Unicode scalar values, as a Lean `String` is; `len` counts UTF-8 bytes.
Every operation is defined through the list of characters, and is followed by the one equation or
equivalence that later proofs use instead of unfolding it:

* `startsWith_iff`, `endsWith_iff`, `stripPrefix_eq_some`, `stripSuffix_eq_some` in terms of `++`;
* `pairwise_sort`: a sorted vector of different texts runs upwards;
* `splitAtFirst_append`, `splitAtFirst_eq_none_iff`: the first occurrence of a pattern;
* `getTo_eq_some`: the slices that end between two characters;
* `split_append`, `split_eq_singleton`: splitting on a character;
* `isHexLen_iff`: the hexadecimal texts of one length;
* `trim_eq_empty_iff`: a text is blank when all its characters are white space.
-/

namespace Rust
namespace Str

/-- `str::chars`, collected.  The characters of an ASCII text are read off its bytes, so that closed
terms evaluate in linear time. -/
def chars (s : String) : List Char :=
  let bytes := s.toByteArray.data.toList
  if bytes.all fun b => b.toNat < 128 then bytes.map fun b => Char.ofNat b.toNat else s.toList

theorem ofNat_utf8EncodeChar {c : Char} (h : ∀ b ∈ String.utf8EncodeChar c, b.toNat < 128) :
    (String.utf8EncodeChar c).map (fun b => Char.ofNat b.toNat) = [c] := by
  unfold String.utf8EncodeChar at h ⊢
  simp only at h ⊢
  split_ifs at h ⊢ with h1 h2 h3
  · rw [List.map_singleton, UInt8.toNat_ofNat_of_lt' (show c.val.toNat < 256 by omega)]
    exact congrArg (fun c => [c]) (Char.ofNat_toNat c)
  -- the first byte of a longer encoding is not ASCII
  all_goals
    exfalso
    have hfirst := h _ List.mem_cons_self
    simp [UInt8.toNat_ofNat] at hfirst
    omega

@[simp] theorem chars_eq_toList (s : String) : chars s = s.toList := by
  have hbytes : s.toByteArray.data.toList = s.toList.flatMap String.utf8EncodeChar := by
    conv_lhs => rw [← String.ofList_toList (s := s)]
    simp [String.ofList, List.utf8Encode]
  unfold chars
  simp only [hbytes]
  split_ifs with h
  · rw [List.all_eq_true] at h
    generalize s.toList = l at h
    induction l with
    | nil => rfl
    | cons c l ih =>
      rw [List.flatMap_cons] at h ⊢
      rw [List.map_append, ih fun b hb => h b (List.mem_append_right _ hb), ofNat_utf8EncodeChar]
      · rfl
      · exact fun b hb => of_decide_eq_true (h b (List.mem_append_left _ hb))
  · rfl

/-- `str::as_bytes`, collected. -/
def asBytes (s : String) : List UInt8 := s.toByteArray.data.toList

/-- `str::cmp`. -/
def cmp (a b : String) : Ordering :=
  if chars a < chars b then .lt else if a = b then .eq else .gt

theorem cmp_eq_compare : cmp = compare := by
  funext a b
  unfold cmp
  simp only [chars_eq_toList]
  rfl

instance : Std.TransCmp cmp := cmp_eq_compare ▸ inferInstance

instance : Std.LawfulEqCmp cmp := cmp_eq_compare ▸ inferInstance

/-- `sort` on a vector of texts. -/
def sort (texts : List String) : List String := texts.insertionSort fun a b => cmp a b ≠ .gt

theorem cmp_ne_gt_iff {a b : String} : cmp a b ≠ .gt ↔ a ≤ b := by
  rw [cmp_eq_compare]
  exact compare_le_iff_le

theorem sort_eq (texts : List String) : sort texts = texts.insertionSort (· ≤ ·) := by
  unfold sort
  simp only [cmp_ne_gt_iff]

/-- A sorted vector of different texts runs upwards. -/
theorem pairwise_sort {texts : List String} (h : texts.Nodup) : (sort texts).Pairwise (· < ·) := by
  rw [sort_eq]
  have hsorted := List.pairwise_insertionSort (· ≤ ·) texts
  have hnodup : (texts.insertionSort (· ≤ ·)).Nodup :=
    (List.perm_insertionSort (· ≤ ·) texts).nodup_iff.2 h
  exact (hsorted.and hnodup).imp fun hab => lt_of_le_of_ne hab.1 hab.2

/-- Two vectors that run upwards over the same texts are equal. -/
theorem eq_of_pairwise_lt {l l' : List String} (hl : l.Pairwise (· < ·))
    (hl' : l'.Pairwise (· < ·)) (h : ∀ s, s ∈ l ↔ s ∈ l') : l = l' := by
  refine List.Perm.eq_of_pairwise ?_ hl hl' ?_
  · intro a b _ _ hab hba
    exact absurd (lt_trans hab hba) (lt_irrefl _)
  · exact (List.perm_ext_iff_of_nodup (hl.imp fun h => h.ne) (hl'.imp fun h => h.ne)).2 h

@[simp] theorem mem_sort {texts : List String} {s : String} : s ∈ sort texts ↔ s ∈ texts :=
  List.mem_insertionSort _

/-- `str::len`: the number of UTF-8 bytes. -/
def len (s : String) : ℕ := ((chars s).map Char.utf8Size).sum

/-- `char::is_whitespace`: the Unicode property `White_Space`. -/
def isWhitespace (c : Char) : Bool :=
  let n := c.toNat
  (9 ≤ n && n ≤ 13) || n == 0x20 || n == 0x85 || n == 0xA0 || n == 0x1680 ||
    (0x2000 ≤ n && n ≤ 0x200A) || n == 0x2028 || n == 0x2029 || n == 0x202F || n == 0x205F ||
    n == 0x3000

/-- `str::trim_start`. -/
def trimStart (s : String) : String := String.ofList ((chars s).dropWhile isWhitespace)

/-- `str::trim_end`. -/
def trimEnd (s : String) : String := String.ofList ((chars s).rdropWhile isWhitespace)

/-- `str::trim`. -/
def trim (s : String) : String := trimEnd (trimStart s)

/-- `trim_end_matches` with a character pattern. -/
def trimEndMatches (s : String) (c : Char) : String :=
  String.ofList ((chars s).rdropWhile (· == c))

/-- `trim_start_matches` with a character pattern. -/
def trimStartMatches (s : String) (c : Char) : String :=
  String.ofList ((chars s).dropWhile (· == c))

/-- `str::starts_with` with a string pattern. -/
def startsWith (s p : String) : Bool := (chars p).isPrefixOf (chars s)

/-- `str::ends_with` with a string pattern. -/
def endsWith (s p : String) : Bool := (chars p).isSuffixOf (chars s)

/-- `str::strip_prefix` with a string pattern. -/
def stripPrefix (s p : String) : Option String :=
  if startsWith s p then some (String.ofList ((chars s).drop (chars p).length)) else none

/-- `str::strip_suffix` with a string pattern. -/
def stripSuffix (s p : String) : Option String :=
  if endsWith s p then some (String.ofList ((chars s).take ((chars s).length - (chars p).length)))
  else none

/-- `str::contains` with a character pattern. -/
def containsChar (s : String) (c : Char) : Bool := (chars s).contains c

/-- The text before the first occurrence of `p` and the text from it on (`str::find`). -/
def splitAtFirst (p : List Char) : List Char → Option (List Char × List Char)
  | [] => if p.isPrefixOf [] then some ([], []) else none
  | c :: cs =>
    if p.isPrefixOf (c :: cs) then some ([], c :: cs)
    else (splitAtFirst p cs).map fun r => (c :: r.1, r.2)

/-- `str::contains` with a string pattern. -/
def contains (s p : String) : Bool := (splitAtFirst (chars p) (chars s)).isSome

/-- `str::split_once` with a character pattern. -/
def splitOnce (s : String) (c : Char) : Option (String × String) :=
  (splitAtFirst [c] (chars s)).map fun r => (String.ofList r.1, String.ofList r.2.tail)

/-- `str::split` with a character pattern, collected. -/
def split (s : String) (c : Char) : List String := ((chars s).splitOn c).map String.ofList

/-- `str::lines`, collected: the parts that line feeds end, without a carriage return before the line
feed, and what is left after the last one. -/
def lines (s : String) : List String :=
  let parts := split s '\n'
  (parts.dropLast.map fun line => (stripSuffix line "\r").getD line) ++
    parts.getLast?.toList.filter fun rest => rest ≠ ""

/-- `str::split_whitespace`, collected. -/
def splitWhitespace (s : String) : List String :=
  (((chars s).splitOnP isWhitespace).filter fun part => part ≠ []).map String.ofList

/-- Every occurrence of a pattern replaced, from the left, at most a given number of times. -/
def replaceChars (p q : List Char) : ℕ → List Char → List Char
  | 0, l => l
  | n + 1, l =>
    match splitAtFirst p l with
    | some (before, found) => before ++ q ++ replaceChars p q n (found.drop p.length)
    | none => l

/-- `str::replace` with a string pattern that is not empty. -/
def replace (s p q : String) : String :=
  String.ofList (replaceChars (chars p) (chars q) (chars s).length (chars s))

/-- The characters of the first `n` bytes; `none` past the end or inside a character. -/
def takeBytes : ℕ → List Char → Option (List Char)
  | 0, _ => some []
  | _ + 1, [] => none
  | n + 1, c :: cs =>
    if c.utf8Size ≤ n + 1 then (takeBytes (n + 1 - c.utf8Size) cs).map (c :: ·) else none

/-- `str::get(..n)`; the slice `&s[..n]` panics when this is `none`. -/
def getTo (s : String) (n : ℕ) : Option String := (takeBytes n (chars s)).map String.ofList

/-- `char::is_ascii_hexdigit`. -/
def isAsciiHexdigit (c : Char) : Bool :=
  ('0' ≤ c && c ≤ '9') || ('a' ≤ c && c ≤ 'f') || ('A' ≤ c && c ≤ 'F')

/-- `u8::is_ascii_alphanumeric`, on a character. -/
def isAsciiAlphanumeric (c : Char) : Bool :=
  ('0' ≤ c && c ≤ '9') || ('a' ≤ c && c ≤ 'z') || ('A' ≤ c && c ≤ 'Z')

/-- `str::to_ascii_lowercase`. -/
def toAsciiLowercase (s : String) : String := String.ofList ((chars s).map Char.toLower)

/-- The ASCII hexadecimal texts of a given byte length. -/
def isHexLen (s : String) (n : ℕ) : Bool := len s == n && (chars s).all isAsciiHexdigit

/-- The number that decimal digits write; `none` for no digits and for other characters. -/
def parseDigits (digits : List Char) : Option ℕ :=
  if digits = [] ∨ ¬ digits.all (fun c => '0' ≤ c && c ≤ '9') then none
  else some (digits.foldl (fun n c => 10 * n + (c.toNat - 48)) 0)

/-- `str::parse` to an unsigned integer below `bound`: decimal digits after an optional `+`. -/
def parseUnsigned (s : String) (bound : ℕ) : Option ℕ :=
  (parseDigits (match chars s with
    | '+' :: rest => rest
    | l => l)).filter (· < bound)

/-- `str::parse` to a signed integer from `-bound` to `bound - 1`. -/
def parseSigned (s : String) (bound : ℕ) : Option ℤ :=
  match chars s with
  | '-' :: rest => ((parseDigits rest).filter (· ≤ bound)).map fun n : ℕ => -(n : ℤ)
  | _ => (parseUnsigned s bound).map Int.ofNat

theorem len_append (a b : String) : len (a ++ b) = len a + len b := by
  unfold len
  simp only [chars_eq_toList]
  rw [String.toList_append, List.map_append, List.sum_append]

/-! ### Prefixes and suffixes -/

theorem startsWith_iff {s p : String} : startsWith s p = true ↔ ∃ r, s = p ++ r := by
  unfold startsWith
  simp only [chars_eq_toList]
  rw [List.isPrefixOf_iff_prefix]
  constructor
  · rintro ⟨t, ht⟩
    refine ⟨String.ofList t, ?_⟩
    rw [← String.toList_inj, String.toList_append, String.toList_ofList, ht]
  · rintro ⟨r, rfl⟩
    exact ⟨r.toList, by rw [String.toList_append]⟩

theorem endsWith_iff {s p : String} : endsWith s p = true ↔ ∃ r, s = r ++ p := by
  unfold endsWith
  simp only [chars_eq_toList]
  rw [List.isSuffixOf_iff_suffix]
  constructor
  · rintro ⟨t, ht⟩
    refine ⟨String.ofList t, ?_⟩
    rw [← String.toList_inj, String.toList_append, String.toList_ofList, ht]
  · rintro ⟨r, rfl⟩
    exact ⟨r.toList, by rw [String.toList_append]⟩

theorem stripPrefix_eq_some {s p r : String} : stripPrefix s p = some r ↔ s = p ++ r := by
  unfold stripPrefix
  simp only [chars_eq_toList]
  constructor
  · intro h
    split_ifs at h with hp
    obtain ⟨t, rfl⟩ := startsWith_iff.1 hp
    simp only [String.toList_append, List.drop_left, String.ofList_toList, Option.some.injEq] at h
    rw [h]
  · rintro rfl
    rw [if_pos (startsWith_iff.2 ⟨r, rfl⟩)]
    simp

theorem stripPrefix_eq_none {s p : String} : stripPrefix s p = none ↔ startsWith s p = false := by
  unfold stripPrefix
  simp only [chars_eq_toList]
  split_ifs with h <;> simp [h]

theorem stripSuffix_eq_some {s p r : String} : stripSuffix s p = some r ↔ s = r ++ p := by
  unfold stripSuffix
  simp only [chars_eq_toList]
  constructor
  · intro h
    split_ifs at h with hp
    obtain ⟨t, rfl⟩ := endsWith_iff.1 hp
    simp only [String.toList_append, List.length_append, Nat.add_sub_cancel, List.take_left,
      String.ofList_toList, Option.some.injEq] at h
    rw [h]
  · rintro rfl
    rw [if_pos (endsWith_iff.2 ⟨r, rfl⟩)]
    simp

theorem stripSuffix_eq_none {s p : String} : stripSuffix s p = none ↔ endsWith s p = false := by
  unfold stripSuffix
  simp only [chars_eq_toList]
  split_ifs with h <;> simp [h]

@[simp] theorem stripSuffix_append (r p : String) : stripSuffix (r ++ p) p = some r :=
  stripSuffix_eq_some.2 rfl

@[simp] theorem stripPrefix_append (p r : String) : stripPrefix (p ++ r) p = some r :=
  stripPrefix_eq_some.2 rfl

theorem append_left_cancel {a b c : String} (h : c ++ a = c ++ b) : a = b := by
  rw [← String.toList_inj, String.toList_append, String.toList_append] at h
  exact String.toList_inj.1 (List.append_cancel_left h)

/-! ### Blank texts -/

theorem trim_eq_empty_iff {s : String} : trim s = "" ↔ ∀ c ∈ s.toList, isWhitespace c = true := by
  unfold trim trimEnd trimStart
  simp only [chars_eq_toList]
  rw [← String.toList_inj, String.toList_ofList, String.toList_ofList, String.toList_empty,
    List.rdropWhile_eq_nil_iff]
  constructor
  · intro h c hc
    by_contra hn
    have hsplit := List.takeWhile_append_dropWhile (p := isWhitespace) (l := s.toList)
    cases hd : s.toList.dropWhile isWhitespace with
    | nil =>
      rw [List.dropWhile_eq_nil_iff] at hd
      exact hn (hd c hc)
    | cons a as =>
      have ha := List.head?_dropWhile_not isWhitespace s.toList
      rw [hd] at ha h
      simp only [List.head?_cons] at ha
      have := h a (by simp)
      simp [this] at ha
  · intro h c hc
    exact h c (List.dropWhile_subset _ hc)

theorem forall_mem_splitOnP_eq_nil_iff {p : Char → Bool} {l : List Char} :
    (∀ part ∈ l.splitOnP p, part = []) ↔ ∀ c ∈ l, p c = true := by
  induction l with
  | nil => simp
  | cons c l ih =>
    rw [List.splitOnP_cons_eq_if_modifyHead, List.forall_mem_cons, ← ih]
    by_cases hc : p c = true
    · rw [if_pos hc, List.forall_mem_cons]
      simp [hc]
    · rw [if_neg hc]
      cases hl : l.splitOnP p with
      | nil => exact absurd hl (List.splitOnP_ne_nil p l)
      | cons part parts => simp [hc]

/-- Only a blank text has no parts. -/
theorem splitWhitespace_eq_nil_iff {s : String} : splitWhitespace s = [] ↔ trim s = "" := by
  rw [trim_eq_empty_iff, ← forall_mem_splitOnP_eq_nil_iff]
  unfold splitWhitespace
  rw [List.map_eq_nil_iff, List.filter_eq_nil_iff, chars_eq_toList]
  simp only [decide_eq_true_eq, not_not]

/-! ### Splitting on a character -/

theorem split_eq_singleton {s : String} {c : Char} (h : c ∉ s.toList) : split s c = [s] := by
  unfold split
  simp only [chars_eq_toList]
  rw [List.splitOn_eq_singleton h]
  simp

theorem split_append (a b : String) (c : Char) :
    split (a ++ String.singleton c ++ b) c = split a c ++ split b c := by
  unfold split
  simp only [chars_eq_toList]
  rw [String.toList_append, String.toList_append, String.toList_singleton, List.append_assoc,
    List.singleton_append, List.splitOn_append_cons_self, List.map_append]

/-! ### The first occurrence of a pattern -/

theorem splitAtFirst_append {p l a b : List Char} (h : splitAtFirst p l = some (a, b)) :
    l = a ++ b ∧ p <+: b := by
  induction l generalizing a with
  | nil =>
    unfold splitAtFirst at h
    split_ifs at h with hp
    obtain ⟨rfl, rfl⟩ := Prod.mk.inj (Option.some.inj h)
    exact ⟨rfl, List.isPrefixOf_iff_prefix.1 hp⟩
  | cons c cs ih =>
    unfold splitAtFirst at h
    split_ifs at h with hp
    · obtain ⟨rfl, rfl⟩ := Prod.mk.inj (Option.some.inj h)
      exact ⟨rfl, List.isPrefixOf_iff_prefix.1 hp⟩
    · obtain ⟨⟨a', b'⟩, hr, he⟩ := Option.map_eq_some_iff.1 h
      obtain ⟨rfl, rfl⟩ := Prod.mk.inj he
      obtain ⟨rfl, hb⟩ := ih hr
      exact ⟨rfl, hb⟩

theorem splitAtFirst_eq_none_iff {p l : List Char} :
    splitAtFirst p l = none ↔ ∀ a b, l ≠ a ++ p ++ b := by
  induction l with
  | nil =>
    unfold splitAtFirst
    constructor
    · intro h a b he
      split_ifs at h with hp
      simp only [List.append_assoc] at he
      have := (List.append_eq_nil_iff.1 he.symm).2
      rw [(List.append_eq_nil_iff.1 this).1] at hp
      exact hp rfl
    · intro h
      rw [if_neg]
      intro hp
      have := List.isPrefixOf_iff_prefix.1 hp
      rw [List.prefix_nil] at this
      exact h [] [] (by simp [this])
  | cons c cs ih =>
    unfold splitAtFirst
    constructor
    · intro h a b he
      split_ifs at h with hp
      rw [Option.map_eq_none_iff, ih] at h
      cases a with
      | nil =>
        exact hp (List.isPrefixOf_iff_prefix.2 ⟨b, by simpa using he.symm⟩)
      | cons x xs =>
        simp only [List.cons_append, List.cons.injEq] at he
        exact h xs b he.2
    · intro h
      rw [if_neg, Option.map_eq_none_iff, ih]
      · intro a b he
        exact h (c :: a) b (by simp [he])
      · intro hp
        obtain ⟨b, hb⟩ := List.isPrefixOf_iff_prefix.1 hp
        exact h [] b (by simpa using hb.symm)

/-- What follows a text does not move the first occurrence in it. -/
theorem splitAtFirst_append_right {p l a b : List Char} (r : List Char)
    (h : splitAtFirst p l = some (a, b)) : splitAtFirst p (l ++ r) = some (a, b ++ r) := by
  induction l generalizing a with
  | nil =>
    unfold splitAtFirst at h
    split_ifs at h with hp
    obtain ⟨rfl, rfl⟩ := Prod.mk.inj (Option.some.inj h)
    obtain rfl := List.prefix_nil.1 (List.isPrefixOf_iff_prefix.1 hp)
    cases r <;> rfl
  | cons c cs ih =>
    unfold splitAtFirst at h
    rw [List.cons_append, splitAtFirst]
    split_ifs at h with hp
    · obtain ⟨rfl, rfl⟩ := Prod.mk.inj (Option.some.inj h)
      have hlonger : p.isPrefixOf (c :: (cs ++ r)) = true :=
        List.isPrefixOf_iff_prefix.2
          ((List.isPrefixOf_iff_prefix.1 hp).trans (List.prefix_append (c :: cs) r))
      rw [if_pos hlonger]
      rfl
    · obtain ⟨⟨a', b'⟩, hrest, he⟩ := Option.map_eq_some_iff.1 h
      obtain ⟨rfl, rfl⟩ := Prod.mk.inj he
      have hlonger : ¬ p.isPrefixOf (c :: (cs ++ r)) = true := by
        intro hpre
        apply hp
        obtain ⟨hcs, hb⟩ := splitAtFirst_append hrest
        refine List.isPrefixOf_iff_prefix.2 (List.prefix_of_prefix_length_le
          (List.isPrefixOf_iff_prefix.1 hpre) (List.prefix_append (c :: cs) r) ?_)
        have hlen := hb.length_le
        rw [hcs, List.length_cons, List.length_append]
        omega
      rw [if_neg hlonger, ih hrest]
      rfl

/-- There is no occurrence before the first one. -/
theorem splitAtFirst_before {p l a b : List Char} (hp : p ≠ [])
    (h : splitAtFirst p l = some (a, b)) : splitAtFirst p a = none := by
  obtain ⟨rfl, -⟩ := splitAtFirst_append h
  rcases hsplit : splitAtFirst p a with _ | ⟨x, y⟩
  · rfl
  · have hfirst := splitAtFirst_append_right b hsplit
    rw [h, Option.some.injEq, Prod.mk.injEq] at hfirst
    obtain ⟨rfl, hpre⟩ := splitAtFirst_append hsplit
    have hnil : y = [] := by
      have hlen := congrArg List.length hfirst.2
      rw [List.length_append] at hlen
      exact List.eq_nil_of_length_eq_zero (by omega)
    rw [hnil, List.prefix_nil] at hpre
    exact absurd hpre hp

theorem contains_iff {s p : String} : contains s p = true ↔ ∃ a b, s = a ++ p ++ b := by
  unfold contains
  simp only [chars_eq_toList]
  rw [← not_iff_not, Bool.not_eq_true, Option.isSome_eq_false_iff, Option.isNone_iff_eq_none,
    splitAtFirst_eq_none_iff]
  constructor
  · rintro h ⟨a, b, rfl⟩
    exact h a.toList b.toList (by simp)
  · intro h a b he
    refine h ⟨String.ofList a, String.ofList b, ?_⟩
    rw [← String.toList_inj, he]
    simp

theorem takeWhile_ne_append {c : Char} {l : List Char} (h : c ∉ l) (r : List Char) :
    (l ++ c :: r).takeWhile (· != c) = l := by
  rw [List.takeWhile_append_of_pos]
  · simp
  · intro x hx
    rw [bne_iff_ne]
    rintro rfl
    exact h hx

/-- A text is cut at its last separator in one way. -/
theorem append_char_inj {a a' b b' : String} {c : Char} (hb : c ∉ b.toList) (hb' : c ∉ b'.toList)
    (h : a ++ String.singleton c ++ b = a' ++ String.singleton c ++ b') : a = a' ∧ b = b' := by
  have hr : b.toList.reverse ++ c :: a.toList.reverse =
      b'.toList.reverse ++ c :: a'.toList.reverse := by
    have := congrArg (fun s => s.toList.reverse) h
    simpa using this
  have hcut : b.toList.reverse = b'.toList.reverse := by
    have := congrArg (List.takeWhile (· != c)) hr
    rwa [takeWhile_ne_append (by simpa using hb), takeWhile_ne_append (by simpa using hb')] at this
  rw [hcut] at hr
  have ha : a.toList.reverse = a'.toList.reverse := by
    simpa using List.append_cancel_left hr
  exact ⟨String.toList_inj.1 (List.reverse_injective ha),
    String.toList_inj.1 (List.reverse_injective hcut)⟩

/-- A text is cut at its first separator in one way. -/
theorem append_char_inj_left {a a' b b' : String} {c : Char} (ha : c ∉ a.toList)
    (ha' : c ∉ a'.toList) (h : a ++ String.singleton c ++ b = a' ++ String.singleton c ++ b') :
    a = a' ∧ b = b' := by
  have hl : a.toList ++ c :: b.toList = a'.toList ++ c :: b'.toList := by
    have := congrArg String.toList h
    simpa using this
  have hcut : a.toList = a'.toList := by
    have := congrArg (List.takeWhile (· != c)) hl
    rwa [takeWhile_ne_append ha, takeWhile_ne_append ha'] at this
  rw [hcut] at hl
  exact ⟨String.toList_inj.1 hcut, String.toList_inj.1 (by simpa using List.append_cancel_left hl)⟩

/-! ### Hexadecimal texts -/

theorem isAsciiHexdigit_utf8Size {c : Char} (h : isAsciiHexdigit c = true) : c.utf8Size = 1 := by
  have hc : c.toNat ≤ 127 := by
    simp only [isAsciiHexdigit, Bool.or_eq_true, Bool.and_eq_true, decide_eq_true_eq] at h
    rcases h with (⟨-, h⟩ | ⟨-, h⟩) | ⟨-, h⟩ <;>
      exact le_trans (show c.toNat ≤ _ from h) (by decide)
  rw [Char.utf8Size_eq_one_iff]
  exact hc

theorem len_eq_length_of_hex {s : String} (h : s.toList.all isAsciiHexdigit = true) :
    len s = s.toList.length := by
  unfold len
  simp only [chars_eq_toList]
  rw [List.all_eq_true] at h
  rw [List.map_congr_left (g := fun _ => 1) fun c hc => isAsciiHexdigit_utf8Size (h c hc)]
  simp

theorem isHexLen_iff {s : String} {n : ℕ} :
    isHexLen s n = true ↔ s.toList.length = n ∧ ∀ c ∈ s.toList, isAsciiHexdigit c = true := by
  unfold isHexLen
  simp only [chars_eq_toList]
  rw [Bool.and_eq_true, beq_iff_eq]
  constructor
  · rintro ⟨h, ha⟩
    rw [len_eq_length_of_hex ha] at h
    exact ⟨h, List.all_eq_true.1 ha⟩
  · rintro ⟨h, ha⟩
    have ha' := List.all_eq_true.2 ha
    exact ⟨by rw [len_eq_length_of_hex ha', h], ha'⟩

/-! ### Decimal text -/

theorem parseDigits_toDigits (n : ℕ) : parseDigits (Nat.toDigits 10 n) = some n := by
  have hdigits : (Nat.toDigits 10 n).all (fun c => '0' ≤ c && c ≤ '9') = true := by
    rw [List.all_eq_true]
    intro c hc
    have hd := Nat.isDigit_of_mem_toDigits (by decide) (by decide) hc
    simp only [Char.isDigit, Bool.and_eq_true, decide_eq_true_eq, ge_iff_le] at hd
    simpa [Char.le_def] using hd
  unfold parseDigits
  rw [if_neg (by simp only [Nat.toDigits_ne_nil, hdigits]; simp)]
  rw [show (fun (n : ℕ) (c : Char) => 10 * n + (c.toNat - 48)) =
    fun n c => 10 * n + (c.toNat - '0'.toNat) from rfl, ← Nat.ofDigitChars_eq_foldl,
    Nat.ofDigitChars_ten_toDigits]

theorem toDigits_ne_cons {n : ℕ} {c : Char} (h : c.isDigit = false) (rest : List Char) :
    Nat.toDigits 10 n ≠ c :: rest := by
  intro heq
  have hd := Nat.isDigit_of_mem_toDigits (b := 10) (n := n) (c := c) (by decide) (by decide)
    (by rw [heq]; exact List.mem_cons_self)
  rw [h] at hd
  cases hd

theorem parseUnsigned_toString {n bound : ℕ} (h : n < bound) :
    parseUnsigned (toString n) bound = some n := by
  unfold parseUnsigned
  rw [chars_eq_toList, Nat.toString_eq_repr, Nat.toList_repr]
  split
  · rename_i rest heq
    exact absurd heq (toDigits_ne_cons (by decide) rest)
  · rw [parseDigits_toDigits]
    simp [h]

/-- Decimal text of an integer in range is read back. -/
theorem parseSigned_toString {z : ℤ} {bound : ℕ} (hl : -(bound : ℤ) ≤ z) (hu : z < bound) :
    parseSigned (toString z) bound = some z := by
  unfold parseSigned
  rw [chars_eq_toList]
  rcases z with n | n
  · have hn : n < bound := by
      simpa using hu
    change (match (toString n).toList with
      | '-' :: rest => ((parseDigits rest).filter (· ≤ bound)).map fun n : ℕ => -(n : ℤ)
      | _ => (parseUnsigned (toString n) bound).map Int.ofNat) = _
    rw [Nat.toString_eq_repr, Nat.toList_repr]
    split
    · rename_i rest heq
      exact absurd heq (toDigits_ne_cons (by decide) rest)
    · rw [← Nat.toString_eq_repr, parseUnsigned_toString hn]
      rfl
  · have hn : n + 1 ≤ bound := by
      rw [Int.negSucc_eq] at hl
      omega
    have ht : (toString (Int.negSucc n)).toList = '-' :: Nat.toDigits 10 (n + 1) := by
      change ("-" ++ (n + 1).repr).toList = _
      rw [String.toList_append, Nat.toList_repr]
      rfl
    rw [ht]
    simp only [parseDigits_toDigits]
    rw [Option.filter_some_pos (by simpa using hn)]
    rfl

/-- What is read is in range. -/
theorem parseSigned_bounds {s : String} {bound : ℕ} {z : ℤ} (hb : 0 < bound)
    (h : parseSigned s bound = some z) : -(bound : ℤ) ≤ z ∧ z < bound := by
  unfold parseSigned at h
  split at h
  · obtain ⟨n, hn, rfl⟩ := Option.map_eq_some_iff.1 h
    have hle := (Option.filter_eq_some_iff.1 hn).2
    simp only [decide_eq_true_eq] at hle
    omega
  · obtain ⟨n, hn, rfl⟩ := Option.map_eq_some_iff.1 h
    unfold parseUnsigned at hn
    have hlt := (Option.filter_eq_some_iff.1 hn).2
    simp only [decide_eq_true_eq] at hlt
    constructor
    · exact le_trans (by omega) (Int.natCast_nonneg n)
    · exact Int.ofNat_lt.2 hlt

/-! ### Trimmed texts -/

/-- A part of a text that is as long as the text is the whole text. -/
theorem eq_of_infix_of_length {s t : String} (h : s.toList <:+: t.toList)
    (hlen : t.toList.length ≤ s.toList.length) : s = t :=
  String.toList_inj.1 (h.sublist.eq_of_length_le hlen)

theorem trim_infix (s : String) : (trim s).toList <:+: s.toList := by
  unfold trim trimEnd trimStart
  simp only [chars_eq_toList, String.toList_ofList]
  exact (List.rdropWhile_prefix _ _).isInfix.trans (List.dropWhile_suffix _).isInfix

theorem trimEndMatches_prefix (s : String) (c : Char) :
    (trimEndMatches s c).toList <+: s.toList := by
  unfold trimEndMatches
  simp only [chars_eq_toList, String.toList_ofList]
  exact List.rdropWhile_prefix _ _

theorem dropWhile_eq_self_iff_head {p : Char → Bool} {l : List Char} :
    l.dropWhile p = l ↔ ∀ c ∈ l.head?, p c = false := by
  cases l with
  | nil => simp
  | cons a l =>
    rw [List.dropWhile_cons]
    by_cases ha : p a = true
    · have hne : l.dropWhile p ≠ a :: l := by
        intro h
        have hlen := (List.dropWhile_suffix (l := l) p).length_le
        rw [h, List.length_cons] at hlen
        omega
      simp [ha, hne]
    · simp [ha]

theorem rdropWhile_eq_self_iff_getLast {p : Char → Bool} {l : List Char} :
    l.rdropWhile p = l ↔ ∀ c ∈ l.getLast?, p c = false := by
  rw [List.rdropWhile, List.reverse_eq_iff, dropWhile_eq_self_iff_head, List.head?_reverse]

/-- A text is its own trimming when neither its first nor its last character is white space. -/
theorem trim_eq_self_iff {s : String} :
    trim s = s ↔ (∀ c ∈ s.toList.head?, isWhitespace c = false) ∧
      ∀ c ∈ s.toList.getLast?, isWhitespace c = false := by
  rw [← dropWhile_eq_self_iff_head, ← rdropWhile_eq_self_iff_getLast, ← String.toList_inj]
  unfold trim trimEnd trimStart
  simp only [chars_eq_toList, String.toList_ofList]
  constructor
  · intro h
    have hstart : s.toList.dropWhile isWhitespace = s.toList := by
      refine (List.dropWhile_suffix _).eq_of_length_le ?_
      conv_lhs => rw [← h]
      exact (List.rdropWhile_prefix _ _).length_le
    rw [hstart] at h
    exact ⟨hstart, h⟩
  · rintro ⟨hstart, hend⟩
    rw [hstart, hend]

theorem trimEndMatches_eq_self_iff {s : String} {c : Char} :
    trimEndMatches s c = s ↔ s.toList.getLast? ≠ some c := by
  unfold trimEndMatches
  rw [← String.toList_inj, chars_eq_toList, String.toList_ofList, rdropWhile_eq_self_iff_getLast]
  constructor
  · intro h hc
    have hcc := h c hc
    rw [beq_self_eq_true] at hcc
    cases hcc
  · rintro h d hd
    rw [beq_eq_false_iff_ne]
    rintro rfl
    exact h hd

/-- What is dropped at the end of a text reaches into its first part only past all of the second. -/
theorem rdropWhile_append {f : Char → Bool} (a b : List Char) :
    (a ++ b).rdropWhile f = if b.rdropWhile f = [] then a.rdropWhile f else a ++ b.rdropWhile f := by
  unfold List.rdropWhile
  rw [List.reverse_append, List.dropWhile_append]
  simp only [List.isEmpty_iff, List.reverse_eq_nil_iff]
  split_ifs with h
  · rfl
  · rw [List.reverse_append, List.reverse_reverse]

/-- Trimming the end of a text stops at a part that needs none. -/
theorem trimEndMatches_append {p s : String} {c : Char} (hp : trimEndMatches p c = p) :
    trimEndMatches (p ++ s) c = p ++ trimEndMatches s c := by
  rw [← String.toList_inj] at hp ⊢
  unfold trimEndMatches at hp ⊢
  simp only [chars_eq_toList, String.toList_ofList, String.toList_append, rdropWhile_append] at hp ⊢
  split_ifs with h
  · rw [hp, h, List.append_nil]
  · rfl

/-- The characters that trimming removes are all the same. -/
theorem mem_trimEndMatches {s : String} {c d : Char} (h : d ∈ s.toList) (hd : d ≠ c) :
    d ∈ (trimEndMatches s c).toList := by
  unfold trimEndMatches
  rw [chars_eq_toList, String.toList_ofList]
  rw [← List.rdropWhile_append_rtakeWhile (p := (· == c)) (l := s.toList), List.mem_append] at h
  refine h.resolve_right fun hm => hd ?_
  have hc : (d == c) = true := List.mem_rtakeWhile_imp (p := (· == c)) hm
  exact beq_iff_eq.1 hc

theorem startsWith_eq_false_of_not_mem {s p : String} {c : Char} (hs : c ∉ s.toList)
    (hp : c ∈ p.toList) : startsWith s p = false := by
  rw [← Bool.not_eq_true, startsWith_iff]
  rintro ⟨rest, rfl⟩
  rw [String.toList_append] at hs
  exact hs (List.mem_append_left _ hp)

theorem startsWith_of_prefix {s t p : String} (h : s.toList <+: t.toList)
    (hs : startsWith s p = true) : startsWith t p = true := by
  unfold startsWith at hs ⊢
  simp only [chars_eq_toList, List.isPrefixOf_iff_prefix] at hs ⊢
  exact hs.trans h

/-! ### Slices -/

theorem takeBytes_eq_some {n : ℕ} {l a : List Char} :
    takeBytes n l = some a ↔ a <+: l ∧ (a.map Char.utf8Size).sum = n := by
  induction l generalizing n a with
  | nil =>
    cases n with
    | zero =>
      rw [takeBytes, Option.some.injEq, List.prefix_nil, eq_comm]
      constructor
      · rintro rfl
        exact ⟨rfl, rfl⟩
      · exact And.left
    | succ n =>
      rw [takeBytes, List.prefix_nil]
      constructor
      · intro h
        cases h
      · rintro ⟨rfl, h⟩
        cases h
  | cons c l ih =>
    have hsize := Char.utf8Size_pos c
    cases n with
    | zero =>
      rw [takeBytes, Option.some.injEq]
      constructor
      · rintro rfl
        exact ⟨List.nil_prefix, rfl⟩
      · rintro ⟨hpre, hsum⟩
        cases a with
        | nil => rfl
        | cons d a =>
          obtain ⟨rfl, -⟩ := List.cons_prefix_cons.1 hpre
          rw [List.map_cons, List.sum_cons] at hsum
          omega
    | succ n =>
      rw [takeBytes]
      split_ifs with hle
      · rw [Option.map_eq_some_iff]
        constructor
        · rintro ⟨b, hb, rfl⟩
          obtain ⟨hpre, hsum⟩ := ih.1 hb
          refine ⟨List.cons_prefix_cons.2 ⟨rfl, hpre⟩, ?_⟩
          rw [List.map_cons, List.sum_cons, hsum]
          omega
        · rintro ⟨hpre, hsum⟩
          cases a with
          | nil => cases hsum
          | cons d a =>
            obtain ⟨rfl, hrest⟩ := List.cons_prefix_cons.1 hpre
            rw [List.map_cons, List.sum_cons] at hsum
            exact ⟨a, ih.2 ⟨hrest, by omega⟩, rfl⟩
      · -- the first character is too wide
        constructor
        · intro h
          cases h
        · rintro ⟨hpre, hsum⟩
          cases a with
          | nil => cases hsum
          | cons d a =>
            obtain ⟨rfl, -⟩ := List.cons_prefix_cons.1 hpre
            rw [List.map_cons, List.sum_cons] at hsum
            omega

/-- A slice from the start ends between two characters. -/
theorem getTo_eq_some {s a : String} {n : ℕ} :
    getTo s n = some a ↔ len a = n ∧ ∃ b, s = a ++ b := by
  unfold getTo len
  rw [Option.map_eq_some_iff, chars_eq_toList, chars_eq_toList]
  constructor
  · rintro ⟨l, hl, rfl⟩
    obtain ⟨⟨r, hr⟩, hsum⟩ := takeBytes_eq_some.1 hl
    refine ⟨by rwa [String.toList_ofList], String.ofList r, ?_⟩
    rw [← String.ofList_append, hr, String.ofList_toList]
  · rintro ⟨hlen, b, rfl⟩
    refine ⟨a.toList, takeBytes_eq_some.2 ⟨?_, hlen⟩, String.ofList_toList⟩
    rw [String.toList_append]
    exact List.prefix_append _ _

theorem trim_trim (s : String) : trim (trim s) = trim s := by
  rw [trim_eq_self_iff, ← rdropWhile_eq_self_iff_getLast]
  unfold trim trimEnd trimStart
  simp only [chars_eq_toList, String.toList_ofList]
  refine ⟨fun c hc => ?_, List.rdropWhile_idempotent _ _⟩
  have hstart := List.head?_dropWhile_not isWhitespace s.toList
  have hhead : (s.toList.dropWhile isWhitespace).head? = some c := by
    obtain ⟨rest, hrest⟩ := List.rdropWhile_prefix isWhitespace (s.toList.dropWhile isWhitespace)
    rw [← hrest, List.head?_append, Option.mem_def.1 hc, Option.some_or]
  rw [hhead] at hstart
  exact hstart

/-! ### Lower case -/

@[simp] theorem toList_toAsciiLowercase (s : String) :
    (toAsciiLowercase s).toList = s.toList.map Char.toLower := by
  simp [toAsciiLowercase]

/-- Lower case changes the letters from `A` to `Z` only. -/
theorem toLower_cases (c : Char) :
    c.toLower = c ∨ 65 ≤ c.toNat ∧ c.toNat ≤ 90 ∧ c.toLower.toNat = c.toNat + 32 := by
  unfold Char.toLower
  split_ifs with h
  · have h1 : 65 ≤ c.toNat := h.1
    have h2 : c.toNat ≤ 90 := h.2
    refine .inr ⟨h1, h2, ?_⟩
    show (c.val + ('a'.val - 'A'.val)).toNat = c.toNat + 32
    rw [UInt32.toNat_add]
    show (c.toNat + 32) % 2 ^ 32 = c.toNat + 32
    omega
  · exact .inl rfl

theorem toLower_eq_iff {c d : Char} (hd : d.isAlpha = false) : c.toLower = d ↔ c = d := by
  have halpha : (d.toNat < 65 ∨ 90 < d.toNat) ∧ (d.toNat < 97 ∨ 122 < d.toNat) := by
    unfold Char.isAlpha Char.isUpper Char.isLower at hd
    simp only [Bool.or_eq_false_iff, Bool.and_eq_false_iff, decide_eq_false_iff_not,
      UInt32.le_iff_toNat_le] at hd
    change ¬ (65 ≤ d.toNat ∧ d.toNat ≤ 90) ∧ (¬ 97 ≤ d.toNat ∨ ¬ d.toNat ≤ 122) at hd
    omega
  rcases toLower_cases c with h | ⟨h1, h2, h3⟩
  · rw [h]
  · constructor
    · rintro rfl
      omega
    · rintro rfl
      omega

theorem isWhitespace_toLower (c : Char) : isWhitespace c.toLower = isWhitespace c := by
  rcases toLower_cases c with h | ⟨h1, h2, h3⟩
  · rw [h]
  · have hfalse : ∀ n, 65 ≤ n → n ≤ 122 → ∀ d : Char, d.toNat = n → isWhitespace d = false := by
      rintro n hl hu d rfl
      simp only [isWhitespace, Bool.or_eq_false_iff, Bool.and_eq_false_iff,
        decide_eq_false_iff_not, beq_eq_false_iff_ne]
      omega
    rw [hfalse _ h1 (by omega) c rfl, hfalse _ (by omega) (by omega) _ h3]

theorem toAsciiLowercase_toAsciiLowercase (s : String) :
    toAsciiLowercase (toAsciiLowercase s) = toAsciiLowercase s := by
  rw [← String.toList_inj, toList_toAsciiLowercase, toList_toAsciiLowercase, List.map_map]
  refine List.map_congr_left fun c _ => ?_
  rcases toLower_cases c.toLower with h | ⟨h1, h2, _⟩
  · exact h
  · rcases toLower_cases c with h | ⟨h1', _, h3⟩
    · rw [Function.comp_apply, h, h]
    · omega

/-- Lower case moves no character that is not a letter. -/
theorem mem_toAsciiLowercase_iff {s : String} {d : Char} (hd : d.isAlpha = false) :
    d ∈ (toAsciiLowercase s).toList ↔ d ∈ s.toList := by
  rw [toList_toAsciiLowercase, List.mem_map]
  constructor
  · rintro ⟨c, hc, hcd⟩
    exact (toLower_eq_iff hd).1 hcd ▸ hc
  · intro h
    exact ⟨d, h, (toLower_eq_iff hd).2 rfl⟩

theorem trim_toAsciiLowercase_eq_self_iff {s : String} :
    trim (toAsciiLowercase s) = toAsciiLowercase s ↔ trim s = s := by
  simp [trim_eq_self_iff, isWhitespace_toLower]

theorem trimEndMatches_toAsciiLowercase_eq_self_iff {s : String} {d : Char}
    (hd : d.isAlpha = false) :
    trimEndMatches (toAsciiLowercase s) d = toAsciiLowercase s ↔ trimEndMatches s d = s := by
  rw [trimEndMatches_eq_self_iff, trimEndMatches_eq_self_iff, toList_toAsciiLowercase,
    List.getLast?_map]
  cases s.toList.getLast? with
  | none => simp
  | some c => simp [toLower_eq_iff hd]

/-! ### The text before the first separator -/

theorem headD_split (s : String) (c : Char) (d : String) :
    (split s c).headD d = String.ofList (s.toList.takeWhile (· != c)) := by
  unfold split
  rw [chars_eq_toList]
  by_cases h : c ∈ s.toList
  · obtain ⟨a, b, hs, ha⟩ := List.eq_append_cons_of_mem h
    rw [hs, List.splitOn_append_cons_self_of_not_mem ha, takeWhile_ne_append ha]
    rfl
  · rw [List.splitOn_eq_singleton h, List.takeWhile_eq_self_iff.2]
    · rfl
    · intro x hx
      rw [bne_iff_ne]
      rintro rfl
      exact h hx

end Str
end Rust
