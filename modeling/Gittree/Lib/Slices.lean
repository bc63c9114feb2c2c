import Gittree.Lib.Str

/-!
# Byte positions in texts

The operations of Rust's `str` that count bytes: where a pattern starts, and the slices between two
positions.  A slice is `none` where the program panics: past the end of the text, inside a
character, or with its start behind its end.

* `find_eq_some`: a pattern is found between two characters;
* `getFrom_append`, `getRange_append`: the slices of a text at the ends of its parts;
* `takeWhile_asBytes`: an ASCII class reads as many bytes as characters, and never a part of one.
-/

namespace Rust
namespace Str

/-- `str::find` with a string pattern: the byte at which the first occurrence starts. -/
def find (s p : String) : Option ℕ :=
  (splitAtFirst (chars p) (chars s)).map fun r => len (String.ofList r.1)

/-- The characters behind the first `n` bytes; `none` past the end or inside a character. -/
def dropBytes : ℕ → List Char → Option (List Char)
  | 0, l => some l
  | _ + 1, [] => none
  | n + 1, c :: cs => if c.utf8Size ≤ n + 1 then dropBytes (n + 1 - c.utf8Size) cs else none

/-- `str::get(n..)`; the slice `&s[n..]` panics when this is `none`. -/
def getFrom (s : String) (n : ℕ) : Option String := (dropBytes n (chars s)).map String.ofList

/-- `str::get(n..m)`; the slice `&s[n..m]` panics when this is `none`. -/
def getRange (s : String) (n m : ℕ) : Option String := (getTo s m).bind fun t => getFrom t n

/-- `usize::checked_sub`; the subtraction `n - m` panics when this is `none`. -/
def checkedSub (n m : ℕ) : Option ℕ := if m ≤ n then some (n - m) else none

/-- `u8::is_ascii_alphanumeric`. -/
def isAsciiAlphanumericByte (b : UInt8) : Bool :=
  (48 ≤ b && b ≤ 57) || (97 ≤ b && b ≤ 122) || (65 ≤ b && b ≤ 90)

/-! ### Positions -/

/-- A pattern is found behind whole characters. -/
theorem find_eq_some {s p : String} {n : ℕ} (h : find s p = some n) :
    ∃ a b, s = a ++ p ++ b ∧ n = len a := by
  unfold find at h
  simp only [chars_eq_toList] at h
  obtain ⟨⟨a, found⟩, hsplit, rfl⟩ := Option.map_eq_some_iff.1 h
  obtain ⟨hs, rest, rfl⟩ := splitAtFirst_append hsplit
  refine ⟨String.ofList a, String.ofList rest, ?_, rfl⟩
  rw [← String.toList_inj, hs]
  simp

theorem getTo_append (a b : String) : getTo (a ++ b) (len a) = some a :=
  getTo_eq_some.2 ⟨rfl, b, rfl⟩

theorem dropBytes_append (a b : List Char) :
    dropBytes (a.map Char.utf8Size).sum (a ++ b) = some b := by
  induction a with
  | nil => rw [List.map_nil, List.sum_nil, dropBytes, List.nil_append]
  | cons c a ih =>
    have hsize := Char.utf8Size_pos c
    obtain ⟨n, hn⟩ := Nat.exists_eq_add_of_lt (show 0 < ((c :: a).map Char.utf8Size).sum by
      rw [List.map_cons, List.sum_cons]
      omega)
    rw [Nat.zero_add] at hn
    have hrest : n + 1 - c.utf8Size = (a.map Char.utf8Size).sum := by
      rw [← hn, List.map_cons, List.sum_cons]
      omega
    rw [hn, List.cons_append, dropBytes, hrest, ih, if_pos]
    rw [← hn, List.map_cons, List.sum_cons]
    omega

/-- The slice from the end of the first part of a text is its second part. -/
theorem getFrom_append (a b : String) : getFrom (a ++ b) (len a) = some b := by
  unfold getFrom len
  rw [chars_eq_toList, chars_eq_toList, String.toList_append, dropBytes_append, Option.map_some,
    String.ofList_toList]

/-- The slice between the ends of the first two parts of a text is the second. -/
theorem getRange_append (a b c : String) :
    getRange (a ++ b ++ c) (len a) (len (a ++ b)) = some b := by
  unfold getRange
  rw [getTo_append, Option.bind_some, getFrom_append]

/-- The slice that leaves the end of a text. -/
theorem getTo_checkedSub (a b : String) :
    (checkedSub (len (a ++ b)) (len b)).bind (getTo (a ++ b)) = some a := by
  unfold checkedSub
  rw [len_append, if_pos (Nat.le_add_left _ _), Option.bind_some, Nat.add_sub_cancel,
    getTo_append]

/-! ### Bytes -/

theorem asBytes_eq (s : String) : asBytes s = s.toList.flatMap String.utf8EncodeChar := by
  unfold asBytes
  conv_lhs => rw [← String.ofList_toList (s := s)]
  simp [String.ofList, List.utf8Encode]

theorem asBytes_append (a b : String) : asBytes (a ++ b) = asBytes a ++ asBytes b := by
  rw [asBytes_eq, asBytes_eq, asBytes_eq, String.toList_append, List.flatMap_append]

theorem length_asBytes (s : String) : (asBytes s).length = len s := by
  rw [asBytes_eq, len, chars_eq_toList, List.length_flatMap]
  simp

theorem isAsciiAlphanumeric_iff {c : Char} :
    isAsciiAlphanumeric c = true ↔ 48 ≤ c.toNat ∧ c.toNat ≤ 57 ∨ 97 ≤ c.toNat ∧ c.toNat ≤ 122 ∨
      65 ≤ c.toNat ∧ c.toNat ≤ 90 := by
  unfold isAsciiAlphanumeric
  simp only [Bool.or_eq_true, Bool.and_eq_true, decide_eq_true_eq, Char.le_def,
    UInt32.le_iff_toNat_le, or_assoc]
  rfl

theorem isAsciiAlphanumericByte_iff {b : UInt8} :
    isAsciiAlphanumericByte b = true ↔ 48 ≤ b.toNat ∧ b.toNat ≤ 57 ∨
      97 ≤ b.toNat ∧ b.toNat ≤ 122 ∨ 65 ≤ b.toNat ∧ b.toNat ≤ 90 := by
  unfold isAsciiAlphanumericByte
  simp only [Bool.or_eq_true, Bool.and_eq_true, decide_eq_true_eq, UInt8.le_iff_toNat_le, or_assoc]
  rfl

/-- The first byte of a character is the character, or no ASCII at all. -/
theorem utf8EncodeChar_first (c : Char) :
    (∃ b, String.utf8EncodeChar c = [b] ∧ b.toNat = c.toNat) ∨
      128 ≤ c.toNat ∧ ∃ b rest, String.utf8EncodeChar c = b :: rest ∧ 128 ≤ b.toNat := by
  unfold String.utf8EncodeChar
  simp only
  split_ifs with h1 h2 h3
  · refine .inl ⟨_, rfl, ?_⟩
    rw [UInt8.toNat_ofNat_of_lt' (show c.val.toNat < 256 by omega)]
    rfl
  all_goals
    refine .inr ⟨?_, _, _, rfl, ?_⟩
    · exact Nat.lt_of_not_le h1
    · simp [UInt8.toNat_ofNat]
      omega

/-- An alphanumeric character is one byte, and the first byte of every other character is not
alphanumeric. -/
theorem utf8EncodeChar_alphanumeric (c : Char) :
    isAsciiAlphanumeric c = true ∧ (∃ b, String.utf8EncodeChar c = [b] ∧
        isAsciiAlphanumericByte b = true) ∨
      isAsciiAlphanumeric c = false ∧ ∃ b rest, String.utf8EncodeChar c = b :: rest ∧
        isAsciiAlphanumericByte b = false := by
  rcases utf8EncodeChar_first c with ⟨b, hb, hval⟩ | ⟨hc, b, rest, hb, hval⟩
  · by_cases h : isAsciiAlphanumeric c = true
    · refine .inl ⟨h, b, hb, ?_⟩
      rwa [isAsciiAlphanumericByte_iff, hval, ← isAsciiAlphanumeric_iff]
    · refine .inr ⟨Bool.eq_false_iff.2 h, b, [], hb, ?_⟩
      rwa [Bool.eq_false_iff, Ne, isAsciiAlphanumericByte_iff, hval, ← isAsciiAlphanumeric_iff]
  · refine .inr ⟨?_, b, rest, hb, ?_⟩
    · rw [Bool.eq_false_iff, Ne, isAsciiAlphanumeric_iff]
      omega
    · rw [Bool.eq_false_iff, Ne, isAsciiAlphanumericByte_iff]
      omega

/-- Alphanumeric bytes are read up to the end of a character. -/
theorem takeWhile_asBytes (s : String) :
    (asBytes s).takeWhile isAsciiAlphanumericByte =
      asBytes (String.ofList (s.toList.takeWhile isAsciiAlphanumeric)) := by
  rw [asBytes_eq, asBytes_eq, String.toList_ofList]
  induction s.toList with
  | nil => rfl
  | cons c l ih =>
    rw [List.flatMap_cons, List.takeWhile_cons]
    rcases utf8EncodeChar_alphanumeric c with ⟨hc, b, hb, hbyte⟩ | ⟨hc, b, rest, hb, hbyte⟩
    · rw [hb, List.singleton_append, List.takeWhile_cons, if_pos hbyte, ih, if_pos hc,
        List.flatMap_cons, hb]
      rfl
    · rw [hb, List.cons_append, List.takeWhile_cons, hbyte, hc]
      rfl

end Str
end Rust
