import Gittree.Lib.Str

/-!
# Hexadecimal text

The `hex` crate: `encode` writes two lower-case digits a byte, `decode` reads pairs of digits of
either case and refuses an odd number of characters or any other character.

* `decode_encode`: what is written is read back;
* `encode_of_decode`: reading and writing a text lower-cases it;
* `decode_isSome_iff`: the texts that are read;
* `encode_le_iff`: writing keeps the order.
-/

namespace Rust
namespace Hex

/-- The lower-case digit of a value below 16. -/
def digit (n : ℕ) : Char := if n < 10 then Char.ofNat (48 + n) else Char.ofNat (87 + n)

/-- The value of a hexadecimal digit of either case. -/
def value (c : Char) : Option ℕ :=
  if '0' ≤ c ∧ c ≤ '9' then some (c.toNat - 48)
  else if 'a' ≤ c ∧ c ≤ 'f' then some (c.toNat - 87)
  else if 'A' ≤ c ∧ c ≤ 'F' then some (c.toNat - 55)
  else none

/-- `hex::encode`, as characters. -/
def encodeChars (bs : List UInt8) : List Char :=
  bs.flatMap fun b => [digit (b.toNat / 16), digit (b.toNat % 16)]

/-- `hex::encode`. -/
def encode (bs : List UInt8) : String := String.ofList (encodeChars bs)

/-- `hex::decode`, on characters. -/
def decodeChars : List Char → Option (List UInt8)
  | [] => some []
  | [_] => none
  | a :: b :: rest =>
    match value a, value b, decodeChars rest with
    | some hi, some lo, some bs => some (UInt8.ofNat (16 * hi + lo) :: bs)
    | _, _, _ => none

/-- `hex::decode`. -/
def decode (s : String) : Option (List UInt8) := decodeChars (Str.chars s)

/-- A text without upper-case ASCII letters. -/
def IsLower (s : String) : Prop := Str.toAsciiLowercase s = s

instance (s : String) : Decidable (IsLower s) := inferInstanceAs (Decidable (_ = _))

/-! ### Single digits -/

theorem value_digit {n : ℕ} (h : n < 16) : value (digit n) = some n := by
  interval_cases n <;> decide

theorem char_of_range {c : Char} {P : Char → Prop} (lo hi : Char) (h1 : lo ≤ c) (h2 : c ≤ hi)
    (H : ∀ n, lo.toNat ≤ n → n ≤ hi.toNat → P (Char.ofNat n)) : P c := by
  have := H c.toNat h1 h2
  rwa [Char.ofNat_toNat] at this

/-- A digit that is read has a value below 16 and is written back in lower case. -/
theorem digit_of_value {c : Char} {n : ℕ} (h : value c = some n) :
    n < 16 ∧ digit n = c.toLower ∧ Str.isAsciiHexdigit c = true := by
  unfold value at h
  split_ifs at h with h1 h2 h3
  · cases h
    exact char_of_range (P := fun c => c.toNat - 48 < 16 ∧ digit (c.toNat - 48) = c.toLower ∧
      Str.isAsciiHexdigit c = true) '0' '9' h1.1 h1.2 (by
        intro n h h'
        replace h : 48 ≤ n := h
        replace h' : n ≤ 57 := h'
        interval_cases n <;> decide)
  · cases h
    exact char_of_range (P := fun c => c.toNat - 87 < 16 ∧ digit (c.toNat - 87) = c.toLower ∧
      Str.isAsciiHexdigit c = true) 'a' 'f' h2.1 h2.2 (by
        intro n h h'
        replace h : 97 ≤ n := h
        replace h' : n ≤ 102 := h'
        interval_cases n <;> decide)
  · cases h
    exact char_of_range (P := fun c => c.toNat - 55 < 16 ∧ digit (c.toNat - 55) = c.toLower ∧
      Str.isAsciiHexdigit c = true) 'A' 'F' h3.1 h3.2 (by
        intro n h h'
        replace h : 65 ≤ n := h
        replace h' : n ≤ 70 := h'
        interval_cases n <;> decide)

theorem value_isSome_of_hexdigit {c : Char} (h : Str.isAsciiHexdigit c = true) :
    ∃ n, value c = some n := by
  simp only [Str.isAsciiHexdigit, Bool.or_eq_true, Bool.and_eq_true, decide_eq_true_eq] at h
  unfold value
  rcases h with (h | h) | h
  · exact ⟨_, if_pos h⟩
  · split_ifs
    · exact ⟨_, rfl⟩
    · exact ⟨_, rfl⟩
  · split_ifs
    · exact ⟨_, rfl⟩
    · exact ⟨_, rfl⟩
    · exact ⟨_, rfl⟩

theorem digit_hex {n : ℕ} (h : n < 16) : Str.isAsciiHexdigit (digit n) = true ∧
    (digit n).toLower = digit n ∧ digit n ≠ ':' := by
  interval_cases n <;> decide

/-! ### Whole texts -/

theorem decodeChars_encodeChars (bs : List UInt8) : decodeChars (encodeChars bs) = some bs := by
  induction bs with
  | nil => rfl
  | cons b bs ih =>
    have hb := b.toNat_lt
    rw [show encodeChars (b :: bs) = digit (b.toNat / 16) :: digit (b.toNat % 16) :: encodeChars bs
      from rfl, decodeChars, value_digit (by omega), value_digit (by omega), ih]
    simp only
    rw [Nat.div_add_mod]
    simp

/-- What is written is read back. -/
@[simp] theorem decode_encode (bs : List UInt8) : decode (encode bs) = some bs := by
  unfold decode encode
  rw [Str.chars_eq_toList, String.toList_ofList, decodeChars_encodeChars]

theorem encode_append (a b : List UInt8) : encode (a ++ b) = encode a ++ encode b := by
  unfold encode encodeChars
  rw [List.flatMap_append, String.ofList_append]

theorem encode_injective : Function.Injective encode := by
  intro a b h
  have hd := congrArg decode h
  simpa using hd

/-- What a successful reading says about its text. -/
theorem decodeChars_eq_some {l : List Char} {bs : List UInt8} (h : decodeChars l = some bs) :
    encodeChars bs = l.map Char.toLower ∧ (∀ c ∈ l, Str.isAsciiHexdigit c = true) ∧
      l.length = 2 * bs.length := by
  induction l using decodeChars.induct generalizing bs with
  | case1 => cases h; simp [encodeChars]
  | case2 c => cases h
  | case3 a b rest hi lo bs' hr hb ha ih =>
    rw [decodeChars, ha, hb, hr] at h
    cases h
    obtain ⟨ih1, ih2, ih3⟩ := ih hr
    obtain ⟨hi16, hda, hxa⟩ := digit_of_value ha
    obtain ⟨lo16, hdb, hxb⟩ := digit_of_value hb
    have hn : (UInt8.ofNat (16 * hi + lo)).toNat = 16 * hi + lo := by
      rw [UInt8.toNat_ofNat']; omega
    refine ⟨?_, ?_, by simp [ih3]; ring⟩
    · rw [show encodeChars (UInt8.ofNat (16 * hi + lo) :: bs') =
        digit ((UInt8.ofNat (16 * hi + lo)).toNat / 16) ::
          digit ((UInt8.ofNat (16 * hi + lo)).toNat % 16) :: encodeChars bs' from rfl, hn, ih1,
        show (16 * hi + lo) / 16 = hi by omega, show (16 * hi + lo) % 16 = lo by omega, hda, hdb]
      rfl
    · intro c hc
      simp only [List.mem_cons] at hc
      rcases hc with rfl | rfl | hc
      · exact hxa
      · exact hxb
      · exact ih2 c hc
  | case4 a b rest hno ih =>
    rw [decodeChars] at h
    split at h
    · rename_i hi lo bs' ha hb hr
      exact (hno hi lo bs' ha hb hr).elim
    · cases h

/-- Reading and writing a text lower-cases it. -/
theorem encode_of_decode {s : String} {bs : List UInt8} (h : decode s = some bs) :
    encode bs = Str.toAsciiLowercase s := by
  unfold encode Str.toAsciiLowercase
  rw [(decodeChars_eq_some h).1]

/-- Texts in lower case that are read as the same bytes are the same. -/
theorem eq_encode_of_isLower {s : String} {bs : List UInt8} (hs : IsLower s)
    (h : decode s = some bs) : s = encode bs := by
  rw [encode_of_decode h, hs]

theorem value_toLower (c : Char) : value c.toLower = value c := by
  rcases Str.toLower_cases c with h | ⟨hlo, hhi, -⟩
  · rw [h]
  · refine char_of_range (P := fun c => value c.toLower = value c) 'A' 'Z' hlo hhi ?_
    intro n h h'
    replace h : 65 ≤ n := h
    replace h' : n ≤ 90 := h'
    interval_cases n <;> decide

theorem decodeChars_map_toLower (l : List Char) :
    decodeChars (l.map Char.toLower) = decodeChars l := by
  induction l using decodeChars.induct with
  | case1 => rfl
  | case2 c => rfl
  | case3 a b rest hi lo bs hr hb ha ih =>
    rw [List.map_cons, List.map_cons, decodeChars, decodeChars, value_toLower, value_toLower, ih]
  | case4 a b rest hno ih =>
    rw [List.map_cons, List.map_cons, decodeChars, decodeChars, value_toLower, value_toLower, ih]

/-- A text is read as its lower-case form is. -/
theorem decode_toAsciiLowercase (s : String) : decode (Str.toAsciiLowercase s) = decode s := by
  unfold decode
  rw [Str.chars_eq_toList, Str.chars_eq_toList, Str.toList_toAsciiLowercase,
    decodeChars_map_toLower]

theorem length_of_decode {s : String} {bs : List UInt8} (h : decode s = some bs) :
    s.toList.length = 2 * bs.length := by
  rw [← Str.chars_eq_toList]
  exact (decodeChars_eq_some h).2.2

theorem hexdigit_of_decode {s : String} {bs : List UInt8} (h : decode s = some bs) :
    ∀ c ∈ s.toList, Str.isAsciiHexdigit c = true := by
  rw [← Str.chars_eq_toList]
  exact (decodeChars_eq_some h).2.1

theorem decodeChars_isSome {l : List Char} (hl : ∀ c ∈ l, Str.isAsciiHexdigit c = true)
    (he : Even l.length) : ∃ bs, decodeChars l = some bs := by
  induction l using decodeChars.induct with
  | case1 => exact ⟨[], rfl⟩
  | case2 c => exact absurd he (by simp)
  | case3 a b rest hi lo bs hr hb ha ih => exact ⟨_, by rw [decodeChars, ha, hb, hr]⟩
  | case4 a b rest hno ih =>
    obtain ⟨x, hx⟩ := value_isSome_of_hexdigit (hl a (by simp))
    obtain ⟨y, hy⟩ := value_isSome_of_hexdigit (hl b (by simp))
    obtain ⟨bs, hbs⟩ := ih (fun c hc => hl c (by simp [hc])) (by
      simpa [Nat.even_add_one] using he)
    exact (hno x y bs hx hy hbs).elim

/-- A text is read when it has an even number of characters, all hexadecimal digits. -/
theorem decode_isSome_iff {s : String} :
    (∃ bs, decode s = some bs) ↔
      (∀ c ∈ s.toList, Str.isAsciiHexdigit c = true) ∧ Even s.toList.length := by
  constructor
  · rintro ⟨bs, h⟩
    exact ⟨hexdigit_of_decode h, by rw [length_of_decode h]; exact even_two_mul _⟩
  · rintro ⟨h, he⟩
    rw [← Str.chars_eq_toList] at h he
    exact decodeChars_isSome h he

/-- The hexadecimal texts of `2 * n` bytes are the texts that decode to `n` bytes. -/
theorem isHexLen_iff_decode {s : String} {n : ℕ} :
    Str.isHexLen s (2 * n) = true ↔ ∃ bs, decode s = some bs ∧ bs.length = n := by
  rw [Str.isHexLen_iff]
  constructor
  · rintro ⟨hl, hx⟩
    obtain ⟨bs, hbs⟩ := decode_isSome_iff.2 ⟨hx, by rw [hl]; exact even_two_mul _⟩
    exact ⟨bs, hbs, by have := length_of_decode hbs; omega⟩
  · rintro ⟨bs, hbs, rfl⟩
    exact ⟨length_of_decode hbs, hexdigit_of_decode hbs⟩

theorem mem_encode {bs : List UInt8} {c : Char} (h : c ∈ (encode bs).toList) :
    Str.isAsciiHexdigit c = true ∧ c.toLower = c ∧ c ≠ ':' := by
  unfold encode encodeChars at h
  rw [String.toList_ofList, List.mem_flatMap] at h
  obtain ⟨b, -, hc⟩ := h
  have hb := b.toNat_lt
  simp only [List.mem_cons, List.not_mem_nil, or_false] at hc
  rcases hc with rfl | rfl
  · exact digit_hex (by omega)
  · exact digit_hex (by omega)

/-- What is written is in lower case. -/
theorem isLower_encode (bs : List UInt8) : IsLower (encode bs) := by
  unfold IsLower
  rw [← encode_of_decode (decode_encode bs)]

/-! ### Order -/

theorem digit_lt_iff {m n : ℕ} (hm : m < 16) (hn : n < 16) : digit m < digit n ↔ m < n := by
  interval_cases m <;> interval_cases n <;> decide

theorem digit_inj {m n : ℕ} (hm : m < 16) (hn : n < 16) : digit m = digit n ↔ m = n := by
  constructor
  · intro h
    have hv := congrArg value h
    rwa [value_digit hm, value_digit hn, Option.some.injEq] at hv
  · rintro rfl
    rfl

theorem encodeChars_lt_iff (a b : List UInt8) : encodeChars a < encodeChars b ↔ a < b := by
  induction a generalizing b with
  | nil => cases b <;> simp [encodeChars]
  | cons x a ih =>
    cases b with
    | nil => simp [encodeChars]
    | cons y b =>
      have hx := x.toNat_lt
      have hy := y.toNat_lt
      -- the high digits decide, then the low digits, then the rest
      have hbyte : x < y ↔ x.toNat / 16 < y.toNat / 16 ∨
          x.toNat / 16 = y.toNat / 16 ∧ x.toNat % 16 < y.toNat % 16 := by
        rw [UInt8.lt_iff_toNat_lt]
        omega
      have heq : x = y ↔ x.toNat / 16 = y.toNat / 16 ∧ x.toNat % 16 = y.toNat % 16 := by
        rw [← UInt8.toNat_inj]
        omega
      show digit (x.toNat / 16) :: digit (x.toNat % 16) :: encodeChars a <
        digit (y.toNat / 16) :: digit (y.toNat % 16) :: encodeChars b ↔ _
      rw [List.cons_lt_cons_iff, List.cons_lt_cons_iff, List.cons_lt_cons_iff, ih, hbyte, heq,
        digit_lt_iff (by omega) (by omega), digit_lt_iff (by omega) (by omega),
        digit_inj (by omega) (by omega), digit_inj (by omega) (by omega)]
      tauto

/-- Writing keeps the order. -/
theorem encode_le_iff (a b : List UInt8) : encode a ≤ encode b ↔ a ≤ b := by
  rw [String.le_iff_toList_le]
  unfold encode
  rw [String.toList_ofList, String.toList_ofList, ← not_lt, encodeChars_lt_iff]
  rfl

end Hex
end Rust
