import Gittree.Lib.Hex

/-!
# Bech32 text

The part of a bech32 implementation that other code relies on, as a structure of two functions and
a proposition about them: what is encoded under a human-readable part is decoded again, and what
decodes is the human-readable part, the separator `1` and alphanumeric characters.  Decoding need
not be injective: bech32 and bech32m checksums are both read.

`ofTable` is an implementation that agrees with given pairs and falls back to hexadecimal; it is
lawful as soon as the pairs are (`lawful_ofTable`).
-/

namespace Rust

/-- `bech32::encode` and `bech32::decode`. -/
structure Bech32 where
  encode : String → List UInt8 → String
  decode : String → Option (String × List UInt8)

namespace Bech32

/-- The documented behaviour for one human-readable part and payloads of `n` bytes. -/
structure Lawful (b : Bech32) (hrp : String) (n : ℕ) : Prop where
  decode_encode : ∀ data, data.length = n → b.decode (b.encode hrp data) = some (hrp, data)
  form : ∀ s data, b.decode s = some (hrp, data) →
    ∃ rest, s = hrp ++ "1" ++ rest ∧ ∀ c ∈ rest.toList, Str.isAsciiAlphanumeric c = true

/-- An implementation that agrees with the pairs of a table. -/
def ofTable (hrp : String) (table : List (List UInt8 × String)) : Bech32 where
  encode h data :=
    match table.find? fun e => e.1 == data with
    | some e => e.2
    | none => h ++ "1" ++ Hex.encode data
  decode s :=
    match table.find? fun e => e.2 == s with
    | some e => some (hrp, e.1)
    | none => (Str.stripPrefix s (hrp ++ "1")).bind fun rest =>
        (Hex.decode rest).map fun data => (hrp, data)

/-- A table of distinct, well-formed pairs whose texts cannot be taken for the fallback. -/
structure TableOk (hrp : String) (n : ℕ) (table : List (List UInt8 × String)) : Prop where
  inj : ∀ e ∈ table, ∀ e' ∈ table, e.2 = e'.2 → e.1 = e'.1
  length : ∀ e ∈ table, e.2.toList.length ≠ hrp.toList.length + 1 + 2 * n
  form : ∀ e ∈ table, ∃ rest, e.2 = hrp ++ "1" ++ rest ∧
    ∀ c ∈ rest.toList, Str.isAsciiAlphanumeric c = true

theorem isAsciiAlphanumeric_of_hexdigit {c : Char} (h : Str.isAsciiHexdigit c = true) :
    Str.isAsciiAlphanumeric c = true := by
  simp only [Str.isAsciiHexdigit, Str.isAsciiAlphanumeric, Bool.or_eq_true, Bool.and_eq_true,
    decide_eq_true_eq] at h ⊢
  rcases h with (h | ⟨h, h'⟩) | ⟨h, h'⟩
  · exact Or.inl (Or.inl h)
  · exact Or.inl (Or.inr ⟨h, le_trans h' (by decide)⟩)
  · exact Or.inr ⟨h, le_trans h' (by decide)⟩

theorem length_encode (bs : List UInt8) : (Hex.encode bs).toList.length = 2 * bs.length :=
  Hex.length_of_decode (Hex.decode_encode bs)

theorem lawful_ofTable {hrp : String} {n : ℕ} {table : List (List UInt8 × String)}
    (ht : TableOk hrp n table) : (ofTable hrp table).Lawful hrp n where
  decode_encode := by
    intro data hlen
    unfold ofTable
    simp only
    cases hf : table.find? fun e => e.1 == data with
    | some e =>
      simp only
      have hm := List.mem_of_find?_eq_some hf
      have hd : e.1 = data := by simpa using List.find?_some hf
      obtain ⟨e', he'⟩ := Option.isSome_iff_exists.1
        (List.find?_isSome (p := fun x : List UInt8 × String => x.2 == e.2)|>.2 ⟨e, hm, by simp⟩)
      rw [he']
      have h2 : e'.2 = e.2 := by simpa using List.find?_some he'
      simp only
      rw [ht.inj e' (List.mem_of_find?_eq_some he') e hm h2, hd]
    | none =>
      simp only
      have hno : (table.find? fun e => e.2 == hrp ++ "1" ++ Hex.encode data) = none := by
        rw [List.find?_eq_none]
        intro e he hx
        have hx : e.2 = hrp ++ "1" ++ Hex.encode data := by simpa using hx
        apply ht.length e he
        rw [hx]
        simp [length_encode, hlen]
        omega
      rw [hno]
      simp
  form := by
    intro s data h
    unfold ofTable at h
    simp only at h
    cases hf : table.find? fun e => e.2 == s with
    | some e =>
      have hs : e.2 = s := by simpa using List.find?_some hf
      rw [← hs]
      exact ht.form e (List.mem_of_find?_eq_some hf)
    | none =>
      rw [hf] at h
      obtain ⟨rest, hr, h⟩ := Option.bind_eq_some_iff.1 h
      obtain ⟨d, hd, -⟩ := Option.map_eq_some_iff.1 h
      exact ⟨rest, Str.stripPrefix_eq_some.1 hr,
        fun c hc => isAsciiAlphanumeric_of_hexdigit (Hex.hexdigit_of_decode hd c hc)⟩

end Bech32
end Rust
