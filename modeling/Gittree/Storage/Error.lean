import Gittree.Lib.Hex
import Gittree.Lib.Result

/-!
# Storage errors and field checks

`crates/storage/src/error.rs` and the checks that the record constructors share: a text field that
must not be blank, and a hexadecimal field of a fixed length.
-/

namespace Gittree

open Rust

/-- The errors of `StorageError`, apart from those of its configuration. -/
inductive StorageError
  | invalidField (field value : String)
  | invalidHex (field value : String)
  | serialization (field source : String)
  | internal (message : String)
  | migration (message : String)
  | database (source : String)
  deriving DecidableEq, Repr

def StorageError.display : StorageError → String
  | .invalidField field value => "invalid " ++ field ++ ": " ++ value
  | .invalidHex field value => "invalid hex " ++ field ++ ": " ++ value
  | .serialization field source => "invalid " ++ field ++ ": " ++ source
  | .internal message => "internal error: " ++ message
  | .migration message => "migration error: " ++ message
  | .database source => "database error: " ++ source

/-- `decode_hex`: hexadecimal text of a given length. -/
def decodeHex (field value : String) (len : ℕ) : Except StorageError (List UInt8) := do
  Result.ensure (Str.len value = len) (.invalidHex field value)
  Result.okOr (Hex.decode value) (.invalidHex field value)

/-- `decode_hex_32`. -/
def decodeHex32 (field value : String) : Except StorageError (List UInt8) := decodeHex field value 64

/-- `require_non_empty`. -/
def requireNonEmpty (field value : String) : Except StorageError Unit :=
  Result.ensure (Str.trim value ≠ "") (.invalidField field "")

theorem decodeHex_eq_ok {field value : String} {len : ℕ} {bytes : List UInt8} :
    decodeHex field value len = .ok bytes ↔
      Str.isHexLen value len = true ∧ Hex.decode value = some bytes := by
  unfold decodeHex
  simp only [Result.bind_eq_ok, Result.ensure_eq_ok, Result.okOr_eq_ok, exists_const]
  refine and_congr_left fun hd => ?_
  have hall := Hex.hexdigit_of_decode hd
  rw [Str.isHexLen_iff, Str.len_eq_length_of_hex (List.all_eq_true.2 hall), and_iff_left hall]

theorem decodeHex32_eq_ok {field value : String} {bytes : List UInt8} :
    decodeHex32 field value = .ok bytes ↔
      Str.isHexLen value 64 = true ∧ Hex.decode value = some bytes :=
  decodeHex_eq_ok

/-- A 64-digit field decodes to 32 bytes. -/
theorem length_of_decodeHex32 {field value : String} {bytes : List UInt8}
    (h : decodeHex32 field value = .ok bytes) : bytes.length = 32 := by
  obtain ⟨hx, hd⟩ := decodeHex32_eq_ok.1 h
  have hl := Hex.length_of_decode hd
  rw [(Str.isHexLen_iff.1 hx).1] at hl
  omega

/-- What 32 bytes are written as is read back. -/
theorem decodeHex32_encode {field : String} {bytes : List UInt8} (h : bytes.length = 32) :
    decodeHex32 field (Hex.encode bytes) = .ok bytes := by
  have hdecode := Hex.decode_encode bytes
  have hlen : Str.isHexLen (Hex.encode bytes) (2 * 32) = true :=
    Hex.isHexLen_iff_decode.2 ⟨bytes, hdecode, h⟩
  exact decodeHex32_eq_ok.2 ⟨hlen, hdecode⟩

end Gittree
