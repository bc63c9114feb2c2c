import Mathlib.Tactic

/-!
# URLs

The components of a `url::Url`.  The parser itself is a parameter of the code that uses it.
-/

namespace Rust

/-- The components of a parsed URL that other code reads; `port` is `none` for the default port. -/
structure Url where
  scheme : String
  hostStr : Option String
  port : Option ℕ
  path : String
  deriving DecidableEq, Repr

end Rust
