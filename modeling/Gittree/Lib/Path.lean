import Gittree.Lib.Str

/-!
# Unix paths

Rust's `std::path` on Unix, for paths that are valid UTF-8: a path is its text, and two paths are
equal when they have the same components.

* `components`: repeated separators and inner `.` segments disappear, a leading `.` stays;
* `join`: an absolute right-hand side replaces the left one;
* `fileName`, `parent`: on the list of components;
* `components_join_normal`: joining one plain name appends it.
-/

namespace Rust
namespace Path

/-- One component of a path. -/
inductive Component
  | rootDir
  | curDir
  | parentDir
  | normal (name : String)
  deriving DecidableEq, Repr

/-- The component of one segment that is not at the start of a relative path. -/
def segment (s : String) : Option Component :=
  if s = "" ∨ s = "." then none else if s = ".." then some .parentDir else some (.normal s)

/-- The component of the first segment of a relative path. -/
def firstSegment (s : String) : Option Component := if s = "." then some .curDir else segment s

/-- `Path::components`. -/
def components (p : String) : List Component :=
  let segments := Str.split p '/'
  if Str.startsWith p "/" then .rootDir :: segments.filterMap segment
  else (segments.head?.bind firstSegment).toList ++ segments.tail.filterMap segment

/-- `Path::is_absolute`. -/
def isAbsolute (p : String) : Bool := Str.startsWith p "/"

/-- `Path::join`. -/
def join (p q : String) : String :=
  if isAbsolute q then q
  else if p = "" ∨ Str.endsWith p "/" then p ++ q
  else p ++ "/" ++ q

/-- `Path::file_name`. -/
def fileName (cs : List Component) : Option String :=
  match cs.getLast? with
  | some (.normal name) => some name
  | _ => none

/-- `Path::parent`. -/
def parent (cs : List Component) : Option (List Component) :=
  match cs.getLast? with
  | some .rootDir => none
  | some _ => some cs.dropLast
  | none => none

/-- A plain name: one normal component. -/
def IsNormal (name : String) : Prop :=
  '/' ∉ name.toList ∧ name ≠ "" ∧ name ≠ "." ∧ name ≠ ".."

theorem IsNormal.segment {name : String} (h : IsNormal name) :
    segment name = some (.normal name) := by
  unfold Path.segment
  rw [if_neg (by rintro (h1 | h1); exacts [h.2.1 h1, h.2.2.1 h1]), if_neg h.2.2.2]

theorem IsNormal.firstSegment {name : String} (h : IsNormal name) :
    firstSegment name = some (.normal name) := by
  unfold Path.firstSegment
  rw [if_neg h.2.2.1, h.segment]

theorem startsWith_slash_iff {p : String} :
    Str.startsWith p "/" = true ↔ p.toList.head? = some '/' := by
  unfold Str.startsWith
  rw [Str.chars_eq_toList p, show Str.chars "/" = ['/'] from rfl]
  cases p.toList with
  | nil => decide
  | cons c cs => simp [List.isPrefixOf]; exact eq_comm

theorem not_absolute_of_notMem {p : String} (h : '/' ∉ p.toList) :
    Str.startsWith p "/" = false := by
  rw [Bool.eq_false_iff, ne_eq, startsWith_slash_iff]
  intro hh
  exact h (List.mem_of_mem_head? hh)

theorem components_of_normal {name : String} (h : IsNormal name) :
    components name = [.normal name] := by
  unfold components
  rw [Str.split_eq_singleton h.1, not_absolute_of_notMem h.1]
  simp [h.firstSegment]

theorem components_append_slash {p q : String} (hp : p ≠ "") :
    components (p ++ "/" ++ q) = components p ++ (Str.split q '/').filterMap segment := by
  have hs : Str.split (p ++ "/" ++ q) '/' = Str.split p '/' ++ Str.split q '/' :=
    Str.split_append p q '/'
  have hne : Str.split p '/' ≠ [] := by
    unfold Str.split
    simp [List.splitOn_ne_nil]
  have hhead : Str.startsWith (p ++ "/" ++ q) "/" = Str.startsWith p "/" := by
    rw [Bool.eq_iff_iff, startsWith_slash_iff, startsWith_slash_iff]
    have : p.toList ≠ [] := by simpa using hp
    cases hl : p.toList with
    | nil => exact absurd hl this
    | cons c cs => simp [hl]
  unfold components
  rw [hs, hhead]
  split_ifs
  · simp
  · obtain ⟨a, as, ha⟩ := List.exists_cons_of_ne_nil hne
    simp [ha]

/-- Joining a plain name appends one component. -/
theorem components_join_normal (p : String) {name : String} (h : IsNormal name) :
    components (join p name) = components p ++ [.normal name] := by
  have hseg : (Str.split name '/').filterMap segment = [.normal name] := by
    rw [Str.split_eq_singleton h.1]
    simp [h.segment]
  unfold join isAbsolute
  rw [not_absolute_of_notMem h.1]
  simp only [Bool.false_eq_true, if_false]
  split_ifs with hp
  · rcases hp with rfl | hp
    · rw [String.empty_append, components_of_normal h]
      rfl
    · obtain ⟨r, rfl⟩ := Str.endsWith_iff.1 hp
      -- the text already ends in a separator: move it to the right-hand side
      by_cases hr : r = ""
      · subst hr
        rw [String.empty_append]
        have hs : Str.split ("/" ++ name) '/' = Str.split "" '/' ++ Str.split name '/' := by
          simpa using Str.split_append "" name '/'
        have ha : Str.startsWith ("/" ++ name) "/" = true := Str.startsWith_iff.2 ⟨name, rfl⟩
        rw [show components "/" = [.rootDir] by decide]
        unfold components
        rw [hs, ha]
        simp only [if_true, List.filterMap_append, hseg]
        rfl
      · rw [components_append_slash hr, hseg]
        have := components_append_slash (q := "") hr
        rw [String.append_empty] at this
        rw [this]
        simp [Str.split, segment]
  · push Not at hp
    rw [components_append_slash hp.1, hseg]

@[simp] theorem fileName_append_normal (cs : List Component) (name : String) :
    fileName (cs ++ [.normal name]) = some name := by
  simp [fileName]

@[simp] theorem parent_append_normal (cs : List Component) (name : String) :
    parent (cs ++ [.normal name]) = some cs := by
  simp [parent]

theorem fileName_eq_some {cs : List Component} {name : String} (h : fileName cs = some name) :
    ∃ init, cs = init ++ [.normal name] := by
  unfold fileName at h
  split at h
  · rename_i n hl
    cases h
    obtain ⟨init, rfl⟩ := List.getLast?_eq_some_iff.1 hl
    exact ⟨init, rfl⟩
  · cases h

end Path
end Rust
