import Gittree.Lib.Str

/-!
# Occurrences of a pattern

Cutting a text before the first occurrence of a pattern, and replacing every occurrence, part by part:
where no occurrence starts in the first of two parts, it stays as it is.

* `cutAt_append`, `replaceChars_append`: the first part is left alone;
* `length_replaceChars_lt`: a shorter replacement makes a text shorter;
* `append_inj_of_class`: a text is cut at a class of characters in one way.
-/

namespace Rust
namespace Str

/-- No occurrence of a pattern in `a ++ b` starts in `a`. -/
def Clear (p a b : List Char) : Prop := ∀ x y, a = x ++ y → y ≠ [] → ¬ p <+: y ++ b

theorem clear_of_head_notMem {c : Char} {p a : List Char} (h : c ∉ a) (b : List Char) :
    Clear (c :: p) a b := by
  rintro x y rfl hy hpre
  obtain ⟨d, y, rfl⟩ := List.exists_cons_of_ne_nil hy
  obtain ⟨rfl, -⟩ := List.cons_prefix_cons.1 hpre
  exact h (List.mem_append_right _ List.mem_cons_self)

/-- A text without an occurrence is clear before a character that the pattern has at most at its
start. -/
theorem clear_of_none {p a b : List Char} (ha : splitAtFirst p a = none)
    (hb : ∀ c ∈ b.head?, c ∉ p.tail) : Clear p a b := by
  rintro x y rfl hy ⟨r, hr⟩
  rw [splitAtFirst_eq_none_iff] at ha
  rcases List.append_eq_append_iff.1 hr with ⟨z, rfl, -⟩ | ⟨z, rfl, rfl⟩
  · exact ha x z (List.append_assoc _ _ _).symm
  · cases z with
    | nil => exact ha x [] (by simp)
    | cons c z =>
      refine hb c rfl ?_
      rw [List.tail_append_of_ne_nil hy]
      exact List.mem_append_right _ List.mem_cons_self

theorem splitAtFirst_append_left {p a b : List Char} (h : Clear p a b) :
    splitAtFirst p (a ++ b) = (splitAtFirst p b).map fun r => (a ++ r.1, r.2) := by
  induction a with
  | nil => simp
  | cons c a ih =>
    have hrest : Clear p a b := fun x y hxy hy => h (c :: x) y (by rw [hxy]; rfl) hy
    have hnot : ¬ p.isPrefixOf (c :: (a ++ b)) = true := by
      rw [List.isPrefixOf_iff_prefix]
      exact h [] (c :: a) rfl (List.cons_ne_nil _ _)
    rw [List.cons_append, splitAtFirst, if_neg hnot, ih hrest, Option.map_map]
    rfl

/-- An occurrence at the start is the first one. -/
theorem splitAtFirst_start (p l : List Char) : splitAtFirst p (p ++ l) = some ([], p ++ l) := by
  have hpre : p.isPrefixOf (p ++ l) = true :=
    List.isPrefixOf_iff_prefix.2 (List.prefix_append p l)
  cases h : p ++ l with
  | nil =>
    rw [h] at hpre
    rw [splitAtFirst, if_pos hpre]
  | cons c cs =>
    rw [h] at hpre
    rw [splitAtFirst, if_pos hpre]

/-- The text before the first occurrence of a pattern, or all of it. -/
def cutAt (p l : List Char) : List Char := ((splitAtFirst p l).map Prod.fst).getD l

theorem cutAt_of_none {p l : List Char} (h : splitAtFirst p l = none) : cutAt p l = l := by
  rw [cutAt, h]
  rfl

theorem cutAt_append_of_some {p l a b : List Char} (h : splitAtFirst p l = some (a, b))
    (r : List Char) : cutAt p (l ++ r) = a := by
  rw [cutAt, splitAtFirst_append_right r h]
  rfl

theorem cutAt_append {p a b : List Char} (h : Clear p a b) :
    cutAt p (a ++ b) = a ++ cutAt p b := by
  unfold cutAt
  rw [splitAtFirst_append_left h]
  cases splitAtFirst p b <;> rfl

theorem cutAt_prefix (p l : List Char) : cutAt p l <+: l := by
  unfold cutAt
  rcases h : splitAtFirst p l with _ | ⟨a, b⟩
  · exact List.prefix_rfl
  · obtain ⟨rfl, -⟩ := splitAtFirst_append h
    exact List.prefix_append a b

theorem splitAtFirst_of_prefix {p l l' : List Char} (hpre : l' <+: l)
    (h : splitAtFirst p l = none) : splitAtFirst p l' = none := by
  obtain ⟨r, rfl⟩ := hpre
  rw [splitAtFirst_eq_none_iff] at h ⊢
  rintro a b rfl
  exact h a (b ++ r) (List.append_assoc _ _ _)

/-- Nothing is left to cut. -/
theorem splitAtFirst_cutAt {p : List Char} (hp : p ≠ []) (l : List Char) :
    splitAtFirst p (cutAt p l) = none := by
  unfold cutAt
  rcases h : splitAtFirst p l with _ | ⟨a, b⟩
  · exact h
  · exact splitAtFirst_before hp h

theorem splitAtFirst_of_notMem {c : Char} {p l : List Char} (hp : c ∈ p) (h : c ∉ l) :
    splitAtFirst p l = none := by
  rw [splitAtFirst_eq_none_iff]
  rintro a b rfl
  exact h (List.mem_append_left _ (List.mem_append_right _ hp))

theorem contains_eq_false_iff {s p : String} :
    contains s p = false ↔ splitAtFirst p.toList s.toList = none := by
  unfold contains
  rw [Option.isSome_eq_false_iff, Option.isNone_iff_eq_none, chars_eq_toList, chars_eq_toList]

/-! ### Replacement -/

section

variable {p q : List Char}

theorem replaceChars_of_none {l : List Char} (h : splitAtFirst p l = none) (n : ℕ) :
    replaceChars p q n l = l := by
  cases n with
  | zero => rfl
  | succ n => rw [replaceChars, h]

theorem replaceChars_append {a b : List Char} (h : Clear p a b) (n : ℕ) :
    replaceChars p q n (a ++ b) = a ++ replaceChars p q n b := by
  cases n with
  | zero => rfl
  | succ n =>
    rw [replaceChars, replaceChars, splitAtFirst_append_left h]
    rcases splitAtFirst p b with _ | ⟨x, y⟩
    · rfl
    · simp [List.append_assoc]

theorem replaceChars_start (l : List Char) (n : ℕ) :
    replaceChars p q (n + 1) (p ++ l) = q ++ replaceChars p q n l := by
  rw [replaceChars, splitAtFirst_start]
  simp

theorem mem_replaceChars {c : Char} {l : List Char} {n : ℕ} (h : c ∈ replaceChars p q n l) :
    c ∈ q ∨ c ∈ l := by
  induction n generalizing l with
  | zero => exact .inr h
  | succ n ih =>
    rw [replaceChars] at h
    rcases hsplit : splitAtFirst p l with _ | ⟨before, found⟩
    · rw [hsplit] at h
      exact .inr h
    · rw [hsplit] at h
      obtain ⟨rfl, -⟩ := splitAtFirst_append hsplit
      simp only [List.mem_append] at h ⊢
      rcases h with (hbefore | hq) | hrest
      · exact .inr (.inl hbefore)
      · exact .inl hq
      · exact (ih hrest).imp_right fun hmem => .inr (List.mem_of_mem_drop hmem)

theorem length_replaceChars_le (hpq : q.length ≤ p.length) (l : List Char) (n : ℕ) :
    (replaceChars p q n l).length ≤ l.length := by
  induction n generalizing l with
  | zero => exact le_rfl
  | succ n ih =>
    rw [replaceChars]
    rcases hsplit : splitAtFirst p l with _ | ⟨before, found⟩
    · exact le_rfl
    · obtain ⟨rfl, hfound⟩ := splitAtFirst_append hsplit
      have hlen := hfound.length_le
      have hrest := ih (found.drop p.length)
      rw [List.length_drop] at hrest
      simp only [List.length_append]
      omega

/-- A shorter replacement makes a text shorter. -/
theorem length_replaceChars_lt (hpq : q.length < p.length) {l : List Char} {n : ℕ} (hn : n ≠ 0)
    (h : splitAtFirst p l ≠ none) : (replaceChars p q n l).length < l.length := by
  obtain ⟨n, rfl⟩ := Nat.exists_eq_succ_of_ne_zero hn
  obtain ⟨⟨before, found⟩, hsplit⟩ := Option.ne_none_iff_exists'.1 h
  obtain ⟨rfl, hfound⟩ := splitAtFirst_append hsplit
  have hlen := hfound.length_le
  have hrest := length_replaceChars_le hpq.le (found.drop p.length) n
  rw [List.length_drop] at hrest
  rw [replaceChars, hsplit]
  simp only [List.length_append]
  omega

end

/-! ### Texts in two parts -/

/-- A text is cut where a class of characters begins in one way. -/
theorem append_inj_of_class {P : Char → Prop} {a a' b b' : List Char} (ha : ∀ c ∈ a, ¬ P c)
    (ha' : ∀ c ∈ a', ¬ P c) (hb : ∀ c ∈ b.head?, P c) (hb' : ∀ c ∈ b'.head?, P c)
    (h : a ++ b = a' ++ b') : a = a' ∧ b = b' := by
  induction a generalizing a' with
  | nil =>
    cases a' with
    | nil => exact ⟨rfl, h⟩
    | cons c a' =>
      refine absurd (hb c ?_) (ha' c List.mem_cons_self)
      rw [List.nil_append] at h
      rw [h]
      rfl
  | cons c a ih =>
    cases a' with
    | nil =>
      refine absurd (hb' c ?_) (ha c List.mem_cons_self)
      rw [List.nil_append] at h
      rw [← h]
      rfl
    | cons c' a' =>
      simp only [List.cons_append, List.cons.injEq] at h
      obtain ⟨rfl, hrest⟩ := h
      obtain ⟨rfl, rfl⟩ := ih (List.forall_mem_cons.1 ha).2 (List.forall_mem_cons.1 ha').2 hrest
      exact ⟨rfl, rfl⟩

/-- A text is split at the first separator. -/
theorem splitOnce_append {a : String} {c : Char} (h : c ∉ a.toList) (b : String) :
    splitOnce (a ++ String.singleton c ++ b) c = some (a, b) := by
  have htext : (a ++ String.singleton c ++ b).toList = a.toList ++ ([c] ++ b.toList) := by
    rw [String.toList_append, String.toList_append, String.toList_singleton, List.append_assoc]
  unfold splitOnce
  rw [chars_eq_toList, htext, splitAtFirst_append_left (clear_of_head_notMem h _),
    splitAtFirst_start, Option.map_some, Option.map_some, List.append_nil, String.ofList_toList]
  exact congrArg some (congrArg (Prod.mk a) String.ofList_toList)

theorem splitOnce_of_notMem {s : String} {c : Char} (h : c ∉ s.toList) : splitOnce s c = none := by
  unfold splitOnce
  rw [chars_eq_toList, splitAtFirst_of_notMem List.mem_cons_self h, Option.map_none]

/-- A text is read up to the class. -/
theorem takeWhile_append_of_head {f : Char → Bool} {a b : List Char} (ha : ∀ c ∈ a, f c = true)
    (hb : ∀ c ∈ b.head?, f c = false) :
    (a ++ b).takeWhile f = a ∧ (a ++ b).dropWhile f = b := by
  rw [List.takeWhile_append_of_pos ha, List.dropWhile_append_of_pos ha]
  cases b with
  | nil => exact ⟨List.append_nil a, rfl⟩
  | cons c b =>
    have hc := hb c rfl
    rw [List.takeWhile_cons, List.dropWhile_cons, hc]
    exact ⟨List.append_nil a, rfl⟩

end Str
end Rust
