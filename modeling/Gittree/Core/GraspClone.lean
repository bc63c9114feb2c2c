import Gittree.Core.Grasp
import Gittree.Lib.Occurrences
import Gittree.Lib.Slices

/-!
# GRASP clone URLs

`extract_npub` and `is_grasp_server_clone_url` of `crates/core/src/grasp.rs` as they work on bytes:
every slice, every index and the subtraction of the four bytes of `.git` can panic, and a panic is
`none`.  What `validate_npub` accepts is arbitrary.

* `extractNpubBytes_isSome`: the first function returns; with the `validate_npub` of the program it
  is `extractNpub`;
* `endsWith_git_of_append`: behind the pattern of the `npub` the URL still ends in `.git`;
* `isGraspServerCloneUrl_returns`: the second returns, and what it accepts has the form of a clone
  URL.
-/

namespace Gittree

open Rust

/-- The `while` loop of `extract_npub`: the first byte from `stop` on that is not alphanumeric. -/
def npubEnd (bytes : List UInt8) (stop : ℕ) : ℕ :=
  if h : stop < bytes.length then
    if Str.isAsciiAlphanumericByte bytes[stop] then npubEnd bytes (stop + 1) else stop
  else stop
termination_by bytes.length - stop

/-- `extract_npub`, on bytes. -/
def extractNpubBytes (validate : String → Except CoreError Unit) (input : String) :
    Option (Except CoreError String) :=
  match Str.find input "npub1" with
  | some start => do
    let npub ← Str.getRange input start (npubEnd (Str.asBytes input) (start + 5))
    return do
      validate npub
      return npub
  | none => some (.error (.invalidField "npub" input))

/-- `is_grasp_server_clone_url`. -/
def isGraspServerCloneUrl (validate : String → Except CoreError Unit) (url : String) :
    Option Bool :=
  if !Str.startsWith url "http://" && !Str.startsWith url "https://" then some false
  else if !Str.endsWith url ".git" && !Str.endsWith url ".git/" then some false
  else do
    match ← extractNpubBytes validate url with
    | .error _ => return false
    | .ok npub =>
      let npubPattern := "/" ++ npub ++ "/"
      match Str.find url npubPattern with
      | some pos =>
        let found ← Str.getFrom url (pos + Str.len npubPattern)
        let afterNpub := Str.trimEndMatches found '/'
        if afterNpub = "" || afterNpub = ".git" then return false
        let repoName ← (Str.checkedSub (Str.len afterNpub) 4).bind (Str.getTo afterNpub)
        return repoName ≠ ""
      | none => return false

/-! ### The first search -/

/-- The loop stops where the alphanumeric bytes end. -/
theorem npubEnd_append (a b : List UInt8) :
    npubEnd (a ++ b) a.length = a.length + (b.takeWhile Str.isAsciiAlphanumericByte).length := by
  induction b generalizing a with
  | nil =>
    rw [npubEnd, dif_neg (by simp)]
    rfl
  | cons x b ih =>
    have hlt : a.length < (a ++ x :: b).length := by
      simp
    have hget : (a ++ x :: b)[a.length] = x := by
      simp
    rw [npubEnd, dif_pos hlt, hget, List.takeWhile_cons]
    by_cases hx : Str.isAsciiAlphanumericByte x = true
    · have hnext := ih (a ++ [x])
      rw [List.length_append, List.length_singleton, List.append_assoc, List.singleton_append]
        at hnext
      rw [if_pos hx, if_pos hx, hnext, List.length_cons]
      omega
    · rw [if_neg hx, if_neg hx]
      rfl

/-- The range of `extract_npub` is a slice of whole characters: the alphanumeric ones from the first
`npub1` on. -/
theorem getRange_npubEnd (a rest : String) :
    Str.getRange (a ++ "npub1" ++ rest) (Str.len a)
        (npubEnd (Str.asBytes (a ++ "npub1" ++ rest)) (Str.len a + 5)) =
      some ("npub1" ++ String.ofList (rest.toList.takeWhile Str.isAsciiAlphanumeric)) := by
  have hstart : Str.len a + 5 = (Str.asBytes (a ++ "npub1")).length := by
    rw [Str.length_asBytes, Str.len_append]
    rfl
  have hstop : npubEnd (Str.asBytes (a ++ "npub1" ++ rest)) (Str.len a + 5) =
      Str.len (a ++ ("npub1" ++ String.ofList (rest.toList.takeWhile Str.isAsciiAlphanumeric))) := by
    rw [Str.asBytes_append, hstart, npubEnd_append, Str.takeWhile_asBytes, Str.length_asBytes,
      Str.length_asBytes, ← Str.len_append, String.append_assoc]
  have htext : a ++ "npub1" ++ rest =
      a ++ ("npub1" ++ String.ofList (rest.toList.takeWhile Str.isAsciiAlphanumeric)) ++
        String.ofList (rest.toList.dropWhile Str.isAsciiAlphanumeric) := by
    rw [← String.toList_inj]
    simp
  rw [hstop, htext, Str.getRange_append]

/-- The `extract_npub` of bytes reads what `extractNpub` reads. -/
theorem extractNpubBytes_eq (validate : String → Except CoreError Unit) (input : String) :
    extractNpubBytes validate input = some
      (match Str.splitAtFirst "npub1".toList (Str.chars input) with
      | some (_, found) => do
        let npub := "npub1" ++ String.ofList ((found.drop 5).takeWhile Str.isAsciiAlphanumeric)
        validate npub
        return npub
      | none => .error (.invalidField "npub" input)) := by
  unfold extractNpubBytes Str.find
  rw [Str.chars_eq_toList, Str.chars_eq_toList]
  rcases hsplit : Str.splitAtFirst "npub1".toList input.toList with _ | ⟨a, found⟩
  · rfl
  · obtain ⟨hinput, rest, rfl⟩ := Str.splitAtFirst_append hsplit
    have htext : input = String.ofList a ++ "npub1" ++ String.ofList rest := by
      rw [← String.toList_inj, hinput]
      simp
    have hrange := getRange_npubEnd (String.ofList a) (String.ofList rest)
    rw [← htext, String.toList_ofList] at hrange
    have hdrop : ("npub1".toList ++ rest).drop 5 = rest :=
      List.drop_left' rfl
    simp only [Option.map_some, hrange, hdrop]
    rfl

/-- With the program's `validate_npub` it is `extractNpub`. -/
theorem extractNpubBytes_validateNpub (b : Bech32) (input : String) :
    extractNpubBytes (validateNpub b) input = some (extractNpub b input) :=
  extractNpubBytes_eq (validateNpub b) input

theorem extractNpubBytes_isSome (validate : String → Except CoreError Unit) (input : String) :
    (extractNpubBytes validate input).isSome = true := by
  rw [extractNpubBytes_eq]
  rfl

/-! ### The second search -/

/-- When a text ends in `p`, what is behind a character that `p` does not have ends in `p`. -/
theorem endsWith_of_append {s rest p : String} {c : Char} (hc : c ∉ p.toList)
    (h : Str.endsWith (s ++ String.singleton c ++ rest) p = true) : Str.endsWith rest p = true := by
  obtain ⟨x, hx⟩ := Str.endsWith_iff.1 h
  have hlist := congrArg String.toList hx
  rw [String.toList_append, String.toList_append, String.toList_append, String.toList_singleton]
    at hlist
  rw [Str.endsWith_iff]
  rcases List.append_eq_append_iff.1 hlist with ⟨t, -, hrest⟩ | ⟨t, hs, hp⟩
  · refine ⟨String.ofList t, ?_⟩
    rw [← String.toList_inj, hrest, String.toList_append, String.toList_ofList]
  · rcases List.eq_nil_or_concat' t with rfl | ⟨t, d, rfl⟩
    · refine ⟨"", ?_⟩
      rw [← String.toList_inj, String.empty_append, hp, List.nil_append]
    · -- the character would be one of `p`
      rw [← List.append_assoc] at hs
      obtain ⟨-, hd⟩ := List.append_inj' hs rfl
      refine absurd ?_ hc
      rw [hp, List.mem_append, ← List.singleton_inj.1 hd]
      exact .inl (List.mem_append_right t List.mem_cons_self)

/-- Behind a slash of a URL that ends in `.git`, or in `.git` and a slash, there are slashes only, or
a name with `.git` and slashes. -/
theorem endsWith_git_of_append {s rest : String}
    (h : Str.endsWith (s ++ "/" ++ rest) ".git" = true ∨
      Str.endsWith (s ++ "/" ++ rest) ".git/" = true)
    (hne : Str.trimEndMatches rest '/' ≠ "") :
    ∃ name, Str.trimEndMatches rest '/' = name ++ ".git" := by
  have htrim : ∀ name : String, Str.trimEndMatches (name ++ ".git") '/' = name ++ ".git" := by
    intro name
    rw [Str.trimEndMatches_eq_self_iff, String.toList_append, List.getLast?_append]
    exact fun hlast => absurd (Option.some.inj hlast) (by decide)
  rcases h with h | h
  · obtain ⟨name, rfl⟩ := Str.endsWith_iff.1 (endsWith_of_append (c := '/') (by decide) h)
    exact ⟨name, htrim name⟩
  · obtain ⟨x, hx⟩ := Str.endsWith_iff.1 h
    rcases List.eq_nil_or_concat' rest.toList with hnil | ⟨r, d, hr⟩
    · obtain rfl : rest = "" := String.toList_inj.1 hnil
      exact absurd rfl hne
    · have hlist : (s ++ "/" ++ String.ofList r).toList ++ [d] = (x ++ ".git").toList ++ ['/'] := by
        have htext := congrArg String.toList hx
        rw [String.toList_append, hr] at htext
        simpa using htext
      obtain ⟨hinit, hd⟩ := List.append_inj' hlist rfl
      obtain rfl : d = '/' := List.singleton_inj.1 hd
      obtain rfl : rest = String.ofList r ++ "/" := by
        rw [← String.toList_inj, hr]
        simp
      have hgit : Str.endsWith (s ++ "/" ++ String.ofList r) ".git" = true :=
        Str.endsWith_iff.2 ⟨x, String.toList_inj.1 hinit⟩
      obtain ⟨name, hname⟩ := Str.endsWith_iff.1 (endsWith_of_append (c := '/') (by decide) hgit)
      refine ⟨name, ?_⟩
      have hslash : Str.trimEndMatches "/" '/' = "" := by
        decide
      rw [hname, Str.trimEndMatches_append (htrim name), hslash, String.append_empty]

/-- What trimming removes is slashes. -/
theorem exists_slashes (s : String) :
    ∃ slashes : String, s = Str.trimEndMatches s '/' ++ slashes ∧ ∀ c ∈ slashes.toList, c = '/' := by
  refine ⟨String.ofList (s.toList.rtakeWhile (· == '/')), ?_, ?_⟩
  · unfold Str.trimEndMatches
    rw [← String.ofList_append, Str.chars_eq_toList, List.rdropWhile_append_rtakeWhile,
      String.ofList_toList]
  · intro c hc
    rw [String.toList_ofList] at hc
    exact beq_iff_eq.1 (List.mem_rtakeWhile_imp (p := (· == '/')) hc)

/-- Both functions return for every text, and what is accepted is a URL with a scheme, the `npub`
that was found between two slashes, and a name with `.git`. -/
theorem isGraspServerCloneUrl_returns (validate : String → Except CoreError Unit) (url : String) :
    (extractNpubBytes validate url).isSome = true ∧
      ∃ accepted, isGraspServerCloneUrl validate url = some accepted ∧ (accepted = true →
        (Str.startsWith url "http://" = true ∨ Str.startsWith url "https://" = true) ∧
        ∃ before npub name slashes, extractNpubBytes validate url = some (.ok npub) ∧
          url = before ++ "/" ++ npub ++ "/" ++ name ++ ".git" ++ slashes ∧ name ≠ "" ∧
          ∀ c ∈ slashes.toList, c = '/') := by
  refine ⟨extractNpubBytes_isSome validate url, ?_⟩
  obtain ⟨found, hfound⟩ := Option.isSome_iff_exists.1 (extractNpubBytes_isSome validate url)
  have hguard : ∀ a b : Bool, (!a && !b) = true ↔ ¬ (a = true ∨ b = true) := by
    decide
  have hrejects : ∀ P : Prop, ∃ accepted, some false = some accepted ∧ (accepted = true → P) :=
    fun P => ⟨false, rfl, fun h => absurd h Bool.false_ne_true⟩
  unfold isGraspServerCloneUrl
  rw [hfound]
  split_ifs with hscheme hend
  · exact hrejects _
  · exact hrejects _
  · rw [hguard, not_not] at hscheme hend
    cases found with
    | error _ => exact hrejects _
    | ok npub =>
      simp only [Option.bind_eq_bind, Option.bind_some]
      rcases hfind : Str.find url ("/" ++ npub ++ "/") with _ | pos
      · exact hrejects _
      · obtain ⟨before, rest, rfl, rfl⟩ := Str.find_eq_some hfind
        simp only [← Str.len_append, Str.getFrom_append, Option.bind_some]
        by_cases hblank : Str.trimEndMatches rest '/' = "" ∨ Str.trimEndMatches rest '/' = ".git"
        · rw [if_pos (by simpa using hblank)]
          exact hrejects _
        · rw [if_neg (by simpa using hblank)]
          obtain ⟨hne, hgit⟩ := not_or.1 hblank
          rw [← String.append_assoc] at hend
          obtain ⟨name, hname⟩ := endsWith_git_of_append hend hne
          obtain ⟨slashes, hrest, hslashes⟩ := exists_slashes rest
          have hcut := Str.getTo_checkedSub name ".git"
          have hnonempty : name ≠ "" := by
            rintro rfl
            exact hgit hname
          rw [hname]
          refine ⟨true, ?_, fun _ => ⟨hscheme, before, npub, name, slashes, rfl, ?_, hnonempty,
            hslashes⟩⟩
          · rw [show 4 = Str.len ".git" from rfl, hcut, Option.bind_some, decide_eq_true hnonempty]
            rfl
          · rw [hname] at hrest
            rw [hrest]
            simp only [String.append_assoc]

end Gittree
