import Gittree.Core.CommandCli
import Gittree.Lib.Occurrences

/-!
# Commands as texts

A command written for `parse_cli_command` of `crates/core/src/command_cli.rs`: the namespace, the
action, the target and the arguments, each in double quotes with backslashes before the quotes and
backslashes in it, behind the prefix and with single spaces between them.

* `tokenize_quoted`: the tokens of such a text are the texts that were quoted;
* `parseCliCommand_writeCommand`: the command is read back.
-/

namespace Gittree

open Rust

/-- The name that `parse_namespace` reads. -/
def CommandNamespace.name : CommandNamespace → String
  | .account => "account"
  | .profile => "profile"
  | .repo => "repo"

/-- The token that is read as the argument. -/
def CommandArg.token : CommandArg → String
  | .positional value => value
  | .keyValue key value => key ++ "=" ++ value

/-- The tokens of a command. -/
def ParsedCommand.tokens (c : ParsedCommand) : List String :=
  c.ns.name :: c.action :: (c.target.toList ++ c.args.map CommandArg.token)

namespace CommandCli

/-- A backslash before each double quote and each backslash. -/
def escapeChars (l : List Char) : List Char :=
  l.flatMap fun c => if c = '\\' ∨ c = '"' then ['\\', c] else [c]

/-- A token in double quotes. -/
def quote (token : String) : String :=
  String.ofList ('"' :: (escapeChars token.toList ++ ['"']))

/-- The text of a command. -/
def writeCommand (c : ParsedCommand) : String :=
  "gittree " ++ " ".intercalate (c.tokens.map quote)

/-! ### Tokens -/

/-- Inside quotes an escaped text is read as the text, whatever it is. -/
theorem foldl_push_escapeChars (tokens : List String) (current l : List Char) :
    (escapeChars l).foldl Tokenizer.push ⟨tokens, current, true, false⟩ =
      ⟨tokens, current ++ l, true, false⟩ := by
  induction l generalizing current with
  | nil => rw [List.append_nil]; rfl
  | cons c l ih =>
    have hstep : (if c = '\\' ∨ c = '"' then ['\\', c] else [c]).foldl Tokenizer.push
        ⟨tokens, current, true, false⟩ = ⟨tokens, current ++ [c], true, false⟩ := by
      by_cases hc : c = '\\' ∨ c = '"'
      · rw [if_pos hc]
        rfl
      · obtain ⟨hslash, hquote⟩ := not_or.1 hc
        rw [if_neg hc]
        simp [Tokenizer.push, hslash, hquote]
    rw [escapeChars, List.flatMap_cons, List.foldl_append, hstep]
    refine (ih (current ++ [c])).trans ?_
    rw [List.append_assoc]
    rfl

theorem foldl_push_quote (tokens : List String) (token : String) :
    (quote token).toList.foldl Tokenizer.push ⟨tokens, [], false, false⟩ =
      ⟨tokens, token.toList, false, false⟩ := by
  rw [quote, String.toList_ofList, List.foldl_cons, List.foldl_append]
  show List.foldl Tokenizer.push ((escapeChars token.toList).foldl Tokenizer.push
    ⟨tokens, [], true, false⟩) ['"'] = _
  rw [foldl_push_escapeChars]
  rfl

/-- Between two tokens that are not empty a space completes the first. -/
theorem foldl_push_joined {tokens texts : List String} {t : Tokenizer} (hne : texts ≠ [])
    (h : ∀ text ∈ texts, text ≠ "")
    (ht : (" ".intercalate (texts.map quote)).toList.foldl Tokenizer.push ⟨tokens, [], false, false⟩ =
      t) : t.inQuotes = false ∧ t.flush.tokens = tokens ++ texts := by
  induction texts generalizing tokens with
  | nil => exact absurd rfl hne
  | cons text rest ih =>
    obtain ⟨htext, hrest⟩ := List.forall_mem_cons.1 h
    have hchars : text.toList ≠ [] := fun hnil => htext (String.toList_inj.1 hnil)
    cases rest with
    | nil =>
      rw [List.map_cons, List.map_nil, String.intercalate_singleton, foldl_push_quote] at ht
      subst ht
      simp [Tokenizer.flush, hchars]
    | cons next rest =>
      have hspace : " ".toList.foldl Tokenizer.push ⟨tokens, text.toList, false, false⟩ =
          ⟨tokens ++ [text], [], false, false⟩ := by
        have hwhite : Str.isWhitespace ' ' = true := by
          decide
        simp [Tokenizer.push, Tokenizer.flush, hwhite, hchars]
      rw [List.map_cons, List.map_cons, String.intercalate_cons_cons, String.toList_append,
        String.toList_append, List.foldl_append, List.foldl_append, foldl_push_quote, hspace,
        ← List.map_cons] at ht
      obtain ⟨hquotes, htokens⟩ := ih (List.cons_ne_nil next rest) hrest ht
      refine ⟨hquotes, htokens.trans ?_⟩
      rw [List.append_assoc]
      rfl

/-- Quoted texts that are not empty are read as they are. -/
theorem tokenize_quoted {texts : List String} (hne : texts ≠ [])
    (h : ∀ text ∈ texts, text ≠ "") : tokenize (" ".intercalate (texts.map quote)) = .ok texts := by
  obtain ⟨hquotes, htokens⟩ := @foldl_push_joined [] texts _ hne h rfl
  unfold tokenize
  rw [Str.chars_eq_toList]
  refine (if_neg ?_).trans (congrArg Except.ok htokens)
  exact Bool.eq_false_iff.1 hquotes

/-! ### Commands -/

/-- The commands that have a text: only repository commands have a target, no target and no argument
without a key is empty or has an equals sign, and no key has one. -/
structure Writable (c : ParsedCommand) : Prop where
  repo : c.target.isSome = true → c.ns = .repo
  target : ∀ target ∈ c.target, target ≠ "" ∧ '=' ∉ target.toList
  positional : ∀ value, .positional value ∈ c.args → value ≠ "" ∧ '=' ∉ value.toList
  key : ∀ key value, .keyValue key value ∈ c.args → '=' ∉ key.toList

theorem parseNamespace_name (ns : CommandNamespace) : parseNamespace ns.name = .ok ns := by
  cases ns <;> rfl

theorem name_ne_empty (ns : CommandNamespace) : ns.name ≠ "" := by
  cases ns <;> decide

/-- The shapes that are accepted have an action, and those of repository commands a target. -/
theorem action_ne_empty {ns : CommandNamespace} {action : String} {target : Option String}
    {args : List CommandArg} (h : validateShape ns action target args = .ok ()) : action ≠ "" := by
  rintro rfl
  cases ns <;> cases h

theorem isSome_of_repo {action : String} {target : Option String} {args : List CommandArg}
    (h : validateShape .repo action target args = .ok ()) : target.isSome = true := by
  cases target with
  | some target => rfl
  | none =>
    unfold validateShape validateRepo at h
    simp only [Option.isSome_none, Bool.false_eq_true, false_and, if_false] at h
    split_ifs at h
    · exact absurd (Result.ensure_eq_ok.1 h) id
    · exact absurd (Result.ensure_eq_ok.1 h) id

section Reading

variable {c : ParsedCommand}

theorem Writable.token_ne_empty (h : Writable c) {arg : CommandArg} (harg : arg ∈ c.args) :
    arg.token ≠ "" := by
  cases arg with
  | positional value => exact (h.positional value harg).1
  | keyValue key value =>
    intro hempty
    have hlist := congrArg String.toList hempty
    rw [CommandArg.token, String.toList_append, String.toList_append] at hlist
    simp at hlist

/-- No token of a command is empty. -/
theorem Writable.tokens_ne_empty (h : Writable c) (haction : c.action ≠ "") :
    ∀ token ∈ c.tokens, token ≠ "" := by
  intro token htoken
  rw [ParsedCommand.tokens, List.mem_cons, List.mem_cons, List.mem_append, List.mem_map] at htoken
  rcases htoken with rfl | rfl | htarget | ⟨arg, harg, rfl⟩
  · exact name_ne_empty c.ns
  · exact haction
  · exact (h.target token (Option.mem_toList.1 htarget)).1
  · exact h.token_ne_empty harg

/-- A token of an argument adds the argument, once there is a target or none is wanted. -/
theorem addToken_token {ns : CommandNamespace} {r : Option String × List CommandArg}
    {arg : CommandArg} (h : Writable c) (harg : arg ∈ c.args)
    (htaken : (r.1.isNone && ns == .repo) = false) :
    addToken ns r arg.token = (r.1, r.2 ++ [arg]) := by
  unfold addToken
  cases arg with
  | positional value =>
    rw [CommandArg.token, Str.splitOnce_of_notMem (h.positional value harg).2, htaken]
    rfl
  | keyValue key value =>
    rw [CommandArg.token, show "=" = String.singleton '=' by rfl,
      Str.splitOnce_append (h.key key value harg)]

theorem foldl_addToken {ns : CommandNamespace} {target : Option String} (h : Writable c)
    (htaken : (target.isNone && ns == .repo) = false) {args : List CommandArg}
    (hargs : ∀ arg ∈ args, arg ∈ c.args) (before : List CommandArg) :
    (args.map CommandArg.token).foldl (addToken ns) (target, before) = (target, before ++ args) := by
  induction args generalizing before with
  | nil => rw [List.append_nil]; rfl
  | cons arg args ih =>
    obtain ⟨harg, hrest⟩ := List.forall_mem_cons.1 hargs
    rw [List.map_cons, List.foldl_cons, addToken_token h harg htaken, ih hrest,
      List.append_assoc]
    rfl

/-- The tokens behind the action give the target and the arguments. -/
theorem foldl_addToken_tokens (h : Writable c) (hrepo : c.ns = .repo → c.target.isSome = true) :
    (c.target.toList ++ c.args.map CommandArg.token).foldl (addToken c.ns) (none, []) =
      (c.target, c.args) := by
  cases htarget : c.target with
  | none =>
    have hns : (c.ns == .repo) = false := by
      rw [beq_eq_false_iff_ne]
      intro hns
      have hsome := hrepo hns
      rw [htarget] at hsome
      cases hsome
    exact foldl_addToken h (by rw [hns]; rfl) (fun arg harg => harg) []
  | some target =>
    have hns : c.ns = .repo := h.repo (by rw [htarget]; rfl)
    have hfirst : addToken c.ns (none, []) target = (some target, []) := by
      unfold addToken
      rw [Str.splitOnce_of_notMem (h.target target htarget).2, hns]
      rfl
    rw [Option.toList_some, List.singleton_append, List.foldl_cons, hfirst]
    exact foldl_addToken h rfl (fun arg harg => harg) []

/-- The text begins with the prefix and ends with a quote, so that trimming leaves it. -/
theorem trim_writeCommand (c : ParsedCommand) : Str.trim (writeCommand c) = writeCommand c := by
  have hlast : ∃ l, (" ".intercalate (c.tokens.map quote)).toList = l ++ ['"'] := by
    have hjoined : ∀ texts : List String, texts ≠ [] →
        ∃ l, (" ".intercalate (texts.map quote)).toList = l ++ ['"'] := by
      intro texts hne
      induction texts with
      | nil => exact absurd rfl hne
      | cons text rest ih =>
        cases rest with
        | nil =>
          refine ⟨'"' :: escapeChars text.toList, ?_⟩
          rw [List.map_cons, List.map_nil, String.intercalate_singleton, quote,
            String.toList_ofList]
          rfl
        | cons next rest =>
          obtain ⟨l, hl⟩ := ih (List.cons_ne_nil next rest)
          refine ⟨(quote text ++ " ").toList ++ l, ?_⟩
          rw [List.map_cons, List.map_cons, String.intercalate_cons_cons, String.toList_append,
            ← List.map_cons, hl, List.append_assoc]
    exact hjoined c.tokens (List.cons_ne_nil _ _)
  obtain ⟨l, hl⟩ := hlast
  have htext : (writeCommand c).toList = "gittree ".toList ++ (l ++ ['"']) := by
    rw [writeCommand, String.toList_append, hl]
  rw [Str.trim_eq_self_iff, htext]
  constructor
  · intro d hd
    obtain rfl : 'g' = d := Option.some.inj hd
    decide
  · intro d hd
    rw [← List.append_assoc, List.getLast?_concat] at hd
    obtain rfl : '"' = d := Option.some.inj hd
    decide

end Reading

/-- Every command that has a text is read back from it, whatever characters its values have. -/
theorem parseCliCommand_writeCommand {c : ParsedCommand} (h : Writable c)
    (hshape : validateShape c.ns c.action c.target c.args = .ok ()) :
    parseCliCommand (writeCommand c) = .ok c := by
  have haction := action_ne_empty hshape
  have hrepo : c.ns = .repo → c.target.isSome = true := by
    intro hns
    rw [hns] at hshape
    exact isSome_of_repo hshape
  have hne : writeCommand c ≠ "gittree" := by
    intro heq
    have hlen := congrArg (fun text => text.toList.length) heq
    simp [writeCommand] at hlen
  have htokens := tokenize_quoted (List.cons_ne_nil _ _) (h.tokens_ne_empty haction)
  have hread := foldl_addToken_tokens h hrepo
  unfold parseCliCommand
  simp only [trim_writeCommand, if_neg hne]
  rw [writeCommand, Str.stripPrefix_append, Result.bind_eq_ok]
  refine ⟨_, rfl, ?_⟩
  rw [Result.bind_eq_ok]
  refine ⟨_, htokens, ?_⟩
  simp only [parseNamespace_name]
  rw [Result.bind_eq_ok]
  refine ⟨c.ns, rfl, ?_⟩
  simp only [List.headD_cons, List.tail_cons, hread]
  rw [Result.bind_eq_ok]
  refine ⟨(), Result.ensure_eq_ok.2 haction, ?_⟩
  rw [Result.bind_eq_ok]
  exact ⟨(), hshape, rfl⟩

/-- An update whose value has white space, quotes and a backslash. -/
theorem parseCliCommand_writeCommand_update :
    parseCliCommand (writeCommand ⟨.repo, "update", some "a repo", [.keyValue "about"
      " say \"hi\"\t\\=é ", .positional "\""]⟩) = .ok ⟨.repo, "update", some "a repo",
        [.keyValue "about" " say \"hi\"\t\\=é ", .positional "\""]⟩ := by
  refine parseCliCommand_writeCommand ⟨fun _ => rfl, ?_, ?_, ?_⟩ rfl
  · intro target htarget
    obtain rfl : "a repo" = target := Option.some.inj htarget
    exact ⟨by decide, by decide⟩
  · intro value hvalue
    simp only [List.mem_cons, List.not_mem_nil, or_false, reduceCtorEq, false_or,
      CommandArg.positional.injEq] at hvalue
    subst hvalue
    exact ⟨by decide, by decide⟩
  · intro key value hkey
    simp only [List.mem_cons, List.not_mem_nil, or_false, reduceCtorEq,
      CommandArg.keyValue.injEq] at hkey
    obtain ⟨rfl, rfl⟩ := hkey
    decide

end CommandCli
end Gittree
