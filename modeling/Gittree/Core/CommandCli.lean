import Gittree.Lib.Result
import Gittree.Lib.Str

/-!
# Text commands

`crates/core/src/command_cli.rs`: the text of a command is split into tokens, with double quotes and
backslash escapes, and read as a namespace, an action, a target and arguments, whose shape is
checked against the action.
-/

namespace Gittree

open Rust

/-- `CommandNamespace`. -/
inductive CommandNamespace
  | account
  | profile
  | repo
  deriving DecidableEq, Repr

/-- `CommandArg`. -/
inductive CommandArg
  | positional (value : String)
  | keyValue (key value : String)
  deriving DecidableEq, Repr

/-- `ParsedCommand`. -/
structure ParsedCommand where
  ns : CommandNamespace
  action : String
  target : Option String
  args : List CommandArg
  deriving DecidableEq, Repr

/-- `CommandParseError`. -/
inductive CommandParseError
  | missingPrefix
  | emptyCommand
  | invalidNamespace (value : String)
  | unterminatedQuote
  | invalidCommand (value : String)
  | invalidArgs (value : String)
  deriving DecidableEq, Repr

def CommandParseError.display : CommandParseError → String
  | .missingPrefix => "missing gittree command prefix"
  | .emptyCommand => "empty command"
  | .invalidNamespace value => "invalid namespace: " ++ value
  | .unterminatedQuote => "unterminated quote"
  | .invalidCommand value => "invalid command: " ++ value
  | .invalidArgs value => "invalid args: " ++ value

namespace CommandCli

/-! ### Tokens -/

/-- The local variables of `tokenize`. -/
structure Tokenizer where
  tokens : List String := []
  current : List Char := []
  inQuotes : Bool := false
  escape : Bool := false

/-- The token read so far is complete. -/
def Tokenizer.flush (t : Tokenizer) : Tokenizer :=
  if t.current = [] then t else { t with tokens := t.tokens ++ [String.ofList t.current], current := [] }

/-- One character. -/
def Tokenizer.push (t : Tokenizer) (ch : Char) : Tokenizer :=
  if t.escape then { t with current := t.current ++ [ch], escape := false }
  else if ch = '\\' then { t with escape := true }
  else if ch = '"' then { t with inQuotes := !t.inQuotes }
  else if Str.isWhitespace ch && !t.inQuotes then t.flush
  else { t with current := t.current ++ [ch] }

/-- `tokenize`. -/
def tokenize (input : String) : Except CommandParseError (List String) :=
  let t := (Str.chars input).foldl Tokenizer.push {}
  if t.inQuotes then .error .unterminatedQuote else .ok t.flush.tokens

/-! ### Commands -/

/-- `parse_namespace`. -/
def parseNamespace (value : String) : Except CommandParseError CommandNamespace :=
  if value = "account" then .ok .account
  else if value = "profile" then .ok .profile
  else if value = "repo" then .ok .repo
  else .error (.invalidNamespace value)

/-- `args_are_key_values`. -/
def argsAreKeyValues (args : List CommandArg) : Bool :=
  args.all fun arg =>
    match arg with
    | .keyValue _ _ => true
    | .positional _ => false

/-- The account branch of `validate_shape`. -/
def validateAccount (action : String) (args : List CommandArg) : Except CommandParseError Unit :=
  if action ∈ ["create", "status", "delete"] then
    Result.ensure (args = []) (.invalidArgs "account commands accept no args")
  else .error (.invalidCommand action)

/-- The profile branch of `validate_shape`. -/
def validateProfile (action : String) (args : List CommandArg) : Except CommandParseError Unit :=
  if action = "set" then
    Result.ensure (args ≠ [] ∧ argsAreKeyValues args = true)
      (.invalidArgs "profile set requires key=value args")
  else if action = "visibility" then
    Result.ensure (args = [.positional "public"] ∨ args = [.positional "private"])
      (.invalidArgs "profile visibility requires public|private")
  else .error (.invalidCommand action)

/-- The arguments of `repo maintainers`. -/
def maintainerArgs (args : List CommandArg) : Bool :=
  match args with
  | [.positional sub, .positional npub] =>
    (sub == "add" || sub == "remove") && Str.startsWith npub "npub"
  | _ => false

/-- The repository branch of `validate_shape`. -/
def validateRepo (action : String) (target : Option String) (args : List CommandArg) :
    Except CommandParseError Unit :=
  if action ∈ ["create", "announce", "sync", "archive", "unarchive"] then
    Result.ensure (target.isSome = true ∧ args = [])
      (.invalidArgs "repo command requires target and no extra args")
  else if action = "update" then
    Result.ensure (target.isSome = true ∧ args ≠ [])
      (.invalidArgs "repo update requires target and key=value args")
  else if action = "maintainers" then
    if target.isSome then
      Result.ensure (maintainerArgs args = true)
        (.invalidArgs "repo maintainers requires add|remove and npub")
    else .error (.invalidArgs "repo maintainers requires target")
  else .error (.invalidCommand action)

/-- `validate_shape`. -/
def validateShape (ns : CommandNamespace) (action : String) (target : Option String)
    (args : List CommandArg) : Except CommandParseError Unit :=
  match ns with
  | .account => validateAccount action args
  | .profile => validateProfile action args
  | .repo => validateRepo action target args

/-- One token after the action: an argument, or the target of a repository command. -/
def addToken (ns : CommandNamespace) (r : Option String × List CommandArg) (token : String) :
    Option String × List CommandArg :=
  match Str.splitOnce token '=' with
  | some (key, value) => (r.1, r.2 ++ [.keyValue key value])
  | none =>
    if r.1.isNone && ns == .repo then (some token, r.2) else (r.1, r.2 ++ [.positional token])

/-- `parse_cli_command`. -/
def parseCliCommand (input : String) : Except CommandParseError ParsedCommand := do
  let trimmed := Str.trim input
  let rest ←
    if trimmed = "gittree" then .ok ""
    else Result.okOr (Str.stripPrefix trimmed "gittree ") .missingPrefix
  match ← tokenize rest with
  | [] => .error .emptyCommand
  | first :: tokens =>
    let ns ← parseNamespace first
    let action := tokens.headD ""
    Result.ensure (action ≠ "") (.invalidCommand "missing subcommand/action")
    let r := tokens.tail.foldl (addToken ns) (none, [])
    validateShape ns action r.1 r.2
    return { ns, action, target := r.1, args := r.2 }

example : parseCliCommand "gittree repo update demo description=\"hello world\"" =
    .ok ⟨.repo, "update", some "demo", [.keyValue "description" "hello world"]⟩ := by
  decide +kernel

example : parseCliCommand "gittree account create \"" = .error .unterminatedQuote := by
  decide +kernel

end CommandCli
end Gittree
