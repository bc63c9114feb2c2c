import Gittree.Core.EventRefs
import Gittree.Core.Grasp

/-!
# Admission of events

`crates/core/src/admission.rs`: a state is accepted, an announcement is accepted if it lists the host
of the relay, and any other event needs an event that it is related to.
-/

namespace Gittree

open Rust

/-- `AdmissionDecision`, which the core crate, the admission service and the relay's admission client
each declare in the same way. -/
inductive AdmissionDecision
  | accept
  | reject (reason : String)
  | requiresRelatedEvents (filters : List EventFilter)

/-- `trim_start_matches("http://")`, at most a given number of times. -/
def trimHttpScheme : ℕ → String → String
  | 0, s => s
  | n + 1, s =>
    match Str.stripPrefix s "http://" with
    | some rest => trimHttpScheme n rest
    | none => s

/-- `normalize_grasp_host_for_compare`. -/
def normalizeGraspHostForCompare (parseUrl : String → Option Url) (input : String) :
    Except CoreError String := do
  let normalized ← normalizeGraspServerUrl parseUrl input
  return trimHttpScheme (Str.len normalized) normalized

/-- `RepoAnnouncement::lists_grasp_host`. -/
def RepoAnnouncement.listsGraspHost (parseUrl : String → Option Url) (a : RepoAnnouncement)
    (host : String) : Except CoreError Bool := do
  let host ← normalizeGraspHostForCompare parseUrl host
  let listed := a.relays.filterMap fun url =>
    Result.toOption (normalizeGraspHostForCompare parseUrl url)
  return listed.any fun normalized => normalized == host

/-- `evaluate_admission`. -/
def evaluateAdmission (parseUrl : String → Option Url) (kind : ℕ) (pubkey eventId : String)
    (tags : Tags) (relayHost : Option String) : Except CoreError AdmissionDecision :=
  if kind = kindGitRepoState then .ok .accept
  else if kind = kindGitRepoAnnouncement then
    match relayHost with
    | none => .ok (.reject "missing relay host for announcement check")
    | some host => do
      let announcement ← RepoAnnouncement.fromTags tags
      if announcement.clone = [] then
        return .reject "repository announcement missing clone tags"
      else if announcement.relays = [] then
        return .reject "repository announcement missing relays tags"
      else if ← announcement.listsGraspHost parseUrl host then return .accept
      else return .reject "repository announcement does not list relay host"
  else .ok (.requiresRelatedEvents (buildRelatedEventFilters kind pubkey eventId tags))

end Gittree
