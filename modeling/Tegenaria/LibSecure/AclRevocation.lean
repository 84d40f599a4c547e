import Tegenaria.Foundation.Responder
import Tegenaria.LibSecure.Acl

/-!
# Revoking rights

`revokeAll` takes the entry of a user off an access list.  A user without an entry
has the rights of the others, so the effect of a revocation depends on the entry
`*`: the user is left without rights exactly when the others are denied.

`getRights` looks the others up with an operator that creates a missing entry.
-/

namespace Tegenaria.LibSecure

open Foundation
open LibStr
open SecureAcl

/-- The operations of an access list, for arbitrary names.  A missing name is a null
pointer. -/
inductive AclRequest where
  | initFromString (acl : Option Text)
  | setRights (user : Option Text) (rights : Rights)
  | setRightsString (user rights : Option Text)
  | setOthersRights (rights : Rights)
  | setOthersRightsString (rights : Option Text)
  | revokeAll (user : Option Text)
  | getRights (user : Option Text)

/-- An access list that answers requests with error codes and rights. -/
def aclRequests : Responder SecureAcl AclRequest Int where
  respond acl
    | .initFromString text => (initFromString (text.map cStr)).swap
    | .setRights user rights => setRights acl user rights
    | .setRightsString user rights => setRights acl user (encodeRights rights)
    | .setOthersRights rights => setOthersRights acl rights
    | .setOthersRightsString rights => setOthersRights acl (encodeRights rights)
    | .revokeAll user => revokeAll acl user
    | .getRights user =>
        let (after, rights) := getRights acl user
        (after, rights.toInt)

namespace AclRequest

/-- The text of an access list has an entry for the name. -/
def mentions (name text : Text) : Bool :=
  (strtok [';'] text).any fun token => (cutAt ':' token).any fun entry => entry.1 = name

/-- Rights are granted under the name. -/
def grantsTo (name : Text) : AclRequest → Bool
  | .initFromString none => false
  | .initFromString (some text) =>
      (SecureAcl.initFromString (some (cStr text))).1 = 0 && mentions name (cStr text)
  | .setRights user _ | .setRightsString user _ => user = some name
  | .setOthersRights _ | .setOthersRightsString _ => name = othersName
  | .revokeAll _ | .getRights _ => false

/-- The others are denied after the request when they were before. -/
def keepsOthersDenied : AclRequest → Bool
  | .initFromString text => (SecureAcl.initFromString (text.map cStr)).2.find othersName = some aclDeny
  | .setRights user rights => user ≠ some othersName ∨ rights = aclDeny
  | .setRightsString user rights => user ≠ some othersName ∨ encodeRights rights = aclDeny
  | .setOthersRights rights => rights = aclDeny
  | .setOthersRightsString rights => encodeRights rights = aclDeny
  | .revokeAll user => user ≠ some othersName
  | .getRights _ => true

end AclRequest

/-- The rights of a user after requests. -/
def rightsAfter (acl : SecureAcl) (requests : List AclRequest) (user : Text) : Rights :=
  (getRights (aclRequests.run acl requests).1 (some user)).2

/-- A revocation is effective until rights are granted again and does not touch other
users, and asking for rights goes unnoticed. -/
structure RevocationHolds (acl : SecureAcl) (user : Text) (later : List AclRequest) : Prop where
  effective : ∀ earlier, earlier <+: later →
    rightsAfter (SecureAcl.revokeAll acl (some user)).1 earlier user = aclDeny
  local_ : ∀ other ≠ user, rightsAfter (SecureAcl.revokeAll acl (some user)).1 [] other =
    rightsAfter acl [] other
  unnoticed : ∀ asked requests other uninitialized,
    rightsAfter (SecureAcl.getRights acl asked).1 requests other = rightsAfter acl requests other ∧
      SecureAcl.toString (aclRequests.run (SecureAcl.getRights acl asked).1 requests).1 uninitialized =
        SecureAcl.toString (aclRequests.run acl requests).1 uninitialized

/-! ## The entry of the others -/

/-- The rights of everybody who is not listed. -/
def othersRights (acl : SecureAcl) : Rights := (acl.find othersName).getD 0

theorem getRights_value (acl : SecureAcl) (user : Text) :
    (getRights acl (some user)).2 = (acl.find user).getD (othersRights acl) := by
  rw [getRights, othersRights]
  cases acl.find user with
  | some rights => rfl
  | none =>
      cases acl.find othersName with
      | some rights => rfl
      | none => rfl

theorem getRights_same {acl : SecureAcl} (listed : acl.find othersName ≠ none)
    (user : Option Text) : (getRights acl user).1 = acl := by
  cases user with
  | none => rfl
  | some user =>
      rw [getRights]
      cases acl.find user with
      | some rights => rfl
      | none =>
          cases found : acl.find othersName with
          | some rights => rfl
          | none => exact absurd found listed

/-- An entry that the text does not mention stays as it is. -/
theorem grantAll_find {tokens : List Text} {acl after : SecureAcl} {name : Text}
    (granted : grantAll tokens acl = some after)
    (unmentioned : ∀ token ∈ tokens, (cutAt ':' token).any (fun entry => entry.1 = name) = false) :
    after.find name = acl.find name := by
  induction tokens generalizing acl with
  | nil =>
      cases granted
      rfl
  | cons token tokens ih =>
      rw [List.forall_mem_cons] at unmentioned
      cases cut : cutAt ':' token with
      | none =>
          rw [grantAll, cut] at granted
          cases granted
      | some entry =>
          rw [grantAll, cut] at granted
          have other : ¬ entry.1 = name := by
            simpa [cut] using unmentioned.1
          rw [ih granted unmentioned.2, OrderedMap.find_assign, if_neg (Ne.symm other)]

/-- A list that was read has the entry of an empty list where no right was granted. -/
theorem initFromString_find {text : Option Text} {name : Text}
    (ungranted : (AclRequest.initFromString text).grantsTo name = false) :
    (initFromString (text.map cStr)).2.find name = cleared.find name := by
  cases text with
  | none => rfl
  | some text =>
      rw [AclRequest.grantsTo, Option.map_some, initFromString] at *
      cases granted : grantAll (strtok [';'] (cStr text)) cleared with
      | none => rfl
      | some after =>
          rw [granted] at ungranted
          refine grantAll_find granted fun token member => ?_
          have nowhere : AclRequest.mentions name (cStr text) = false := by
            simpa using ungranted
          exact Bool.eq_false_iff.mpr (List.any_eq_false.mp nowhere token member)

/-! ## A revocation and what follows it -/

/-- A user without an entry while the others are denied. -/
structure Denied (acl : SecureAcl) (user : Text) : Prop where
  unlisted : acl.find user = none
  others : acl.find othersName = some aclDeny

theorem Denied.rights {acl : SecureAcl} {user : Text} (denied : Denied acl user) :
    (getRights acl (some user)).2 = aclDeny := by
  rw [getRights_value, denied.unlisted, othersRights, denied.others]
  rfl

theorem assign_unlisted {acl : SecureAcl} {user name : Text} {rights : Rights}
    (unlisted : acl.find user = none) (other : name ≠ user) :
    (acl.assign name rights).find user = none := by
  rw [OrderedMap.find_assign, if_neg other.symm, unlisted]

theorem setRights_unlisted {acl : SecureAcl} {user : Text} {named : Option Text} {rights : Rights}
    (unlisted : acl.find user = none) (other : named ≠ some user) :
    (setRights acl named rights).1.find user = none := by
  cases named with
  | none => exact unlisted
  | some name => exact assign_unlisted unlisted fun same => other (congrArg some same)

/-- A user stays without an entry until rights are granted under the name. -/
theorem respond_unlisted {acl : SecureAcl} {user : Text} {request : AclRequest}
    (ordinary : user ≠ othersName) (denied : Denied acl user)
    (ungranted : request.grantsTo user = false) :
    (aclRequests.respond acl request).1.find user = none := by
  have unlisted := denied.unlisted
  cases request with
  | initFromString text =>
      have fresh : cleared.find user = none := assign_unlisted rfl ordinary.symm
      exact (initFromString_find ungranted).trans fresh
  | setRights named rights =>
      exact setRights_unlisted unlisted (by simpa [AclRequest.grantsTo] using ungranted)
  | setRightsString named rights =>
      exact setRights_unlisted unlisted (by simpa [AclRequest.grantsTo] using ungranted)
  | setOthersRights rights => exact assign_unlisted unlisted ordinary.symm
  | setOthersRightsString rights => exact assign_unlisted unlisted ordinary.symm
  | revokeAll named =>
      cases named with
      | none => exact unlisted
      | some name =>
          change (acl.remove name).find user = none
          rw [OrderedMap.find_remove, unlisted, ite_self]
  | getRights named =>
      have listed : acl.find othersName ≠ none := by
        rw [denied.others]
        exact Option.some_ne_none _
      change (getRights acl named).1.find user = none
      rw [getRights_same listed, unlisted]

theorem setRights_others {acl : SecureAcl} (others : acl.find othersName = some aclDeny)
    (named : Option Text) (rights : Rights) :
    (setRights acl named rights).1.find othersName = some aclDeny ↔
      named ≠ some othersName ∨ rights = aclDeny := by
  cases named with
  | none => simp [setRights, others]
  | some name =>
      rw [setRights, OrderedMap.find_assign]
      by_cases same : name = othersName
      · simp [same]
      · simp [same, Ne.symm same, others]

/-- The others stay denied exactly over the requests that keep them so. -/
theorem respond_others {acl : SecureAcl} (others : acl.find othersName = some aclDeny)
    (request : AclRequest) :
    (aclRequests.respond acl request).1.find othersName = some aclDeny ↔
      request.keepsOthersDenied = true := by
  cases request with
  | initFromString text => simp [aclRequests, AclRequest.keepsOthersDenied]
  | setRights named rights =>
      rw [AclRequest.keepsOthersDenied, decide_eq_true_iff]
      exact setRights_others others named rights
  | setRightsString named rights =>
      rw [AclRequest.keepsOthersDenied, decide_eq_true_iff]
      exact setRights_others others named (encodeRights rights)
  | setOthersRights rights =>
      rw [AclRequest.keepsOthersDenied, decide_eq_true_iff]
      exact (setRights_others others (some othersName) rights).trans (by simp)
  | setOthersRightsString rights =>
      rw [AclRequest.keepsOthersDenied, decide_eq_true_iff]
      exact (setRights_others others (some othersName) (encodeRights rights)).trans (by simp)
  | revokeAll named =>
      rw [AclRequest.keepsOthersDenied, decide_eq_true_iff]
      cases named with
      | none => simp [aclRequests, revokeAll, others]
      | some name =>
          change (acl.remove name).find othersName = some aclDeny ↔ _
          rw [OrderedMap.find_remove, others]
          by_cases same : name = othersName
          · simp [same]
          · simp [same, Ne.symm same]
  | getRights named =>
      have listed : acl.find othersName ≠ none := by
        rw [others]
        exact Option.some_ne_none _
      change (getRights acl named).1.find othersName = some aclDeny ↔ _
      rw [getRights_same listed, others]
      simp [AclRequest.keepsOthersDenied]

/-- A user without an entry is denied at every moment exactly when every request
keeps the others denied. -/
theorem denied_throughout {acl : SecureAcl} {user : Text} {later : List AclRequest}
    (ordinary : user ≠ othersName) (denied : Denied acl user)
    (ungranted : ∀ request ∈ later, request.grantsTo user = false) :
    (∀ earlier, earlier <+: later → rightsAfter acl earlier user = aclDeny) ↔
      ∀ request ∈ later, request.keepsOthersDenied = true := by
  induction later generalizing acl with
  | nil =>
      refine ⟨fun _ request member => absurd member List.not_mem_nil, fun _ earlier shorter => ?_⟩
      rw [List.prefix_nil.mp shorter]
      exact denied.rights
  | cons request later ih =>
      rw [List.forall_mem_cons] at ungranted
      have unlisted := respond_unlisted ordinary denied ungranted.1
      have others := respond_others denied.others request
      rw [List.forall_mem_cons]
      constructor
      · intro throughout
        have first := throughout [request] (List.prefix_iff_eq_take.mpr rfl)
        have still : (aclRequests.respond acl request).1.find othersName = some aclDeny := by
          have value : othersRights (aclRequests.respond acl request).1 = aclDeny := by
            rw [rightsAfter, Responder.run_cons, getRights_value] at first
            simpa [unlisted] using first
          rw [othersRights] at value
          cases found : (aclRequests.respond acl request).1.find othersName with
          | none =>
              rw [found] at value
              exact absurd value (by decide)
          | some rights =>
              rw [found] at value
              rw [← value]
              rfl
        refine ⟨others.mp still, (ih ⟨unlisted, still⟩ ungranted.2).mp fun earlier shorter => ?_⟩
        exact throughout (request :: earlier) (List.cons_prefix_cons.mpr ⟨rfl, shorter⟩)
      · rintro ⟨keeps, keepRest⟩ earlier shorter
        rcases List.prefix_cons_iff.mp shorter with rfl | ⟨rest, rfl, restShorter⟩
        · exact denied.rights
        · exact (ih ⟨unlisted, others.mpr keeps⟩ ungranted.2).mpr keepRest rest restShorter

theorem revokeAll_find (acl : SecureAcl) (user name : Text) :
    (revokeAll acl (some user)).1.find name = if name = user then none else acl.find name := by
  rw [revokeAll, OrderedMap.find_remove]
  by_cases same : name = user
  · rw [if_pos same, if_pos same]
  · rw [if_neg same, if_neg same]

theorem denied_revokeAll {acl : SecureAcl} {user : Text} (ordinary : user ≠ othersName)
    (others : acl.find othersName = some aclDeny) : Denied (revokeAll acl (some user)).1 user where
  unlisted := by rw [revokeAll_find, if_pos rfl]
  others := by rw [revokeAll_find, if_neg ordinary.symm, others]

/-- The user is without rights right after the revocation exactly when the others are
denied; otherwise the user has theirs. -/
theorem revokeAll_rights (acl : SecureAcl) (user : Text) :
    rightsAfter (revokeAll acl (some user)).1 [] user = aclDeny ↔
      user ≠ othersName ∧ acl.find othersName = some aclDeny := by
  rw [rightsAfter, Responder.run_nil, getRights_value, othersRights, revokeAll_find, revokeAll_find,
    if_pos rfl, Option.getD_none]
  by_cases same : othersName = user
  · rw [if_pos same]
    exact ⟨fun zero => absurd zero (by decide), fun both => absurd same.symm both.1⟩
  · rw [if_neg same]
    refine ⟨fun value => ⟨Ne.symm same, ?_⟩, fun both => by rw [both.2]; rfl⟩
    cases found : acl.find othersName with
    | none =>
        rw [found] at value
        exact absurd value (by decide)
    | some rights =>
        rw [found] at value
        exact congrArg some value

/-- A revocation takes effect, does nothing to other users and lasts until rights are
granted to the user again exactly when the revoked name is not the one of the
others, the others are denied, and no later request changes that. -/
theorem revokeAll_effective_iff (acl : SecureAcl) (user : Text) (later : List AclRequest)
    (ungranted : ∀ request ∈ later, request.grantsTo user = false) :
    RevocationHolds acl user later ↔
      user ≠ othersName ∧ acl.find othersName = some aclDeny ∧
        ∀ request ∈ later, request.keepsOthersDenied = true := by
  constructor
  · intro holds
    obtain ⟨ordinary, others⟩ :=
      (revokeAll_rights acl user).mp (holds.effective [] List.nil_prefix)
    have denied := denied_revokeAll ordinary others
    exact ⟨ordinary, others, (denied_throughout ordinary denied ungranted).mp holds.effective⟩
  · rintro ⟨ordinary, others, keeps⟩
    have denied := denied_revokeAll ordinary others
    have listed : acl.find othersName ≠ none := by
      rw [others]
      exact Option.some_ne_none _
    refine ⟨(denied_throughout ordinary denied ungranted).mpr keeps, fun other different => ?_,
      fun asked requests other uninitialized => ?_⟩
    · rw [rightsAfter, rightsAfter, Responder.run_nil, Responder.run_nil, getRights_value,
        getRights_value, othersRights, othersRights, revokeAll_find, revokeAll_find,
        if_neg different, if_neg ordinary.symm]
    · rw [getRights_same listed]
      exact ⟨rfl, rfl⟩

/-- The others of `jozek:R` are denied, so `jozek` loses all rights, whatever is asked
and granted to others by name. -/
theorem revokeAll_effective_denied :
    RevocationHolds (initFromString (some "jozek:R;*:D".toList)).2 "jozek".toList
      [.getRights (some "jozek".toList), .setRights (some "jan".toList) aclFull,
        .revokeAll (some "jan".toList)] :=
  (revokeAll_effective_iff _ _ _ (by decide)).mpr (by decide)

/-- Everybody but `jan` has full access: revoking the right to read gives `jan` full
access. -/
theorem revokeAll_widens : ¬ RevocationHolds (initFromString (some "jan:R;*:F".toList)).2 "jan".toList [] := by
  intro holds
  have rights := holds.effective [] List.nil_prefix
  exact absurd rights (by decide)

end Tegenaria.LibSecure
