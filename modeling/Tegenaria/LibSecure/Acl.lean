import Tegenaria.Foundation.OrderedMap
import Tegenaria.LibStr.StringList
import Mathlib.Data.List.Lex
import Mathlib.Data.Char

/-!
# Access lists

`SecureAcl` maps user names to rights; the name `*` stands for everybody who is not
listed.  An access list is written as `user1:rights1;user2:rights2;*:others;` and
read back by `initFromString`.
-/

namespace Tegenaria.LibSecure

open Foundation
open LibStr

/-- A combination of the `SECURE_ACL_XXX` flags, or any other `int`. -/
abbrev Rights := BitVec 32

def aclDeny : Rights := 1

def aclFull : Rights := 2

def aclRead : Rights := 4

def aclWrite : Rights := 8

def aclErase : Rights := 16

abbrev SecureAcl := OrderedMap Text Rights

namespace SecureAcl

def othersName : Text := ['*']

/-- Adds the flag of a symbol; other characters are skipped. -/
def encodeSymbol (rights : Rights) (symbol : Char) : Rights :=
  if symbol = 'D' then rights ||| aclDeny
  else if symbol = 'F' then rights ||| aclFull
  else if symbol = 'R' then rights ||| aclRead
  else if symbol = 'W' then rights ||| aclWrite
  else if symbol = 'E' then rights ||| aclErase
  else rights

/-- `none` stands for a null pointer, here and in the other operations. -/
def encodeRights (str : Option Text) : Rights :=
  let rights := (str.getD []).foldl encodeSymbol 0
  if rights = 0 ∨ rights &&& aclDeny ≠ 0 then aclDeny
  else if rights &&& aclFull ≠ 0 then aclFull
  else rights

def decodeRights (rights : Rights) : Text :=
  if rights = 0 ∨ rights &&& aclDeny ≠ 0 then ['D']
  else if rights &&& aclFull ≠ 0 then ['F']
  else
    (if rights &&& aclRead ≠ 0 then ['R'] else []) ++
      (if rights &&& aclWrite ≠ 0 then ['W'] else []) ++
      (if rights &&& aclErase ≠ 0 then ['E'] else [])

/-- The list after `clear`, and after the constructor. -/
def cleared : SecureAcl := OrderedMap.empty.assign othersName aclDeny

/-- The loop of `initFromString` over the entries; fails on an entry without `:`. -/
@[grind =] def grantAll : List Text → SecureAcl → Option SecureAcl
  | [], acl => some acl
  | token :: tokens, acl =>
      match cutAt ':' token with
      | none => none
      | some (user, rights) => grantAll tokens (acl.assign user (encodeRights (some rights)))

/-- The exit code and the list. -/
@[grind =] def initFromString : Option Text → Int × SecureAcl
  | none => (-1, cleared)
  | some text =>
      match grantAll (strtok [';'] text) cleared with
      | none => (-1, cleared)
      | some acl => (0, acl)

def setRights (acl : SecureAcl) (user : Option Text) (rights : Rights) : SecureAcl × Int :=
  match user with
  | none => (acl, -1)
  | some user => (acl.assign user rights, 0)

def setOthersRights (acl : SecureAcl) (rights : Rights) : SecureAcl × Int :=
  setRights acl (some othersName) rights

def revokeAll (acl : SecureAcl) : Option Text → SecureAcl × Int
  | none => (acl, -1)
  | some user => (acl.remove user, 0)

/-- The rights of a user.  A missing entry of the others is created as zero. -/
def getRights (acl : SecureAcl) : Option Text → SecureAcl × Rights
  | none => (acl, aclDeny)
  | some user =>
      match acl.find user with
      | some rights => (acl, rights)
      | none =>
          match acl.find othersName with
          | some rights => (acl, rights)
          | none => (acl.assign othersName 0, 0)

def getRightsString (acl : SecureAcl) (user : Option Text) : Text :=
  decodeRights (getRights acl user).2

/-- One round of the loop of `toString`: the text and the rights of the others. -/
def putEntry (state : Text × Rights) (entry : Text × Rights) : Text × Rights :=
  if entry.1 = othersName then (state.1, entry.2)
  else (state.1 ++ entry.1 ++ [':'] ++ decodeRights entry.2 ++ [';'], state.2)

/-- The list as a string.  The variable for the rights of the others starts with
whatever is in its place. -/
def toString (acl : SecureAcl) (uninitialized : Rights) : Text :=
  let (ret, othersRights) := acl.entries.foldl putEntry ([], uninitialized)
  ret ++ ['*', ':'] ++ decodeRights othersRights ++ [';']

end SecureAcl

/-- A user name that can stand in an access list. -/
structure UserName where
  text : Text
  nonempty : text ≠ []
  plain : ∀ letter ∈ text, letter ≠ ':' ∧ letter ≠ ';' ∧ letter ≠ '\x00'

inductive AclCall where
  | initFromString (acl : Option Text)
  | setRights (user : UserName) (rights : Rights)
  | setRightsString (user : UserName) (rights : Option Text)
  | setOthersRights (rights : Rights)
  | setOthersRightsString (rights : Option Text)
  | revokeAll (user : UserName)
  | getRights (user : UserName)

open SecureAcl

/-- An access list with its operations, answered by error codes and rights. -/
def aclObject : Responder SecureAcl AclCall Int where
  respond acl
    | .initFromString text => (initFromString (text.map cStr)).swap
    | .setRights user rights => setRights acl (some user.text) rights
    | .setRightsString user rights => setRights acl (some user.text) (encodeRights rights)
    | .setOthersRights rights => setOthersRights acl rights
    | .setOthersRightsString rights => setOthersRights acl (encodeRights rights)
    | .revokeAll user => revokeAll acl (some user.text)
    | .getRights user =>
        let (after, rights) := getRights acl (some user.text)
        (after, rights.toInt)

/-- A list that is written and read back gives everybody the same rights. -/
def SurvivesString (acl : SecureAcl) : Prop :=
  ∀ uninitialized, (initFromString (some (cStr (toString acl uninitialized)))).1 = 0 ∧
    ∀ user, getRightsString (initFromString (some (cStr (toString acl uninitialized)))).2 (some user) =
      getRightsString acl (some user)

/-! ## Rights -/

/-- A value with a flag that is written as a symbol, or without any flag. -/
def Known (rights : Rights) : Prop := rights = 0 ∨ rights &&& 31 ≠ 0

instance (rights : Rights) : Decidable (Known rights) := inferInstanceAs (Decidable (_ ∨ _))

theorem known_iff (rights : Rights) :
    Known rights ↔ (rights = 0 ∨ rights &&& aclDeny ≠ 0) ∨ rights &&& aclFull ≠ 0 ∨
      rights &&& aclRead ≠ 0 ∨ rights &&& aclWrite ≠ 0 ∨ rights &&& aclErase ≠ 0 := by
  have flags : (31 : Rights) = aclDeny ||| (aclFull ||| (aclRead ||| (aclWrite ||| aclErase))) := by
    decide
  rw [Known, flags]
  simp only [BitVec.and_or_distrib_left, ne_eq, BitVec.ofNat_eq_ofNat, BitVec.or_eq_zero_iff]
  tauto

/-- The texts that stand for known rights. -/
def rightsTexts : List Text :=
  [['D'], ['F'], ['R'], ['W'], ['E'], ['R', 'W'], ['R', 'E'], ['W', 'E'], ['R', 'W', 'E']]

theorem decodeRights_known {rights : Rights} (known : Known rights) :
    decodeRights rights ∈ rightsTexts := by
  rw [known_iff] at known
  rw [decodeRights]
  by_cases denied : rights = 0 ∨ rights &&& aclDeny ≠ 0
  · rw [if_pos denied]
    decide
  · rw [if_neg denied]
    by_cases full : rights &&& aclFull ≠ 0
    · rw [if_pos full]
      decide
    · rw [if_neg full]
      by_cases read : rights &&& aclRead ≠ 0
      · rw [if_pos read]
        split <;> split <;> decide
      · rw [if_neg read]
        by_cases write : rights &&& aclWrite ≠ 0
        · rw [if_pos write]
          split <;> decide
        · have erase : rights &&& aclErase ≠ 0 := by tauto
          rw [if_neg write, if_pos erase]
          decide

theorem decodeRights_unknown {rights : Rights} (unknown : ¬ Known rights) :
    decodeRights rights = [] := by
  rw [known_iff] at unknown
  push Not at unknown
  obtain ⟨⟨nonzero, allowed⟩, notFull, notRead, notWrite, notErase⟩ := unknown
  simpa [decodeRights, allowed, notFull, notRead, notWrite, notErase] using nonzero

/-- Exactly the known rights keep their text when it is encoded and decoded again. -/
theorem decodeRights_encodeRights (rights : Rights) :
    decodeRights (encodeRights (some (decodeRights rights))) = decodeRights rights ↔ Known rights := by
  have listed : ∀ text ∈ rightsTexts, decodeRights (encodeRights (some text)) = text := by decide
  constructor
  · intro same
    by_contra unknown
    rw [decodeRights_unknown unknown] at same
    exact absurd same (by decide)
  · intro known
    exact listed _ (decodeRights_known known)

theorem encodeSymbol_flags {rights : Rights} (flags : rights &&& 31 = rights) (symbol : Char) :
    encodeSymbol rights symbol &&& 31 = encodeSymbol rights symbol := by
  have added : ∀ flag : Rights, flag &&& 31 = flag → (rights ||| flag) &&& 31 = rights ||| flag := by
    intro flag inside
    rw [BitVec.and_or_distrib_right, flags, inside]
  rw [encodeSymbol]
  split
  · exact added aclDeny (by decide)
  split
  · exact added aclFull (by decide)
  split
  · exact added aclRead (by decide)
  split
  · exact added aclWrite (by decide)
  split
  · exact added aclErase (by decide)
  · exact flags

/-- Rights given as a text are known. -/
theorem encodeRights_known (str : Option Text) : Known (encodeRights str) := by
  have flags : ∀ (text : Text) (rights : Rights), rights &&& 31 = rights →
      text.foldl encodeSymbol rights &&& 31 = text.foldl encodeSymbol rights := by
    intro text
    induction text with
    | nil => exact fun _ start => start
    | cons symbol rest ih =>
        intro rights start
        exact ih _ (encodeSymbol_flags start symbol)
  have encoded := flags (str.getD []) 0 (by decide)
  rw [encodeRights]
  split
  · decide
  · next allowed =>
      split
      · decide
      · refine .inr ?_
        rw [encoded]
        exact fun zero => allowed (.inl zero)

/-- No separator is written for rights. -/
theorem decodeRights_plain (rights : Rights) :
    ∀ letter ∈ decodeRights rights, letter ≠ ';' ∧ letter ≠ '\x00' := by
  by_cases known : Known rights
  · have listed : ∀ text ∈ rightsTexts,
        text.all (fun letter => letter ≠ ';' ∧ letter ≠ '\x00') = true := by decide
    exact List.all_iff_forall_prop.mp (listed _ (decodeRights_known known))
  · rw [decodeRights_unknown known]
    simp

/-! ## The text of a list -/

/-- An entry without the separator behind it. -/
def line (entry : Text × Rights) : Text := entry.1 ++ ':' :: decodeRights entry.2

/-- The entries of the users without the one of the others. -/
def userEntries (entries : List (Text × Rights)) : List (Text × Rights) :=
  entries.filter (·.1 ≠ othersName)

theorem foldl_putEntry {entries : List (Text × Rights)} (distinct : (entries.map Prod.fst).Nodup)
    (lines : List Text) (others : Rights) :
    entries.foldl putEntry (strListInit lines, others) =
      (strListInit (lines ++ (userEntries entries).map line),
        (OrderedMap.valueAt othersName entries).getD others) := by
  induction entries generalizing lines others with
  | nil => simp [userEntries, OrderedMap.valueAt]
  | cons entry rest ih =>
      rw [List.map_cons, List.nodup_cons] at distinct
      rw [List.foldl_cons, putEntry, OrderedMap.valueAt]
      by_cases isOthers : entry.1 = othersName
      · have nowhere : OrderedMap.valueAt othersName rest = none := by
          rw [OrderedMap.valueAt_eq_none]
          intro other member same
          exact distinct.1 (isOthers ▸ same ▸ List.mem_map_of_mem member)
        rw [if_pos isOthers, if_pos isOthers.symm, ih distinct.2, nowhere]
        simp [userEntries, isOthers]
      · have appended : strListInit lines ++ entry.1 ++ [':'] ++ decodeRights entry.2 ++ [';'] =
            strListInit (lines ++ [line entry]) := by
          rw [strListInit_append, line]
          simp
        rw [if_neg isOthers, if_neg (Ne.symm isOthers), appended, ih distinct.2]
        simp [userEntries, isOthers]

/-- The rights that `toString` writes for the others. -/
def writtenOthers (acl : SecureAcl) (uninitialized : Rights) : Rights :=
  (acl.find othersName).getD uninitialized

/-- The entries in the order in which they are written. -/
def writtenEntries (acl : SecureAcl) (uninitialized : Rights) : List (Text × Rights) :=
  userEntries acl.entries ++ [(othersName, writtenOthers acl uninitialized)]

theorem toString_eq (acl : SecureAcl) (uninitialized : Rights) :
    toString acl uninitialized = strListInit ((writtenEntries acl uninitialized).map line) := by
  have folded := foldl_putEntry acl.nodup_keys [] uninitialized
  rw [strListInit, List.foldl_nil, List.nil_append] at folded
  rw [writtenEntries, List.map_append, List.map_singleton, strListInit_append,
    SecureAcl.toString, folded]
  simp [line, othersName, writtenOthers, OrderedMap.find]

theorem othersName_plain : ∀ letter ∈ othersName, letter ≠ ':' ∧ letter ≠ ';' ∧ letter ≠ '\x00' :=
  List.all_iff_forall_prop.mp (by decide)

/-- The names of a list can stand in its text. -/
def NamesPlain (acl : SecureAcl) : Prop :=
  ∀ entry ∈ acl.entries, ∀ letter ∈ entry.1, letter ≠ ':' ∧ letter ≠ ';' ∧ letter ≠ '\x00'

theorem writtenEntries_plain {acl : SecureAcl} (plain : NamesPlain acl) (uninitialized : Rights) :
    ∀ entry ∈ writtenEntries acl uninitialized, ∀ letter ∈ entry.1,
      letter ≠ ':' ∧ letter ≠ ';' ∧ letter ≠ '\x00' := by
  intro entry member
  rcases List.mem_append.mp member with user | others
  · exact plain entry (List.mem_filter.mp user).1
  · rw [List.mem_singleton.mp others]
    exact othersName_plain

theorem strtok_toString {acl : SecureAcl} (plain : NamesPlain acl) (uninitialized : Rights) :
    strtok [';'] (cStr (toString acl uninitialized)) =
      (writtenEntries acl uninitialized).map line := by
  rw [toString_eq]
  apply strtok_cStr_strListInit
  · intro token member
    obtain ⟨entry, _, rfl⟩ := List.mem_map.mp member
    simp [line]
  · intro token member letter inside
    obtain ⟨entry, listed, rfl⟩ := List.mem_map.mp member
    rw [line, List.mem_append, List.mem_cons] at inside
    rcases inside with inside | rfl | inside
    · exact (writtenEntries_plain plain uninitialized entry listed letter inside).2
    · decide
    · exact decodeRights_plain entry.2 letter inside

/-- The rights of an entry after it was written and read. -/
def reread (entry : Text × Rights) : Text × Rights :=
  (entry.1, encodeRights (some (decodeRights entry.2)))

theorem grantAll_lines {entries : List (Text × Rights)}
    (plain : ∀ entry ∈ entries, ':' ∉ entry.1) (acl : SecureAcl) :
    grantAll (entries.map line) acl = some (acl.assignAll (entries.map reread)) := by
  induction entries generalizing acl with
  | nil => rfl
  | cons entry rest ih =>
      have cut : cutAt ':' (line entry) = some (entry.1, decodeRights entry.2) :=
        cutAt_eq_some.mpr ⟨rfl, plain entry (List.mem_cons_self ..)⟩
      rw [List.map_cons, grantAll, cut]
      exact ih (fun other member => plain other (List.mem_cons_of_mem entry member)) _

/-- The list that is read back. -/
def rereadAcl (acl : SecureAcl) (uninitialized : Rights) : SecureAcl :=
  cleared.assignAll ((writtenEntries acl uninitialized).map reread)

theorem initFromString_toString {acl : SecureAcl} (plain : NamesPlain acl) (uninitialized : Rights) :
    initFromString (some (cStr (toString acl uninitialized))) = (0, rereadAcl acl uninitialized) := by
  have noColon : ∀ entry ∈ writtenEntries acl uninitialized, ':' ∉ entry.1 := by
    intro entry member inside
    exact (writtenEntries_plain plain uninitialized entry member _ inside).1 rfl
  rw [initFromString, strtok_toString plain, grantAll_lines noColon, rereadAcl]

theorem writtenEntries_distinct (acl : SecureAcl) (uninitialized : Rights) :
    (((writtenEntries acl uninitialized).map reread).map Prod.fst).Nodup := by
  have names : ((writtenEntries acl uninitialized).map reread).map Prod.fst =
      (userEntries acl.entries).map Prod.fst ++ [othersName] := by
    simp [writtenEntries, reread, Function.comp_def]
  rw [names, List.nodup_append]
  refine ⟨acl.nodup_keys.sublist (List.filter_sublist.map _), List.nodup_singleton _, ?_⟩
  intro first member second single
  obtain ⟨entry, user, rfl⟩ := List.mem_map.mp member
  rw [List.mem_singleton.mp single]
  simpa using (List.mem_filter.mp user).2

theorem rereadAcl_others (acl : SecureAcl) (uninitialized : Rights) :
    (rereadAcl acl uninitialized).find othersName =
      some (encodeRights (some (decodeRights (writtenOthers acl uninitialized)))) := by
  apply OrderedMap.find_assignAll_mem (writtenEntries_distinct acl uninitialized)
  refine List.mem_map.mpr ⟨(othersName, writtenOthers acl uninitialized), ?_, rfl⟩
  exact List.mem_append_right _ (List.mem_singleton_self _)

theorem rereadAcl_user (acl : SecureAcl) {user : Text} (notOthers : user ≠ othersName)
    (uninitialized : Rights) :
    (rereadAcl acl uninitialized).find user =
      (acl.find user).map fun rights => encodeRights (some (decodeRights rights)) := by
  cases found : acl.find user with
  | some rights =>
      apply OrderedMap.find_assignAll_mem (writtenEntries_distinct acl uninitialized)
      refine List.mem_map.mpr ⟨(user, rights), ?_, rfl⟩
      refine List.mem_append_left _ (List.mem_filter.mpr ⟨OrderedMap.find_eq_some.mp found, ?_⟩)
      simpa using notOthers
  | none =>
      have absent : user ∉ ((writtenEntries acl uninitialized).map reread).map Prod.fst := by
        intro member
        simp only [List.map_map, List.mem_map, Function.comp_def, reread] at member
        obtain ⟨entry, listed, rfl⟩ := member
        rcases List.mem_append.mp listed with inside | others
        · exact OrderedMap.find_eq_none.mp found entry (List.mem_filter.mp inside).1 rfl
        · exact notOthers (congrArg Prod.fst (List.mem_singleton.mp others))
      rw [rereadAcl, OrderedMap.find_assignAll_other absent, cleared, OrderedMap.find_assign,
        if_neg notOthers]
      rfl

/-! ## Rights before and after -/

theorem getRightsString_listed {acl : SecureAcl} {user : Text} {rights : Rights}
    (found : acl.find user = some rights) : getRightsString acl (some user) = decodeRights rights := by
  rw [getRightsString, getRights, found]

/-- A user who is not listed has the rights of the others, or none if there are no
others in the list. -/
theorem getRightsString_unlisted {acl : SecureAcl} {user : Text} (absent : acl.find user = none) :
    getRightsString acl (some user) = decodeRights ((acl.find othersName).getD 0) := by
  rw [getRightsString, getRights, absent]
  cases acl.find othersName with
  | none => rfl
  | some rights => rfl

/-- What a list needs to keep its meaning as a text: an entry of the others, and
only known rights. -/
structure Writable (acl : SecureAcl) : Prop where
  others : (acl.find othersName).isSome
  known : ∀ entry ∈ acl.entries, Known entry.2

theorem Writable.survives {acl : SecureAcl} (plain : NamesPlain acl) (writable : Writable acl) :
    SurvivesString acl := by
  intro uninitialized
  rw [initFromString_toString plain]
  refine ⟨rfl, ?_⟩
  intro user
  have same : ∀ {name rights}, acl.find name = some rights →
      decodeRights (encodeRights (some (decodeRights rights))) = decodeRights rights := by
    intro name rights found
    rw [decodeRights_encodeRights]
    exact writable.known _ (OrderedMap.find_eq_some.mp found)
  obtain ⟨others, othersFound⟩ := Option.isSome_iff_exists.mp writable.others
  have othersRead := rereadAcl_others acl uninitialized
  rw [writtenOthers, othersFound, Option.getD_some] at othersRead
  by_cases isOthers : user = othersName
  · rw [isOthers, getRightsString_listed othersRead, getRightsString_listed othersFound,
      same othersFound]
  · have userRead := rereadAcl_user acl isOthers uninitialized
    cases found : acl.find user with
    | some rights =>
        rw [found] at userRead
        rw [getRightsString_listed userRead, getRightsString_listed found, same found]
    | none =>
        rw [found] at userRead
        rw [getRightsString_unlisted userRead, getRightsString_unlisted found, othersRead,
          othersFound]
        exact same othersFound

theorem SurvivesString.writable {acl : SecureAcl} (plain : NamesPlain acl)
    (survives : SurvivesString acl) : Writable acl where
  others := by
    by_contra missing
    rw [Option.not_isSome_iff_eq_none] at missing
    have read := rereadAcl_others acl aclFull
    rw [writtenOthers, missing] at read
    have same := (survives aclFull).2 othersName
    rw [initFromString_toString plain, getRightsString_listed read,
      getRightsString_unlisted missing, missing] at same
    exact absurd same (by decide)
  known := by
    rintro ⟨user, rights⟩ member
    have found := OrderedMap.find_eq_some.mpr member
    have read : (rereadAcl acl 0).find user =
        some (encodeRights (some (decodeRights rights))) := by
      by_cases isOthers : user = othersName
      · subst isOthers
        rw [rereadAcl_others, writtenOthers, found, Option.getD_some]
      · rw [rereadAcl_user acl isOthers, found, Option.map_some]
    have same := (survives 0).2 user
    rw [initFromString_toString plain, getRightsString_listed read,
      getRightsString_listed found] at same
    exact (decodeRights_encodeRights rights).mp same

/-! ## Histories -/

theorem NamesPlain.assign {acl : SecureAcl} (plain : NamesPlain acl) {user : Text}
    (userPlain : ∀ letter ∈ user, letter ≠ ':' ∧ letter ≠ ';' ∧ letter ≠ '\x00') (rights : Rights) :
    NamesPlain (acl.assign user rights) := by
  intro entry member
  rcases OrderedMap.mem_assignEntry member with rfl | before
  · exact userPlain
  · exact plain entry before

theorem namesPlain_cleared : NamesPlain cleared := by
  apply NamesPlain.assign _ othersName_plain
  intro entry member
  simp [OrderedMap.empty] at member

theorem grantAll_namesPlain {tokens : List Text}
    (tokensPlain : ∀ token ∈ tokens, ∀ letter ∈ token, letter ≠ ';' ∧ letter ≠ '\x00')
    {acl after : SecureAcl} (plain : NamesPlain acl) (granted : grantAll tokens acl = some after) :
    NamesPlain after := by
  induction tokens generalizing acl with
  | nil =>
      cases granted
      exact plain
  | cons token tokens ih =>
      rw [grantAll] at granted
      split at granted
      · simp at granted
      · next user rights cut =>
          obtain ⟨rfl, noColon⟩ := cutAt_eq_some.mp cut
          refine ih (fun other member => tokensPlain other (List.mem_cons_of_mem _ member))
            (plain.assign ?_ _) granted
          intro letter member
          refine ⟨?_, tokensPlain _ (List.mem_cons_self ..) letter (List.mem_append_left _ member)⟩
          rintro rfl
          exact noColon member

theorem initFromString_namesPlain (text : Option Text) :
    NamesPlain (initFromString (text.map cStr)).2 := by
  cases text with
  | none => exact namesPlain_cleared
  | some text =>
      rw [Option.map_some, initFromString]
      split
      · exact namesPlain_cleared
      · next acl granted =>
          refine grantAll_namesPlain ?_ namesPlain_cleared granted
          intro token member letter inside
          obtain ⟨inText, notDelim⟩ := mem_strtok member letter inside
          refine ⟨by simpa using notDelim, ?_⟩
          rintro rfl
          exact cStr_plain text inText

theorem respond_namesPlain (acl : SecureAcl) (call : AclCall) (plain : NamesPlain acl) :
    NamesPlain (aclObject.respond acl call).1 := by
  cases call with
  | initFromString text => exact initFromString_namesPlain text
  | setRights user rights => exact plain.assign user.plain rights
  | setRightsString user rights => exact plain.assign user.plain _
  | setOthersRights rights => exact plain.assign othersName_plain rights
  | setOthersRightsString rights => exact plain.assign othersName_plain _
  | revokeAll user =>
      intro entry member
      exact plain entry (List.mem_filter.mp member).1
  | getRights user =>
      simp only [aclObject, getRights]
      split
      · exact plain
      · split
        · exact plain
        · exact plain.assign othersName_plain 0

/-- A call that keeps the list writable: numbers are known rights, and the entry of
the others is not revoked. -/
def CallSafe : AclCall → Prop
  | .setRights _ rights => Known rights
  | .setOthersRights rights => Known rights
  | .revokeAll user => user.text ≠ othersName
  | .initFromString _ | .setRightsString _ _ | .setOthersRightsString _ | .getRights _ => True

theorem Writable.assign {acl : SecureAcl} (writable : Writable acl) (user : Text) {rights : Rights}
    (known : Known rights) : Writable (acl.assign user rights) where
  others := by
    rw [OrderedMap.find_assign]
    split
    · rfl
    · exact writable.others
  known := by
    intro entry member
    rcases OrderedMap.mem_assignEntry member with rfl | before
    · exact known
    · exact writable.known entry before

theorem writable_cleared : Writable cleared where
  others := by decide
  known := by decide

theorem grantAll_writable {tokens : List Text} {acl after : SecureAcl} (writable : Writable acl)
    (granted : grantAll tokens acl = some after) : Writable after := by
  induction tokens generalizing acl with
  | nil =>
      cases granted
      exact writable
  | cons token tokens ih =>
      rw [grantAll] at granted
      split at granted
      · simp at granted
      · next user rights cut => exact ih (writable.assign user (encodeRights_known _)) granted

theorem respond_writable (acl : SecureAcl) (call : AclCall) (safe : CallSafe call)
    (writable : Writable acl) : Writable (aclObject.respond acl call).1 := by
  cases call with
  | initFromString text =>
      cases text with
      | none => exact writable_cleared
      | some text =>
          simp only [aclObject, Option.map_some, initFromString]
          split
          · exact writable_cleared
          · next after granted => exact grantAll_writable writable_cleared granted
  | setRights user rights => exact writable.assign user.text safe
  | setRightsString user rights => exact writable.assign user.text (encodeRights_known rights)
  | setOthersRights rights => exact writable.assign othersName safe
  | setOthersRightsString rights => exact writable.assign othersName (encodeRights_known rights)
  | revokeAll user =>
      refine ⟨?_, fun entry member => writable.known entry (List.mem_filter.mp member).1⟩
      simp only [aclObject, revokeAll]
      rw [OrderedMap.find_remove, if_neg (Ne.symm safe)]
      exact writable.others
  | getRights user =>
      simp only [aclObject, getRights]
      split
      · exact writable
      · split
        · exact writable
        · exact writable.assign othersName (.inl rfl)

/-- After any history a list survives as a text exactly when the others are listed
and all rights are known; a history of safe calls always leaves such a list. -/
theorem acl_survives_iff (calls : List AclCall) :
    (SurvivesString (aclObject.run cleared calls).1 ↔ Writable (aclObject.run cleared calls).1) ∧
    ((∀ call ∈ calls, CallSafe call) → SurvivesString (aclObject.run cleared calls).1) := by
  have plain : ∀ calls : List AclCall, NamesPlain (aclObject.run cleared calls).1 :=
    Responder.run_invariant respond_namesPlain namesPlain_cleared
  have safeRun : ∀ (calls : List AclCall) (acl : SecureAcl), (∀ call ∈ calls, CallSafe call) →
      Writable acl → Writable (aclObject.run acl calls).1 := by
    intro calls
    induction calls with
    | nil => exact fun _ _ writable => writable
    | cons call calls ih =>
        intro acl safe writable
        rw [List.forall_mem_cons] at safe
        exact ih _ safe.2 (respond_writable acl call safe.1 writable)
  constructor
  · exact ⟨SurvivesString.writable (plain calls), Writable.survives (plain calls)⟩
  · intro safe
    exact (safeRun calls cleared safe writable_cleared).survives (plain calls)

def jan : UserName where
  text := ['j', 'a', 'n']
  nonempty := by decide
  plain := List.all_iff_forall_prop.mp (by decide)

def star : UserName := { text := othersName, nonempty := by decide, plain := othersName_plain }

/-- A user with the rights to read and write among others who can only read. -/
theorem safeHistory_survives :
    SurvivesString (aclObject.run cleared
      [.initFromString (some ['*', ':', 'F']), .setRights jan 12, .setOthersRightsString (some ['R']),
        .getRights jan]).1 := by
  refine (acl_survives_iff _).2 ?_
  have readWrite : Known 12 := by decide
  simpa [CallSafe] using readWrite

/-- The rights of the others are revoked, or a user gets a number without a known
flag. -/
theorem unsafeHistory_changes :
    ¬ SurvivesString (aclObject.run cleared [.revokeAll star]).1 ∧
      ¬ SurvivesString (aclObject.run cleared [.setRights jan 32]).1 := by
  constructor
  · intro survives
    exact absurd ((survives aclFull).2 othersName) (by decide)
  · intro survives
    exact absurd ((survives 0).2 jan.text) (by decide)

end Tegenaria.LibSecure
