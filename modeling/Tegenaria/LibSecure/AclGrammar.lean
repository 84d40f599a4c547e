import Mathlib.Data.Set.List
import Tegenaria.LibSecure.AclRevocation

/-!
# The grammar of access lists

An access list is written as entries `user:rights` with a `;` between them; a `;` behind
the last entry is what `toString` writes.  Users have names, and one entry is the one of
the others.  `initFromString` is compared with this grammar: it refuses an entry without
`:`, but does not look for empty names, empty entries or a missing entry `*`.
-/

namespace Tegenaria.LibSecure

open Foundation
open LibStr
open SecureAcl

/-- An entry of an access list string. -/
structure AclEntry where
  user : Text
  rights : Text
  named : user ≠ []
  userPlain : ∀ letter ∈ user, letter ≠ ':' ∧ letter ≠ ';'
  rightsPlain : ';' ∉ rights

def AclEntry.text (entry : AclEntry) : Text := entry.user ++ ':' :: entry.rights

/-- The string is a list of these entries, one of which is for the others. -/
structure Writes (entries : List AclEntry) (text : Text) : Prop where
  joined : ∃ closed, text = listString (entries.map AclEntry.text) closed
  others : ∃ entry ∈ entries, entry.user = othersName

/-- The strings that an access list can be read from. -/
def Documented (text : Text) : Prop := ∃ entries, Writes entries text

/-- The normalised rights that a text of symbols stands for. -/
def meaning (symbols : Text) : Rights :=
  let granted := (if 'R' ∈ symbols then aclRead else 0) |||
    (if 'W' ∈ symbols then aclWrite else 0) ||| (if 'E' ∈ symbols then aclErase else 0)
  if 'D' ∈ symbols then aclDeny
  else if 'F' ∈ symbols then aclFull
  else if granted = 0 then aclDeny
  else granted

def lastEntry (entries : List AclEntry) (user : Text) : Option AclEntry :=
  (entries.filter (·.user = user)).getLast?

/-- The rights of a user: those of the last entry with the name, or else those of the
others. -/
def documentedRights (entries : List AclEntry) (user : Text) : Rights :=
  ((lastEntry entries user).or (lastEntry entries othersName)).elim aclDeny fun entry =>
    meaning entry.rights

/-- The string is read as the grammar says. -/
structure ReadsGrammar (text : Text) : Prop where
  accepted : (initFromString (some text)).1 = 0 ↔ Documented text
  granted : ∀ entries, Writes entries text → (initFromString (some text)).1 = 0 →
    ∀ user, (getRights (initFromString (some text)).2 (some user)).2 = documentedRights entries user
  denied : (initFromString (some text)).1 ≠ 0 → (initFromString (some text)).2 = cleared ∧
    ∀ user, (getRights (initFromString (some text)).2 (some user)).2 = aclDeny

/-- No entry but the last one is empty, no name is empty, and there is an entry of the
others. -/
structure WellPunctuated (text : Text) : Prop where
  filled : ∀ piece ∈ (text.splitOn ';').dropLast, piece ≠ []
  named : ∀ piece ∈ text.splitOn ';', piece.head? ≠ some ':'
  others : ∃ piece ∈ text.splitOn ';', ['*', ':'] <+: piece

/-! ## Rights -/

/-- The flags of a set of symbols. -/
def flagsOf (deny full read write erase : Bool) : Rights :=
  (if deny then aclDeny else 0) ||| (if full then aclFull else 0) |||
    (if read then aclRead else 0) ||| (if write then aclWrite else 0) |||
    (if erase then aclErase else 0)

theorem encodeSymbol_flagsOf (deny full read write erase : Bool) (symbol : Char) :
    encodeSymbol (flagsOf deny full read write erase) symbol =
      flagsOf (deny || symbol = 'D') (full || symbol = 'F') (read || symbol = 'R')
        (write || symbol = 'W') (erase || symbol = 'E') := by
  have denied : ∀ d f r w e, flagsOf d f r w e ||| aclDeny = flagsOf true f r w e := by decide
  have fully : ∀ d f r w e, flagsOf d f r w e ||| aclFull = flagsOf d true r w e := by decide
  have reads : ∀ d f r w e, flagsOf d f r w e ||| aclRead = flagsOf d f true w e := by decide
  have writes : ∀ d f r w e, flagsOf d f r w e ||| aclWrite = flagsOf d f r true e := by decide
  have erases : ∀ d f r w e, flagsOf d f r w e ||| aclErase = flagsOf d f r w true := by decide
  rw [encodeSymbol]
  split
  · next same => simp [same, denied]
  split
  · next same => simp [same, fully]
  split
  · next same => simp [same, reads]
  split
  · next same => simp [same, writes]
  split
  · next same => simp [same, erases]
  · simp [*]

theorem foldl_encodeSymbol (symbols : Text) (deny full read write erase : Bool) :
    symbols.foldl encodeSymbol (flagsOf deny full read write erase) =
      flagsOf (deny || 'D' ∈ symbols) (full || 'F' ∈ symbols) (read || 'R' ∈ symbols)
        (write || 'W' ∈ symbols) (erase || 'E' ∈ symbols) := by
  induction symbols generalizing deny full read write erase with
  | nil => simp
  | cons symbol symbols ih =>
      rw [List.foldl_cons, encodeSymbol_flagsOf, ih]
      simp [Bool.or_assoc, eq_comm]

/-- Symbols are encoded to the rights they stand for. -/
theorem encodeRights_eq_meaning (symbols : Text) : encodeRights (some symbols) = meaning symbols := by
  have normalised : ∀ deny full read write erase : Bool,
      (if flagsOf deny full read write erase = 0 ∨
          flagsOf deny full read write erase &&& aclDeny ≠ 0 then aclDeny
        else if flagsOf deny full read write erase &&& aclFull ≠ 0 then aclFull
        else flagsOf deny full read write erase) =
      (if deny then aclDeny else if full then aclFull
        else if flagsOf false false read write erase = 0 then aclDeny
        else flagsOf false false read write erase) := by
    decide
  have folded := foldl_encodeSymbol symbols false false false false false
  have nothing : flagsOf false false false false false = 0 := by decide
  rw [nothing] at folded
  rw [encodeRights, Option.getD_some, folded, normalised, meaning]
  simp [flagsOf]

/-! ## Entries -/

theorem AclEntry.text_ne_nil (entry : AclEntry) : entry.text ≠ [] := by simp [AclEntry.text]

theorem AclEntry.text_plain (entry : AclEntry) : ∀ letter ∈ entry.text, letter ≠ ';' := by
  intro letter member
  rcases List.mem_append.mp member with inUser | inRights
  · exact (entry.userPlain letter inUser).2
  · rcases List.mem_cons.mp inRights with rfl | inRights
    · decide
    · rintro rfl
      exact entry.rightsPlain inRights

theorem AclEntry.cut (entry : AclEntry) : cutAt ':' entry.text = some (entry.user, entry.rights) :=
  cutAt_eq_some.mpr ⟨rfl, fun member => (entry.userPlain _ member).1 rfl⟩

theorem strtok_entries {entries : List AclEntry} {text : Text} (writes : Writes entries text) :
    strtok [';'] text = entries.map AclEntry.text := by
  obtain ⟨closed, rfl⟩ := writes.joined
  apply strtok_listString
  · intro elem member
    obtain ⟨entry, _, rfl⟩ := List.mem_map.mp member
    exact entry.text_ne_nil
  · intro elem member
    obtain ⟨entry, _, rfl⟩ := List.mem_map.mp member
    exact entry.text_plain

theorem grantAll_entries (entries : List AclEntry) (acl : SecureAcl) :
    grantAll (entries.map AclEntry.text) acl =
      some (acl.assignAll (entries.map fun entry => (entry.user, encodeRights (some entry.rights)))) := by
  induction entries generalizing acl with
  | nil => rfl
  | cons entry entries ih =>
      rw [List.map_cons, grantAll, entry.cut]
      exact ih _

theorem grantAll_eq_none (tokens : List Text) (acl : SecureAcl) :
    grantAll tokens acl = none ↔ ∃ token ∈ tokens, ':' ∉ token := by
  induction tokens generalizing acl with
  | nil => simp [grantAll]
  | cons token tokens ih =>
      rw [grantAll, List.exists_mem_cons_iff]
      cases found : cutAt ':' token with
      | none => simp [cutAt_eq_none.mp found]
      | some parts =>
          have cut : ':' ∈ token := by
            by_contra absent
            rw [cutAt_eq_none.mpr absent] at found
            simp at found
          simp [ih, cut]

/-- A list is refused exactly if it has an entry without `:`. -/
theorem initFromString_refuses (text : Text) :
    (initFromString (some text)).1 ≠ 0 ↔ ∃ token ∈ strtok [';'] text, ':' ∉ token := by
  rw [← grantAll_eq_none _ cleared, initFromString]
  cases grantAll (strtok [';'] text) cleared with
  | none => simp
  | some acl => simp

theorem initFromString_refused {text : Text} (refused : (initFromString (some text)).1 ≠ 0) :
    (initFromString (some text)).2 = cleared := by
  rw [initFromString] at refused ⊢
  cases granted : grantAll (strtok [';'] text) cleared with
  | none => rfl
  | some acl => simp [granted] at refused

theorem getRights_cleared (user : Text) : (getRights cleared (some user)).2 = aclDeny := by
  rw [getRights_value, othersRights, cleared, OrderedMap.find_assign, OrderedMap.find_assign]
  split
  · rfl
  · rfl

theorem initFromString_entries {entries : List AclEntry} {text : Text} (writes : Writes entries text) :
    initFromString (some text) = (0, cleared.assignAll
      (entries.map fun entry => (entry.user, encodeRights (some entry.rights)))) := by
  rw [initFromString, strtok_entries writes, grantAll_entries]

theorem find_entries (entries : List AclEntry) (user : Text) :
    (cleared.assignAll (entries.map fun entry => (entry.user, encodeRights (some entry.rights)))).find
        user =
      ((lastEntry entries user).map fun entry => meaning entry.rights).or (cleared.find user) := by
  rw [OrderedMap.find_assignAll, OrderedMap.lastValue, List.filter_map, List.getLast?_map, Option.map_map, lastEntry]
  simp only [Function.comp_def, encodeRights_eq_meaning]
  congr!

/-- Everybody gets the rights that the entries give. -/
theorem getRights_entries {entries : List AclEntry} {text : Text} (writes : Writes entries text)
    (user : Text) :
    (getRights (initFromString (some text)).2 (some user)).2 = documentedRights entries user := by
  obtain ⟨others, member, isOthers⟩ := writes.others
  have listed : (lastEntry entries othersName).isSome := by
    rw [lastEntry, List.getLast?_isSome]
    exact List.ne_nil_of_mem (List.mem_filter.mpr ⟨member, by simpa using isOthers⟩)
  obtain ⟨last, found⟩ := Option.isSome_iff_exists.mp listed
  rw [initFromString_entries writes, getRights_value, othersRights, find_entries, find_entries,
    documentedRights, found]
  cases entry : lastEntry entries user with
  | some entry => rfl
  | none =>
      have notOthers : user ≠ othersName := by
        rintro rfl
        simp [entry] at found
      rw [cleared, OrderedMap.find_assign, if_neg notOthers]
      rfl

/-! ## Punctuation -/

theorem splitOn_listString {elems : List Text} (plain : ∀ elem ∈ elems, ';' ∉ elem)
    (nonempty : elems ≠ []) (closed : Bool) :
    (listString elems closed).splitOn ';' = if closed then elems ++ [[]] else elems := by
  cases closed with
  | true =>
      have joined := intercalate_concat elems []
      rw [List.append_nil] at joined
      rw [listString, if_pos rfl, ← joined, if_pos rfl]
      exact List.splitOn_intercalate ';' (List.forall_mem_append.mpr ⟨plain, by simp⟩) (by simp)
  | false => exact List.splitOn_intercalate ';' plain nonempty

theorem Documented.punctuated {text : Text} (documented : Documented text) : WellPunctuated text := by
  obtain ⟨entries, writes⟩ := documented
  obtain ⟨others, member, isOthers⟩ := writes.others
  obtain ⟨closed, rfl⟩ := writes.joined
  have texts : ∀ elem ∈ entries.map AclEntry.text, ∃ entry : AclEntry, entry.text = elem := by
    intro elem inside
    obtain ⟨entry, _, same⟩ := List.mem_map.mp inside
    exact ⟨entry, same⟩
  have plain : ∀ elem ∈ entries.map AclEntry.text, ';' ∉ elem := by
    intro elem inside separator
    obtain ⟨entry, rfl⟩ := texts elem inside
    exact entry.text_plain _ separator rfl
  have pieces := splitOn_listString plain (by simpa using List.ne_nil_of_mem member) closed
  refine ⟨?_, ?_, ?_⟩
  · intro piece inside
    have listed : piece ∈ entries.map AclEntry.text := by
      rw [pieces] at inside
      cases closed with
      | true => simpa using inside
      | false => exact (List.dropLast_subset _) inside
    obtain ⟨entry, rfl⟩ := texts piece listed
    exact entry.text_ne_nil
  · intro piece inside
    by_cases nothing : piece = []
    · simp [nothing]
    · have listed : piece ∈ entries.map AclEntry.text := by
        rw [pieces] at inside
        cases closed with
        | true => exact (List.mem_append.mp inside).resolve_right (by simpa using nothing)
        | false => exact inside
      obtain ⟨entry, rfl⟩ := texts piece listed
      obtain ⟨first, rest, named⟩ := List.exists_cons_of_ne_nil entry.named
      have plainFirst := (entry.userPlain first (by simp [named])).1
      simpa [AclEntry.text, named] using plainFirst
  · refine ⟨others.text, ?_, others.rights, by rw [AclEntry.text, isOthers]; rfl⟩
    have listed := List.mem_map_of_mem (f := AclEntry.text) member
    rw [pieces]
    cases closed with
    | true => exact List.mem_append_left _ listed
    | false => exact listed

/-- A text with a `:` behind a name is an entry. -/
theorem exists_entry {token : Text} (named : token.head? ≠ some ':') (plain : ';' ∉ token)
    (cut : ':' ∈ token) : ∃ entry : AclEntry, entry.text = token := by
  obtain ⟨⟨user, rights⟩, found⟩ :=
    Option.ne_none_iff_exists'.mp fun absent => cutAt_eq_none.mp absent cut
  obtain ⟨rfl, noColon⟩ := cutAt_eq_some.mp found
  refine ⟨⟨user, rights, ?_, ?_, ?_⟩, rfl⟩
  · rintro rfl
    exact named rfl
  · intro letter member
    refine ⟨?_, ?_⟩
    · rintro rfl
      exact noColon member
    · rintro rfl
      exact plain (List.mem_append_left _ member)
  · exact fun member => plain (List.mem_append_right _ (List.mem_cons_of_mem _ member))

/-- The entries of a list are its pieces that are not empty. -/
theorem strtok_eq_splitOn (delim : Char) (text : Text) :
    strtok [delim] text = (text.splitOn delim).filter (· ≠ []) := by
  have same : (fun letter => decide (letter ∈ [delim])) = (· == delim) := by
    funext letter
    simp only [List.mem_singleton]
    rfl
  rw [strtok, List.splitOn_eq_splitOnP, same]

theorem WellPunctuated.documented {text : Text} (punctuated : WellPunctuated text)
    (cut : ∀ token ∈ strtok [';'] text, ':' ∈ token) : Documented text := by
  obtain ⟨init, last, pieces⟩ :=
    (List.eq_nil_or_concat' (text.splitOn ';')).resolve_left (List.splitOn_ne_nil _ _)
  have joined : text = strListInit init ++ last := by
    rw [← intercalate_concat, ← pieces, List.intercalate_splitOn]
  obtain ⟨filled, named, star, isPiece, isStar⟩ := punctuated
  rw [pieces, List.dropLast_concat] at filled
  have shaped : ∀ piece ∈ text.splitOn ';', piece ≠ [] →
      ∃ entry : AclEntry, entry.text = piece := by
    intro piece member nonempty
    have token : piece ∈ strtok [';'] text := by
      rw [strtok_eq_splitOn]
      exact List.mem_filter.mpr ⟨member, by simpa using nonempty⟩
    refine exists_entry (named piece member) ?_ (cut piece token)
    exact fun separator => (mem_strtok token _ separator).2 (List.mem_singleton_self _)
  rw [pieces] at shaped isPiece
  have finish : ∀ (elems : List Text) (closed : Bool), text = listString elems closed →
      (∀ elem ∈ elems, elem ≠ [] ∧ elem ∈ init ++ [last]) → star ∈ elems → Documented text := by
    intro elems closed written inside listed
    have covered : elems ∈ Set.range (List.map AclEntry.text) := by
      rw [Set.range_list_map]
      exact fun elem member => shaped elem (inside elem member).2 (inside elem member).1
    obtain ⟨entries, rfl⟩ := covered
    obtain ⟨others, member, isText⟩ := List.mem_map.mp listed
    refine ⟨entries, ⟨closed, written⟩, others, member, ?_⟩
    obtain ⟨rest, starts⟩ := isStar
    have starCut : cutAt ':' star = some (othersName, rest) := by
      rw [← starts]
      exact cutAt_eq_some.mpr ⟨rfl, by decide⟩
    rw [← isText, others.cut] at starCut
    exact congrArg Prod.fst (Option.some.inj starCut)
  have starFilled : star ≠ [] := by
    rintro rfl
    exact absurd isStar (by decide)
  by_cases ended : last = []
  · subst ended
    rw [List.append_nil] at joined
    refine finish init true joined (fun elem member => ⟨filled elem member, ?_⟩) ?_
    · exact List.mem_append_left _ member
    · exact (List.mem_append.mp isPiece).resolve_right (by simpa using starFilled)
  · refine finish (init ++ [last]) false ?_ (fun elem member => ⟨?_, member⟩) isPiece
    · rw [joined, listString, if_neg Bool.false_ne_true, intercalate_concat]
    · rcases List.mem_append.mp member with before | isLast
      · exact filled elem before
      · exact List.mem_singleton.mp isLast ▸ ended

/-- A string is read as documented exactly if it is refused for an entry without `:`, or
has no empty name, no empty entry before the last one, and an entry of the others. -/
theorem initFromString_reads_iff (text : Text) :
    ReadsGrammar text ↔ (∃ token ∈ strtok [';'] text, ':' ∉ token) ∨ WellPunctuated text := by
  have cutEntries : Documented text → ∀ token ∈ strtok [';'] text, ':' ∈ token := by
    rintro ⟨entries, writes⟩ token member
    rw [strtok_entries writes] at member
    obtain ⟨entry, _, rfl⟩ := List.mem_map.mp member
    exact List.mem_append_right _ (List.mem_cons_self ..)
  constructor
  · intro reads
    by_cases accepted : (initFromString (some text)).1 = 0
    · exact .inr (reads.accepted.mp accepted).punctuated
    · exact .inl ((initFromString_refuses text).mp accepted)
  · intro condition
    refine ⟨⟨?_, ?_⟩, ?_, ?_⟩
    · intro accepted
      have cut : ¬ ∃ token ∈ strtok [';'] text, ':' ∉ token := by
        rw [← initFromString_refuses]
        exact not_not_intro accepted
      refine (condition.resolve_left cut).documented ?_
      simpa using cut
    · rintro ⟨entries, writes⟩
      rw [initFromString_entries writes]
    · intro entries writes _ user
      exact getRights_entries writes user
    · intro refused
      rw [initFromString_refused refused]
      exact ⟨rfl, getRights_cleared⟩

/-- The empty string, and a list without an entry of the others, are accepted. -/
theorem initFromString_accepts_undocumented :
    (initFromString (some [])).1 = 0 ∧ ¬ Documented [] ∧
      (initFromString (some "jan:F".toList)).1 = 0 ∧ ¬ Documented "jan:F".toList := by
  refine ⟨by decide, ?_, by decide, ?_⟩
  · intro documented
    obtain ⟨piece, member, starts⟩ := documented.punctuated.others
    revert piece
    decide
  · intro documented
    obtain ⟨piece, member, starts⟩ := documented.punctuated.others
    revert piece
    decide

end Tegenaria.LibSecure
