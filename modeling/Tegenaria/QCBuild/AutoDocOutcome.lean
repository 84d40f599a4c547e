import Tegenaria.QCBuild.AutoDocBlocks
import Tegenaria.QCBuild.ScanReference

/-!
# How a scan for functions ends

The first round that cannot be done decides: there the number of open braces has left the
arrays, or a pragma is not one that is known.
-/

namespace Tegenaria.QCBuild.AutoDoc

open Foundation.Nesting Foundation.Outcome

variable {sourceFile : SourceFile} {fname : LibStr.Text} {before tokens : List Token} {token : Token}
  {collector next : Collector} {deep : Nat} {stop : Stop} {stream : Stream}

/-! ## Rounds that fail -/

/-- The reasons for which the switch fails. -/
inductive Fails (collector : Collector) (deep : Nat) (token : Token) : Stop → Prop where
  | short (comment : token.1 = .comment) (few : token.2.length < 2) : Fails collector deep token .outOfRange
  | malformed (command : commandOf token = .malformed) : Fails collector deep token (.failed collector.sourceFile)
  | unknown (command : commandOf token = .unknown) : Fails collector deep token .fatal
  | deeper (begins : token.1 = .blockBegin) (last : deep = maxDeep) : Fails collector deep token .outOfBounds

theorem fails_atDeep (here : collector.deep = deep) (inside : deep ≤ maxDeep)
    (failed : atDeep (collector.deep + 1) = .error stop) : deep = maxDeep ∧ stop = .outOfBounds := by
  obtain ⟨outside, rfl⟩ := atDeep_eq_error.mp failed
  rw [here] at outside
  exact ⟨by omega, rfl⟩

theorem fails_beginBlock {visible isTopLevel : Bool} (here : collector.deep = deep) (inside : deep ≤ maxDeep)
    (failed : collector.beginBlock visible isTopLevel = .error stop) : deep = maxDeep ∧ stop = .outOfBounds := by
  simp only [Collector.beginBlock, bind_eq_error, pure_ne_error, and_false, exists_false, or_false] at failed
  unfold Collector.enterBlock at failed
  split at failed
  · simp only [Collector.enterNamespace, bind_eq_error, pure_ne_error, and_false, exists_false, or_false] at failed
    exact fails_atDeep here inside failed
  · split at failed
    · cases visible with
      | false => cases failed
      | true =>
          simp only [Collector.beginFunction, Collector.pushFunction, if_true, bind_eq_error, pure_ne_error,
            and_false, exists_false, or_false] at failed
          exact fails_atDeep here inside failed
    · cases failed

theorem fails_endStatement (failed : collector.endStatement deep token = .error stop) :
    Fails collector deep token stop := by
  unfold Collector.endStatement at failed
  cases command : commandOf token with
  | malformed =>
      rw [command] at failed
      cases failed
      exact .malformed command
  | unknown =>
      rw [command] at failed
      cases failed
      exact .unknown command
  | _ =>
      rw [command] at failed
      cases failed

theorem fails_dispatch (here : collector.deep = deep) (inside : deep ≤ maxDeep)
    (failed : collector.dispatch deep token = .error stop) : Fails collector deep token stop := by
  unfold Collector.dispatch at failed
  cases kind : token.1 with
  | blockBegin =>
      rw [kind] at failed
      obtain ⟨last, rfl⟩ := fails_beginBlock here inside failed
      exact .deeper kind last
  | semicolon =>
      rw [kind] at failed
      exact fails_endStatement failed
  | directive =>
      rw [kind] at failed
      exact fails_endStatement failed
  | comment =>
      rw [kind] at failed
      simp only [Collector.collectComment] at failed
      split at failed
      · next few =>
          cases failed
          exact .short kind few
      · cases failed
  | _ =>
      rw [kind] at failed
      cases failed

/-- A round fails outside of the arrays, or with one of the reasons. -/
theorem fails_step (failed : collector.step token = .error stop) :
    (¬(0 ≤ collector.deep ∧ collector.deep ≤ maxDeep) ∧ stop = .outOfBounds) ∨
      ∃ deep : Nat, collector.deep = deep ∧ deep ≤ maxDeep ∧ Fails collector deep token stop := by
  simp only [Collector.step, bind_eq_error, atDeep_eq_error, atDeep_eq_ok, pure_ne_error, and_false,
    exists_false, or_false] at failed
  refine failed.imp_right ?_
  rintro ⟨deep, ⟨here, inside⟩, failed⟩
  obtain ⟨args, same⟩ := appendArgs_eq collector token
  rw [same] at failed
  have appended : ({ collector with args } : Collector).deep = deep := here
  refine ⟨deep, here, inside, ?_⟩
  cases fails_dispatch appended inside failed with
  | short comment few => exact .short comment few
  | malformed command => exact .malformed command
  | unknown command => exact .unknown command
  | deeper begins last => exact .deeper begins last

theorem step_macro (here : collector.deep = deep) (inside : deep ≤ maxDeep) (isMacro : token.1 = .directive)
    (failed : ∀ args, ({ collector with args } : Collector).endStatement deep token = .error stop) :
    collector.step token = .error stop := by
  obtain ⟨args, same⟩ := appendArgs_eq collector token
  rw [Collector.step, bind_eq_error]
  refine .inr ⟨deep, atDeep_eq_ok.mpr ⟨here, inside⟩, bind_eq_error.mpr (.inl ?_)⟩
  rw [same, Collector.dispatch, isMacro]
  exact failed args

theorem isMacro_of_command (command : commandOf token ≠ .nothing) : token.1 = .directive := by
  by_contra plain
  exact command (commandOf_nothing plain)

theorem step_malformed (here : collector.deep = deep) (inside : deep ≤ maxDeep)
    (command : commandOf token = .malformed) : collector.step token = .error (.failed collector.sourceFile) :=
  step_macro here inside (isMacro_of_command (by rw [command]; nofun)) fun args => by
    rw [Collector.endStatement, command]

theorem step_unknown (here : collector.deep = deep) (inside : deep ≤ maxDeep)
    (command : commandOf token = .unknown) : collector.step token = .error .fatal :=
  step_macro here inside (isMacro_of_command (by rw [command]; nofun)) fun args => by
    rw [Collector.endStatement, command]

/-! ## Files -/

/-- The pragma of a token, if it is one, can be parsed and is known. -/
def Executed (token : Token) : Prop := commandOf token ≠ .malformed ∧ commandOf token ≠ .unknown

/-- The arrays have a place for the blocks that are open behind the tokens. -/
def InRange (tokens : List Token) : Prop := 0 ≤ depth bracket tokens ∧ depth bracket tokens ≤ maxDeep

/-- Nothing is wrong with the tokens. -/
def Sound (tokens : List Token) : Prop :=
  (∀ token ∈ tokens, Executed token) ∧ ∀ first rest, tokens = first ++ rest → InRange first

theorem Reading.inRange_iff (reading : Reading sourceFile fname before collector) :
    InRange before ↔ 0 ≤ collector.deep ∧ collector.deep ≤ maxDeep := by
  rw [InRange, reading.deep]

/-- What was read was in range, and its pragmas were executed. -/
theorem sound_of_reached (reached : readAll sourceFile fname tokens = .ok collector) :
    (∀ token ∈ tokens, Executed token) ∧ ∀ first rest, tokens = first ++ rest → rest ≠ [] → InRange first := by
  induction tokens using List.reverseRecOn generalizing collector with
  | nil => exact ⟨nofun, fun first rest split more => absurd (List.append_eq_nil_iff.mp split.symm).2 more⟩
  | append_singleton before token ih =>
      obtain ⟨earlier, reached, stepped⟩ := readAll_concat.mp reached
      obtain ⟨executed, inRange⟩ := ih reached
      obtain ⟨deep, here, inside, -⟩ := round_step stepped
      have fits : InRange before := (reading_readAll reached).inRange_iff.mpr (by omega)
      refine ⟨fun other member => ?_, fun first rest split more => ?_⟩
      · rcases List.mem_append.mp member with old | last
        · exact executed other old
        · rw [List.mem_singleton.mp last]
          refine ⟨fun command => ?_, fun command => ?_⟩
          · rw [step_malformed here inside command] at stepped
            cases stepped
          · rw [step_unknown here inside command] at stepped
            cases stepped
      · obtain ⟨front, last, rfl⟩ := (List.eq_nil_or_concat' rest).resolve_left more
        rw [← List.append_assoc] at split
        obtain ⟨rfl, -⟩ := List.append_inj' split rfl
        by_cases shorter : front = []
        · rwa [shorter, List.append_nil] at fits
        · exact inRange first front rfl shorter

/-- The text of a comment holds at least the two letters of its begin. -/
def Commented (tokens : List Token) : Prop := ∀ token ∈ tokens, token.1 = .comment → 2 ≤ token.2.length

/-- A round fails for its own pragma, or because there is no place for the open blocks or for one more. -/
theorem fails_cases (reached : readAll sourceFile fname before = .ok collector)
    (commented : token.1 = .comment → 2 ≤ token.2.length) (failed : collector.step token = .error stop) :
    (InRange before ∧ commandOf token = .malformed ∧ stop = .failed collector.sourceFile) ∨
      (InRange before ∧ commandOf token = .unknown ∧ stop = .fatal) ∨
      (stop = .outOfBounds ∧ (¬ InRange before ∨ token.1 = .blockBegin ∧ ¬ InRange (before ++ [token]))) := by
  have reading := reading_readAll reached
  obtain ⟨outside, rfl⟩ | ⟨deep, here, inside, fails⟩ := fails_step failed
  · exact .inr (.inr ⟨rfl, .inl (mt reading.inRange_iff.mp outside)⟩)
  · have fits : InRange before := reading.inRange_iff.mpr (by omega)
    cases fails with
    | short comment few => exact absurd (commented comment) (Nat.not_le.mpr few)
    | malformed command => exact .inl ⟨fits, command, rfl⟩
    | unknown command => exact .inr (.inl ⟨fits, command, rfl⟩)
    | deeper begins last =>
        refine .inr (.inr ⟨rfl, .inr ⟨begins, fun further => ?_⟩⟩)
        have next : depth bracket (before ++ [token]) = collector.deep + 1 := by
          rw [depth_concat, bracket_eq_opens.mpr begins, reading.deep]
          rfl
        rw [InRange, next, here, last] at further
        omega

theorem reached_of_sound (sound : Sound tokens) (commented : Commented tokens) :
    ∃ collector, readAll sourceFile fname tokens = .ok collector := by
  induction tokens using List.reverseRecOn with
  | nil => exact ⟨_, rfl⟩
  | append_singleton before token ih =>
      obtain ⟨executed, inRange⟩ := sound
      obtain ⟨collector, reached⟩ := ih
        ⟨fun other member => executed other (List.mem_append_left _ member),
          fun first rest split => inRange first (rest ++ [token]) (by rw [split, List.append_assoc])⟩
        fun other member => commented other (List.mem_append_left _ member)
      have last : token ∈ before ++ [token] := List.mem_append_right _ (List.mem_singleton_self token)
      cases stepped : collector.step token with
      | ok next => exact ⟨next, readAll_concat.mpr ⟨collector, reached, stepped⟩⟩
      | error stop =>
          obtain ⟨-, command, -⟩ | ⟨-, command, -⟩ | ⟨-, outside | ⟨-, outside⟩⟩ :=
            fails_cases reached (commented token last) stepped
          · exact absurd command (executed token last).1
          · exact absurd command (executed token last).2
          · exact absurd (inRange before [token] rfl) outside
          · exact absurd (inRange _ [] (List.append_nil _).symm) outside

theorem sound_of_fits (reached : readAll sourceFile fname before = .ok collector) (fits : InRange before) :
    Sound before := by
  obtain ⟨executed, inRange⟩ := sound_of_reached reached
  refine ⟨executed, fun first rest split => ?_⟩
  by_cases all : rest = []
  · rwa [split, all, List.append_nil] at fits
  · exact inRange first rest split all

/-- Behind sound tokens the next round begins. -/
theorem exists_next (sourceFile : SourceFile) (fname : LibStr.Text) (sound : Sound before)
    (commented : Commented (before ++ token :: tokens)) : ∃ collector, ∃ deep : Nat,
      readAll sourceFile fname before = .ok collector ∧ collector.deep = deep ∧ deep ≤ maxDeep := by
  obtain ⟨collector, reached⟩ : ∃ collector, readAll sourceFile fname before = .ok collector :=
    reached_of_sound sound fun other among => commented other (List.mem_append_left _ among)
  have fits := (reading_readAll reached).inRange_iff.mp (sound.2 before [] (List.append_nil _).symm)
  obtain ⟨deep, here⟩ := Int.eq_ofNat_of_zero_le fits.1
  exact ⟨collector, deep, reached, here, by omega⟩

/-- The text is over when the last token has been read; it does not begin a block. -/
def Complete (tokens : List Token) : Prop := ∀ front last, tokens = front ++ [last] → last.1 ≠ .blockBegin

theorem more_of_begins (complete : Complete (before ++ token :: tokens)) (begins : token.1 = .blockBegin) :
    tokens ≠ [] := by
  rintro rfl
  exact complete before token rfl begins

section Outcomes

variable (commented : Commented tokens)

include commented

theorem readAll_ok_iff (complete : Complete tokens) :
    (∃ collector, readAll sourceFile fname tokens = .ok collector) ↔
      (∀ token ∈ tokens, Executed token) ∧ ∀ before after, tokens = before ++ after → after ≠ [] → InRange before := by
  refine ⟨fun ⟨_, reached⟩ => sound_of_reached reached, fun ⟨executed, inRange⟩ => ?_⟩
  cases read : readAll sourceFile fname tokens with
  | ok collector => exact ⟨collector, rfl⟩
  | error stop =>
      obtain ⟨before, token, after, collector, rfl, reached, failed⟩ := foldlM_eq_error.mp read
      have member : token ∈ before ++ token :: after := List.mem_append_right _ List.mem_cons_self
      obtain ⟨-, command, -⟩ | ⟨-, command, -⟩ | ⟨-, outside | ⟨begins, outside⟩⟩ :=
        fails_cases reached (commented token member) failed
      · exact absurd command (executed token member).1
      · exact absurd command (executed token member).2
      · exact absurd (inRange before _ rfl (List.cons_ne_nil token after)) outside
      · have split : before ++ token :: after = before ++ [token] ++ after := by rw [List.append_assoc]; rfl
        exact absurd (inRange _ after split (more_of_begins complete begins)) outside

theorem readAll_outOfBounds_iff (complete : Complete tokens) :
    readAll sourceFile fname tokens = .error .outOfBounds ↔
      ∃ before after, tokens = before ++ after ∧ after ≠ [] ∧ (∀ token ∈ before, Executed token) ∧
        ¬ InRange before := by
  constructor
  · intro read
    obtain ⟨before, token, after, collector, rfl, reached, failed⟩ := foldlM_eq_error.mp read
    have executed := (sound_of_reached reached).1
    have member : token ∈ before ++ token :: after := List.mem_append_right _ List.mem_cons_self
    obtain ⟨-, -, absurd⟩ | ⟨-, -, absurd⟩ | ⟨-, outside | ⟨begins, outside⟩⟩ :=
      fails_cases reached (commented token member) failed
    · cases absurd
    · cases absurd
    · exact ⟨before, token :: after, rfl, List.cons_ne_nil token after, executed, outside⟩
    · refine ⟨before ++ [token], after, by rw [List.append_assoc]; rfl, more_of_begins complete begins,
        fun other among => ?_, outside⟩
      rcases List.mem_append.mp among with old | last
      · exact executed other old
      · rw [List.mem_singleton.mp last, Executed, commandOf_nothing (by rw [begins]; nofun)]
        exact ⟨nofun, nofun⟩
  · rintro ⟨before, after, split, more, executed, outside⟩
    cases read : readAll sourceFile fname tokens with
    | ok collector => exact absurd ((sound_of_reached read).2 before after split more) outside
    | error stop =>
        obtain ⟨first, token, rest, collector, same, reached, failed⟩ := foldlM_eq_error.mp read
        -- A pragma that ends the scan would stand in front of the place that is out of range.
        have early (fits : InRange first) : token ∈ before := by
          rcases List.append_eq_append_iff.mp (split.symm.trans same) with ⟨middle, begins, -⟩ | ⟨middle, begins, left⟩
          · by_cases all : middle = []
            · rw [begins, all, List.append_nil] at fits
              exact absurd fits outside
            · exact absurd ((sound_of_reached reached).2 before middle begins all) outside
          · cases middle with
            | nil =>
                rw [List.append_nil] at begins
                exact absurd (begins ▸ fits) outside
            | cons head middle =>
                cases left
                exact begins ▸ List.mem_append_right _ List.mem_cons_self
        have member : token ∈ tokens := same ▸ List.mem_append_right _ List.mem_cons_self
        obtain ⟨fits, command, -⟩ | ⟨fits, command, -⟩ | ⟨same, -⟩ :=
          fails_cases reached (commented token member) failed
        · exact absurd command (executed token (early fits)).1
        · exact absurd command (executed token (early fits)).2
        · rw [same]

theorem readAll_fatal_iff : readAll sourceFile fname tokens = .error .fatal ↔
    ∃ before token after, tokens = before ++ token :: after ∧ Sound before ∧ commandOf token = .unknown := by
  constructor
  · intro read
    obtain ⟨before, token, after, collector, rfl, reached, failed⟩ := foldlM_eq_error.mp read
    have member : token ∈ before ++ token :: after := List.mem_append_right _ List.mem_cons_self
    obtain ⟨-, -, absurd⟩ | ⟨fits, command, -⟩ | ⟨absurd, -⟩ := fails_cases reached (commented token member) failed
    · cases absurd
    · exact ⟨before, token, after, rfl, sound_of_fits reached fits, command⟩
    · cases absurd
  · rintro ⟨before, token, after, rfl, sound, command⟩
    obtain ⟨collector, deep, reached, here, inside⟩ := exists_next sourceFile fname sound commented
    exact foldlM_eq_error.mpr ⟨before, token, after, collector, rfl, reached, step_unknown here inside command⟩

theorem readAll_failed_iff : (∃ collected, readAll sourceFile fname tokens = .error (.failed collected)) ↔
    ∃ before token after, tokens = before ++ token :: after ∧ Sound before ∧ commandOf token = .malformed := by
  constructor
  · rintro ⟨collected, read⟩
    obtain ⟨before, token, after, collector, rfl, reached, failed⟩ := foldlM_eq_error.mp read
    have member : token ∈ before ++ token :: after := List.mem_append_right _ List.mem_cons_self
    obtain ⟨fits, command, -⟩ | ⟨-, -, absurd⟩ | ⟨absurd, -⟩ := fails_cases reached (commented token member) failed
    · exact ⟨before, token, after, rfl, sound_of_fits reached fits, command⟩
    · cases absurd
    · cases absurd
  · rintro ⟨before, token, after, rfl, sound, command⟩
    obtain ⟨collector, deep, reached, here, inside⟩ := exists_next sourceFile fname sound commented
    exact ⟨_, foldlM_eq_error.mpr
      ⟨before, token, after, collector, rfl, reached, step_malformed here inside command⟩⟩

theorem readAll_ne_outOfRange : readAll sourceFile fname tokens ≠ .error .outOfRange := by
  intro read
  obtain ⟨before, token, after, collector, rfl, reached, failed⟩ := foldlM_eq_error.mp read
  have member : token ∈ before ++ token :: after := List.mem_append_right _ List.mem_cons_self
  obtain ⟨-, -, absurd⟩ | ⟨-, -, absurd⟩ | ⟨absurd, -⟩ := fails_cases reached (commented token member) failed
  all_goals cases absurd

end Outcomes

/-! ## Streams -/

theorem length_le_lineComment {text taken rest : Stream} (scanned : lineCommentLoop text stream = some (taken, rest)) :
    text.length ≤ taken.length := by
  induction stream generalizing text with
  | nil => cases scanned
  | cons c stream ih =>
      rw [lineCommentLoop] at scanned
      split at scanned
      · cases scanned
        exact Nat.le_refl _
      · have longer := ih scanned
        rw [List.length_append] at longer
        exact Nat.le_trans (Nat.le_add_right _ _) longer

theorem two_lt_longComment {text taken rest : Stream} (scanned : longCommentLoop text stream = some (taken, rest)) :
    2 < taken.length := by
  induction stream generalizing text with
  | nil => cases scanned
  | cons c stream ih =>
      rw [longCommentLoop] at scanned
      split at scanned
      · next closed =>
          cases scanned
          exact closed.1
      · exact ih scanned

/-- No case of a single byte or of a literal returns a comment. -/
def NoComment (shape : CharCase) : Prop := shape ≠ .single .comment ∧ shape ≠ .quote .comment

theorem charCase_noComment (c : UInt8) : NoComment (charCase c) := by
  unfold charCase
  repeat
    refine iteInduction (motive := NoComment) (fun _ => ⟨nofun, nofun⟩) fun _ => ?_
  exact ⟨nofun, nofun⟩

theorem two_le_comment {text behind : Stream} (scanned : scanPopToken stream = some (.comment, text, behind)) :
    2 ≤ text.length := by
  induction stream with
  | nil => cases scanned
  | cons c rest ih =>
      rw [scanPopToken] at scanned
      cases shape : charCase c with
      | other =>
          rw [shape] at scanned
          exact ih scanned
      | single id =>
          rw [shape] at scanned
          cases scanned
          exact absurd shape (charCase_noComment c).1
      | quote id =>
          rw [shape] at scanned
          obtain ⟨parts, -, same⟩ := Option.map_eq_some_iff.mp scanned
          cases same
          exact absurd shape (charCase_noComment c).2
      | hash =>
          rw [shape] at scanned
          obtain ⟨parts, -, same⟩ := Option.map_eq_some_iff.mp scanned
          cases same
      | operator =>
          rw [shape] at scanned
          simp only [scanOperator] at scanned
          split at scanned
          · next begins =>
              obtain ⟨parts, found, same⟩ := Option.map_eq_some_iff.mp scanned
              cases same
              cases rest with
              | nil => cases found
              | cons next rest =>
                  simp only [Bool.and_eq_true, beq_iff_eq, List.head?_cons, Option.some.injEq] at begins
                  obtain ⟨-, rfl⟩ := begins
                  rw [lineCommentLoop, if_neg (by decide)] at found
                  exact length_le_lineComment found
          · split at scanned
            · obtain ⟨parts, found, same⟩ := Option.map_eq_some_iff.mp scanned
              cases same
              exact Nat.le_of_lt (two_lt_longComment found)
            · cases scanned
      | _ =>
          rw [shape] at scanned
          cases scanned

theorem tokensWith_commented {fuel : Nat} (scanned : tokensWith scanPopToken fuel stream = some tokens) :
    Commented tokens := by
  induction fuel generalizing stream tokens with
  | zero => cases scanned
  | succ fuel ih =>
      obtain ⟨id, text, rest, popped, ⟨rfl, rfl⟩ | ⟨-, later, found, rfl⟩⟩ := tokensWith_succ_eq_some scanned
      · intro token member comment
        rw [List.mem_singleton.mp member] at comment
        cases comment
      · intro token member comment
        rcases List.mem_cons.mp member with rfl | among
        · obtain rfl : id = .comment := comment
          exact two_le_comment popped
        · exact ih found token among comment

theorem exists_eof {fuel : Nat} (scanned : tokensWith scanPopToken fuel stream = some tokens) :
    ∃ front text, tokens = front ++ [(.eof, text)] := by
  induction fuel generalizing stream tokens with
  | zero => cases scanned
  | succ fuel ih =>
      obtain ⟨id, text, rest, popped, ⟨rfl, rfl⟩ | ⟨-, later, found, rfl⟩⟩ := tokensWith_succ_eq_some scanned
      · exact ⟨[], text, rfl⟩
      · obtain ⟨front, last, rfl⟩ := ih found
        exact ⟨(id, text) :: front, last, rfl⟩

theorem tokensWith_complete {fuel : Nat} (scanned : tokensWith scanPopToken fuel stream = some tokens) :
    Complete tokens := by
  intro front last split
  obtain ⟨others, text, rfl⟩ := exists_eof scanned
  obtain ⟨-, same⟩ := List.append_inj' split rfl
  cases same
  nofun

/-- The scan goes through the tokens of the stream. -/
theorem collectFrom_eq {fuel : Nat} (scanned : tokensWith scanPopToken fuel stream = some tokens)
    (collector : Collector) : collectFrom fuel collector stream = some (tokens.foldlM Collector.step collector) := by
  induction fuel generalizing stream tokens collector with
  | zero => cases scanned
  | succ fuel ih =>
      obtain ⟨id, text, rest, popped, ending⟩ := tokensWith_succ_eq_some scanned
      rw [collectFrom, popped, Option.bind_some]
      rcases ending with ⟨rfl, rfl⟩ | ⟨further, later, found, rfl⟩
      · rw [List.foldlM_cons]
        cases collector.step (.eof, text) with
        | error stop => rfl
        | ok next => rfl
      · rw [List.foldlM_cons]
        cases collector.step (id, text) with
        | error stop => rfl
        | ok next => exact (if_neg further).trans (ih found next)

end AutoDoc

open AutoDoc

variable {sourceFile : SourceFile} {fname : LibStr.Text} {tokens : List Token} {stream : Stream} {privateMode : Int}

/-- How the function ends, if the scanner returns all tokens.  It succeeds exactly if every pragma is known
and the number of open blocks stays within the arrays.  Else the first place where it is not so decides: the
function fails at a pragma that cannot be parsed, the program stops at one that is not known, and it reads
outside of the arrays behind a brace too much.  No comment is too short to be cut. -/
theorem collects_outcome (scanned : scanTokens stream = some tokens) : ∃ outcome,
    collectFunctionsFromCSource sourceFile fname (some stream) privateMode = some outcome ∧
      ((∃ collected, outcome = .ok (0, collected)) ↔ (∀ token ∈ tokens, Executed token) ∧
        ∀ before after, tokens = before ++ after → after ≠ [] → InRange before) ∧
      ((∃ collected, outcome = .ok (-1, collected)) ↔ ∃ before token after,
        tokens = before ++ token :: after ∧ AutoDoc.Sound before ∧ commandOf token = .malformed) ∧
      (outcome = .error .fatal ↔ ∃ before token after,
        tokens = before ++ token :: after ∧ AutoDoc.Sound before ∧ commandOf token = .unknown) ∧
      (outcome = .error .outOfBounds ↔ ∃ before after,
        tokens = before ++ after ∧ after ≠ [] ∧ (∀ token ∈ before, Executed token) ∧ ¬ InRange before) ∧
      outcome ≠ .error .outOfRange := by
  have commented := tokensWith_commented scanned
  have complete := tokensWith_complete scanned
  have read := collectFrom_eq scanned (.start sourceFile fname)
  rw [collectFunctionsFromCSource, read, Option.map_some]
  refine ⟨_, rfl, ?_⟩
  rw [← readAll_ok_iff commented complete, ← readAll_failed_iff commented, ← readAll_fatal_iff commented,
    ← readAll_outOfBounds_iff commented complete]
  have inside : readAll sourceFile fname tokens ≠ .error .outOfRange := readAll_ne_outOfRange commented
  rw [show tokens.foldlM Collector.step (.start sourceFile fname) = readAll sourceFile fname tokens from rfl]
  cases ended : readAll sourceFile fname tokens with
  | ok collector => simp
  | error stop =>
      cases stop with
      | outOfRange => exact absurd ended inside
      | _ => simp

/-- A file that holds nothing but a closing brace. -/
theorem collects_outcome_brace : ∃ outcome,
    collectFunctionsFromCSource { name_ := [], title_ := [], functions_ := [] } [] (some [125]) 0 = some outcome ∧
      outcome = .error .outOfBounds := by
  have scanned : scanTokens [125] = some [(.blockEnd, [125]), (.eof, [])] := rfl
  obtain ⟨outcome, collects, -, -, -, bounds, -⟩ := collects_outcome scanned
  refine ⟨outcome, collects, bounds.mpr ⟨[(.blockEnd, [125])], [(.eof, [])], rfl, nofun, fun token member => ?_, ?_⟩⟩
  · rw [List.mem_singleton.mp member, Executed, commandOf_nothing (by decide)]
    exact ⟨nofun, nofun⟩
  · exact fun inRange => absurd inRange.1 (by decide)

end Tegenaria.QCBuild
