import Tegenaria.Foundation.Loop
import Tegenaria.Foundation.Separator
import Tegenaria.LibCGI.UserVars

/-!
# The buffer of a query string

`CgiDecodeUserVars` ends a name and a value with a zero inside of the caller's buffer
and swaps the overwritten letters back.  A field without `=` is not skipped: the search
for the next `=` begins at it, so it becomes a part of the name of a later field.
-/

namespace Tegenaria.LibCGI

open Foundation Loop Separator

/-! ## C strings in a buffer -/

/-- The text from a position up to the next zero. -/
def cString (buffer : ByteString) (position : Nat) : ByteString :=
  (buffer.drop position).takeWhile (· ≠ 0)

/-- `strchr` with positions.  The terminating zero is part of the searched text. -/
def strchrAt (buffer : ByteString) (position : Nat) (letter : UInt8) : Option Nat :=
  if letter = 0 then some (position + (cString buffer position).length)
  else (strchr letter (cString buffer position)).map fun parts => position + parts.1.length

/-- `swap` of a letter in the buffer with a variable. -/
def swapAt (buffer : ByteString) (position : Nat) (letter : UInt8) : ByteString × UInt8 :=
  (buffer.set position letter, buffer.getD position 0)

theorem cString_append (front : ByteString) {text : ByteString} (noZero : 0 ∉ text)
    (rest : ByteString) : cString (front ++ (text ++ 0 :: rest)) front.length = text := by
  have kept : ∀ letter ∈ text, decide (letter ≠ 0) = true := by
    intro letter member
    rw [decide_eq_true_iff]
    rintro rfl
    exact noZero member
  rw [cString, List.drop_left, List.takeWhile_append_of_pos kept, List.takeWhile_cons_of_neg (by decide),
    List.append_nil]

theorem strchrAt_zero (front : ByteString) {text : ByteString} (noZero : 0 ∉ text)
    (rest : ByteString) :
    strchrAt (front ++ (text ++ 0 :: rest)) front.length 0 = some (front.length + text.length) := by
  rw [strchrAt, if_pos rfl, cString_append front noZero]

theorem strchrAt_absent (front : ByteString) {text : ByteString} (noZero : 0 ∉ text)
    (rest : ByteString) {letter : UInt8} (nonzero : letter ≠ 0) (absent : letter ∉ text) :
    strchrAt (front ++ (text ++ 0 :: rest)) front.length letter = none := by
  rw [strchrAt, if_neg nonzero, cString_append front noZero, strchr_absent absent]
  rfl

theorem strchrAt_found (front : ByteString) {before after : ByteString} {letter : UInt8}
    (noZero : 0 ∉ before ++ letter :: after) (rest : ByteString) (absent : letter ∉ before) :
    strchrAt (front ++ (before ++ letter :: (after ++ 0 :: rest))) front.length letter =
      some (front.length + before.length) := by
  have sameText : before ++ letter :: (after ++ 0 :: rest) =
      (before ++ letter :: after) ++ 0 :: rest := by simp
  have nonzero : letter ≠ 0 := by
    rintro rfl
    simp at noZero
  rw [sameText, strchrAt, if_neg nonzero, cString_append front noZero, strchr_append absent]
  rfl

theorem swapAt_append (front : ByteString) (letter : UInt8) (rest : ByteString) (other : UInt8) :
    swapAt (front ++ letter :: rest) front.length other = (front ++ other :: rest, letter) := by
  simp [swapAt]

/-! ## The loop -/

/-- The variables of the loop.  `calls` counts the calls of `CgiUrlDecode`. -/
structure Cursor where
  userData : ByteString
  field : Nat
  fieldEndZero : UInt8
  valueEndZero : UInt8
  calls : Nat
  ssmap : SSMap

/-- The assignment of one field; `stack` is what each call of the decoder finds in its
variable `ii`. -/
def assignVar (stack : Nat → Int) (calls : Nat) (ssmap : SSMap) (field value : ByteString) :
    Option (Nat × SSMap) :=
  if value = [] ∨ value = zeroText then some (calls, ssmap)
  else do
    let lvalue ← cgiUrlDecode (stack calls) field
    let rvalue ← cgiUrlDecode (stack (calls + 1)) value
    pure (calls + 2, ssmap.assign lvalue rvalue)

/-- The end of a value: its position, the buffer that is cut there, and what was there. -/
def cutValue (buffer : ByteString) (value : Nat) (delim valueEndZero : UInt8) :
    Option Nat × ByteString × UInt8 :=
  match strchrAt buffer value delim with
  | some valueEnd => (some valueEnd, swapAt buffer valueEnd valueEndZero)
  | none => (none, buffer, valueEndZero)

/-- One round of the loop of `CgiDecodeUserVars`.  It ends with the exit code, the buffer
and the map. -/
def decodeRound (stack : Nat → Int) (delim : UInt8) (cursor : Cursor) :
    Step Cursor (Int × ByteString × SSMap) :=
  match strchrAt cursor.userData cursor.field 61 with
  | none => .done (0, cursor.userData, cursor.ssmap)
  | some fieldEnd =>
      let (buffer, fieldEndZero) := swapAt cursor.userData fieldEnd cursor.fieldEndZero
      let (valueEnd, buffer, valueEndZero) :=
        cutValue buffer (fieldEnd + 1) delim cursor.valueEndZero
      match assignVar stack cursor.calls cursor.ssmap (cString buffer cursor.field)
          (cString buffer (fieldEnd + 1)) with
      | none => .outside
      | some (calls, ssmap) =>
          let (buffer, fieldEndZero) := swapAt buffer fieldEnd fieldEndZero
          if valueEndZero = 0 then .done (0, buffer, ssmap)
          else
            match valueEnd with
            | none => .outside
            | some valueEnd =>
                let (buffer, valueEndZero) := swapAt buffer valueEnd valueEndZero
                .next { userData := buffer, field := valueEnd + 1, fieldEndZero, valueEndZero,
                        calls, ssmap }

/-- The begin of `CgiDecodeUserVars` on a buffer that holds a string. -/
def userVarsStart (userData : ByteString) (ssmap : SSMap) : Cursor where
  userData := userData
  field := 0
  fieldEndZero := 0
  valueEndZero := 0
  calls := 0
  ssmap := ssmap

section Rounds

variable (stack : Nat → Int) (delim : UInt8) (front : ByteString) (calls : Nat) (ssmap : SSMap)

/-- The cursor in front of a text that reaches to the end of the string. -/
def cursorAt (text : ByteString) : Cursor where
  userData := front ++ (text ++ [0])
  field := front.length
  fieldEndZero := 0
  valueEndZero := 0
  calls := calls
  ssmap := ssmap

theorem decodeRound_absent {text : ByteString} (noZero : 0 ∉ text) (absent : 61 ∉ text) :
    decodeRound stack delim (cursorAt front calls ssmap text) =
      .done (0, front ++ (text ++ [0]), ssmap) := by
  rw [decodeRound, cursorAt]
  simp only [strchrAt_absent front noZero [] (by decide) absent]

/-- The letter of the first `=` is swapped with the variable. -/
theorem swap_field (name after : ByteString) (letter other : UInt8) :
    swapAt (front ++ (name ++ letter :: after)) (front.length + name.length) other =
      (front ++ (name ++ other :: after), letter) := by
  have swapped := swapAt_append (front ++ name) letter after other
  rwa [List.append_assoc, List.append_assoc, List.length_append] at swapped

/-- Behind the first `=` the buffer is the one of the value. -/
theorem value_position (name after : ByteString) (letter : UInt8) :
    front ++ (name ++ letter :: after) = (front ++ name ++ [letter]) ++ after ∧
      front.length + name.length + 1 = (front ++ name ++ [letter]).length := by
  constructor
  · simp
  · simp [Nat.add_assoc]

/-- The name and the value as the decoder gets them. -/
theorem cStrings {name value : ByteString} (nameNoZero : 0 ∉ name) (valueNoZero : 0 ∉ value)
    (rest : ByteString) :
    cString (front ++ (name ++ 0 :: (value ++ 0 :: rest))) front.length = name ∧
      cString (front ++ (name ++ 0 :: (value ++ 0 :: rest))) (front.length + name.length + 1) =
        value := by
  obtain ⟨sameBuffer, samePosition⟩ := value_position front name (value ++ 0 :: rest) 0
  refine ⟨cString_append front nameNoZero _, ?_⟩
  rw [sameBuffer, samePosition, cString_append _ valueNoZero]

/-- The last value is not cut, or cut at the terminating zero. -/
theorem cutValue_last {value : ByteString} (noZero : 0 ∉ value) (absent : delim ∉ value) :
    (cutValue (front ++ (value ++ [0])) front.length delim 0).2 = (front ++ (value ++ [0]), 0) := by
  rw [cutValue]
  by_cases isZero : delim = 0
  · simp only [isZero, strchrAt_zero front noZero, swap_field]
  · simp only [strchrAt_absent front noZero [] isZero absent]

theorem cutValue_next {value later : ByteString} (noZero : 0 ∉ value ++ delim :: later)
    (absent : delim ∉ value) :
    cutValue (front ++ (value ++ delim :: (later ++ [0]))) front.length delim 0 =
      (some (front.length + value.length), front ++ (value ++ 0 :: (later ++ [0])), delim) := by
  rw [cutValue, strchrAt_found front noZero [] absent]
  simp only [swap_field]

theorem decodeRound_last {name value : ByteString} (noZero : 0 ∉ name ++ 61 :: value)
    (plain : 61 ∉ name) (absent : delim ∉ value) :
    decodeRound stack delim (cursorAt front calls ssmap (name ++ 61 :: value)) =
      match assignVar stack calls ssmap name value with
      | none => .outside
      | some (_, ssmap) => .done (0, front ++ (name ++ 61 :: value ++ [0]), ssmap) := by
  obtain ⟨nameNoZero, valueNoZero⟩ : 0 ∉ name ∧ 0 ∉ value := by simpa using noZero
  obtain ⟨sameBuffer, samePosition⟩ := value_position front name (value ++ [0]) 0
  have found := strchrAt_found front noZero [] plain
  have uncut := cutValue_last delim (front ++ name ++ [0]) valueNoZero absent
  rw [← sameBuffer, ← samePosition] at uncut
  obtain ⟨nameText, valueText⟩ := cStrings front nameNoZero valueNoZero []
  rw [decodeRound, cursorAt]
  simp only [List.append_assoc, List.cons_append, found, swap_field, uncut, nameText, valueText]
  cases assignVar stack calls ssmap name value with
  | none => rfl
  | some assigned => rfl

theorem decodeRound_next {name value later : ByteString}
    (noZero : 0 ∉ name ++ 61 :: (value ++ delim :: later))
    (plain : 61 ∉ name) (absent : delim ∉ value) :
    decodeRound stack delim
        (cursorAt front calls ssmap (name ++ 61 :: (value ++ delim :: later))) =
      match assignVar stack calls ssmap name value with
      | none => .outside
      | some (calls, ssmap) =>
          .next (cursorAt (front ++ (name ++ 61 :: (value ++ [delim]))) calls ssmap later) := by
  obtain ⟨nameNoZero, valueNoZero, notZero, laterNoZero⟩ :
      0 ∉ name ∧ 0 ∉ value ∧ 0 ≠ delim ∧ 0 ∉ later := by simpa using noZero
  obtain ⟨sameBuffer, samePosition⟩ := value_position front name (value ++ delim :: (later ++ [0])) 0
  have found := strchrAt_found front noZero [] plain
  have cut := cutValue_next delim (front ++ name ++ [0])
    (by simpa using ⟨valueNoZero, notZero, laterNoZero⟩ : 0 ∉ value ++ delim :: later) absent
  rw [← sameBuffer, ← samePosition] at cut
  obtain ⟨nameText, valueText⟩ := cStrings front nameNoZero valueNoZero (later ++ [0])
  have restored := swap_field (front ++ name ++ [61]) value (later ++ [0]) 0 delim
  obtain ⟨wholeBuffer, wholePosition⟩ := value_position front name (value ++ 0 :: (later ++ [0])) 61
  rw [← wholeBuffer, ← wholePosition] at restored
  rw [decodeRound, cursorAt]
  simp only [List.append_assoc, List.cons_append, List.nil_append] at found cut restored ⊢
  simp only [found, swap_field, cut, nameText, valueText, restored, if_neg notZero.symm]
  cases assignVar stack calls ssmap name value with
  | none => rfl
  | some assigned =>
      simp [cursorAt, Nat.add_assoc, Nat.add_comm 1]

end Rounds

/-! ## The fields of a query -/

/-- The assignments as the loop finds them.  A field without `=` is written in front of
the name of the next one, with the delimiter between them. -/
def joinedFields (delim : UInt8) (lead : ByteString) :
    List ByteString → List (ByteString × ByteString)
  | [] => []
  | field :: rest =>
      match strchr 61 field with
      | none => joinedFields delim (lead ++ field ++ [delim]) rest
      | some (name, value) => (lead ++ name, value) :: joinedFields delim [] rest

/-- The fields that have a `=`, each cut at the first one. -/
def namedFields (fields : List ByteString) : List (ByteString × ByteString) :=
  fields.filterMap (strchr 61)

/-- The decoded names and values of the variables that are set. -/
def decodeVars (stack : Nat → Int) :
    Nat → List (ByteString × ByteString) → Option (List (ByteString × ByteString))
  | _, [] => some []
  | calls, (field, value) :: rest =>
      if value = [] ∨ value = zeroText then decodeVars stack calls rest
      else do
        let lvalue ← cgiUrlDecode (stack calls) field
        let rvalue ← cgiUrlDecode (stack (calls + 1)) value
        (decodeVars stack (calls + 2) rest).map ((lvalue, rvalue) :: ·)

theorem strchr_eq_some {letter : UInt8} {text before after : ByteString}
    (found : strchr letter text = some (before, after)) :
    text = before ++ letter :: after ∧ letter ∉ before := by
  induction text generalizing before after with
  | nil => cases found
  | cons first rest ih =>
      rw [strchr] at found
      split at found
      · next isLetter =>
          cases found
          exact ⟨by rw [isLetter]; rfl, List.not_mem_nil⟩
      · next isOther =>
          obtain ⟨parts, foundLater, same⟩ := Option.map_eq_some_iff.mp found
          cases same
          obtain ⟨rfl, absent⟩ := ih foundLater
          exact ⟨rfl, by simpa [Ne.symm isOther] using absent⟩

theorem strchr_eq_none {letter : UInt8} {text : ByteString} (found : strchr letter text = none) :
    letter ∉ text := by
  induction text with
  | nil => exact List.not_mem_nil
  | cons first rest ih =>
      rw [strchr] at found
      split at found
      · cases found
      · next isOther =>
          rw [List.mem_cons, not_or]
          exact ⟨Ne.symm isOther, ih (Option.map_eq_none_iff.mp found)⟩

theorem decodeVars_cons (stack : Nat → Int) (calls : Nat) (ssmap : SSMap)
    (field value : ByteString) (rest : List (ByteString × ByteString)) :
    (decodeVars stack calls ((field, value) :: rest)).map ssmap.assignAll =
      (assignVar stack calls ssmap field value).bind fun assigned =>
        (decodeVars stack assigned.1 rest).map assigned.2.assignAll := by
  rw [decodeVars, assignVar]
  split
  · rfl
  · cases cgiUrlDecode (stack calls) field with
    | none => rfl
    | some lvalue =>
        cases cgiUrlDecode (stack (calls + 1)) value with
        | none => rfl
        | some rvalue => exact Option.map_map ..

/-- The loop on a text whose fields are known, behind a part that has no `=`. -/
theorem decodeRound_returns_iff (stack : Nat → Int) {delim : UInt8} (notEqual : delim ≠ 61)
    (front : ByteString) (calls : Nat) (ssmap : SSMap) {lead : ByteString}
    {fields : List ByteString} (plain : 61 ∉ lead) (noDelim : ∀ field ∈ fields, delim ∉ field)
    (nonempty : fields ≠ []) (noZero : 0 ∉ lead ++ List.intercalate [delim] fields)
    (result : Int × ByteString × SSMap) :
    Returns (decodeRound stack delim)
        (cursorAt front calls ssmap (lead ++ List.intercalate [delim] fields)) result ↔
      ((decodeVars stack calls (joinedFields delim lead fields)).map ssmap.assignAll).map
        (fun map => (0, front ++ (lead ++ List.intercalate [delim] fields ++ [0]), map)) =
          some result := by
  induction fields generalizing front calls ssmap lead with
  | nil => exact absurd rfl nonempty
  | cons field rest ih =>
      have fieldFree := noDelim field List.mem_cons_self
      have laterFree : ∀ field ∈ rest, delim ∉ field :=
        fun field member => noDelim field (List.mem_cons_of_mem _ member)
      rw [joinedFields]
      cases found : strchr 61 field with
      | none =>
          have absent := strchr_eq_none found
          cases rest with
          | nil =>
              rw [List.intercalate_singleton] at noZero ⊢
              rw [returns_done (decodeRound_absent stack delim front calls ssmap noZero
                (by simp [plain, absent]))]
              exact eq_comm.trans Option.some_inj.symm
          | cons next rest =>
              have joined : lead ++ List.intercalate [delim] (field :: next :: rest) =
                  (lead ++ field ++ [delim]) ++ List.intercalate [delim] (next :: rest) := by
                rw [List.intercalate_cons_cons]
                simp
              rw [joined] at noZero ⊢
              exact ih front calls ssmap (by simp [plain, absent, notEqual.symm]) laterFree
                (List.cons_ne_nil _ _) noZero
      | some parts =>
          obtain ⟨name, value⟩ := parts
          obtain ⟨rfl, absent⟩ := strchr_eq_some found
          have valueFree : delim ∉ value := by simp_all
          have nameFree : 61 ∉ lead ++ name := by simp [plain, absent]
          simp only
          rw [decodeVars_cons]
          cases rest with
          | nil =>
              have whole : lead ++ List.intercalate [delim] [name ++ 61 :: value] =
                  (lead ++ name) ++ 61 :: value := by
                rw [List.intercalate_singleton]
                simp
              rw [whole] at noZero ⊢
              have round := decodeRound_last stack delim front calls ssmap noZero nameFree valueFree
              cases assigned : assignVar stack calls ssmap (lead ++ name) value with
              | none =>
                  rw [assigned] at round
                  exact iff_of_false (not_returns_outside round) (by simp)
              | some after =>
                  rw [assigned] at round
                  rw [returns_done round]
                  exact eq_comm.trans Option.some_inj.symm
          | cons next rest =>
              have whole : lead ++ List.intercalate [delim] ((name ++ 61 :: value) :: next :: rest) =
                  (lead ++ name) ++ 61 :: (value ++ delim :: List.intercalate [delim] (next :: rest)) := by
                rw [List.intercalate_cons_cons]
                simp
              rw [whole] at noZero ⊢
              have round := decodeRound_next stack delim front calls ssmap noZero nameFree valueFree
              cases assigned : assignVar stack calls ssmap (lead ++ name) value with
              | none =>
                  rw [assigned] at round
                  exact iff_of_false (not_returns_outside round) (by simp)
              | some after =>
                  rw [assigned] at round
                  have laterNoZero : 0 ∉ [] ++ List.intercalate [delim] (next :: rest) := by
                    intro member
                    apply noZero
                    simp only [List.mem_append, List.mem_cons]
                    exact .inr (.inr (.inr (.inr member)))
                  have later := ih (front ++ (lead ++ name ++ 61 :: (value ++ [delim]))) after.1 after.2
                    List.not_mem_nil laterFree (List.cons_ne_nil _ _) laterNoZero
                  rw [returns_next round]
                  simpa using later

/-! ## The whole query -/

/-- `CgiDecodeUserVars` on a buffer that holds a string returns an exit code, a buffer and
a map. -/
def CgiDecodeUserVars (stack : Nat → Int) (ssmap : SSMap) (userData : ByteString) (delim : UInt8)
    (result : Int × ByteString × SSMap) : Prop :=
  Returns (decodeRound stack delim) (userVarsStart (userData ++ [0]) ssmap) result

theorem splitOn_free (userData : ByteString) (delim : UInt8) :
    ∀ field ∈ userData.splitOn delim, delim ∉ field := by
  intro field member inside
  rw [List.splitOn_eq_splitOnP] at member
  simpa using (mem_splitOnP member inside).2

theorem cgiDecodeUserVars_iff (stack : Nat → Int) (ssmap : SSMap) {userData : ByteString}
    {delim : UInt8} (notEqual : delim ≠ 61) (noZero : 0 ∉ userData)
    (result : Int × ByteString × SSMap) :
    CgiDecodeUserVars stack ssmap userData delim result ↔
      ∃ decoded, decodeVars stack 0 (joinedFields delim [] (userData.splitOn delim)) = some decoded ∧
        result = (0, userData ++ [0], ssmap.assignAll decoded) := by
  have whole := @List.intercalate_splitOn _ userData _ _ delim
  have run := decodeRound_returns_iff stack notEqual [] 0 ssmap List.not_mem_nil
    (splitOn_free userData delim) (List.splitOn_ne_nil delim userData) (by rwa [whole]) result
  rw [whole] at run
  refine run.trans ?_
  rw [Option.map_map, Option.map_eq_some_iff]
  exact exists_congr fun decoded => and_congr_right fun _ => eq_comm

theorem assignVar_const (ii : Int) (calls : Nat) (ssmap : SSMap) (field value : ByteString) :
    (assignVar (fun _ => ii) calls ssmap field value).map Prod.snd = assignField ii ssmap field value := by
  rw [assignVar, assignField]
  split
  · rfl
  · cases cgiUrlDecode ii field with
    | none => rfl
    | some lvalue =>
        cases cgiUrlDecode ii value with
        | none => rfl
        | some rvalue => rfl

/-- The reader of the text, which has no buffer, finds the same assignments. -/
theorem decodeFields_eq_joined (ii : Int) {delim : UInt8} (notEqual : delim ≠ 61) (calls : Nat)
    (ssmap : SSMap) {lead : ByteString} {fields : List ByteString} {fuel : Nat} (plain : 61 ∉ lead)
    (noDelim : ∀ field ∈ fields, delim ∉ field)
    (enough : (lead ++ List.intercalate [delim] fields).length < fuel) :
    decodeFields ii delim fuel (lead ++ List.intercalate [delim] fields) ssmap =
      (decodeVars (fun _ => ii) calls (joinedFields delim lead fields)).map ssmap.assignAll := by
  obtain ⟨less, rfl⟩ := Nat.exists_eq_add_one_of_ne_zero (Nat.ne_of_gt (Nat.zero_lt_of_lt enough))
  induction fields generalizing less calls ssmap lead with
  | nil =>
      rw [List.intercalate_nil, List.append_nil, decodeFields, strchr_absent plain]
      rfl
  | cons field rest ih =>
      have fieldFree := noDelim field List.mem_cons_self
      have laterFree : ∀ field ∈ rest, delim ∉ field :=
        fun field member => noDelim field (List.mem_cons_of_mem _ member)
      rw [joinedFields]
      cases found : strchr 61 field with
      | none =>
          have absent := strchr_eq_none found
          cases rest with
          | nil =>
              rw [List.intercalate_singleton, decodeFields, strchr_absent (by simp [plain, absent])]
              rfl
          | cons next rest =>
              have joined : lead ++ List.intercalate [delim] (field :: next :: rest) =
                  (lead ++ field ++ [delim]) ++ List.intercalate [delim] (next :: rest) := by
                rw [List.intercalate_cons_cons]
                simp
              rw [joined] at enough ⊢
              exact ih calls ssmap (by simp [plain, absent, notEqual.symm]) laterFree less enough
      | some parts =>
          obtain ⟨name, value⟩ := parts
          obtain ⟨rfl, absent⟩ := strchr_eq_some found
          have valueFree : delim ∉ value := by simp_all
          have nameFree : 61 ∉ lead ++ name := by simp [plain, absent]
          simp only
          rw [decodeVars_cons]
          cases rest with
          | nil =>
              have whole : lead ++ List.intercalate [delim] [name ++ 61 :: value] =
                  (lead ++ name) ++ 61 :: value := by
                rw [List.intercalate_singleton]
                simp
              rw [whole, decodeFields, strchr_append nameFree]
              simp only [strchr_absent valueFree]
              rw [← assignVar_const ii calls]
              exact Option.map_eq_bind
          | cons next rest =>
              have whole : lead ++ List.intercalate [delim] ((name ++ 61 :: value) :: next :: rest) =
                  (lead ++ name) ++ 61 :: (value ++ delim :: List.intercalate [delim] (next :: rest)) := by
                rw [List.intercalate_cons_cons]
                simp
              rw [whole] at enough
              simp only [List.length_append, List.length_cons] at enough
              obtain ⟨lesser, rfl⟩ : ∃ lesser, less = lesser + 1 := ⟨less - 1, by omega⟩
              rw [whole, decodeFields, strchr_append nameFree]
              simp only [strchr_append valueFree]
              rw [← assignVar_const ii calls, Option.bind_map]
              apply congrArg
              funext assigned
              exact ih assigned.1 assigned.2 List.not_mem_nil laterFree lesser
                (by rw [List.nil_append]; omega)

/-- On a non-null buffer the reader of the text describes the loop on the buffer. -/
theorem cgiDecodeUserVars_const_iff (ii : Int) (ssmap result : SSMap) {userData : ByteString}
    {delim : UInt8} (notEqual : delim ≠ 61) (noZero : 0 ∉ userData) :
    CgiDecodeUserVars (fun _ => ii) ssmap userData delim (0, userData ++ [0], result) ↔
      cgiDecodeUserVars ii ssmap delim (some userData) = some (0, result) := by
  have kept : userData.takeWhile (· ≠ 0) = userData := by
    rw [List.takeWhile_eq_self_iff]
    intro letter member
    rw [decide_eq_true_iff]
    rintro rfl
    exact noZero member
  have whole := @List.intercalate_splitOn _ userData _ _ delim
  have read := decodeFields_eq_joined ii notEqual 0 ssmap List.not_mem_nil
    (splitOn_free userData delim) (Nat.lt_succ_self _)
  rw [List.nil_append, whole] at read
  rw [cgiDecodeUserVars_iff _ ssmap notEqual noZero, cgiDecodeUserVars, kept, read, Option.map_map,
    Option.map_eq_some_iff]
  apply exists_congr
  intro decoded
  apply and_congr_right
  intro _
  simp [eq_comm]


/-- The query is parsed field by field: whatever the map was before, the buffer is restored
and the map is the one that is assigned from the fields. -/
def ParsesFields (stack : Nat → Int) (userData : ByteString) (delim : UInt8) : Prop :=
  ∀ ssmap : SSMap, ∃ decoded,
    decodeVars stack 0 (namedFields (userData.splitOn delim)) = some decoded ∧
      CgiDecodeUserVars stack ssmap userData delim
        (0, userData ++ [0], ssmap.assignAll decoded)

end Tegenaria.LibCGI
