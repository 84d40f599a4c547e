import Mathlib.Data.List.Lex
import Tegenaria.Foundation.OrderedMap
import Tegenaria.LibCGI.Url

/-!
# Query strings

`CgiEncodeUserVars` writes the entries of a map as `key=value` with `&amp;` between
them.  `CgiDecodeUserVars` cuts at `=` and `&`, so from the second entry on `amp;` is
read as the begin of the key.
-/

namespace Tegenaria.LibCGI

open Foundation

/-- The order of `char_traits`, which compares bytes without a sign. -/
scoped instance byteOrder : LinearOrder UInt8 where
  le_refl := UInt8.le_refl
  le_trans _ _ _ := UInt8.le_trans
  lt_iff_le_not_ge _ _ := by rw [UInt8.not_le]; exact ⟨fun less => ⟨UInt8.le_of_lt less, less⟩, And.right⟩
  le_antisymm _ _ := UInt8.le_antisymm
  le_total := UInt8.le_total
  toDecidableLE := inferInstance
  toDecidableEq := inferInstance
  toDecidableLT := inferInstance

abbrev SSMap := OrderedMap ByteString ByteString

/-- The characters of `&amp;`. -/
def ampersand : ByteString := [38, 97, 109, 112, 59]

/-- The text `0`, which stands for a variable that is not set. -/
def zeroText : ByteString := [48]

/-! ## Encoding and decoding -/

/-- One round of the loop of `CgiEncodeUserVars`. -/
def encodeEntry (ret : ByteString) (entry : ByteString × ByteString) : ByteString :=
  if entry.2 = zeroText then ret
  else
    (if ret = [] then ret else ret ++ ampersand) ++
      cgiUrlEncode entry.1 ++ 61 :: cgiUrlEncode entry.2

/-- `CgiEncodeUserVars` -/
def cgiEncodeUserVars (ssmap : SSMap) : ByteString := ssmap.entries.foldl encodeEntry []

/-- `strchr`: the characters before and behind the first occurrence. -/
def strchr (delim : UInt8) : ByteString → Option (ByteString × ByteString)
  | [] => none
  | first :: rest =>
      if first = delim then some ([], rest)
      else (strchr delim rest).map fun parts => (first :: parts.1, parts.2)

/-- The assignment of one field to the map, unless its value is empty or `0`. -/
def assignField (ii : Int) (ssmap : SSMap) (field value : ByteString) : Option SSMap :=
  if value = [] ∨ value = zeroText then some ssmap
  else do
    let lvalue ← cgiUrlDecode ii field
    let rvalue ← cgiUrlDecode ii value
    pure (ssmap.assign lvalue rvalue)

/-- The loop of `CgiDecodeUserVars`; a round takes a field off the string. -/
def decodeFields (ii : Int) (delim : UInt8) : Nat → ByteString → SSMap → Option SSMap
  | 0, _, ssmap => some ssmap
  | fuel + 1, userData, ssmap =>
      match strchr 61 userData with
      | none => some ssmap
      | some (field, behind) =>
          match strchr delim behind with
          | none => assignField ii ssmap field behind
          | some (value, later) =>
              (assignField ii ssmap field value).bind (decodeFields ii delim fuel later)

/-- `CgiDecodeUserVars` with the exit code; `none` as `userData` stands for a null pointer.
Every round takes at least one character. -/
def cgiDecodeUserVars (ii : Int) (ssmap : SSMap) (delim : UInt8) :
    Option ByteString → Option (Int × SSMap)
  | none => some (-1, ssmap)
  | some userData =>
      let userData := userData.takeWhile (· ≠ 0)
      (decodeFields ii delim (userData.length + 1) userData ssmap).map ((0, ·))

/-! ## Fields of a query -/

theorem strchr_absent {delim : UInt8} {text : ByteString} (absent : delim ∉ text) :
    strchr delim text = none := by
  induction text with
  | nil => rfl
  | cons first rest ih =>
      rw [List.mem_cons, not_or] at absent
      rw [strchr, if_neg (Ne.symm absent.1), ih absent.2]
      rfl

theorem strchr_append {delim : UInt8} {left : ByteString} (absent : delim ∉ left)
    (right : ByteString) : strchr delim (left ++ delim :: right) = some (left, right) := by
  induction left with
  | nil => rw [List.nil_append, strchr, if_pos rfl]
  | cons first rest ih =>
      rw [List.mem_cons, not_or] at absent
      rw [List.cons_append, strchr, if_neg (Ne.symm absent.1), ih absent.2]
      rfl

/-- A query with the given fields and values. -/
@[grind =] def queryText : List (ByteString × ByteString) → ByteString
  | [] => []
  | [only] => only.1 ++ 61 :: only.2
  | first :: rest => first.1 ++ 61 :: (first.2 ++ 38 :: queryText rest)

/-- The decoder assigns the fields one after the other. -/
theorem decodeFields_queryText (ii : Int) {fuel : Nat} {fields : List (ByteString × ByteString)}
    (enough : fields.length < fuel) (plain : ∀ field ∈ fields, 61 ∉ field.1 ∧ 38 ∉ field.2)
    (ssmap : SSMap) :
    decodeFields ii 38 fuel (queryText fields) ssmap =
      fields.foldlM (fun ssmap field => assignField ii ssmap field.1 field.2) ssmap := by
  induction fields generalizing fuel ssmap with
  | nil =>
      cases fuel with
      | zero => omega
      | succ fuel => rfl
  | cons first rest ih =>
      cases fuel with
      | zero => omega
      | succ fuel =>
          obtain ⟨noEqual, noDelim⟩ := plain first List.mem_cons_self
          have later : ∀ field ∈ rest, 61 ∉ field.1 ∧ 38 ∉ field.2 :=
            fun field member => plain field (List.mem_cons_of_mem _ member)
          rw [List.foldlM_cons, decodeFields]
          cases rest with
          | nil =>
              simp only [queryText, strchr_append noEqual, strchr_absent noDelim, List.foldlM_nil]
              exact (bind_pure _).symm
          | cons second rest =>
              rw [List.length_cons] at enough
              simp only [queryText, strchr_append noEqual, strchr_append noDelim]
              apply congrArg
              funext assigned
              exact ih (by omega) later assigned

/-! ## Entries of a map -/

/-- What is promised for an entry. -/
structure EntryPlain (entry : ByteString × ByteString) : Prop where
  keyNonempty : entry.1 ≠ []
  keyNoZero : 0 ∉ entry.1
  valueNonempty : entry.2 ≠ []
  valueSet : entry.2 ≠ zeroText
  valueNoZero : 0 ∉ entry.2

/-- The field of an entry with something in front of the key. -/
def codedField (lead : ByteString) (entry : ByteString × ByteString) : ByteString × ByteString :=
  (lead ++ cgiUrlEncode entry.1, cgiUrlEncode entry.2)

/-- The fields that the decoder sees. -/
def codedFields : List (ByteString × ByteString) → List (ByteString × ByteString)
  | [] => []
  | first :: rest => codedField [] first :: rest.map (codedField ampersand.tail)

/-- Two fields in front of a query can be seen as one with a long name. -/
theorem queryText_join (name value nextName nextValue : ByteString)
    (rest : List (ByteString × ByteString)) :
    queryText ((name ++ 61 :: (value ++ 38 :: nextName), nextValue) :: rest) =
      queryText ((name, value) :: (nextName, nextValue) :: rest) := by
  cases rest <;> simp [queryText]

theorem foldl_encodeEntry {entries : List (ByteString × ByteString)}
    (plain : ∀ entry ∈ entries, EntryPlain entry) (name value : ByteString) :
    entries.foldl encodeEntry (name ++ 61 :: value) =
      queryText ((name, value) :: entries.map (codedField ampersand.tail)) := by
  induction entries generalizing name value with
  | nil => rfl
  | cons entry entries ih =>
      have isSet := (plain entry List.mem_cons_self).valueSet
      have later : ∀ entry ∈ entries, EntryPlain entry :=
        fun entry member => plain entry (List.mem_cons_of_mem _ member)
      have written : encodeEntry (name ++ 61 :: value) entry =
          (name ++ 61 :: (value ++ 38 :: (codedField ampersand.tail entry).1)) ++
            61 :: (codedField ampersand.tail entry).2 := by
        rw [encodeEntry, if_neg isSet, if_neg (by simp)]
        simp [codedField, ampersand]
      rw [List.foldl_cons, written, ih later, queryText_join, List.map_cons]

/-- The encoder writes the query of the coded fields. -/
theorem cgiEncodeUserVars_eq {ssmap : SSMap} (plain : ∀ entry ∈ ssmap.entries, EntryPlain entry) :
    cgiEncodeUserVars ssmap = queryText (codedFields ssmap.entries) := by
  rw [cgiEncodeUserVars]
  generalize ssmap.entries = entries at plain
  cases entries with
  | nil => rfl
  | cons first rest =>
      have written : encodeEntry [] first = cgiUrlEncode first.1 ++ 61 :: cgiUrlEncode first.2 := by
        rw [encodeEntry, if_neg (plain first List.mem_cons_self).valueSet, if_pos rfl,
          List.nil_append]
      have later : ∀ entry ∈ rest, EntryPlain entry :=
        fun entry member => plain entry (List.mem_cons_of_mem _ member)
      rw [List.foldl_cons, written, foldl_encodeEntry later]
      rfl

/-- Characters that separate fields or end a string are in no field. -/
theorem codedFields_absent {letter : UInt8} (outside : isCoded letter = false)
    (notLead : letter ∉ ampersand.tail) (entries : List (ByteString × ByteString)) :
    ∀ field ∈ codedFields entries, letter ∉ field.1 ∧ letter ∉ field.2 := by
  have notCoded : ∀ str, letter ∉ cgiUrlEncode str := by
    intro str member
    rw [isCoded_cgiUrlEncode str letter member] at outside
    cases outside
  have absent : ∀ lead entry, letter ∉ lead →
      letter ∉ (codedField lead entry).1 ∧ letter ∉ (codedField lead entry).2 := by
    intro lead entry notInLead
    rw [codedField, List.mem_append, not_or]
    exact ⟨⟨notInLead, notCoded entry.1⟩, notCoded entry.2⟩
  cases entries with
  | nil => exact List.forall_mem_nil _
  | cons first rest =>
      intro field member
      rcases List.mem_cons.mp member with rfl | later
      · exact absent [] first List.not_mem_nil
      · obtain ⟨entry, _, rfl⟩ := List.mem_map.mp later
        exact absent _ entry notLead

theorem queryText_absent {letter : UInt8} (notEqual : letter ≠ 61) (notDelim : letter ≠ 38)
    {fields : List (ByteString × ByteString)}
    (absent : ∀ field ∈ fields, letter ∉ field.1 ∧ letter ∉ field.2) :
    letter ∉ queryText fields := by
  induction fields with
  | nil => exact List.not_mem_nil
  | cons first rest ih =>
      obtain ⟨notName, notValue⟩ := absent first List.mem_cons_self
      have later := ih fun field member => absent field (List.mem_cons_of_mem _ member)
      cases rest with
      | nil => simp [queryText, notName, notValue, notEqual]
      | cons second rest => simp [queryText, notName, notValue, notEqual, notDelim, later]

theorem length_le_queryText (fields : List (ByteString × ByteString)) :
    fields.length ≤ (queryText fields).length := by
  induction fields with
  | nil => exact Nat.le_refl _
  | cons first rest ih =>
      cases rest with
      | nil => simp [queryText]; omega
      | cons second rest =>
          simp only [queryText, List.length_append, List.length_cons] at ih ⊢
          omega

/-- What the decoder does with the output of the encoder. -/
theorem cgiDecodeUserVars_encode (ii : Int) {ssmap : SSMap}
    (plain : ∀ entry ∈ ssmap.entries, EntryPlain entry) :
    cgiDecodeUserVars ii OrderedMap.empty 38 (some (cgiEncodeUserVars ssmap)) =
      ((codedFields ssmap.entries).foldlM
        (fun ssmap field => assignField ii ssmap field.1 field.2) OrderedMap.empty).map ((0, ·)) := by
  have noZero : 0 ∉ queryText (codedFields ssmap.entries) :=
    queryText_absent (by decide) (by decide) (codedFields_absent (by decide) (by decide) _)
  have whole : (queryText (codedFields ssmap.entries)).takeWhile (· ≠ 0) =
      queryText (codedFields ssmap.entries) := by
    rw [List.takeWhile_eq_self_iff]
    intro letter member
    rw [decide_eq_true_iff]
    rintro rfl
    exact noZero member
  have separated : ∀ field ∈ codedFields ssmap.entries, 61 ∉ field.1 ∧ 38 ∉ field.2 :=
    fun field member =>
      ⟨(codedFields_absent (by decide) (by decide) _ field member).1,
        (codedFields_absent (by decide) (by decide) _ field member).2⟩
  rw [cgiEncodeUserVars_eq plain, cgiDecodeUserVars, whole,
    decodeFields_queryText ii (Nat.lt_succ_of_le (length_le_queryText _)) separated]

/-! ## Round trip -/

theorem cgiUrlEncode_ne_nil {str : ByteString} (noZero : 0 ∉ str) (nonempty : str ≠ []) :
    cgiUrlEncode str ≠ [] := by
  intro nothing
  have lengths := length_flatMap_encodeByte str
  rw [← cgiUrlEncode_plain noZero, nothing, codedLength, List.length_nil] at lengths
  exact nonempty (List.length_eq_zero_iff.mp (by omega))

/-- Only `0` is coded as `0`. -/
theorem cgiUrlEncode_ne_zeroText {str : ByteString} (noZero : 0 ∉ str) (isSet : str ≠ zeroText) :
    cgiUrlEncode str ≠ zeroText := by
  intro coded
  have lengths := length_flatMap_encodeByte str
  rw [← cgiUrlEncode_plain noZero, coded] at lengths
  have decoded := cgiUrlDecode_encode 0 noZero
  rw [coded, ← lengths, if_pos (by decide)] at decoded
  exact isSet (Option.some.inj decoded).symm

/-- A field is assigned if the decoder passes over what stands in front of the key. -/
theorem assignField_coded (ii : Int) (ssmap : SSMap) {lead : ByteString}
    {entry : ByteString × ByteString} (plain : EntryPlain entry)
    (short : lead.length < 2 ^ 31)
    (through : ∀ rest, decodeLoop ii 0 (lead ++ rest) =
      (decodeLoop ii lead.length rest).map (lead ++ ·)) :
    assignField ii ssmap (codedField lead entry).1 (codedField lead entry).2 =
      if lead.length + codedLength entry.1 < 2 ^ 31 ∧ codedLength entry.2 < 2 ^ 31 then
        some (ssmap.assign (lead ++ entry.1) entry.2)
      else none := by
  have kept : ¬((codedField lead entry).2 = [] ∨ (codedField lead entry).2 = zeroText) := by
    rw [not_or]
    exact ⟨cgiUrlEncode_ne_nil plain.valueNoZero plain.valueNonempty,
      cgiUrlEncode_ne_zeroText plain.valueNoZero plain.valueSet⟩
  have key : cgiUrlDecode ii (codedField lead entry).1 =
      if lead.length + codedLength entry.1 < 2 ^ 31 then some (lead ++ entry.1) else none := by
    rw [codedField, cgiUrlDecode, through, cgiUrlEncode_plain plain.keyNoZero,
      decodeLoop_encode ii short]
    split <;> rfl
  rw [assignField, if_neg kept, key, codedField, cgiUrlDecode_encode ii plain.valueNoZero]
  by_cases keyFits : lead.length + codedLength entry.1 < 2 ^ 31
  · by_cases valueFits : codedLength entry.2 < 2 ^ 31
    · rw [if_pos keyFits, if_pos valueFits, if_pos ⟨keyFits, valueFits⟩]
      rfl
    · rw [if_pos keyFits, if_neg valueFits, if_neg fun both => valueFits both.2]
      rfl
  · simp only [keyFits, false_and, if_false]
    rfl

theorem through_nil (ii : Int) (rest : ByteString) :
    decodeLoop ii 0 ([] ++ rest) =
      (decodeLoop ii ([] : ByteString).length rest).map (([] : ByteString) ++ ·) := by
  simp

/-- The decoder reads `amp;` as it stands. -/
theorem through_ampersand (ii : Int) (rest : ByteString) :
    decodeLoop ii 0 (ampersand.tail ++ rest) =
      (decodeLoop ii ampersand.tail.length rest).map (ampersand.tail ++ ·) := by
  simp only [ampersand, List.tail_cons, List.cons_append, List.nil_append, decodeLoop]
  simp [Option.map_map, Function.comp_def]

/-- If all later fields can be decoded, their keys begin with `amp;`. -/
theorem foldlM_later (ii : Int) {entries : List (ByteString × ByteString)}
    (plain : ∀ entry ∈ entries, EntryPlain entry) {ssmap result : SSMap}
    (decoded : (entries.map (codedField ampersand.tail)).foldlM
      (fun ssmap field => assignField ii ssmap field.1 field.2) ssmap = some result) :
    result = ssmap.assignAll (entries.map fun entry => (ampersand.tail ++ entry.1, entry.2)) := by
  induction entries generalizing ssmap with
  | nil => exact (Option.some.inj decoded).symm
  | cons entry entries ih =>
      have later : ∀ entry ∈ entries, EntryPlain entry :=
        fun entry member => plain entry (List.mem_cons_of_mem _ member)
      rw [List.map_cons, List.foldlM_cons, assignField_coded ii ssmap
        (plain entry List.mem_cons_self) (by decide) (through_ampersand ii)] at decoded
      split at decoded
      · exact ih later decoded
      · cases decoded

/-- A map in which every key but one begins with `amp;` before another of these keys
has at most one key. -/
theorem no_amp_keys {first : ByteString × ByteString} {rest : List (ByteString × ByteString)}
    (distinct : ∀ entry ∈ rest, entry.1 ≠ first.1)
    (keys : ∀ entry ∈ rest, entry ∈ first :: rest.map fun entry => (ampersand.tail ++ entry.1, entry.2)) :
    rest = [] := by
  have long : ∀ bound : Nat, ∀ entry ∈ rest, bound ≤ entry.1.length := by
    intro bound
    induction bound with
    | zero => exact fun _ _ => Nat.zero_le _
    | succ bound ih =>
        intro entry member
        rcases List.mem_cons.mp (keys entry member) with isFirst | later
        · exact absurd (congrArg Prod.fst isFirst) (distinct entry member)
        · obtain ⟨shorter, listed, rfl⟩ := List.mem_map.mp later
          have atLeast := ih shorter listed
          rw [List.length_append]
          have four : ampersand.tail.length = 4 := rfl
          omega
  rw [List.eq_nil_iff_forall_not_mem]
  intro entry member
  have tooLong := long (entry.1.length + 1) entry member
  omega

/-- A map that comes back has no second entry. -/
theorem single_of_decoded (ii : Int) {ssmap : SSMap} {first : ByteString × ByteString}
    {rest : List (ByteString × ByteString)} (listed : ssmap.entries = first :: rest)
    (plain : ∀ entry ∈ rest, EntryPlain entry)
    (decoded : (rest.map (codedField ampersand.tail)).foldlM
      (fun ssmap field => assignField ii ssmap field.1 field.2)
        (OrderedMap.empty.assign first.1 first.2) = some ssmap) : rest = [] := by
  have assigned : ssmap = OrderedMap.empty.assignAll
      (first :: rest.map fun entry => (ampersand.tail ++ entry.1, entry.2)) :=
    foldlM_later ii plain decoded
  have distinct : ∀ entry ∈ rest, entry.1 ≠ first.1 := by
    intro entry member
    have increasing := ssmap.increasing
    rw [listed, List.pairwise_cons] at increasing
    exact ne_of_gt (increasing.1 entry member)
  apply no_amp_keys distinct
  intro entry member
  apply OrderedMap.mem_of_mem_assignAll
  rw [← assigned, listed]
  exact List.mem_cons_of_mem _ member

/-- A map comes back exactly if it has at most one entry and the codes of its key and
value are shorter than `2 ^ 31` bytes. -/
theorem cgiUserVars_roundTrip_iff (ii : Int) (ssmap : SSMap)
    (plain : ∀ entry ∈ ssmap.entries, EntryPlain entry) :
    cgiDecodeUserVars ii OrderedMap.empty 38 (some (cgiEncodeUserVars ssmap)) = some (0, ssmap) ↔
      ssmap.entries.length ≤ 1 ∧ ∀ entry ∈ ssmap.entries,
        codedLength entry.1 < 2 ^ 31 ∧ codedLength entry.2 < 2 ^ 31 := by
  have again := OrderedMap.assignAll_entries ssmap
  rw [cgiDecodeUserVars_encode ii plain]
  cases listed : ssmap.entries with
  | nil =>
      rw [listed] at again
      simp [codedFields, ← again, OrderedMap.assignAll]
  | cons first rest =>
      rw [listed] at plain again
      rw [codedFields, List.foldlM_cons, assignField_coded ii OrderedMap.empty
        (plain first List.mem_cons_self) (by decide) (through_nil ii), List.nil_append,
        List.length_nil, Nat.zero_add]
      constructor
      · intro restored
        split at restored
        · next fits =>
            obtain ⟨result, decoded, same⟩ := Option.map_eq_some_iff.mp restored
            cases same
            have single := single_of_decoded ii listed
              (fun entry member => plain entry (List.mem_cons_of_mem _ member)) decoded
            rw [single]
            exact ⟨Nat.le_refl _, List.forall_mem_singleton.mpr fits⟩
        · cases restored
      · rintro ⟨short, fits⟩
        have single : rest = [] := by
          rw [List.length_cons] at short
          exact List.length_eq_zero_iff.mp (by omega)
        rw [if_pos (fits first List.mem_cons_self), single]
        rw [single] at again
        exact congrArg (fun map => some (0, map)) again

/-- A map with two entries. -/
def twoVars : SSMap where
  entries := [([97], [49]), ([98], [50])]
  increasing := by decide

/-- The second key comes back as `amp;b`. -/
theorem twoVars_not_restored :
    (∀ entry ∈ twoVars.entries, EntryPlain entry) ∧
      cgiDecodeUserVars 0 OrderedMap.empty 38 (some (cgiEncodeUserVars twoVars)) ≠
        some (0, twoVars) := by
  refine ⟨?_, fun restored => absurd (congrArg (·.map (·.2.entries)) restored) (by decide)⟩
  intro entry member
  simp only [twoVars, List.mem_cons, List.not_mem_nil, or_false] at member
  rcases member with rfl | rfl
  · exact ⟨by decide, by decide, by decide, by decide, by decide⟩
  · exact ⟨by decide, by decide, by decide, by decide, by decide⟩

/-- A map with one entry whose value has a byte above 127. -/
def oneVar : SSMap where
  entries := [([97, 38], [0xe9, 32])]
  increasing := by decide

theorem oneVar_restored :
    cgiDecodeUserVars 0 OrderedMap.empty 38 (some (cgiEncodeUserVars oneVar)) = some (0, oneVar) := by
  have plain : ∀ entry ∈ oneVar.entries, EntryPlain entry :=
    List.forall_mem_singleton.mpr ⟨by decide, by decide, by decide, by decide, by decide⟩
  exact (cgiUserVars_roundTrip_iff 0 oneVar plain).mpr
    ⟨by decide, List.forall_mem_singleton.mpr ⟨by decide, by decide⟩⟩

end Tegenaria.LibCGI
