import Tegenaria.Foundation.Nesting
import Tegenaria.QCBuild.AutoDoc

/-!
# The blocks that a scan knows

The arrays of the scan are compared with the tokens that were read.  Two of them are
stacks.  The marks of private blocks are not: a pragma is written to all places from its
own depth on, and the end of a block clears them for the blocks that follow.
-/

namespace Tegenaria.QCBuild.AutoDoc

open Foundation.Nesting Foundation.Outcome

/-- The braces open and close blocks, and the pragma that makes a block private marks it. -/
def bracket (token : Token) : Bracket :=
  match token.1 with
  | .blockBegin => .opens
  | .blockEnd => .closes
  | .directive => if commandOf token = .setPrivate then .mark else .other
  | _ => .other

variable {sourceFile : SourceFile} {fname : LibStr.Text} {before : List Token} {token : Token}
  {collector next middle : Collector} {deep : Nat}

theorem commandOf_nothing (plain : token.1 ≠ .directive) : commandOf token = .nothing :=
  if_neg fun isPragma => plain isPragma.1

theorem bracket_eq_opens : bracket token = .opens ↔ token.1 = .blockBegin := by
  unfold bracket
  split <;> simp_all
  split <;> nofun

theorem bracket_eq_closes : bracket token = .closes ↔ token.1 = .blockEnd := by
  unfold bracket
  split <;> simp_all
  split <;> nofun

theorem bracket_eq_mark : bracket token = .mark ↔ commandOf token = .setPrivate := by
  by_cases isMacro : token.1 = .directive
  · simp only [bracket, isMacro, ite_eq_left_iff, reduceCtorEq, imp_false, not_not]
  · rw [commandOf_nothing isMacro]
    unfold bracket
    split <;> simp_all

/-! ## Single rounds -/

theorem atDeep_eq_ok {level : Int} : atDeep level = .ok deep ↔ level = deep ∧ deep ≤ maxDeep := by
  unfold atDeep
  split
  · next inside =>
      rw [Except.ok.injEq]
      exact ⟨by rintro rfl; omega, by rintro ⟨rfl, -⟩; exact Int.toNat_natCast deep⟩
  · next outside => exact iff_of_false nofun (by omega)

theorem atDeep_eq_error {level : Int} {stop : Stop} :
    atDeep level = .error stop ↔ ¬(0 ≤ level ∧ level ≤ maxDeep) ∧ stop = .outOfBounds := by
  unfold atDeep
  split
  · next inside => exact iff_of_false nofun fun failed => failed.1 inside
  · next outside =>
      rw [Except.error.injEq]
      exact ⟨fun same => ⟨outside, same.symm⟩, fun failed => failed.2.symm⟩

/-- The arrays, the depth and the list of functions are the same. -/
structure SameBlocks (collector next : Collector) : Prop where
  level : next.deep = collector.deep
  namespaces : next.namespaceAtDeep = collector.namespaceAtDeep
  privates : next.privateAtDeep = collector.privateAtDeep
  ids : next.functionIdAtDeep = collector.functionIdAtDeep
  functions : next.functions = collector.functions

/-- A block that begins is the body of a function that is added to the list. -/
def Collector.listsFunction (collector : Collector) (deep : Nat) : Bool :=
  collector.opensFunction (collector.isTopLevel deep) && !collector.privateAtDeep deep

/-- What the beginning of a block changes. -/
structure Opened (collector : Collector) (deep : Nat) (next : Collector) : Prop where
  level : next.deep = collector.deep + 1
  namespaces : next.namespaceAtDeep =
    if collector.opensNamespace then Function.update collector.namespaceAtDeep (deep + 1) collector.lastIdent
    else collector.namespaceAtDeep
  privates : next.privateAtDeep = collector.privateAtDeep
  ids : next.functionIdAtDeep =
    if collector.listsFunction deep then
      Function.update collector.functionIdAtDeep (deep + 1) (some collector.functions.length)
    else collector.functionIdAtDeep
  functions : next.functions =
    if collector.listsFunction deep then collector.functions ++ [collector.declared] else collector.functions
  inside : collector.opensNamespace ∨ collector.listsFunction deep → deep < maxDeep

/-- What the end of a block changes. -/
structure Closed (collector : Collector) (deep : Nat) (next : Collector) : Prop where
  level : next.deep = collector.deep - 1
  namespaces : next.namespaceAtDeep = Function.update collector.namespaceAtDeep deep []
  privates : next.privateAtDeep = fun i => if deep ≤ i ∧ i < maxDeep then false else collector.privateAtDeep i
  ids : next.functionIdAtDeep = Function.update collector.functionIdAtDeep deep none
  functions : next.functions = collector.functions

/-- What a pragma for a private block changes. -/
structure MadePrivate (collector : Collector) (deep : Nat) (next : Collector) : Prop where
  level : next.deep = collector.deep
  namespaces : next.namespaceAtDeep = collector.namespaceAtDeep
  privates : next.privateAtDeep = fun i => if deep ≤ i ∧ i < maxDeep then true else collector.privateAtDeep i
  ids : next.functionIdAtDeep = collector.functionIdAtDeep
  functions : next.functions =
    if deep < maxDeep ∧ collector.inLastFunction deep then collector.functions.dropLast else collector.functions

/-- What a round can do to the blocks. -/
inductive Round (collector : Collector) (deep : Nat) (token : Token) (next : Collector) : Prop where
  | opens (begins : token.1 = .blockBegin) (opened : Opened collector deep next)
  | closes (ends : token.1 = .blockEnd) (closed : Closed collector deep next)
  | mark (hides : commandOf token = .setPrivate) (marked : MadePrivate collector deep next)
  | stays (notBegin : token.1 ≠ .blockBegin) (notEnd : token.1 ≠ .blockEnd)
      (notHidden : commandOf token ≠ .setPrivate) (same : SameBlocks collector next)

theorem beginFunction_eq_ok {visible : Bool} (here : collector.deep = deep)
    (done : collector.beginFunction visible = .ok next) :
    next.deep = collector.deep ∧ next.namespaceAtDeep = collector.namespaceAtDeep ∧
      next.privateAtDeep = collector.privateAtDeep ∧
      next.functionIdAtDeep = (if visible then
        Function.update collector.functionIdAtDeep (deep + 1) (some collector.functions.length)
        else collector.functionIdAtDeep) ∧
      next.functions = (if visible then collector.functions ++ [collector.declared] else collector.functions) ∧
      (visible = true → deep < maxDeep) := by
  cases visible with
  | false =>
      simp only [Collector.beginFunction, Bool.false_eq_true, if_false, bind_eq_ok, pure_eq_ok,
        exists_eq_left'] at done
      subst done
      exact ⟨rfl, rfl, rfl, rfl, rfl, fun visible => absurd visible Bool.false_ne_true⟩
  | true =>
      simp only [Collector.beginFunction, Collector.pushFunction, if_true, bind_eq_ok, pure_eq_ok,
        atDeep_eq_ok, exists_exists_and_eq_and] at done
      obtain ⟨inner, ⟨place, inside⟩, rfl⟩ := done
      obtain rfl : inner = deep + 1 := by omega
      exact ⟨rfl, rfl, rfl, rfl, rfl, fun _ => inside⟩

theorem opensFunction_not_namespace {isTopLevel : Bool} (opens : collector.opensFunction isTopLevel = true) :
    collector.opensNamespace = false := by
  simp only [Collector.opensFunction, Bool.and_eq_true, Bool.not_eq_true'] at opens
  exact opens.1.1.1

theorem opened_beginBlock (here : collector.deep = deep)
    (done : collector.beginBlock (!collector.privateAtDeep deep) (collector.isTopLevel deep) = .ok next) :
    Opened collector deep next := by
  simp only [Collector.beginBlock, bind_eq_ok, pure_eq_ok] at done
  obtain ⟨entered, done, rfl⟩ := done
  unfold Collector.enterBlock at done
  by_cases isNamespace : collector.opensNamespace = true
  · have unlisted : collector.listsFunction deep = false := by
      simp only [Collector.listsFunction, Collector.opensFunction, isNamespace, Bool.not_true, Bool.false_and]
    simp only [isNamespace, if_true, Collector.enterNamespace, bind_eq_ok, pure_eq_ok, atDeep_eq_ok] at done
    obtain ⟨inner, ⟨place, inside⟩, rfl⟩ := done
    obtain rfl : inner = deep + 1 := by omega
    exact {
      level := rfl
      namespaces := by rw [if_pos isNamespace]
      privates := rfl
      ids := by rw [unlisted]; rfl
      functions := by rw [unlisted]; rfl
      inside := fun _ => inside }
  · rw [if_neg isNamespace] at done
    by_cases isFunction : collector.opensFunction (collector.isTopLevel deep) = true
    · rw [if_pos isFunction] at done
      obtain ⟨sameDeep, namespaces, privates, ids, functions, inside⟩ := beginFunction_eq_ok here done
      have listed : collector.listsFunction deep = !collector.privateAtDeep deep := by
        rw [Collector.listsFunction, isFunction, Bool.true_and]
      exact {
        level := congrArg (· + 1) sameDeep
        namespaces := by rw [if_neg isNamespace]; exact namespaces
        privates := privates
        ids := by rw [listed]; exact ids
        functions := by rw [listed]; exact functions
        inside := fun entered => inside (listed ▸ entered.resolve_left isNamespace) }
    · have unlisted : collector.listsFunction deep = false := by
        rw [Collector.listsFunction, Bool.eq_false_iff.mpr isFunction, Bool.false_and]
      rw [if_neg isFunction] at done
      obtain rfl := pure_eq_ok.mp done
      exact {
        level := rfl
        namespaces := by rw [if_neg isNamespace]
        privates := rfl
        ids := by rw [unlisted]; rfl
        functions := by rw [unlisted]; rfl
        inside := fun entered => by
          rw [unlisted] at entered
          exact absurd (entered.resolve_right Bool.false_ne_true) isNamespace }

theorem inLastFunction_iff : collector.inLastFunction deep = true ↔
    ∃ id, collector.functionIdAtDeep deep = some id ∧ id + 1 = collector.functions.length := by
  unfold Collector.inLastFunction
  split
  · next id found => simp only [found, decide_eq_true_eq, Option.some.injEq, exists_eq_left']
  · next missing => simp only [missing, Bool.false_eq_true, reduceCtorEq, false_and, exists_false]

theorem setPrivateAt_fields (deep : Nat) (collector : Collector) (place : Nat) :
    let after := collector.setPrivateAt deep place
    after.deep = collector.deep ∧ after.namespaceAtDeep = collector.namespaceAtDeep ∧
      after.privateAtDeep = Function.update collector.privateAtDeep place true ∧
      after.functionIdAtDeep = collector.functionIdAtDeep ∧
      after.functions =
        if collector.inLastFunction deep then collector.functions.dropLast else collector.functions := by
  intro after
  by_cases last : collector.inLastFunction deep = true
  · have removed : after = { collector with
        privateAtDeep := Function.update collector.privateAtDeep place true }.setFunctions
          collector.functions.dropLast := if_pos last
    rw [removed, if_pos last]
    exact ⟨rfl, rfl, rfl, rfl, rfl⟩
  · have kept : after = { collector with
        privateAtDeep := Function.update collector.privateAtDeep place true } := if_neg last
    rw [kept, if_neg last]
    exact ⟨rfl, rfl, rfl, rfl, rfl⟩

/-- Only the first round of the loop can remove a function. -/
theorem setPrivateAt_once (last : collector.inLastFunction deep = true) (place : Nat) :
    (collector.setPrivateAt deep place).inLastFunction deep = false := by
  obtain ⟨-, -, -, ids, functions⟩ := setPrivateAt_fields deep collector place
  rw [Bool.eq_false_iff]
  intro again
  obtain ⟨id, found, size⟩ := Iff.mp inLastFunction_iff last
  obtain ⟨other, foundAgain, sizeAgain⟩ := Iff.mp inLastFunction_iff again
  rw [ids, found] at foundAgain
  cases foundAgain
  rw [functions, if_pos last, List.length_dropLast] at sizeAgain
  omega

theorem foldl_setPrivateAt (deep : Nat) (places : List Nat) (collector : Collector) :
    let after := places.foldl (Collector.setPrivateAt deep) collector
    after.deep = collector.deep ∧ after.namespaceAtDeep = collector.namespaceAtDeep ∧
      after.privateAtDeep = (fun i => if i ∈ places then true else collector.privateAtDeep i) ∧
      after.functionIdAtDeep = collector.functionIdAtDeep ∧
      after.functions =
        if places ≠ [] ∧ collector.inLastFunction deep then collector.functions.dropLast
        else collector.functions := by
  induction places generalizing collector with
  | nil => exact ⟨rfl, rfl, by simp, rfl, by simp⟩
  | cons place places ih =>
      obtain ⟨sameDeep, namespaces, privates, ids, functions⟩ := setPrivateAt_fields deep collector place
      obtain ⟨deeps, names, hidden, numbers, rest⟩ := ih (collector.setPrivateAt deep place)
      refine ⟨deeps.trans sameDeep, names.trans namespaces, hidden.trans ?_, numbers.trans ids, rest.trans ?_⟩
      · funext i
        rw [privates]
        by_cases own : i = place
        · subst own
          simp
        · simp [own]
      · by_cases last : collector.inLastFunction deep = true
        · simp only [setPrivateAt_once last place, Bool.false_eq_true, and_false, if_false, functions, last,
            if_true, ne_eq, reduceCtorEq, not_false_eq_true, and_self]
        · have unlisted : (collector.setPrivateAt deep place).inLastFunction deep = false := by
            rw [Bool.eq_false_iff]
            intro found
            obtain ⟨id, found, size⟩ := Iff.mp inLastFunction_iff found
            rw [ids] at found
            rw [functions, if_neg last] at size
            exact last (Iff.mpr inLastFunction_iff ⟨id, found, size⟩)
          simp only [unlisted, last, functions, Bool.false_eq_true, and_false, if_false]

theorem madePrivate_setPrivate (deep : Nat) (collector : Collector) :
    MadePrivate collector deep (collector.setPrivate deep) := by
  obtain ⟨sameDeep, namespaces, privates, ids, functions⟩ :=
    foldl_setPrivateAt deep (List.range' deep (maxDeep - deep)) collector
  refine ⟨sameDeep, namespaces, privates.trans ?_, ids, functions.trans ?_⟩
  · funext i
    refine if_congr ?_ rfl rfl
    rw [List.mem_range'_1]
    omega
  · refine if_congr (and_congr_left fun _ => ?_) rfl rfl
    rw [ne_eq, List.range'_eq_nil_iff]
    omega

theorem sameBlocks_collectComment {text : Stream} (done : collector.collectComment text = .ok next) :
    SameBlocks collector next := by
  unfold Collector.collectComment at done
  split at done
  · cases done
  · cases done
    exact ⟨rfl, rfl, rfl, rfl, rfl⟩

theorem sameBlocks_beginArguments (isTopLevel : Bool) :
    SameBlocks collector (collector.beginArguments isTopLevel) := by
  unfold Collector.beginArguments
  split
  · exact ⟨rfl, rfl, rfl, rfl, rfl⟩
  · exact ⟨rfl, rfl, rfl, rfl, rfl⟩

theorem round_endStatement (statement : token.1 = .semicolon ∨ token.1 = .directive)
    (done : collector.endStatement deep token = .ok next) : Round collector deep token next := by
  have notBegin : token.1 ≠ .blockBegin := by rcases statement with same | same <;> rw [same] <;> nofun
  have notEnd : token.1 ≠ .blockEnd := by rcases statement with same | same <;> rw [same] <;> nofun
  unfold Collector.endStatement at done
  cases command : commandOf token with
  | malformed => rw [command] at done; cases done
  | unknown => rw [command] at done; cases done
  | nothing =>
      rw [command] at done
      cases done
      exact .stays notBegin notEnd (command ▸ nofun) ⟨rfl, rfl, rfl, rfl, rfl⟩
  | setFileTitle title =>
      rw [command] at done
      cases done
      exact .stays notBegin notEnd (command ▸ nofun) ⟨rfl, rfl, rfl, rfl, rfl⟩
  | setPrivate =>
      rw [command] at done
      cases done
      obtain ⟨sameDeep, namespaces, privates, ids, functions⟩ := madePrivate_setPrivate deep { collector with
        fiEntry := { collector.fiEntry with name_ := [], args_ := [], return_ := [] }
        args := []
        returnType := []
        lastComment := [] }
      exact .mark command ⟨sameDeep, namespaces, privates, ids, functions⟩

theorem round_plain (notBegin : token.1 ≠ .blockBegin) (notEnd : token.1 ≠ .blockEnd)
    (plain : token.1 ≠ .directive) (same : SameBlocks collector next) : Round collector deep token next :=
  .stays notBegin notEnd (by rw [commandOf_nothing plain]; nofun) same

theorem round_dispatch (here : collector.deep = deep) (done : collector.dispatch deep token = .ok next) :
    Round collector deep token next := by
  unfold Collector.dispatch at done
  cases kind : token.1 with
  | blockBegin =>
      rw [kind] at done
      exact .opens kind (opened_beginBlock here done)
  | blockEnd =>
      rw [kind] at done
      cases done
      exact .closes kind ⟨rfl, rfl, rfl, rfl, rfl⟩
  | semicolon =>
      rw [kind] at done
      exact round_endStatement (.inl kind) done
  | directive =>
      rw [kind] at done
      exact round_endStatement (.inr kind) done
  | comment =>
      rw [kind] at done
      exact round_plain (kind ▸ nofun) (kind ▸ nofun) (kind ▸ nofun) (sameBlocks_collectComment done)
  | parentBegin =>
      rw [kind] at done
      cases done
      exact round_plain (kind ▸ nofun) (kind ▸ nofun) (kind ▸ nofun) (sameBlocks_beginArguments _)
  | _ =>
      rw [kind] at done
      cases done
      exact round_plain (kind ▸ nofun) (kind ▸ nofun) (kind ▸ nofun) ⟨rfl, rfl, rfl, rfl, rfl⟩

theorem appendArgs_eq (collector : Collector) (token : Token) :
    ∃ args, collector.appendArgs token = { collector with args } := by
  unfold Collector.appendArgs
  split
  · exact ⟨collector.args, rfl⟩
  · exact ⟨_, rfl⟩

/-- A round is one of the switch on a place that exists; the arguments, the return type and the last token
have nothing to do with the blocks. -/
theorem round_step (stepped : collector.step token = .ok next) :
    ∃ deep : Nat, collector.deep = deep ∧ deep ≤ maxDeep ∧ Round collector deep token next := by
  simp only [Collector.step, bind_eq_ok, pure_eq_ok, atDeep_eq_ok] at stepped
  obtain ⟨deep, ⟨here, inside⟩, middle, done, rfl⟩ := stepped
  refine ⟨deep, here, inside, ?_⟩
  obtain ⟨args, same⟩ := appendArgs_eq collector token
  rw [same] at done
  have appended : ({ collector with args } : Collector).deep = deep := here
  cases round_dispatch appended done with
  | opens begins opened =>
      exact .opens begins ⟨opened.level, opened.namespaces, opened.privates, opened.ids, opened.functions, opened.inside⟩
  | closes ends closed =>
      exact .closes ends ⟨closed.level, closed.namespaces, closed.privates, closed.ids, closed.functions⟩
  | mark hides marked =>
      exact .mark hides ⟨marked.level, marked.namespaces, marked.privates, marked.ids, marked.functions⟩
  | stays notBegin notEnd notHidden kept =>
      exact .stays notBegin notEnd notHidden ⟨kept.level, kept.namespaces, kept.privates, kept.ids, kept.functions⟩

/-! ## Whole scans -/

/-- The rounds over the first tokens of a file. -/
def readAll (sourceFile : SourceFile) (fname : LibStr.Text) (tokens : List Token) : Except Stop Collector :=
  tokens.foldlM Collector.step (.start sourceFile fname)

theorem readAll_concat : readAll sourceFile fname (before ++ [token]) = .ok next ↔
    ∃ collector, readAll sourceFile fname before = .ok collector ∧ collector.step token = .ok next := by
  rw [readAll, List.foldlM_append, bind_eq_ok]
  simp only [List.foldlM_cons, List.foldlM_nil, bind_pure]
  rfl

/-- The name of the namespace that a block begins which is opened behind these tokens. -/
def namespaceOf (sourceFile : SourceFile) (fname : LibStr.Text) (tokens : List Token) : Option Stream :=
  match readAll sourceFile fname tokens with
  | .ok collector => if collector.opensNamespace ∧ collector.lastIdent ≠ [] then some collector.lastIdent else none
  | .error _ => none

/-- The place in the list of the function whose body is opened behind these tokens. -/
def functionOf (sourceFile : SourceFile) (fname : LibStr.Text) (tokens : List Token) : Option Nat :=
  match readAll sourceFile fname tokens with
  | .ok collector => if collector.listsFunction collector.deep.toNat then some collector.functions.length else none
  | .error _ => none

/-- A name that is not empty. -/
def named (name : Stream) : Option Stream := if name = [] then none else some name

/-- What the arrays have to do with the tokens that were read. -/
structure Reading (sourceFile : SourceFile) (fname : LibStr.Text) (tokens : List Token) (collector : Collector) :
    Prop where
  deep : collector.deep = depth bracket tokens
  namespaces : Stacked bracket (maxDeep + 1) (namespaceOf sourceFile fname) tokens
    fun level => named (collector.namespaceAtDeep level)
  functions : Stacked bracket maxDeep (functionOf sourceFile fname) tokens collector.functionIdAtDeep
  privates : ∀ level < maxDeep, collector.privateAtDeep level = true ↔ Marked bracket tokens level
  unhidden : collector.privateAtDeep maxDeep = false

theorem reading_start : Reading sourceFile fname [] (.start sourceFile fname) where
  deep := rfl
  namespaces := stacked_nil fun _ _ => rfl
  functions := stacked_nil fun _ inside => if_pos inside
  privates _ _ := iff_of_false Bool.false_ne_true not_marked_nil
  unhidden := rfl

theorem change_eq_zero (notBegin : token.1 ≠ .blockBegin) (notEnd : token.1 ≠ .blockEnd) :
    (bracket token).change = 0 := by
  cases kind : bracket token with
  | opens => exact absurd (bracket_eq_opens.mp kind) notBegin
  | closes => exact absurd (bracket_eq_closes.mp kind) notEnd
  | mark => rfl
  | other => rfl

theorem named_update (names : Nat → Stream) (place : Nat) (name : Stream) :
    (fun level => named (Function.update names place name level)) =
      Function.update (fun level => named (names level)) place (named name) := by
  funext level
  exact Function.apply_update (fun _ => named) names place name level

theorem namespaceOf_eq (reached : readAll sourceFile fname before = .ok collector) :
    namespaceOf sourceFile fname before = if collector.opensNamespace then named collector.lastIdent else none := by
  rw [namespaceOf, reached, named]
  by_cases opens : collector.opensNamespace = true
  · by_cases empty : collector.lastIdent = []
    · simp [opens, empty]
    · simp [opens, empty]
  · simp [opens]

theorem functionOf_eq (reached : readAll sourceFile fname before = .ok collector)
    (here : collector.deep = deep) :
    functionOf sourceFile fname before =
      if collector.listsFunction deep then some collector.functions.length else none := by
  rw [functionOf, reached]
  simp only [here, Int.toNat_natCast]

theorem reading_step (reading : Reading sourceFile fname before collector)
    (reached : readAll sourceFile fname before = .ok collector) (stepped : collector.step token = .ok next) :
    Reading sourceFile fname (before ++ [token]) next := by
  obtain ⟨deep, here, inside, round⟩ := round_step stepped
  have depthHere : depth bracket before = deep := reading.deep.symm.trans here
  cases round with
  | stays notBegin notEnd notHidden same =>
      have flat := change_eq_zero notBegin notEnd
      refine ⟨?_, ?_, ?_, ?_, ?_⟩
      · rw [same.level, depth_concat, flat, Int.add_zero, reading.deep]
      · rw [same.namespaces]
        exact reading.namespaces.stays flat
      · rw [same.ids]
        exact reading.functions.stays flat
      · intro level low
        rw [same.privates, reading.privates level low, marked_concat]
        simp [bracket_eq_mark, bracket_eq_closes, notHidden, notEnd]
      · rw [same.privates, reading.unhidden]
  | mark hides marked =>
      have isMark := bracket_eq_mark.mpr hides
      have flat : (bracket token).change = 0 := by rw [isMark]; rfl
      refine ⟨?_, ?_, ?_, ?_, ?_⟩
      · rw [marked.level, depth_concat, flat, Int.add_zero, reading.deep]
      · rw [marked.namespaces]
        exact reading.namespaces.stays flat
      · rw [marked.ids]
        exact reading.functions.stays flat
      · intro level low
        rw [marked.privates, marked_concat, depthHere, isMark]
        simp only [low, and_true, true_and, reduceCtorEq, false_implies, Int.ofNat_le, ← reading.privates level low]
        split
        · next deeper => exact iff_of_true rfl (.inl deeper)
        · next outer => exact ⟨.inr, fun found => found.resolve_left outer⟩
      · rw [marked.privates]
        exact (if_neg fun bounds => Nat.lt_irrefl _ bounds.2).trans reading.unhidden
  | closes ends closed =>
      have isEnd := bracket_eq_closes.mpr ends
      refine ⟨?_, ?_, ?_, ?_, ?_⟩
      · rw [closed.level, depth_concat, isEnd, reading.deep]
        rfl
      · rw [closed.namespaces, named_update]
        exact reading.namespaces.closes isEnd depthHere
      · rw [closed.ids]
        exact reading.functions.closes isEnd depthHere
      · intro level low
        rw [closed.privates, marked_concat, depthHere, isEnd]
        simp only [low, and_true, reduceCtorEq, false_and, false_or, forall_const, Int.ofNat_lt,
          ← reading.privates level low]
        split
        · next deeper => exact iff_of_false Bool.false_ne_true fun found => Nat.not_lt.mpr deeper found.2
        · next outer => exact ⟨fun found => ⟨found, Nat.not_le.mp outer⟩, And.left⟩
      · rw [closed.privates]
        exact (if_neg fun bounds => Nat.lt_irrefl _ bounds.2).trans reading.unhidden
  | opens begins opened =>
      have isBegin := bracket_eq_opens.mpr begins
      refine ⟨?_, ?_, ?_, ?_, ?_⟩
      · rw [opened.level, depth_concat, isBegin, reading.deep]
        rfl
      · have written := reading.namespaces.opens isBegin depthHere
        rw [namespaceOf_eq reached] at written
        rw [opened.namespaces]
        by_cases isNamespace : collector.opensNamespace = true
        · rw [if_pos isNamespace] at written ⊢
          rw [named_update]
          cases name : named collector.lastIdent with
          | some found => rwa [name] at written
          | none =>
              rw [name] at written
              have deeper : deep + 1 < maxDeep + 1 := Nat.succ_lt_succ (opened.inside (.inl isNamespace))
              have empty := reading.namespaces.outside deeper (by omega)
              rwa [Function.update_eq_self_iff.mpr empty.symm]
        · rw [if_neg isNamespace] at written ⊢
          exact written
      · have written := reading.functions.opens isBegin depthHere
        rw [functionOf_eq reached here] at written
        rw [opened.ids]
        by_cases lists : collector.listsFunction deep = true
        · rw [if_pos lists] at written ⊢
          exact written
        · rw [if_neg lists] at written ⊢
          exact written
      · intro level low
        rw [opened.privates, reading.privates level low, marked_concat]
        simp [isBegin]
      · rw [opened.privates, reading.unhidden]

theorem reading_readAll {tokens : List Token} {collector : Collector}
    (reached : readAll sourceFile fname tokens = .ok collector) :
    Reading sourceFile fname tokens collector := by
  induction tokens using List.reverseRecOn generalizing collector with
  | nil =>
      cases reached
      exact reading_start
  | append_singleton before token ih =>
      obtain ⟨earlier, reached, stepped⟩ := readAll_concat.mp reached
      exact reading_step (ih reached) reached stepped

/-! ## The list of functions -/

/-- The tokens end at the top level of the file or of a namespace. -/
def TopLevel (sourceFile : SourceFile) (fname : LibStr.Text) (tokens : List Token) : Prop :=
  depth bracket tokens = 0 ∨ ∃ earlier name, OpenedAt bracket tokens earlier (depth bracket tokens) ∧
    namespaceOf sourceFile fname earlier = some name

/-- A block that begins behind the tokens is the body of a function. -/
def Declares (sourceFile : SourceFile) (fname : LibStr.Text) (tokens : List Token) (collector : Collector) : Prop :=
  collector.opensNamespace = false ∧ TopLevel sourceFile fname tokens ∧
    collector.fiEntry.name_ ≠ [] ∧ collector.fiEntry.args_ ≠ []

/-- The innermost open block is the body of the last function in the list. -/
def InLastBody (sourceFile : SourceFile) (fname : LibStr.Text) (tokens : List Token) (collector : Collector) :
    Prop :=
  depth bracket tokens < maxDeep ∧ ∃ earlier state, OpenedAt bracket tokens earlier (depth bracket tokens) ∧
    readAll sourceFile fname earlier = .ok state ∧ Declares sourceFile fname earlier state ∧
    ¬ Marked bracket earlier (depth bracket earlier) ∧ state.functions.length + 1 = collector.functions.length

theorem isTopLevel_iff (reading : Reading sourceFile fname before collector) (here : collector.deep = deep)
    (inside : deep ≤ maxDeep) : collector.isTopLevel deep = true ↔ TopLevel sourceFile fname before := by
  have depthHere : depth bracket before = deep := reading.deep.symm.trans here
  have stacked := reading.namespaces deep (Nat.lt_succ_of_le inside)
  rw [Collector.isTopLevel, Bool.or_eq_true, decide_eq_true_eq, decide_eq_true_eq, TopLevel, depthHere,
    Int.natCast_eq_zero]
  refine or_congr_right ⟨fun isNamed => ?_, ?_⟩
  · obtain ⟨earlier, opened, found⟩ := (stacked (collector.namespaceAtDeep deep)).mp (if_neg isNamed)
    exact ⟨earlier, _, opened, found⟩
  · rintro ⟨earlier, name, opened, found⟩ empty
    have isNamed : named (collector.namespaceAtDeep deep) = some name := (stacked name).mpr ⟨earlier, opened, found⟩
    rw [named, if_pos empty] at isNamed
    cases isNamed

theorem declares_iff (reading : Reading sourceFile fname before collector) (here : collector.deep = deep)
    (inside : deep ≤ maxDeep) :
    collector.opensFunction (collector.isTopLevel deep) = true ↔ Declares sourceFile fname before collector := by
  simp only [Collector.opensFunction, Bool.and_eq_true, Bool.not_eq_true', decide_eq_true_eq, and_assoc,
    isTopLevel_iff reading here inside, Declares, ne_eq]

theorem listsFunction_iff (reading : Reading sourceFile fname before collector) (here : collector.deep = deep)
    (inside : deep < maxDeep) : collector.listsFunction deep = true ↔
      Declares sourceFile fname before collector ∧ ¬ Marked bracket before (depth bracket before) := by
  have depthHere : depth bracket before = deep := reading.deep.symm.trans here
  rw [Collector.listsFunction, Bool.and_eq_true, declares_iff reading here (Nat.le_of_lt inside), Bool.not_eq_true',
    depthHere, ← reading.privates deep inside, Bool.not_eq_true]

/-- The tokens in front of an open block were read, too. -/
theorem reached_opened (reached : readAll sourceFile fname before = .ok collector) {earlier : List Token} {level : Int}
    (opened : OpenedAt bracket before earlier level) :
    ∃ state, readAll sourceFile fname earlier = .ok state ∧
      ∃ outer : Nat, state.deep = outer ∧ level = outer + 1 := by
  obtain ⟨brace, inside, rfl, -, here, -⟩ := opened
  rw [readAll, List.foldlM_append, bind_eq_ok] at reached
  obtain ⟨state, reachedEarlier, rest⟩ := reached
  rw [List.foldlM_cons, bind_eq_ok] at rest
  obtain ⟨_, stepped, -⟩ := rest
  obtain ⟨outer, deep, -, -⟩ := round_step stepped
  refine ⟨state, reachedEarlier, outer, deep, ?_⟩
  rw [← here, ← (reading_readAll reachedEarlier).deep, deep]

theorem inLastBody_iff (reached : readAll sourceFile fname before = .ok collector) (here : collector.deep = deep) :
    (deep < maxDeep ∧ collector.inLastFunction deep = true) ↔ InLastBody sourceFile fname before collector := by
  have reading := reading_readAll reached
  have depthHere : depth bracket before = deep := reading.deep.symm.trans here
  rw [InLastBody, depthHere, Int.ofNat_lt]
  refine and_congr_right fun inside => ?_
  rw [inLastFunction_iff]
  constructor
  · rintro ⟨id, found, last⟩
    obtain ⟨earlier, opened, begun⟩ := (reading.functions deep inside id).mp found
    obtain ⟨state, reachedEarlier, outer, outside, level⟩ := reached_opened reached opened
    rw [functionOf_eq reachedEarlier outside, Option.ite_none_right_eq_some, Option.some.injEq] at begun
    obtain ⟨lists, rfl⟩ := begun
    obtain ⟨declares, visible⟩ := (listsFunction_iff (reading_readAll reachedEarlier) outside (by omega)).mp lists
    exact ⟨earlier, state, opened, reachedEarlier, declares, visible, last⟩
  · rintro ⟨earlier, state, opened, reachedEarlier, declares, visible, last⟩
    obtain ⟨same, reachedSame, outer, outside, level⟩ := reached_opened reached opened
    obtain rfl : same = state := Except.ok.inj (reachedSame.symm.trans reachedEarlier)
    have lists := (listsFunction_iff (reading_readAll reachedEarlier) outside (by omega)).mpr ⟨declares, visible⟩
    refine ⟨_, (reading.functions deep inside _).mpr ⟨earlier, opened, ?_⟩, last⟩
    rw [functionOf_eq reachedEarlier outside, if_pos lists]

/-- What a round does to the list.  A function is added when its body begins, unless a pragma has made a block
around it private and no block of the same depth or of less was closed since.  A pragma in its body takes it
back if it is still the last one.  Nothing else changes the list.  So no function outside of private blocks
is missing, but behind a block that was closed they are listed in spite of the pragma. -/
theorem scan_lists (reached : readAll sourceFile fname before = .ok collector)
    (stepped : collector.step token = .ok next) :
    (token.1 = .blockBegin → Declares sourceFile fname before collector →
      (Marked bracket before (depth bracket before) → next.functions = collector.functions) ∧
      (¬ Marked bracket before (depth bracket before) →
        next.functions = collector.functions ++ [collector.declared]) ∧
      (next.functions = collector.functions → Enclosed bracket before) ∧
      (Enclosed bracket before → next.functions = collector.functions ++ [collector.declared] →
        ∃ earlier mark passed close rest, before = earlier ++ mark :: (passed ++ close :: rest) ∧
          bracket mark = .mark ∧ bracket close = .closes ∧
          depth bracket (earlier ++ mark :: passed) ≤ depth bracket before)) ∧
    (commandOf token = .setPrivate → InLastBody sourceFile fname before collector →
      next.functions = collector.functions.dropLast) ∧
    ((token.1 = .blockBegin → ¬ Declares sourceFile fname before collector) →
      (commandOf token = .setPrivate → ¬ InLastBody sourceFile fname before collector) →
      next.functions = collector.functions) := by
  have reading := reading_readAll reached
  obtain ⟨deep, here, inside, round⟩ := round_step stepped
  have longer : collector.functions ++ [collector.declared] ≠ collector.functions := by simp
  cases round with
  | opens begins opened =>
      have hides : commandOf token ≠ .setPrivate := by
        rw [commandOf_nothing (by rw [begins]; nofun)]
        nofun
      have listed : next.functions =
          if collector.listsFunction deep then collector.functions ++ [collector.declared]
          else collector.functions := opened.functions
      refine ⟨fun _ declares => ?_, fun absurd => (hides absurd).elim, fun undeclared _ => ?_⟩
      · have lists : collector.listsFunction deep = true ↔ ¬ Marked bracket before (depth bracket before) := by
          rcases Nat.lt_or_eq_of_le inside with below | rfl
          · rw [listsFunction_iff reading here below, and_iff_right declares]
          · -- Here the function would be listed, but there is no place for its body.
            have visible : collector.listsFunction maxDeep = true := by
              rw [Collector.listsFunction, (declares_iff reading here inside).mpr declares, reading.unhidden]
              rfl
            exact absurd (opened.inside (.inr visible)) (Nat.lt_irrefl _)
        by_cases marked : Marked bracket before (depth bracket before)
        · have kept : next.functions = collector.functions := by
            rw [listed, if_neg fun found => lists.mp found marked]
          exact ⟨fun _ => kept, fun visible => absurd marked visible, fun _ => marked.enclosed,
            fun _ added => absurd (added.symm.trans kept) longer⟩
        · have added : next.functions = collector.functions ++ [collector.declared] := by
            rw [listed, if_pos (lists.mpr marked)]
          exact ⟨fun found => absurd found marked, fun _ => added, fun kept => absurd (added.symm.trans kept) longer,
            fun enclosed _ => enclosed.marked_or_closed.resolve_left marked⟩
      · have unlisted : ¬ collector.listsFunction deep = true := fun lists => by
          rw [Collector.listsFunction, Bool.and_eq_true] at lists
          exact undeclared begins ((declares_iff reading here inside).mp lists.1)
        rw [listed, if_neg unlisted]
  | closes ends closed =>
      have plain : commandOf token = .nothing := commandOf_nothing (by rw [ends]; nofun)
      refine ⟨fun begins => ?_, fun hides => ?_, fun _ _ => closed.functions⟩
      · rw [ends] at begins
        cases begins
      · rw [plain] at hides
        cases hides
  | mark hides marked =>
      have isMacro : token.1 = .directive := by
        by_contra plain
        rw [commandOf_nothing plain] at hides
        cases hides
      have taken : next.functions =
          if deep < maxDeep ∧ collector.inLastFunction deep then collector.functions.dropLast
          else collector.functions := marked.functions
      refine ⟨fun begins => ?_, fun _ last => ?_, fun _ others => ?_⟩
      · rw [isMacro] at begins
        cases begins
      · rw [taken, if_pos ((inLastBody_iff reached here).mpr last)]
      · rw [taken, if_neg (mt (inLastBody_iff reached here).mp (others hides))]
  | stays notBegin notEnd notHidden same =>
      exact ⟨fun absurd => (notBegin absurd).elim, fun absurd => (notHidden absurd).elim, fun _ _ => same.functions⟩

/-- `#pragma qcbuild_set_private(1)` -/
def privatePragma : Token :=
  (.directive, [35, 112, 114, 97, 103, 109, 97, 32, 113, 99, 98, 117, 105, 108, 100, 95, 115, 101, 116, 95, 112, 114,
    105, 118, 97, 116, 101, 40, 49, 41])

/-- `namespace name {` -/
def namespaceTokens (name : Stream) : List Token := [(.ident, namespaceWord), (.ident, name), (.blockBegin, [123])]

/-- A private file with two namespaces, and the head of a function in the second one. -/
def leakTokens : List Token :=
  privatePragma :: namespaceTokens [97] ++ (.blockEnd, [125]) :: namespaceTokens [98] ++
    [(.ident, [102]), (.parentBegin, [40]), (.parentEnd, [41])]

/-- The variables behind them. -/
def leaked : Collector :=
  match readAll { name_ := [], title_ := [], functions_ := [] } [] leakTokens with
  | .ok collector => collector
  | .error _ => .start { name_ := [], title_ := [], functions_ := [] } []

theorem scan_lists_leak : ∃ next, leaked.step (.blockBegin, [123]) = .ok next ∧
    next.functions = leaked.functions ++ [leaked.declared] ∧ leaked.declared.name_ = [102] := by
  have reached : readAll { name_ := [], title_ := [], functions_ := [] } [] leakTokens = .ok leaked := rfl
  have reading := reading_readAll reached
  have declares : Declares { name_ := [], title_ := [], functions_ := [] } [] leakTokens leaked :=
    (declares_iff reading (show leaked.deep = (1 : Nat) from rfl) (by decide)).mp rfl
  have visible : ¬ Marked bracket leakTokens (depth bracket leakTokens) := fun marked =>
    absurd ((reading.privates 1 (by decide)).mpr marked) (by decide)
  have stepped : leaked.step (.blockBegin, [123]) = .ok _ := rfl
  exact ⟨_, stepped, ((scan_lists reached stepped).1 rfl declares).2.1 visible, rfl⟩

end Tegenaria.QCBuild.AutoDoc
