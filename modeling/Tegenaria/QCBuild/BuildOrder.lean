import Tegenaria.Foundation.Dependency
import Tegenaria.QCBuild.SourceInfo

/-!
# Order of the build

`GenerateBuildCleanScripts` writes the sections of the components into the main
`Build` and `Clean` scripts.  Each round goes over the components twice: the
first pass writes those that are resolved already, the second one resolves every
component against what has been written so far.  The loop ends after as many
rounds as there are components.

The common header and the closing lines of the scripts are left out, and so are
the failures to create them.
-/

namespace Tegenaria.QCBuild

open Foundation.Dependency LibStr

/-- What `FilePutBuildSection` writes about a component. -/
structure BuildSection where
  title : Text
  compDir : Text
  root : Text

/-- What `FilePutCleanSection` writes about a component. -/
structure CleanSection where
  title : Text
  compDir : Text
  program : Text
  qtFiles : Bool
  root : Text

namespace SourceInfo

def buildSection (info : SourceInfo) : BuildSection :=
  { title := info.get titleName
    compDir := info.get compDirName
    root := info.get rootName }

def cleanSection (info : SourceInfo) : CleanSection :=
  { title := info.get titleName
    compDir := info.get compDirName
    program := info.getLowered titleName
    qtFiles := info.isset qtModulesName
    root := info.get rootName }

end SourceInfo

/-- The two scripts and the titles of the components written to them.  The set of
titles is a list in the order of the insertions; nothing depends on the order in
which the source goes over it. -/
structure Scripts where
  resolvedSet : List Text
  build : List BuildSection
  clean : List CleanSection

namespace Scripts

def empty : Scripts := { resolvedSet := [], build := [], clean := [] }

/-- Writes the sections of a component.  Fails when the title is there already. -/
def put (scripts : Scripts) (info : SourceInfo) : Except Scripts Scripts :=
  let written :=
    { scripts with
      build := scripts.build ++ [info.buildSection]
      clean := scripts.clean ++ [info.cleanSection] }
  if info.title ∈ scripts.resolvedSet then
    .error written
  else
    .ok { written with resolvedSet := scripts.resolvedSet ++ [info.title] }

end Scripts

/-- The components that are left, with the scripts written so far. -/
abbrev Progress := List SourceInfo × Scripts

/-- Resolves a component against all the titles written so far. -/
def resolveAll (resolvedSet : List Text) (info : SourceInfo) : SourceInfo :=
  resolvedSet.foldl SourceInfo.resolve info

/-- One pass over the components.  The passes of a round differ in what they do to
a component before the test. -/
@[grind =] def pass (prepare : List Text → SourceInfo → SourceInfo) :
    List SourceInfo → Scripts → Except Scripts Progress
  | [], scripts => .ok ([], scripts)
  | info :: rest, scripts =>
      let prepared := prepare scripts.resolvedSet info
      if prepared.resolved then
        match scripts.put prepared with
        | .error written => .error written
        | .ok written => pass prepare rest written
      else
        match pass prepare rest scripts with
        | .error written => .error written
        | .ok (kept, written) => .ok (prepared :: kept, written)

/-- Both passes of one round. -/
def round (progress : Progress) : Except Scripts Progress :=
  match pass (fun _ info => info) progress.1 progress.2 with
  | .error written => .error written
  | .ok (kept, written) => pass resolveAll kept written

/-- Rounds while components are left, at most `maxIter` of them. -/
def rounds : (maxIter : Nat) → Progress → Except Scripts Progress
  | 0, progress => .ok progress
  | maxIter + 1, progress =>
      if progress.1 = [] then
        .ok progress
      else
        match round progress with
        | .error written => .error written
        | .ok after => rounds maxIter after

/-- The exit code and the scripts after at most `maxIter` rounds. -/
def generateWithin (maxIter : Nat) (comps : List SourceInfo) : Int × Scripts :=
  match rounds maxIter (comps, Scripts.empty) with
  | .error written => (-1, written)
  | .ok (left, written) => if left = [] then (0, written) else (-1, written)

def generateBuildCleanScripts (comps : List SourceInfo) : Int × Scripts :=
  generateWithin comps.length comps

section Invariant

open SourceInfo

/-- What is left of a component when the components of `order` are written. -/
structure Reduced (order : List SourceInfo) (original info : SourceInfo) : Prop where
  vars : info.vars = original.vars
  subset : info.dependsSet ⊆ original.dependsSet
  covered : ∀ needed ∈ original.dependsSet, needed ∈ info.dependsSet ∨ needed ∈ order.map title
  flag : info.FlagValid

theorem Reduced.mono {order : List SourceInfo} {original info : SourceInfo}
    (reduced : Reduced order original info) (added : List SourceInfo) :
    Reduced (order ++ added) original info := by
  refine { reduced with covered := ?_ }
  intro needed need
  rw [List.map_append]
  exact (reduced.covered needed need).imp_right (List.mem_append_left _)

theorem Reduced.resolve {order : List SourceInfo} {original info : SourceInfo}
    (reduced : Reduced order original info) {compTitle : Text}
    (written : compTitle ∈ order.map title) : Reduced order original (info.resolve compTitle) where
  vars := reduced.vars
  subset := (Finset.erase_subset _ _).trans reduced.subset
  covered := by
    intro needed need
    rw [resolve_dependsSet, Finset.mem_erase]
    by_cases same : needed = compTitle
    · exact .inr (same ▸ written)
    · exact (reduced.covered needed need).imp_left fun still => ⟨same, still⟩
  flag := reduced.flag.resolve compTitle

theorem resolveAll_dependsSet (resolvedSet : List Text) (info : SourceInfo) (needed : Text) :
    needed ∈ (resolveAll resolvedSet info).dependsSet ↔
      needed ∈ info.dependsSet ∧ needed ∉ resolvedSet := by
  induction resolvedSet generalizing info with
  | nil => simp [resolveAll]
  | cons compTitle rest ih =>
      rw [resolveAll, List.foldl_cons, ← resolveAll, ih, resolve_dependsSet, Finset.mem_erase,
        List.mem_cons, not_or]
      tauto

/-- A pass may only remove what is written already. -/
def Sound (prepare : List Text → SourceInfo → SourceInfo) : Prop :=
  ∀ ⦃order : List SourceInfo⦄ ⦃original info : SourceInfo⦄, Reduced order original info →
    Reduced order original (prepare (order.map title) info)

/-- A pass resolves every component that needs only what is written. -/
def Complete (prepare : List Text → SourceInfo → SourceInfo) : Prop :=
  ∀ ⦃order : List SourceInfo⦄ ⦃original info : SourceInfo⦄, Reduced order original info →
    (∀ needed ∈ original.dependsSet, needed ∈ order.map title) →
      (prepare (order.map title) info).resolved

theorem sound_nothing : Sound fun _ info => info := by
  intro order original info reduced
  exact reduced

theorem sound_resolveAll : Sound resolveAll := by
  have each : ∀ {titles : List Text} {order : List SourceInfo} {original info : SourceInfo},
      titles ⊆ order.map title → Reduced order original info →
        Reduced order original (resolveAll titles info) := by
    intro titles
    induction titles with
    | nil => exact fun _ reduced => reduced
    | cons compTitle rest ih =>
        intro order original info subset reduced
        rw [List.cons_subset] at subset
        exact ih subset.2 (reduced.resolve subset.1)
  intro order original info reduced
  exact each (List.Subset.refl _) reduced

theorem complete_resolveAll : Complete resolveAll := by
  intro order original info reduced ready
  rw [(sound_resolveAll reduced).flag.resolved_iff, Finset.eq_empty_iff_forall_notMem]
  intro needed still
  rw [resolveAll_dependsSet] at still
  exact still.2 (ready needed (reduced.subset still.1))

/-- The scripts with the sections of some components. -/
def Scripts.ofOrder (order : List SourceInfo) : Scripts :=
  { resolvedSet := order.map title
    build := order.map buildSection
    clean := order.map cleanSection }

theorem Scripts.put_ofOrder {order : List SourceInfo} {original info : SourceInfo}
    (vars : info.vars = original.vars) (fresh : original.title ∉ order.map title) :
    (ofOrder order).put info = .ok (ofOrder (order ++ [original])) := by
  have same : ∀ lvalue, info.get lvalue = original.get lvalue := by
    intro lvalue
    rw [SourceInfo.get, SourceInfo.get, vars]
  have sameTitle : info.title = original.title := same titleName
  have sameBuild : info.buildSection = original.buildSection := by
    simp only [buildSection, same]
  have sameClean : info.cleanSection = original.cleanSection := by
    simp only [cleanSection, getLowered, isset, same]
  rw [put, if_neg (by rwa [sameTitle])]
  simp [ofOrder, sameTitle, sameBuild, sameClean]

/-- The components of `order` are written, each after those that it needs, and
`originals` are left. -/
structure Written (order originals : List SourceInfo) (progress : Progress) : Prop where
  scripts : progress.2 = Scripts.ofOrder order
  reduced : List.Forall₂ (Reduced order) originals progress.1
  sequenced : Sequenced title dependsSet order
  distinct : ((order ++ originals).map title).Nodup

/-- Some of the components are written in addition, and every one that is left
misses a component that was not written before. -/
structure Advanced (order originals : List SourceInfo) (complete : Prop)
    (result : Except Scripts Progress) (added left : List SourceInfo) (after : Progress) : Prop where
  ended : result = .ok after
  written : Written (order ++ added) left after
  perm : (added ++ left).Perm originals
  missing : complete → ∀ original ∈ left, ∃ needed ∈ original.dependsSet, needed ∉ order.map title

theorem Written.distinct_rest {order originals : List SourceInfo} {original info : SourceInfo}
    {rest : List SourceInfo} {scripts : Scripts}
    (written : Written order (original :: originals) (info :: rest, scripts)) :
    Written order originals (rest, scripts) where
  scripts := written.scripts
  reduced := (List.forall₂_cons.mp written.reduced).2
  sequenced := written.sequenced
  distinct := written.distinct.sublist
    (((List.sublist_cons_self original originals).append_left order).map title)

theorem Written.fresh {order originals : List SourceInfo} {original : SourceInfo}
    {progress : Progress} (written : Written order (original :: originals) progress) :
    original.title ∉ order.map title := by
  intro twice
  have distinct := written.distinct
  rw [List.map_append, List.nodup_append] at distinct
  exact distinct.2.2 _ twice _ (List.mem_map_of_mem (List.mem_cons_self ..)) rfl

/-- A component that needs nothing more is written next. -/
theorem Written.next {order originals : List SourceInfo} {original info prepared : SourceInfo}
    {rest : List SourceInfo} {scripts : Scripts}
    (written : Written order (original :: originals) (info :: rest, scripts))
    (reduced : Reduced order original prepared) (ready : prepared.resolved) :
    Written (order ++ [original]) originals (rest, Scripts.ofOrder (order ++ [original])) where
  scripts := rfl
  reduced := (List.forall₂_cons.mp written.reduced).2.imp fun _ _ reduced => reduced.mono [original]
  sequenced := by
    apply written.sequenced.append
    intro needed need
    rw [reduced.flag.resolved_iff] at ready
    rcases reduced.covered needed need with still | done
    · rw [ready] at still
      exact absurd still (Finset.notMem_empty needed)
    · exact done
  distinct := by simpa using written.distinct

theorem pass_write {prepare : List Text → SourceInfo → SourceInfo} {info : SourceInfo}
    {rest : List SourceInfo} {scripts written : Scripts}
    (ready : (prepare scripts.resolvedSet info).resolved)
    (put : scripts.put (prepare scripts.resolvedSet info) = .ok written) :
    pass prepare (info :: rest) scripts = pass prepare rest written := by
  simp only [pass, if_pos ready, put]

theorem pass_keep {prepare : List Text → SourceInfo → SourceInfo} {info : SourceInfo}
    {rest : List SourceInfo} {scripts : Scripts} {after : Progress}
    (waiting : ¬ (prepare scripts.resolvedSet info).resolved)
    (ended : pass prepare rest scripts = .ok after) :
    pass prepare (info :: rest) scripts =
      .ok (prepare scripts.resolvedSet info :: after.1, after.2) := by
  simp only [pass, if_neg waiting, ended]

theorem pass_advances {prepare : List Text → SourceInfo → SourceInfo} (sound : Sound prepare) :
    ∀ {infos order originals : List SourceInfo} {scripts : Scripts},
      Written order originals (infos, scripts) →
        ∃ added left after, Advanced order originals (Complete prepare)
          (pass prepare infos scripts) added left after := by
  intro infos
  induction infos with
  | nil =>
      intro order originals scripts written
      have nothing : originals = [] := List.forall₂_nil_right_iff.mp written.reduced
      refine ⟨[], [], ([], scripts), rfl, ?_, ?_, ?_⟩
      · simpa [nothing] using written
      · simp [nothing]
      · intro _ original member
        simp at member
  | cons info rest ih =>
      intro order originals scripts written
      obtain ⟨original, others, reduced, _, rfl⟩ :=
        List.forall₂_cons_right_iff.mp written.reduced
      have prepared := sound reduced
      have atOrder : scripts = Scripts.ofOrder order := written.scripts
      subst atOrder
      by_cases ready : (prepare (order.map title) info).resolved
      · obtain ⟨added, left, after, advanced⟩ := ih (written.next prepared ready)
        refine ⟨original :: added, left, after, ?_, ?_, ?_, ?_⟩
        · rw [pass_write ready (Scripts.put_ofOrder prepared.vars written.fresh)]
          exact advanced.ended
        · simpa using advanced.written
        · exact advanced.perm.cons original
        · intro complete other member
          obtain ⟨needed, need, absent⟩ := advanced.missing complete other member
          refine ⟨needed, need, fun earlier => absent ?_⟩
          rw [List.map_append]
          exact List.mem_append_left _ earlier
      · obtain ⟨added, left, after, advanced⟩ := ih written.distinct_rest
        refine ⟨added, original :: left, (prepare (order.map title) info :: after.1, after.2),
          pass_keep ready advanced.ended, ?_, ?_, ?_⟩
        · refine { advanced.written with reduced := ?_, distinct := ?_ }
          · exact .cons (prepared.mono added) advanced.written.reduced
          · have perm : (order ++ added ++ original :: left).Perm (order ++ original :: others) := by
              rw [List.append_assoc]
              exact (List.perm_middle.trans (advanced.perm.cons original)).append_left order
            exact (perm.map title).nodup_iff.mpr written.distinct
        · exact List.perm_middle.trans (advanced.perm.cons original)
        · intro complete other member
          rcases List.mem_cons.mp member with rfl | member
          · by_contra nothing
            push Not at nothing
            exact ready (complete reduced nothing)
          · exact advanced.missing complete other member

theorem round_advances {order originals : List SourceInfo} {progress : Progress}
    (written : Written order originals progress) :
    ∃ added left after, Advanced order originals True (round progress) added left after := by
  obtain ⟨first, kept, middle, firstPass⟩ := pass_advances sound_nothing written
  obtain ⟨second, left, after, secondPass⟩ := pass_advances sound_resolveAll firstPass.written
  refine ⟨first ++ second, left, after, ?_, ?_, ?_, ?_⟩
  · rw [round, firstPass.ended]
    exact secondPass.ended
  · simpa using secondPass.written
  · rw [List.append_assoc]
    exact (secondPass.perm.append_left first).trans firstPass.perm
  · intro _ original member
    obtain ⟨needed, need, absent⟩ := secondPass.missing complete_resolveAll original member
    refine ⟨needed, need, fun earlier => absent ?_⟩
    rw [List.map_append]
    exact List.mem_append_left _ earlier

/-- A round writes at least one component of a list that can be put in order. -/
theorem Advanced.shorter {order originals added left : List SourceInfo}
    {result : Except Scripts Progress} {after progress : Progress}
    (advanced : Advanced order originals True result added left after)
    (written : Written order originals progress) (some : originals ≠ [])
    (closed : Closed title dependsSet (order ++ originals))
    (acyclic : Acyclic title dependsSet (order ++ originals)) : left.length < originals.length := by
  obtain ⟨original, others, rfl⟩ := List.exists_cons_of_ne_nil some
  obtain ⟨ready, member, fresh, needs⟩ := exists_ready closed acyclic
    (List.mem_append_right order (List.mem_cons_self ..)) written.fresh
  have pending : ready ∈ added ++ left := by
    rw [advanced.perm.mem_iff]
    refine (List.mem_append.mp member).resolve_left fun done => ?_
    exact fresh (List.mem_map_of_mem done)
  have chosen : ready ∈ added := by
    refine (List.mem_append.mp pending).resolve_right fun kept => ?_
    obtain ⟨needed, need, absent⟩ := advanced.missing trivial ready kept
    exact absent (needs needed need)
  have total := advanced.perm.length_eq
  rw [List.length_append] at total
  have positive := List.length_pos_of_mem chosen
  omega

theorem rounds_advance (maxIter : Nat) :
    ∀ {order originals : List SourceInfo} {progress : Progress}, Written order originals progress →
      ∃ added left after, Advanced order originals False (rounds maxIter progress) added left after ∧
        (Closed title dependsSet (order ++ originals) →
          Acyclic title dependsSet (order ++ originals) → originals.length ≤ maxIter → left = []) := by
  induction maxIter with
  | zero =>
      intro order originals progress written
      refine ⟨[], originals, progress, ⟨rfl, ?_, ?_, ?_⟩, ?_⟩
      · simpa using written
      · simp
      · intro impossible
        exact impossible.elim
      · intro _ _ short
        exact List.length_eq_zero_iff.mp (Nat.le_zero.mp short)
  | succ maxIter ih =>
      intro order originals progress written
      by_cases finished : progress.1 = []
      · have nothing : originals = [] := by
          have reduced := written.reduced
          rw [finished] at reduced
          exact List.forall₂_nil_right_iff.mp reduced
        refine ⟨[], originals, progress, ⟨by rw [rounds, if_pos finished], ?_, ?_, ?_⟩, ?_⟩
        · simpa using written
        · simp
        · intro impossible
          exact impossible.elim
        · intro _ _ _
          exact nothing
      · obtain ⟨first, kept, middle, one⟩ := round_advances written
        obtain ⟨second, left, after, more, complete⟩ := ih one.written
        have perm : (order ++ first ++ kept).Perm (order ++ originals) := by
          rw [List.append_assoc]
          exact one.perm.append_left order
        refine ⟨first ++ second, left, after, ⟨?_, ?_, ?_, ?_⟩, ?_⟩
        · rw [rounds, if_neg finished, one.ended]
          exact more.ended
        · simpa using more.written
        · rw [List.append_assoc]
          exact (more.perm.append_left first).trans one.perm
        · intro impossible
          exact impossible.elim
        · intro closed acyclic short
          have some : originals ≠ [] := by
            intro nothing
            rw [nothing] at written
            exact finished (List.forall₂_nil_left_iff.mp written.reduced)
          have shorter := one.shorter written some closed acyclic
          apply complete (closed.of_perm perm.symm) (acyclic.of_subset perm.subset)
          omega

end Invariant

section Main

open SourceInfo

variable {comps : List SourceInfo}

theorem written_start (distinct : (comps.map title).Nodup) (flags : ∀ info ∈ comps, info.FlagValid) :
    Written [] comps (comps, Scripts.empty) where
  scripts := rfl
  reduced := by
    rw [List.forall₂_same]
    intro info member
    exact ⟨rfl, Finset.Subset.refl _, fun _ need => .inl need, flags info member⟩
  sequenced := sequenced_nil
  distinct := by simpa using distinct

/-- The scripts list the components that could be ordered, and the exit code tells
whether these are all of them. -/
theorem generateWithin_spec (maxIter : Nat) (distinct : (comps.map title).Nodup)
    (flags : ∀ info ∈ comps, info.FlagValid) :
    ∃ order left, (generateWithin maxIter comps).2 = Scripts.ofOrder order ∧
      ((generateWithin maxIter comps).1 = 0 ↔ left = []) ∧ (order ++ left).Perm comps ∧
      Sequenced title dependsSet order ∧
      (Closed title dependsSet comps → Acyclic title dependsSet comps →
        comps.length ≤ maxIter → left = []) := by
  obtain ⟨order, left, after, advanced, complete⟩ :=
    rounds_advance maxIter (written_start distinct flags)
  have same : after.1 = [] ↔ left = [] := by
    rw [← List.length_eq_zero_iff, ← List.length_eq_zero_iff, advanced.written.reduced.length_eq]
  refine ⟨order, left, ?_, ?_, advanced.perm, advanced.written.sequenced, complete⟩
  · rw [generateWithin, advanced.ended]
    have scripts := advanced.written.scripts
    dsimp only
    split
    · exact scripts
    · exact scripts
  · rw [generateWithin, advanced.ended, ← same]
    dsimp only
    split
    · simpa
    · simpa

/-- A list that was written completely is in sequence. -/
theorem generateWithin_order {maxIter : Nat} (distinct : (comps.map title).Nodup)
    (flags : ∀ info ∈ comps, info.FlagValid) (success : (generateWithin maxIter comps).1 = 0) :
    ∃ order : List SourceInfo, order.Perm comps ∧ Sequenced title dependsSet order ∧
      (generateWithin maxIter comps).2 = Scripts.ofOrder order := by
  obtain ⟨order, left, scripts, solved, perm, sequenced, _⟩ :=
    generateWithin_spec maxIter distinct flags
  rw [solved.mp success, List.append_nil] at perm
  exact ⟨order, perm, sequenced, scripts⟩

theorem generateWithin_solvable {maxIter : Nat} (distinct : (comps.map title).Nodup)
    (flags : ∀ info ∈ comps, info.FlagValid) (success : (generateWithin maxIter comps).1 = 0) :
    Closed title dependsSet comps ∧ Acyclic title dependsSet comps := by
  obtain ⟨order, perm, sequenced, _⟩ := generateWithin_order distinct flags success
  have names : (order.map title).Nodup := (perm.map title).nodup_iff.mpr distinct
  exact ⟨sequenced.closed.of_perm perm, (sequenced.acyclic names).of_subset perm.symm.subset⟩

theorem generateBuildCleanScripts_solves (distinct : (comps.map title).Nodup)
    (flags : ∀ info ∈ comps, info.FlagValid) (closed : Closed title dependsSet comps)
    (acyclic : Acyclic title dependsSet comps) : (generateBuildCleanScripts comps).1 = 0 := by
  obtain ⟨order, left, _, solved, _, _, complete⟩ :=
    generateWithin_spec comps.length distinct flags
  exact solved.mpr (complete closed acyclic (Nat.le_refl _))

/-- The scripts are complete exactly for the lists in which every needed component
is there and none needs itself.  Both scripts then hold the sections of all
components in one order, each after what it needs, and more rounds would not help
any other list. -/
theorem generateBuildCleanScripts_ordered (comps : List SourceInfo)
    (distinct : (comps.map title).Nodup) (flags : ∀ info ∈ comps, info.FlagValid) :
    ((generateBuildCleanScripts comps).1 = 0 ↔
        (∀ info ∈ comps, ∀ needed ∈ info.dependsSet, needed ∈ comps.map title) ∧
          ∀ first, ¬ Relation.TransGen (Requires title dependsSet comps) first first) ∧
      ((generateBuildCleanScripts comps).1 = 0 →
        ∃ order : List SourceInfo, order.Perm comps ∧ Sequenced title dependsSet order ∧
          (generateBuildCleanScripts comps).2.build = order.map buildSection ∧
          (generateBuildCleanScripts comps).2.clean = order.map cleanSection) ∧
      ∀ maxIter, (generateWithin maxIter comps).1 = 0 → (generateBuildCleanScripts comps).1 = 0 := by
  refine ⟨⟨?_, ?_⟩, ?_, ?_⟩
  · intro success
    exact generateWithin_solvable distinct flags success
  · rintro ⟨closed, acyclic⟩
    exact generateBuildCleanScripts_solves distinct flags closed acyclic
  · intro success
    obtain ⟨order, perm, sequenced, scripts⟩ := generateWithin_order distinct flags success
    refine ⟨order, perm, sequenced, ?_, ?_⟩
    · exact congrArg Scripts.build scripts
    · exact congrArg Scripts.clean scripts
  · intro maxIter success
    obtain ⟨closed, acyclic⟩ := generateWithin_solvable distinct flags success
    exact generateBuildCleanScripts_solves distinct flags closed acyclic

/-- A program listed before the library it needs. -/
theorem programFirst_ordered :
    ∃ order : List SourceInfo,
      order.Perm [component ['P'] {['L']}, component ['L'] ∅] ∧
        Sequenced title dependsSet order ∧
        (generateBuildCleanScripts [component ['P'] {['L']}, component ['L'] ∅]).2.build =
          order.map buildSection ∧
        (generateBuildCleanScripts [component ['P'] {['L']}, component ['L'] ∅]).2.clean =
          order.map cleanSection := by
  refine (generateBuildCleanScripts_ordered [component ['P'] {['L']}, component ['L'] ∅]
    ?_ ?_).2.1 ?_
  · decide
  · intro info member flag
    rcases List.mem_pair.mp member with rfl | rfl
    · exact absurd flag (by decide)
    · rfl
  · decide

end Main

end Tegenaria.QCBuild
