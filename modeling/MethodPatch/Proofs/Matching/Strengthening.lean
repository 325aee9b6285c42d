import MethodPatch.Proofs.Matching.FirstOfAll
import MethodPatch.Proofs.Matching.FullMatch
import Mathlib.Data.List.Forall2
import Mathlib.Data.List.NodupEquivFin
import Mathlib.Order.Bounds.Basic

set_option autoImplicit false

namespace MethodPatch

/-- The criteria `narrow` demand what `wide` demand, and may demand more where these leave it
open. -/
structure Criteria.Narrows (narrow wide : Criteria) : Prop where
  kind : narrow.kind = wide.kind
  owner : wide.owner = none ∨ narrow.owner = wide.owner
  name : wide.name = none ∨ narrow.name = wide.name
  descriptor : wide.descriptor = none ∨ narrow.descriptor = wide.descriptor
  access : wide.access = none ∨ narrow.access = wide.access

/-- The sequence `strong` has the criteria of `weak` in their order, each of them as they are or
narrowed, and may have more before the last ones. -/
structure SequenceSpec.Strengthens (strong weak : SequenceSpec) : Prop where
  before : List.SublistForall₂ (fun wide narrow => narrow.Narrows wide) weak.before strong.before
  last : ∃ narrow wide, strong.last = some narrow ∧ weak.last = some wide ∧ narrow.Narrows wide

/-- For every matcher of `weak` there is one of `strong`, in the same order, that accepts no visits
but those that it accepts. -/
structure MatchSequence.Implies (strong weak : MatchSequence) : Prop where
  before : ∃ position : Nat ↪o Nat, ∀ (step : Nat) (lax : Matcher), weak.before[step]? = some lax →
    ∃ strict, strong.before[position step]? = some strict ∧
      ∀ shown, strict.accepts shown = true → lax.accepts shown = true
  last : ∀ shown, strong.last.accepts shown = true → weak.last.accepts shown = true

theorem all_of_demand {α : Type} {narrow wide : Option α} (kept : wide = none ∨ narrow = wide)
    {meets : α → Bool} (met : narrow.all meets = true) : wide.all meets = true := by
  rcases kept with rfl | rfl
  · rfl
  · exact met

theorem Criteria.Narrows.accepts {narrow wide : Criteria} (narrows : narrow.Narrows wide)
    {shown : Visit} (accepted : narrow.matcher.accepts shown = true) :
    wide.matcher.accepts shown = true := by
  simp only [Matcher.accepts, matcher, admits, Bool.and_eq_true] at accepted ⊢
  obtain ⟨kind, ⟨⟨owner, name⟩, descriptor⟩, access⟩ := accepted
  exact ⟨narrows.kind ▸ kind, ⟨⟨all_of_demand narrows.owner owner, all_of_demand narrows.name name⟩,
    all_of_demand narrows.descriptor descriptor⟩, all_of_demand narrows.access access⟩

/-- A sequence that strengthens another one compiles if it does, and implies it. -/
theorem SequenceSpec.Strengthens.compile {strong weak : SequenceSpec}
    (strengthens : strong.Strengthens weak) :
    ∃ fewer more, strong.compile = .ok fewer ∧ weak.compile = .ok more ∧ fewer.Implies more := by
  obtain ⟨before, narrow, wide, last, lastOfWeak, narrows⟩ := strengthens
  obtain ⟨chosen, alike, sublist⟩ := List.sublistForall₂_iff.mp before
  obtain ⟨position, stands⟩ := List.sublist_iff_exists_orderEmbedding_getElem?_eq.mp sublist
  refine ⟨_, _, (strong.compile_eq_ok_iff _).mpr ⟨narrow, last, rfl⟩,
    (weak.compile_eq_ok_iff _).mpr ⟨wide, lastOfWeak, rfl⟩, ⟨position, ?_⟩,
    fun _ => narrows.accepts⟩
  intro step lax standing
  rw [MatchSequence.ofCriteria, List.getElem?_map, Option.map_eq_some_iff] at standing
  obtain ⟨criteria, standing, rfl⟩ := standing
  obtain ⟨inside, here⟩ := List.getElem?_eq_some_iff.mp standing
  have chosenInside : step < chosen.length := alike.length_eq ▸ inside
  have narrowed : chosen[step].Narrows weak.before[step] := alike.get inside chosenInside
  refine ⟨chosen[step].matcher, ?_, fun _ => (here ▸ narrowed).accepts⟩
  rw [MatchSequence.ofCriteria, List.getElem?_map, ← stands step,
    List.getElem?_eq_getElem chosenInside, Option.map_some]

namespace MatchSequence

variable {strong weak : MatchSequence} {visits : List Visit}

/-- A choice of visits for the stronger sequence holds one for the other. -/
theorem Implies.passes (implies : strong.Implies weak) {stop : Nat}
    (passes : strong.Passes visits strong.before.length stop) :
    weak.Passes visits weak.before.length stop := by
  obtain ⟨position, stands⟩ := implies.before
  obtain ⟨place, increasing, accepted⟩ := passes
  have inside (step : Fin weak.before.length) : position step < strong.before.length := by
    obtain ⟨strict, standing, _⟩ := stands step _ (List.getElem?_eq_getElem step.isLt)
    exact (List.getElem?_eq_some_iff.mp standing).1
  refine ⟨fun step => place ⟨position step, inside step⟩, ?_, fun step => ⟨(accepted _).1, ?_⟩⟩
  · intro first second less
    exact increasing (position.lt_iff_lt.mpr less)
  · have here := List.getElem?_eq_getElem step.isLt
    obtain ⟨strict, standing, implied⟩ := stands step _ here
    have strictly := (accepted ⟨position step, inside step⟩).2
    simp only [acceptsAt, standing, here, Option.any_some, Option.any_eq_true] at strictly ⊢
    obtain ⟨shown, visited, strictly⟩ := strictly
    exact ⟨shown, visited, implied shown strictly⟩

/-- Where a full match of the stronger sequence ends, one of the other ends. -/
theorem Implies.endsAt (implies : strong.Implies weak) {place : Nat}
    (ends : strong.EndsAt visits place) : weak.EndsAt visits place := by
  refine ⟨implies.passes ends.1, ?_⟩
  have accepted := ends.2
  rw [Option.any_eq_true] at accepted ⊢
  obtain ⟨shown, visited, accepted⟩ := accepted
  exact ⟨shown, visited, implies.last shown accepted⟩

end MatchSequence

theorem AllFinder.found_take (sequence : MatchSequence) (visits : List Visit) {stop : Nat}
    (inside : stop ≤ visits.length) :
    (start.run sequence (visits.take stop)).found =
      (sequence.endsBefore visits stop).map Visit.anchor :=
  (tracks_run sequence visits stop inside).found

theorem FirstFinder.found_take (sequence : MatchSequence) (visits : List Visit) {stop : Nat}
    (inside : stop ≤ visits.length) :
    (start.run sequence (visits.take stop)).found =
      ((sequence.endsBefore visits stop).map Visit.anchor).head? := by
  rw [← AllFinder.found_take sequence visits inside]
  exact ((InStep.start sequence).run _).found

namespace MatchSequence.Implies

variable {strong weak : MatchSequence}

/-- Of the visits that full matches end at, the stronger sequence keeps some in their order. -/
theorem endsBefore_sublist (implies : strong.Implies weak) (visits : List Visit) (stop : Nat) :
    (strong.endsBefore visits stop).Sublist (weak.endsBefore visits stop) := by
  refine (List.monotone_filter_right _ fun shown ends => ?_).map _
  exact decide_eq_true (implies.endsAt (of_decide_eq_true ends))

/-- The anchors of the stronger sequence are among those of the other, in their order. -/
theorem locateAll_sublist (implies : strong.Implies weak) (owner : String) (method : Method) :
    (method.locateAll owner strong).Sublist (method.locateAll owner weak) := by
  have all (sequence : MatchSequence) :=
    AllFinder.found_take sequence (method.visits owner) (Nat.le_refl _)
  rw [List.take_length] at all
  rw [Method.locateAll, Method.locateAll, all, all]
  exact (implies.endsBefore_sublist _ _).map _

/-- As soon as the stronger sequence has an anchor, the other has one. -/
theorem hasFound (implies : strong.Implies weak) (visits : List Visit) {stop : Nat}
    (inside : stop ≤ visits.length)
    (found : (FirstFinder.start.run strong (visits.take stop)).hasFound = true) :
    (FirstFinder.start.run weak (visits.take stop)).hasFound = true := by
  have fewer := implies.endsBefore_sublist visits stop
  rw [FirstFinder.hasFound, FirstFinder.found_take _ _ inside, List.isSome_head?, ne_eq,
    List.map_eq_nil_iff] at found ⊢
  intro none
  rw [none, List.sublist_nil] at fewer
  exact found fewer

end MatchSequence.Implies

namespace FirstFinder

variable {sequence : MatchSequence} {visits : List Visit}

/-- The finder finds its anchor at the visit at `place`: up to there it has none. -/
structure FindsAt (sequence : MatchSequence) (visits : List Visit) (place : Nat) (anchor : Anchor) :
    Prop where
  visited : (visits[place]?).map Visit.anchor = some anchor
  before : (start.run sequence (visits.take place)).found = none
  after : (start.run sequence (visits.take (place + 1))).found = some anchor

theorem FindsAt.lt_length {place : Nat} {anchor : Anchor}
    (finds : FindsAt sequence visits place anchor) : place < visits.length := by
  obtain ⟨shown, here, _⟩ := Option.map_eq_some_iff.mp finds.visited
  exact (List.getElem?_eq_some_iff.mp here).1

theorem FindsAt.hasFound {place : Nat} {anchor : Anchor}
    (finds : FindsAt sequence visits place anchor) :
    (start.run sequence (visits.take (place + 1))).hasFound = true := by
  rw [FirstFinder.hasFound, finds.after, Option.isSome_some]

/-- What the finder has found at a visit it keeps to the end. -/
theorem FindsAt.run {place : Nat} {anchor : Anchor} (finds : FindsAt sequence visits place anchor) :
    (start.run sequence visits).found = some anchor := by
  have still := run_of_hasFound sequence finds.hasFound (visits.drop (place + 1))
  rw [FirstFinder.run, FirstFinder.run, ← List.foldl_append, List.take_append_drop] at still
  rw [FirstFinder.run, still]
  exact finds.after

/-- What a finder finds at a visit is the anchor of this visit. -/
theorem found_visit {finder : FirstFinder} (seeking : finder.found = none) (shown : Visit) :
    (finder.visit sequence shown).found = none ∨
      (finder.visit sequence shown).found = some shown.anchor := by
  rw [visit_eq]
  split_ifs <;> simp [seeking]

/-- A finder that has found something has found it at one of its visits. -/
theorem exists_findsAt (sequence : MatchSequence) (visits : List Visit) (stop : Nat)
    (done : (start.run sequence (visits.take stop)).hasFound = true) :
    ∃ place < stop, ∃ anchor, FindsAt sequence visits place anchor := by
  induction stop with
  | zero => exact absurd done Bool.false_ne_true
  | succ stop ih =>
      by_cases already : (start.run sequence (visits.take stop)).hasFound = true
      · obtain ⟨place, less, finds⟩ := ih already
        exact ⟨place, Nat.lt_succ_of_lt less, finds⟩
      · have before : (start.run sequence (visits.take stop)).found = none :=
          Option.not_isSome_iff_eq_none.mp already
        cases here : visits[stop]? with
        | none =>
            rw [List.take_add_one, here, Option.toList_none, List.append_nil] at done
            exact absurd done already
        | some shown =>
            have after : start.run sequence (visits.take (stop + 1)) =
                (start.run sequence (visits.take stop)).visit sequence shown := by
              rw [List.take_add_one, here, FirstFinder.run, List.foldl_append]
              rfl
            refine ⟨stop, Nat.lt_succ_self stop, shown.anchor, by rw [here]; rfl, before, ?_⟩
            rw [after] at done ⊢
            refine (found_visit before shown).resolve_left fun none => ?_
            rw [hasFound, none] at done
            exact Bool.false_ne_true done

theorem findsAt_of_run {anchor : Anchor} (found : (start.run sequence visits).found = some anchor) :
    ∃ place, FindsAt sequence visits place anchor := by
  have done : (start.run sequence (visits.take visits.length)).hasFound = true := by
    rw [List.take_length, hasFound, found, Option.isSome_some]
  obtain ⟨place, _, other, finds⟩ := exists_findsAt sequence visits visits.length done
  have same : some other = some anchor := finds.run.symm.trans found
  exact ⟨place, Option.some.inj same ▸ finds⟩

end FirstFinder

/-- Further demands and further criteria on the way only take anchors away. All anchors of the
stronger sequence are among all anchors of the other in the same order, and at the visit at which a
finder of the stronger one stops, or at an earlier one, a finder of the other has stopped. -/
theorem SequenceSpec.Strengthens.locates_fewer {strong weak : SequenceSpec}
    (strengthens : strong.Strengthens weak) :
    ∃ fewer more, strong.compile = .ok fewer ∧ weak.compile = .ok more ∧
      ∀ (owner : String) (method : Method),
        (method.locateAll owner fewer).Sublist (method.locateAll owner more) ∧
          ∀ anchor, method.locateFirst owner fewer = some anchor →
            ∃ first place earlier, method.locateFirst owner more = some first ∧ earlier ≤ place ∧
              FirstFinder.FindsAt fewer (method.visits owner) place anchor ∧
              FirstFinder.FindsAt more (method.visits owner) earlier first := by
  obtain ⟨fewer, more, compiled, compiledToo, implies⟩ := strengthens.compile
  refine ⟨fewer, more, compiled, compiledToo, fun owner method =>
    ⟨implies.locateAll_sublist owner method, fun anchor located => ?_⟩⟩
  obtain ⟨place, finds⟩ := FirstFinder.findsAt_of_run located
  have inside : place < (method.visits owner).length := finds.lt_length
  have done := implies.hasFound (method.visits owner) inside finds.hasFound
  obtain ⟨earlier, less, first, findsFirst⟩ := FirstFinder.exists_findsAt more _ _ done
  exact ⟨first, place, earlier, findsFirst.run, Nat.le_of_lt_succ less, finds, findsFirst⟩

/-- A call looked for after a cast, then only as a call of the class itself, after a call, a cast to
this class and a write: of three anchors one is left, and the first one is another. -/
theorem SequenceSpec.Strengthens.locates_fewer_tick :
    let tick (offset : UInt32) (owner : String) : Instruction :=
      .encoding offset (.invoke ⟨owner, "tick", "()V", .virtual, offset⟩)
    let cast (offset : UInt32) : Instruction := .encoding offset (.checkCast "app/Hud")
    let method : Method :=
      ⟨"loop", "()V", .packagePrivate, [], [cast 0, tick 3 "app/Hud", cast 6,
        .encoding 9 (.field ⟨"app/Hud", "shown", "Z", false, true⟩), tick 12 "app/Hud",
        tick 15 "app/Bar"], [], []⟩
    let weak : SequenceSpec := ⟨[.ofKind .typeCast], some (.methodCall "tick")⟩
    let before := [.ofKind .methodCall, (Criteria.ofKind .typeCast).ownedBy "app.Hud",
      (Criteria.ofKind .fieldAccess).accessedBy .write]
    let last := (Criteria.methodCall "tick").ownedBy "app.Hud"
    let fewer := MatchSequence.ofCriteria before last
    let more := MatchSequence.ofCriteria weak.before (.methodCall "tick")
    SequenceSpec.Strengthens ⟨before, some last⟩ weak ∧
      method.locateAll "app/Hud" fewer = [⟨12, none, .methodCall⟩] ∧
      (method.locateAll "app/Hud" fewer).Sublist (method.locateAll "app/Hud" more) ∧
      ∃ first place earlier, method.locateFirst "app/Hud" more = some first ∧ earlier ≤ place ∧
        FirstFinder.FindsAt fewer (method.visits "app/Hud") place ⟨12, none, .methodCall⟩ ∧
        FirstFinder.FindsAt more (method.visits "app/Hud") earlier first := by
  intro tick cast method weak before last fewer more
  have cast : ((Criteria.ofKind .typeCast).ownedBy "app.Hud").Narrows (.ofKind .typeCast) :=
    ⟨rfl, .inl rfl, .inl rfl, .inl rfl, .inl rfl⟩
  have call : last.Narrows (.methodCall "tick") := ⟨rfl, .inl rfl, .inr rfl, .inl rfl, .inl rfl⟩
  have strengthens : SequenceSpec.Strengthens ⟨before, some last⟩ weak :=
    ⟨.cons_right (.cons cast .nil), _, _, rfl, rfl, call⟩
  have located : method.locateFirst "app/Hud" fewer = some ⟨12, none, .methodCall⟩ := by
    decide +kernel
  obtain ⟨_, _, compiled, compiledToo, found⟩ := strengthens.locates_fewer
  obtain rfl : fewer = _ := Except.ok.inj compiled
  obtain rfl : more = _ := Except.ok.inj compiledToo
  obtain ⟨sublist, first⟩ := found "app/Hud" method
  exact ⟨strengthens, by decide +kernel, sublist, first _ located⟩

end MethodPatch
