import MethodPatch.Proofs.Override.Absorption
import MethodPatch.Proofs.Override.FixedPoint

set_option autoImplicit false

namespace MethodPatch

/-- A session and the classes that it is used on. -/
structure Workspace where
  session : Session
  classes : List Class
deriving DecidableEq, Repr

/-- What is done with the class at a place. -/
inductive Action where
  | register (place : Nat) (name descriptor : String)
  | apply (place : Nat)
deriving DecidableEq, Repr

def Action.isRegistration : Action → Bool
  | .register _ _ _ => true
  | .apply _ => false

/-- What came of some actions: the workspace that they lead to, the answers to the registrations
among them, which are the rules added or the reasons against, and how many calls changed. -/
structure Progress where
  workspace : Workspace
  answers : List (Except OverrideError (Option CallSiteRule))
  changed : Nat
deriving DecidableEq

namespace Progress

/-- The progress, with a number of calls that were changed before counted in. -/
def following (progress : Progress) (earlier : Nat) : Progress :=
  { progress with changed := earlier + progress.changed }

/-- The progress of actions that start where others have led. -/
def andThen (first later : Progress) : Progress :=
  ⟨later.workspace, first.answers ++ later.answers, first.changed + later.changed⟩

end Progress

namespace Workspace

/-- Takes an action. At a place without a class nothing is done. -/
def step (workspace : Workspace) : Action → Progress
  | .register place name descriptor =>
      match workspace.classes[place]? with
      | none => ⟨workspace, [], 0⟩
      | some owner =>
          match workspace.session.makeOverridable owner name descriptor with
          | .error reason => ⟨workspace, [.error reason], 0⟩
          | .ok (session, opened) =>
              ⟨⟨session, workspace.classes.set place opened⟩, [.ok session.rules.getLast?], 0⟩
  | .apply place =>
      match workspace.classes[place]? with
      | none => ⟨workspace, [], 0⟩
      | some owner =>
          ⟨⟨workspace.session, workspace.classes.set place (workspace.session.apply owner).1⟩, [],
            (workspace.session.apply owner).2⟩

/-- Takes actions one after another. -/
def run (workspace : Workspace) : List Action → Progress
  | [] => ⟨workspace, [], 0⟩
  | action :: rest =>
      let first := workspace.step action
      first.andThen (first.workspace.run rest)

theorem run_append (workspace : Workspace) (actions later : List Action) :
    workspace.run (actions ++ later) =
      (workspace.run actions).andThen ((workspace.run actions).workspace.run later) := by
  induction actions generalizing workspace with
  | nil =>
      rw [List.nil_append, run, Progress.andThen, List.nil_append, Nat.zero_add]
  | cons action rest ih =>
      rw [List.cons_append, run, run, ih]
      simp only [Progress.andThen, List.append_assoc, Nat.add_assoc]

/-- In no method whose raw body is known two calls share an offset. -/
def HasSeparateCalls (workspace : Workspace) : Prop :=
  ∀ owner ∈ workspace.classes, ∀ method ∈ owner.methods, method.HasSeparateCalls

theorem step_apply_of_none {workspace : Workspace} {place : Nat}
    (absent : workspace.classes[place]? = none) :
    workspace.step (.apply place) = ⟨workspace, [], 0⟩ := by
  rw [step, absent]

theorem step_apply_of_some {workspace : Workspace} {place : Nat} {owner : Class}
    (standing : workspace.classes[place]? = some owner) :
    workspace.step (.apply place) =
      ⟨⟨workspace.session, workspace.classes.set place (workspace.session.apply owner).1⟩, [],
        (workspace.session.apply owner).2⟩ := by
  rw [step, standing]

theorem step_register_of_none {workspace : Workspace} {place : Nat}
    (absent : workspace.classes[place]? = none) (name descriptor : String) :
    workspace.step (.register place name descriptor) = ⟨workspace, [], 0⟩ := by
  rw [step, absent]

theorem step_register_of_error {workspace : Workspace} {place : Nat} {owner : Class}
    {name descriptor : String} {reason : OverrideError}
    (standing : workspace.classes[place]? = some owner)
    (refused : workspace.session.makeOverridable owner name descriptor = .error reason) :
    workspace.step (.register place name descriptor) = ⟨workspace, [.error reason], 0⟩ := by
  simp only [step, standing, refused]

theorem step_register_of_ok {workspace : Workspace} {place : Nat} {owner opened : Class}
    {name descriptor : String} {session : Session}
    (standing : workspace.classes[place]? = some owner)
    (made : workspace.session.makeOverridable owner name descriptor = .ok (session, opened)) :
    workspace.step (.register place name descriptor) =
      ⟨⟨session, workspace.classes.set place opened⟩, [.ok session.rules.getLast?], 0⟩ := by
  simp only [step, standing, made]

@[simp] theorem length_step (workspace : Workspace) (action : Action) :
    (workspace.step action).workspace.classes.length = workspace.classes.length := by
  cases action with
  | register place name descriptor =>
      rw [step]
      split
      · rfl
      · split
        · rfl
        · exact List.length_set
  | apply place =>
      rw [step]
      split
      · rfl
      · exact List.length_set

/-- An action keeps whatever of classes registrations and applications keep. -/
theorem forall_mem_step {keeps : Class → Prop} {workspace : Workspace}
    (kept : ∀ owner ∈ workspace.classes, keeps owner)
    (registered : ∀ (session : Session) (owner opened : Class) (name descriptor : String),
      keeps owner → workspace.session.makeOverridable owner name descriptor = .ok (session, opened) →
        keeps opened)
    (applied : ∀ owner, keeps owner → keeps (workspace.session.apply owner).1) (action : Action) :
    ∀ owner ∈ (workspace.step action).workspace.classes, keeps owner := by
  have replaced {place : Nat} {changed : Class} (here : keeps changed) :
      ∀ owner ∈ workspace.classes.set place changed, keeps owner := by
    intro owner member
    rcases List.mem_or_eq_of_mem_set member with before | rfl
    · exact kept owner before
    · exact here
  cases action with
  | register place name descriptor =>
      rw [step]
      split
      · exact kept
      · rename_i owner standing
        split
        · exact kept
        · rename_i session opened made
          exact replaced (registered session owner opened name descriptor
            (kept owner (List.mem_of_getElem? standing)) made)
  | apply place =>
      rw [step]
      split
      · exact kept
      · rename_i owner standing
        exact replaced (applied owner (kept owner (List.mem_of_getElem? standing)))

/-- Calls that stand apart stay apart. -/
theorem HasSeparateCalls.step {workspace : Workspace} (separate : workspace.HasSeparateCalls)
    (action : Action) : (workspace.step action).workspace.HasSeparateCalls :=
  forall_mem_step separate
    (fun _ _ _ _ _ separate made => Session.hasSeparateCalls_makeOverridable separate made)
    (fun _ separate => Session.hasSeparateCalls_apply separate workspace.session) action

/-- The workspace `early` is `late`, except that some of its rules were applied to the class at a
place already and changed a number of calls there. -/
def IsAhead (early late : Workspace) (place changed : Nat) : Prop :=
  ∃ (owner : Class) (fewer : Session), late.classes[place]? = some owner ∧
    fewer.rules ⊆ late.session.rules ∧
    early = ⟨late.session, late.classes.set place (fewer.apply owner).1⟩ ∧
    changed = (fewer.apply owner).2

/-- Applying the rules to the class that is ahead makes up for it. -/
theorem IsAhead.step_here {early late : Workspace} {place changed : Nat}
    (ahead : early.IsAhead late place changed) (separate : late.HasSeparateCalls) :
    (early.step (.apply place)).following changed = late.step (.apply place) := by
  obtain ⟨owner, fewer, standing, within, rfl, rfl⟩ := ahead
  have bound : place < late.classes.length := (List.getElem?_eq_some_iff.mp standing).1
  have aheadStanding : (late.classes.set place (fewer.apply owner).1)[place]? =
      some (fewer.apply owner).1 := List.getElem?_set_self bound
  obtain ⟨same, total⟩ := Session.apply_apply within owner
    (separate owner (List.mem_of_getElem? standing))
  rw [step_apply_of_some aheadStanding, step_apply_of_some standing]
  simp only [Progress.following, List.set_set, same, total]

theorem IsAhead.session_eq {early late : Workspace} {place changed : Nat}
    (ahead : early.IsAhead late place changed) : early.session = late.session := by
  obtain ⟨_, _, _, _, rfl, _⟩ := ahead
  rfl

theorem IsAhead.getElem?_elsewhere {early late : Workspace} {place changed : Nat}
    (ahead : early.IsAhead late place changed) {other : Nat} (apart : place ≠ other) :
    early.classes[other]? = late.classes[other]? := by
  obtain ⟨_, _, _, _, rfl, _⟩ := ahead
  exact List.getElem?_set_ne apart

/-- The class stays ahead when another one is replaced and rules are added. -/
theorem IsAhead.set_elsewhere {early late : Workspace} {place changed : Nat}
    (ahead : early.IsAhead late place changed) {other : Nat} (apart : place ≠ other)
    {session : Session} (more : late.session.rules ⊆ session.rules) (replaced : Class) :
    IsAhead ⟨session, early.classes.set other replaced⟩
      ⟨session, late.classes.set other replaced⟩ place changed := by
  obtain ⟨owner, fewer, standing, within, rfl, rfl⟩ := ahead
  refine ⟨owner, fewer, ?_, List.Subset.trans within more, ?_, rfl⟩
  · rw [List.getElem?_set_ne (Ne.symm apart)]
    exact standing
  · rw [List.set_comm _ _ apart]

/-- A registration for the class that is ahead is answered alike and leaves it ahead. -/
theorem IsAhead.step_register {early late : Workspace} {place changed : Nat}
    (ahead : early.IsAhead late place changed) (name descriptor : String) :
    (early.step (.register place name descriptor)).workspace.IsAhead
        (late.step (.register place name descriptor)).workspace place changed ∧
      (early.step (.register place name descriptor)).answers =
        (late.step (.register place name descriptor)).answers ∧
      (early.step (.register place name descriptor)).changed =
        (late.step (.register place name descriptor)).changed := by
  have session := ahead.session_eq
  obtain ⟨owner, fewer, standing, within, started, counted⟩ := id ahead
  have bound : place < late.classes.length := (List.getElem?_eq_some_iff.mp standing).1
  have aheadStanding : early.classes[place]? = some (fewer.apply owner).1 := by
    rw [started]
    exact List.getElem?_set_self bound
  have alike := early.session.makeOverridable_apply fewer owner name descriptor
  cases made : late.session.makeOverridable owner name descriptor with
  | error reason =>
      rw [session, made] at alike
      rw [step_register_of_error standing made,
        step_register_of_error aheadStanding (session ▸ alike)]
      exact ⟨ahead, rfl, rfl⟩
  | ok result =>
      obtain ⟨extended, opened⟩ := result
      have more := Session.rules_subset_of_makeOverridable made
      rw [session, made] at alike
      rw [step_register_of_ok standing made, step_register_of_ok aheadStanding (session ▸ alike)]
      refine ⟨⟨opened, fewer, List.getElem?_set_self bound, List.Subset.trans within more, ?_, ?_⟩,
        rfl, rfl⟩
      · rw [started, List.set_set, List.set_set]
      · obtain ⟨_, _, _, _, _, rfl⟩ := (late.session.makeOverridable_eq_ok_iff _ _ _ _ _).mp made
        rw [counted, Session.apply_modifyMethod]

/-- Any action but applying the rules to the class that is ahead is answered alike and leaves it
ahead. -/
theorem IsAhead.step_other {early late : Workspace} {place changed : Nat}
    (ahead : early.IsAhead late place changed) {action : Action}
    (different : action ≠ .apply place) :
    (early.step action).workspace.IsAhead (late.step action).workspace place changed ∧
      (early.step action).answers = (late.step action).answers ∧
      (early.step action).changed = (late.step action).changed := by
  have session := ahead.session_eq
  cases action with
  | register other name descriptor =>
      by_cases here : place = other
      · subst here
        exact ahead.step_register name descriptor
      · have standing := ahead.getElem?_elsewhere here
        cases found : late.classes[other]? with
        | none =>
            rw [step_register_of_none found, step_register_of_none (standing.trans found)]
            exact ⟨ahead, rfl, rfl⟩
        | some owner =>
            cases made : late.session.makeOverridable owner name descriptor with
            | error reason =>
                rw [step_register_of_error found made,
                  step_register_of_error (standing.trans found) (session ▸ made)]
                exact ⟨ahead, rfl, rfl⟩
            | ok result =>
                have more := Session.rules_subset_of_makeOverridable made
                rw [step_register_of_ok found made,
                  step_register_of_ok (standing.trans found) (session ▸ made)]
                exact ⟨ahead.set_elsewhere here more _, rfl, rfl⟩
  | apply other =>
      have apart : place ≠ other := fun same => different (by rw [same])
      have standing := ahead.getElem?_elsewhere apart
      cases found : late.classes[other]? with
      | none =>
          rw [step_apply_of_none found, step_apply_of_none (standing.trans found)]
          exact ⟨ahead, rfl, rfl⟩
      | some owner =>
          rw [step_apply_of_some found, step_apply_of_some (standing.trans found), session]
          exact ⟨ahead.set_elsewhere apart (List.Subset.refl _) _, rfl, rfl⟩

/-- A run makes up for a class that is ahead once it applies the rules to it. -/
theorem IsAhead.run {early late : Workspace} {place changed : Nat}
    (ahead : early.IsAhead late place changed) (separate : late.HasSeparateCalls)
    {actions : List Action} (applied : .apply place ∈ actions) :
    (early.run actions).following changed = late.run actions := by
  induction actions generalizing early late with
  | nil => cases applied
  | cons action rest ih =>
      by_cases here : action = .apply place
      · subst here
        rw [Workspace.run, Workspace.run, ← ahead.step_here separate]
        simp only [Progress.andThen, Progress.following, Nat.add_assoc]
      · have later : .apply place ∈ rest :=
          (List.mem_cons.mp applied).resolve_left (Ne.symm here)
        obtain ⟨still, answers, changes⟩ := ahead.step_other here
        rw [Workspace.run, Workspace.run, ← ih still (separate.step action) later]
        simp only [Progress.andThen, Progress.following, answers, changes, Nat.add_left_comm]

/-- An application that is repeated later may be left out. -/
theorem run_apply_cons {workspace : Workspace} (separate : workspace.HasSeparateCalls) {place : Nat}
    {actions : List Action} (repeated : .apply place ∈ actions) :
    workspace.run (.apply place :: actions) = workspace.run actions := by
  cases standing : workspace.classes[place]? with
  | none =>
      rw [run, step_apply_of_none standing]
      simp only [Progress.andThen, List.nil_append, Nat.zero_add]
  | some owner =>
      have ahead : (workspace.step (.apply place)).workspace.IsAhead workspace place
          (workspace.session.apply owner).2 := by
        rw [step_apply_of_some standing]
        exact ⟨owner, workspace.session, standing, List.Subset.refl _, rfl, rfl⟩
      rw [run, ← ahead.run separate repeated, step_apply_of_some standing]
      rfl

/-- Applications may be left out where every class has the rules applied to it afterwards. -/
theorem run_filter_append (workspace : Workspace) (separate : workspace.HasSeparateCalls)
    (actions closing : List Action)
    (closed : ∀ place < workspace.classes.length, .apply place ∈ closing) :
    workspace.run (actions ++ closing) =
      workspace.run (actions.filter Action.isRegistration ++ closing) := by
  induction actions generalizing workspace with
  | nil => rfl
  | cons action rest ih =>
      cases action with
      | register place name descriptor =>
          rw [List.filter_cons_of_pos rfl, List.cons_append, List.cons_append, run, run]
          rw [ih _ (separate.step _) (by rwa [length_step])]
      | apply place =>
          rw [List.filter_cons_of_neg Bool.false_ne_true, List.cons_append,
            ← ih workspace separate closed]
          by_cases bound : place < workspace.classes.length
          · exact run_apply_cons separate (List.mem_append_right rest (closed place bound))
          · have absent := List.getElem?_eq_none (Nat.not_lt.mp bound)
            rw [run, step_apply_of_none absent]
            simp only [Progress.andThen, List.nil_append, Nat.zero_add]

/-- The rules have nothing left to change in the class at the place. -/
def IsSettledAt (workspace : Workspace) (place : Nat) : Prop :=
  ∀ owner, workspace.classes[place]? = some owner → workspace.session.apply owner = (owner, 0)

/-- Applying the rules at a place settles it. -/
theorem isSettledAt_step_apply (workspace : Workspace) (place : Nat) :
    (workspace.step (.apply place)).workspace.IsSettledAt place := by
  cases standing : workspace.classes[place]? with
  | none =>
      rw [step_apply_of_none standing]
      intro owner found
      rw [standing] at found
      cases found
  | some before =>
      have bound := (List.getElem?_eq_some_iff.mp standing).1
      rw [step_apply_of_some standing]
      intro owner found
      rw [List.getElem?_set_self bound, Option.some.injEq] at found
      rw [← found]
      exact workspace.session.apply_apply_self before

/-- An application leaves what is settled. -/
theorem IsSettledAt.step_apply {workspace : Workspace} {place : Nat}
    (settled : workspace.IsSettledAt place) (other : Nat) :
    (workspace.step (.apply other)).workspace.IsSettledAt place := by
  by_cases here : other = place
  · rw [here]
    exact workspace.isSettledAt_step_apply place
  · cases standing : workspace.classes[other]? with
    | none =>
        rw [step_apply_of_none standing]
        exact settled
    | some before =>
        rw [step_apply_of_some standing]
        intro owner found
        rw [List.getElem?_set_ne here] at found
        exact settled owner found

theorem IsSettledAt.run_applications {workspace : Workspace} {place : Nat}
    (settled : workspace.IsSettledAt place) (places : List Nat) :
    (workspace.run (places.map .apply)).workspace.IsSettledAt place := by
  induction places generalizing workspace with
  | nil => exact settled
  | cons other rest ih => exact ih (settled.step_apply other)

theorem isSettledAt_run_applications (workspace : Workspace) {places : List Nat} {place : Nat}
    (applied : place ∈ places) :
    (workspace.run (places.map .apply)).workspace.IsSettledAt place := by
  induction places generalizing workspace with
  | nil => cases applied
  | cons other rest ih =>
      rcases List.mem_cons.mp applied with rfl | later
      · exact (workspace.isSettledAt_step_apply place).run_applications rest
      · exact ih _ later

/-- Where everything is settled, applications do nothing. -/
theorem run_applications_of_settled {workspace : Workspace} {places : List Nat}
    (settled : ∀ place ∈ places, workspace.IsSettledAt place) :
    workspace.run (places.map .apply) = ⟨workspace, [], 0⟩ := by
  induction places with
  | nil => rfl
  | cons place rest ih =>
      have idle : workspace.step (.apply place) = ⟨workspace, [], 0⟩ := by
        cases standing : workspace.classes[place]? with
        | none => exact step_apply_of_none standing
        | some owner =>
            have unchanged := settled place List.mem_cons_self owner standing
            obtain ⟨bound, here⟩ := List.getElem?_eq_some_iff.mp standing
            rw [step_apply_of_some standing, unchanged, ← here, List.set_getElem_self]
      rw [List.map_cons, run, idle, ih fun other member =>
        settled other (List.mem_cons_of_mem place member)]
      rfl

/-- Actions that end with applying the rules to every class come to the same as their registrations
alone, followed by one application to each class: the same workspace, the same answers, and as many
changed calls. -/
theorem run_applied_early (workspace : Workspace) (actions : List Action) (closing : List Nat)
    (separate : workspace.HasSeparateCalls)
    (closed : ∀ place < workspace.classes.length, place ∈ closing) :
    workspace.run (actions ++ closing.map .apply) =
      workspace.run (actions.filter Action.isRegistration ++
        (List.range workspace.classes.length).map .apply) := by
  have closedAgain : ∀ place < workspace.classes.length,
      .apply place ∈ (List.range workspace.classes.length).map Action.apply :=
    fun place bound => List.mem_map_of_mem (List.mem_range.mpr bound)
  have noRegistrations : (closing.map Action.apply).filter Action.isRegistration = [] := by
    rw [List.filter_map]
    exact List.map_eq_nil_iff.mpr (List.filter_eq_nil_iff.mpr fun _ _ => Bool.false_ne_true)
  have settled : ∀ place ∈ List.range workspace.classes.length,
      (workspace.run (actions ++ closing.map .apply)).workspace.IsSettledAt place := by
    intro place member
    rw [run_append]
    exact isSettledAt_run_applications _ (closed place (List.mem_range.mp member))
  have repeated : workspace.run (actions ++ closing.map .apply ++
      (List.range workspace.classes.length).map .apply) =
        workspace.run (actions ++ closing.map .apply) := by
    rw [run_append, run_applications_of_settled settled]
    simp only [Progress.andThen, List.append_nil, Nat.add_zero]
  rw [← repeated, run_filter_append workspace separate _ _ closedAgain, List.filter_append,
    noRegistrations, List.append_nil]

/-- Two registrations with applications in between, each for a class of its own. -/
theorem run_applied_early_two_classes :
    let workspace : Workspace := ⟨.start, ["app/Hud", "app/Menu"].map fun name =>
      .drawing name .onlyPrivate .special⟩
    let registrations := [Action.register 0 "draw" "()V", .register 1 "draw" "()V"]
    let early := [Action.register 0 "draw" "()V", .apply 0, .apply 1, .register 1 "draw" "()V"]
    let closing := [1, 0]
    workspace.HasSeparateCalls ∧ (∀ place < 2, place ∈ closing) ∧
      workspace.run (early ++ closing.map .apply) =
        workspace.run (registrations ++ [.apply 0, .apply 1]) ∧
      (workspace.run (early ++ closing.map .apply)).changed = 2 := by
  intro workspace registrations early closing
  have separate : workspace.HasSeparateCalls := by
    unfold HasSeparateCalls
    decide +kernel
  have closed : ∀ place < 2, place ∈ closing := by decide
  have same := workspace.run_applied_early early closing separate closed
  have kept : early.filter Action.isRegistration = registrations := by decide
  have places : (List.range workspace.classes.length).map Action.apply =
      [.apply 0, .apply 1] := by decide
  rw [kept, places] at same
  have changed : (workspace.run (early ++ closing.map .apply)).changed = 2 := by
    rw [same]
    decide +kernel
  exact ⟨separate, closed, same, changed⟩

end Workspace

end MethodPatch
