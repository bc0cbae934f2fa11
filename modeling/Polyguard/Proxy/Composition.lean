import Polyguard.Proxy.Agreement
import Mathlib.Logic.Function.Basic

/-! The composition of the client and the primaries of the live generation.
The main thread schedules refreshes and reloads the configuration, one after the other.
A refresh thread works on the generation it was scheduled with, under the lock of the
client from its refresh to its end; a reload reads the composition under the same lock
for the generation that it publishes later. -/
namespace Polyguard.Proxy.Composition

abbrev Assignment := String → Option String

/-- A refresh thread: the lock is taken in `locked` and given back at the end of `leaving`. -/
inductive Refresh where
  | absent
  | scheduled (generation : Nat)
  | locked (generation : Nat)
  | changed (generation : Nat)
  | settled (generation : Nat)
  | leaving

/-- A reload under way. `outdated` records that the client changed after the read. -/
inductive Reload where
  | idle
  | loaded
  | built (generation : Nat) (outdated : Bool)

structure State where
  composition : Assignment
  holder : Option Nat
  refreshInProgress : Bool
  threads : Nat → Refresh
  reload : Reload
  agreements : Nat → Agreement
  generations : Nat
  live : Nat

inductive Event where
  | schedule (thread : Nat)
  | lock (thread : Nat)
  | refresh (thread : Nat) (outcome : Option Assignment)
  | updatePrimary (thread : Nat)
  | clear (thread : Nat)
  | unlock (thread : Nat)
  | load
  | build (width : Nat) (quarantined : List String)
  | fail
  | publish

def Reload.afterChange : Reload → Reload
  | .built generation _ => .built generation true
  | reload => reload

namespace State

def enter (state : State) (thread : Nat) (phase : Refresh) : State :=
  { state with threads := Function.update state.threads thread phase }

def buildRuntime (state : State) (width : Nat) (quarantined : List String) : State :=
  { state with
    agreements := Function.update state.agreements state.generations ⟨width,quarantined,state.composition⟩
    generations := state.generations + 1
    reload := .built state.generations false }

def refreshPrimary (state : State) (generation : Nat) : State :=
  let refreshed := (state.agreements generation).updatePrimary state.composition
  { state with agreements := Function.update state.agreements generation refreshed }

end State

/-- One step. A refresh without an assignment failed or found the composition unchanged. -/
inductive Step (state : State) : Event → State → Prop where
  | schedule {thread : Nat} (main : state.reload = .idle) (flag : state.refreshInProgress = false)
      (absent : state.threads thread = .absent) :
      Step state (.schedule thread) { state.enter thread (.scheduled state.live) with refreshInProgress := true }
  | lock {thread generation : Nat} (phase : state.threads thread = .scheduled generation) (open' : state.holder = none) :
      Step state (.lock thread) { state.enter thread (.locked generation) with holder := some thread }
  | refreshed {thread generation : Nat} {assignment : Assignment} (phase : state.threads thread = .locked generation)
      (differs : assignment ≠ state.composition) :
      Step state (.refresh thread (some assignment))
        { state.enter thread (.changed generation) with composition := assignment, reload := state.reload.afterChange }
  | retained {thread generation : Nat} (phase : state.threads thread = .locked generation) :
      Step state (.refresh thread none) (state.enter thread (.settled generation))
  | updatePrimary {thread generation : Nat} (phase : state.threads thread = .changed generation) :
      Step state (.updatePrimary thread) ((state.refreshPrimary generation).enter thread (.settled generation))
  | clear {thread generation : Nat} (phase : state.threads thread = .settled generation) :
      Step state (.clear thread) { state.enter thread .leaving with refreshInProgress := false }
  | unlock {thread : Nat} (phase : state.threads thread = .leaving) :
      Step state (.unlock thread) { state.enter thread .absent with holder := none }
  | load (main : state.reload = .idle) : Step state .load { state with reload := .loaded }
  | build {width : Nat} {quarantined : List String} (phase : state.reload = .loaded) (open' : state.holder = none) :
      Step state (.build width quarantined) (state.buildRuntime width quarantined)
  | fail (busy : state.reload ≠ .idle) : Step state .fail { state with reload := .idle }
  | publish {generation : Nat} {outdated : Bool} (phase : state.reload = .built generation outdated) :
      Step state .publish { state with live := generation, reload := .idle }

/-- The state after startup. -/
def initial (composition : Assignment) (width : Nat) (quarantined : List String) : State :=
  ⟨composition,none,false,fun _ => .absent,.idle,fun _ => ⟨width,quarantined,composition⟩,1,0⟩

/-- The states of runs whose steps all meet a condition on the state before them. -/
inductive Reachable (condition : State → Event → Prop) : State → Prop where
  | initial (composition : Assignment) (width : Nat) (quarantined : List String) :
      Reachable condition (initial composition width quarantined)
  | step {state next : State} {event : Event} :
      Reachable condition state → Step state event next → condition state event → Reachable condition next

/-- No reload and no refresh is in progress. -/
def State.quiet (state : State) : Prop := state.reload = .idle ∧ state.refreshInProgress = false

def State.current (state : State) : Prop := (state.agreements state.live).primary = state.composition

/-- A refresh changes the client only while its generation is live, and a reload
publishes only a generation that was built after the last change. -/
def Timely (state : State) : Event → Prop
  | .refresh thread (some _) => state.threads thread = .locked state.live
  | .publish => ∀ generation, state.reload ≠ .built generation true
  | _ => True

/-- A thread in one of the phases between the schedule and the cleared flag. -/
def Refresh.active : Refresh → Bool
  | .absent => false
  | .leaving => false
  | _ => true

def Refresh.holds : Refresh → Bool
  | .absent => false
  | .scheduled _ => false
  | _ => true

def Refresh.generation : Refresh → Option Nat
  | .scheduled generation => some generation
  | .locked generation => some generation
  | .changed generation => some generation
  | .settled generation => some generation
  | _ => none

/-- Who holds the lock, who set the flag and which generations are in use. -/
structure Discipline (state : State) : Prop where
  lock : ∀ thread, (state.threads thread).holds = true → state.holder = some thread
  flag : ∀ thread, (state.threads thread).active = true → state.refreshInProgress = true
  single : ∀ left right, (state.threads left).active = true → (state.threads right).active = true → left = right
  known : ∀ thread generation, (state.threads thread).generation = some generation → generation < state.generations ∧
    ∀ outdated, state.reload ≠ .built generation outdated
  live : state.live < state.generations
  built : ∀ generation outdated, state.reload = .built generation outdated → generation ≠ state.live ∧
    generation < state.generations

/-- The live generation has the composition of the client, unless a thread is about to
write it there; so has a generation built after the last change. -/
structure Inv (state : State) : Prop extends Discipline state where
  fresh : ∀ generation, state.reload = .built generation false →
    (state.agreements generation).primary = state.composition ∧ ∀ thread changed, state.threads thread ≠ .changed changed
  changing : ∀ thread generation, state.threads thread = .changed generation → generation = state.live
  current : (∀ thread generation, state.threads thread ≠ .changed generation) → state.current

theorem Discipline.noneChanging {state : State} (discipline : Discipline state) (free : state.holder = none) :
    ∀ thread generation, state.threads thread ≠ .changed generation := by
  intro thread generation phase
  have held := discipline.lock thread (by rw [phase]; rfl)
  rw [free] at held
  cases held

/-- A step of a refresh thread keeps the discipline when the other threads still have
the lock and the flag they rely on. -/
theorem Discipline.enter {state next : State} {thread : Nat} {phase : Refresh} (discipline : Discipline state)
    (threads : next.threads = Function.update state.threads thread phase)
    (generations : next.generations = state.generations) (live : next.live = state.live)
    (reload : ∀ generation outdated, next.reload = .built generation outdated → ∃ before, state.reload = .built generation before)
    (lock : phase.holds = true → next.holder = some thread)
    (locks : ∀ other, other ≠ thread → (state.threads other).holds = true → next.holder = some other)
    (flag : phase.active = true → next.refreshInProgress = true)
    (flags : ∀ other, other ≠ thread → (state.threads other).active = true → next.refreshInProgress = true)
    (single : phase.active = true → ∀ other, other ≠ thread → (state.threads other).active = false)
    (known : ∀ generation, phase.generation = some generation → generation < state.generations ∧
      ∀ outdated, state.reload ≠ .built generation outdated) : Discipline next := by
  have here : next.threads thread = phase := by rw [threads,Function.update_self]
  have there : ∀ other, other ≠ thread → next.threads other = state.threads other := by
    intro other differs
    rw [threads,Function.update_of_ne differs]
  refine ⟨?_,?_,?_,?_,?_,?_⟩
  · intro other holds
    by_cases same : other = thread
    · subst same
      rw [here] at holds
      exact lock holds
    · rw [there other same] at holds
      exact locks other same holds
  · intro other active
    by_cases same : other = thread
    · subst same
      rw [here] at active
      exact flag active
    · rw [there other same] at active
      exact flags other same active
  · intro left right leftActive rightActive
    by_cases leftSame : left = thread
    · subst leftSame
      by_cases rightSame : right = left
      · exact rightSame.symm
      · rw [here] at leftActive
        rw [there right rightSame,single leftActive right rightSame] at rightActive
        cases rightActive
    · rw [there left leftSame] at leftActive
      by_cases rightSame : right = thread
      · subst rightSame
        rw [here] at rightActive
        rw [single rightActive left leftSame] at leftActive
        cases leftActive
      · rw [there right rightSame] at rightActive
        exact discipline.single left right leftActive rightActive
  · intro other generation uses
    have before : generation < state.generations ∧ ∀ outdated, state.reload ≠ .built generation outdated := by
      by_cases same : other = thread
      · subst same
        rw [here] at uses
        exact known generation uses
      · rw [there other same] at uses
        exact discipline.known other generation uses
    refine ⟨generations ▸ before.1,?_⟩
    intro outdated built
    obtain ⟨earlier,built_before⟩ := reload generation outdated built
    exact before.2 earlier built_before
  · rw [generations,live]
    exact discipline.live
  · intro generation outdated built
    obtain ⟨earlier,built_before⟩ := reload generation outdated built
    rw [generations,live]
    exact discipline.built generation earlier built_before

/-- The next phase of an active thread that stays active on its generation, with the lock. -/
theorem Discipline.proceed {state next : State} {thread generation : Nat} {before phase : Refresh}
    (discipline : Discipline state) (here : state.threads thread = before)
    (threads : next.threads = Function.update state.threads thread phase)
    (generations : next.generations = state.generations) (live : next.live = state.live)
    (reload : ∀ generation outdated, next.reload = .built generation outdated → ∃ before, state.reload = .built generation before)
    (holder : next.holder = state.holder) (flag : next.refreshInProgress = state.refreshInProgress)
    (holds : before.holds = true) (active : before.active = true)
    (uses : before.generation = some generation) (uses' : phase.generation = some generation) : Discipline next := by
  subst here
  refine discipline.enter threads generations live reload ?_ ?_ ?_ ?_ ?_ ?_
  · intro _
    exact holder.trans (discipline.lock thread holds)
  · intro other _ others
    exact holder.trans (discipline.lock other others)
  · intro _
    exact flag.trans (discipline.flag thread active)
  · intro other _ others
    exact flag.trans (discipline.flag other others)
  · intro _ other differs
    cases others : (state.threads other).active with
    | false => rfl
    | true => exact absurd (discipline.single other thread others active) differs
  · intro other used
    rw [uses'] at used
    cases used
    exact discipline.known thread generation uses

/-- A refresh step that is not a change keeps the data of the invariant. -/
theorem Inv.unchanged {state next : State} {thread : Nat} {phase : Refresh} (inv : Inv state) (discipline : Discipline next)
    (threads : next.threads = Function.update state.threads thread phase)
    (before : ∀ generation, state.threads thread ≠ .changed generation) (after : ∀ generation, phase ≠ .changed generation)
    (composition : next.composition = state.composition) (agreements : next.agreements = state.agreements)
    (reload : next.reload = state.reload) (live : next.live = state.live) : Inv next := by
  have changed_before : ∀ other generation, next.threads other = .changed generation → state.threads other = .changed generation := by
    intro other generation held
    rw [threads,Function.update_apply] at held
    split at held
    · exact absurd held (after generation)
    · exact held
  have changed_after : ∀ other generation, state.threads other = .changed generation → next.threads other = .changed generation := by
    intro other generation held
    have differs : other ≠ thread := by
      rintro rfl
      exact before generation held
    rw [threads,Function.update_of_ne differs,held]
  refine ⟨discipline,?_,?_,?_⟩
  · intro generation built
    rw [reload] at built
    obtain ⟨primary,unchanging⟩ := inv.fresh generation built
    rw [agreements,composition]
    exact ⟨primary,fun other changed held => unchanging other changed (changed_before other changed held)⟩
  · intro other generation held
    rw [live]
    exact inv.changing other generation (changed_before other generation held)
  · intro unchanging
    rw [State.current,agreements,composition,live]
    exact inv.current fun other generation held => unchanging other generation (changed_after other generation held)

theorem Reload.afterChange_built {reload : Reload} {generation : Nat} {outdated : Bool}
    (built : reload.afterChange = .built generation outdated) :
    outdated = true ∧ ∃ before, reload = .built generation before := by
  cases reload with
  | idle => cases built
  | loaded => cases built
  | built earlier before =>
    cases built
    exact ⟨rfl,before,rfl⟩

theorem Step.inv {state next : State} {event : Event} (step : Step state event next) (timely : Timely state event)
    (inv : Inv state) : Inv next := by
  have same_reload : ∀ generation outdated, state.reload = .built generation outdated →
      ∃ before, state.reload = .built generation before := fun _ outdated built => ⟨outdated,built⟩
  cases step with
  | schedule main flag absent =>
    have inactive : ∀ other, (state.threads other).active = false := by
      intro other
      cases active : (state.threads other).active with
      | false => rfl
      | true => exact (inv.flag other active).symm.trans flag
    refine inv.unchanged (inv.toDiscipline.enter rfl rfl rfl same_reload nofun ?_ ?_ ?_ ?_ ?_) rfl ?_ nofun rfl rfl rfl rfl
    · intro other _ holds
      exact inv.lock other holds
    · intro _
      rfl
    · intro other _ active
      rfl
    · intro _ other _
      exact inactive other
    · intro generation uses
      cases uses
      refine ⟨inv.live,?_⟩
      intro outdated built
      exact (inv.built _ _ built).1 rfl
    · intro generation held
      rw [absent] at held
      cases held
  | lock phase open' =>
    rename_i thread generation
    refine inv.unchanged (inv.toDiscipline.enter rfl rfl rfl same_reload ?_ ?_ ?_ ?_ ?_ ?_) rfl ?_ nofun rfl rfl rfl rfl
    · intro _
      rfl
    · intro other _ holds
      have held := inv.lock other holds
      rw [open'] at held
      cases held
    · intro _
      exact inv.flag thread (by rw [phase]; rfl)
    · intro other _ active
      exact inv.flag other active
    · intro _ other differs
      cases others : (state.threads other).active with
      | false => rfl
      | true => exact absurd (inv.single other thread others (by rw [phase]; rfl)) differs
    · intro other uses
      cases uses
      exact inv.known thread generation (by rw [phase]; rfl)
    · intro other held
      rw [phase] at held
      cases held
  | refreshed phase differs =>
    rename_i thread generation assignment
    have live : generation = state.live := by
      have here : state.threads thread = .locked state.live := timely
      rw [phase] at here
      cases here
      rfl
    refine ⟨inv.toDiscipline.proceed phase rfl rfl rfl (fun _ _ built => (Reload.afterChange_built built).2)
      rfl rfl rfl rfl rfl rfl,?_,?_,?_⟩
    · intro built outdated
      cases (Reload.afterChange_built outdated).1
    · intro other changed held
      simp only [State.enter,Function.update_apply] at held
      split at held
      · cases held
        exact live
      · exact inv.changing other changed held
    · intro unchanging
      refine absurd ?_ (unchanging thread generation)
      simp only [State.enter,Function.update_self]
  | retained phase =>
    refine inv.unchanged (inv.toDiscipline.proceed phase rfl rfl rfl same_reload rfl rfl rfl rfl rfl rfl) rfl ?_ nofun rfl rfl rfl rfl
    intro other held
    rw [phase] at held
    cases held
  | updatePrimary phase =>
    rename_i thread generation
    have live := inv.changing thread generation phase
    refine ⟨inv.toDiscipline.proceed phase rfl rfl rfl same_reload rfl rfl rfl rfl rfl rfl,?_,?_,?_⟩
    · intro built fresh
      exact absurd phase ((inv.fresh built fresh).2 thread generation)
    · intro other changed held
      simp only [State.enter,State.refreshPrimary,Function.update_apply] at held
      split at held
      · cases held
      · exact inv.changing other changed held
    · intro _
      simp only [State.current,State.enter,State.refreshPrimary,live,Function.update_self]
      rfl
  | clear phase =>
    rename_i thread generation
    refine inv.unchanged (inv.toDiscipline.enter rfl rfl rfl same_reload ?_ ?_ nofun ?_ nofun nofun) rfl ?_ nofun rfl rfl rfl rfl
    · intro _
      exact inv.lock thread (by rw [phase]; rfl)
    · intro other _ holds
      exact inv.lock other holds
    · intro other differs active
      exact absurd (inv.single other thread active (by rw [phase]; rfl)) differs
    · intro other held
      rw [phase] at held
      cases held
  | unlock phase =>
    rename_i thread
    refine inv.unchanged (inv.toDiscipline.enter rfl rfl rfl same_reload nofun ?_ nofun ?_ nofun nofun) rfl ?_ nofun rfl rfl rfl rfl
    · intro other differs holds
      have mine := inv.lock thread (by rw [phase]; rfl)
      have theirs := inv.lock other holds
      rw [mine] at theirs
      exact absurd (Option.some.inj theirs).symm differs
    · intro other _ active
      exact inv.flag other active
    · intro other held
      rw [phase] at held
      cases held
  | load main =>
    exact ⟨⟨inv.lock,inv.flag,inv.single,fun thread generation uses => ⟨(inv.known thread generation uses).1,nofun⟩,inv.live,nofun⟩,
      nofun,inv.changing,inv.current⟩
  | build phase open' =>
    have quiet := inv.noneChanging open'
    have live_differs : state.live ≠ state.generations := Nat.ne_of_lt inv.live
    refine ⟨⟨inv.lock,inv.flag,inv.single,?_,Nat.lt_succ_of_lt inv.live,?_⟩,?_,inv.changing,?_⟩
    · intro thread generation uses
      have known := (inv.known thread generation uses).1
      refine ⟨Nat.lt_succ_of_lt known,?_⟩
      intro outdated built
      cases built
      exact Nat.lt_irrefl _ known
    · intro generation outdated built
      cases built
      exact ⟨Ne.symm live_differs,Nat.lt_succ_self _⟩
    · intro generation built
      cases built
      refine ⟨?_,quiet⟩
      simp only [State.buildRuntime,Function.update_self]
    · intro _
      have kept := inv.current quiet
      simp only [State.current,State.buildRuntime,Function.update_of_ne live_differs]
      exact kept
  | fail busy =>
    exact ⟨⟨inv.lock,inv.flag,inv.single,fun thread generation uses => ⟨(inv.known thread generation uses).1,nofun⟩,inv.live,nofun⟩,
      nofun,inv.changing,inv.current⟩
  | publish phase =>
    rename_i generation outdated
    cases outdated with
    | true => exact absurd phase (timely generation)
    | false =>
      have known := (inv.built _ _ phase).2
      obtain ⟨current,unchanging⟩ := inv.fresh _ phase
      refine ⟨⟨inv.lock,inv.flag,inv.single,fun thread other uses => ⟨(inv.known thread other uses).1,nofun⟩,known,nofun⟩,nofun,?_,
        fun _ => current⟩
      intro thread changed held
      exact absurd held (unchanging thread changed)

theorem Reachable.inv {state : State} (reachable : Reachable Timely state) : Inv state := by
  induction reachable with
  | initial composition width quarantined =>
    exact ⟨⟨nofun,nofun,nofun,nofun,Nat.zero_lt_one,nofun⟩,nofun,nofun,fun _ => rfl⟩
  | step _ step timely ih => exact step.inv timely ih

/-- In every state of a timely run with no reload and no refresh in progress the live
generation has the composition of the client. -/
theorem composition_current {state : State} (reachable : Reachable Timely state) (quiet : state.quiet) : state.current := by
  have inv := reachable.inv
  refine inv.current ?_
  intro thread generation phase
  have flag := inv.flag thread (by rw [phase]; rfl)
  rw [quiet.2] at flag
  cases flag

/-- A refresh that changes the client while its generation is live. -/
theorem composition_current_refreshed : ∃ state, Reachable Timely state ∧ state.quiet ∧ state.current ∧
    state.composition "select_route" = some "route_trie" := by
  have start : Reachable Timely _ := .initial (fun _ => none) 3 []
  have scheduled := start.step (.schedule rfl rfl (rfl : State.threads _ 0 = _)) trivial
  have locked := scheduled.step (.lock (rfl : State.threads _ 0 = .scheduled 0) rfl) trivial
  have differs : (fun _ => some "route_trie" : Assignment) ≠ fun _ => none := by
    intro same
    cases congrFun same ""
  have refreshed := locked.step (.refreshed (rfl : State.threads _ 0 = .locked 0) differs) rfl
  have updated := refreshed.step (.updatePrimary (rfl : State.threads _ 0 = .changed 0)) trivial
  have cleared := updated.step (.clear (rfl : State.threads _ 0 = .settled 0)) trivial
  exact ⟨_,cleared,⟨rfl,rfl⟩,composition_current cleared ⟨rfl,rfl⟩,rfl⟩

/-- A reload publishes a generation between the schedule of a refresh and its change:
the change goes to the generation before. -/
theorem composition_lost : ¬∀ state, Reachable (fun _ _ => True) state → state.quiet → state.current := by
  intro claim
  have start : Reachable (fun _ _ => True) _ := .initial (fun _ => none) 3 []
  have scheduled := start.step (.schedule rfl rfl (rfl : State.threads _ 0 = _)) trivial
  have loaded := scheduled.step (.load rfl) trivial
  have built := loaded.step (show Step _ (.build 3 []) _ from .build rfl rfl) trivial
  have published := built.step (.publish rfl) trivial
  have locked := published.step (.lock (rfl : State.threads _ 0 = .scheduled 0) rfl) trivial
  have differs : (fun _ => some "route_trie" : Assignment) ≠ fun _ => none := by
    intro same
    cases congrFun same ""
  have refreshed := locked.step (.refreshed (rfl : State.threads _ 0 = .locked 0) differs) trivial
  have updated := refreshed.step (.updatePrimary (rfl : State.threads _ 0 = .changed 0)) trivial
  have cleared := updated.step (.clear (rfl : State.threads _ 0 = .settled 0)) trivial
  have current : (none : Option String) = some "route_trie" := congrFun (claim _ cleared ⟨rfl,rfl⟩) ""
  cases current

end Polyguard.Proxy.Composition
