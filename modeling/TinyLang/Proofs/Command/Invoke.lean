import TinyLang.Command.Invoke
import TinyLang.Proofs.Command.Job

/-!
# Calling the tool to start a project

The arguments behind the name of the command make a request to start a project, unless they ask for
help or for suggestions, or have an error. Then the site is left alone.

* `startRequest?`: the request.
* `call_init`, `detached_call_init`: what calling the tool comes to, with a request and without.
-/

namespace TinyLang.Command

open Act

/-! ## Help and suggestions -/

theorem detached_showHelp (p : HelpPlace) (topic : Text) {unknown : Text → Act Unit}
    (h : ∀ t, (unknown t).Detached) : (showHelp p topic unknown).Detached := by
  rw [showHelp]
  split
  · exact .say _
  · split
    · exact .say _
    · exact h _

/-- Reading flags leaves the site alone, if what is done with them does. -/
theorem detached_atLevel (line : Option (List Text)) (level : Level) (help : Text) (args : List Text)
    {next : Request → Act Unit} (hnext : ∀ given arguments,
      readFlags level.flags args = .ok (given, arguments) →
      (line.isSome = true → level.names.contains (Request.first ⟨given, arguments⟩) = true) →
        (next ⟨given, arguments⟩).Detached) : (atLevel line level help args next).Detached := by
  unfold atLevel
  split
  · rename_i given arguments hread
    exact hnext given arguments hread nofun
  · exact .bind (.say _) fun _ => .fail _
  · rename_i words given arguments hread
    dsimp only
    split
    · rename_i hname
      exact hnext given arguments hread fun _ => hname
    · exact .forM (fun _ => .say _) _
  · exact .exitWith _ _

theorem detached_helpAt (line : Option (List Text)) (fuel : Nat) (p : HelpPlace) (args : List Text) :
    (helpAt line fuel p args).Detached := by
  induction fuel generalizing p args with
  | zero => exact .pure ()
  | succ fuel ih =>
    rw [helpAt]
    refine detached_atLevel _ _ _ _ fun given arguments _ _ => ?_
    split
    · split
      · exact .say _
      · exact detached_showHelp _ _ fun _ => .fail _
    · split
      · exact ih _ _
      · exact detached_showHelp _ _ fun _ => .exitWith _ _

/-! ## Starting a project -/

/-- The request that the arguments behind the name of the command make, if they do not ask for help
or for suggestions. -/
def startRequest? (args : List Text) : Option Request :=
  match completedLine? ("init" :: args), readFlags (startFlags ++ [helpFlag]) args with
  | none, .ok (given, arguments) =>
    let r : Request := ⟨given, arguments⟩
    if r.given.isOn "help" || isHelp r.first then none else some r
  | _, _ => none

theorem exists_command_init : ∃ c, command? "init" = some c ∧ c.task = .start ∧
    c.level = ⟨startFlags ++ [helpFlag], helpNames⟩ := ⟨_, rfl, rfl, rfl⟩

/-- The words of a line that starts with the name of the command start with it. -/
theorem completedLine?_init {args words : List Text}
    (h : completedLine? ("init" :: args) = some words) :
    ∃ args', words = ("init" : Text) :: args' := by
  rw [completedLine?] at h
  split at h
  · rename_i hmark
    cases args with
    | nil => exact absurd hmark (by decide)
    | cons arg args =>
      cases h
      exact ⟨_, rfl⟩
  · cases h

theorem call_init_eq (programs : Programs) (args : List Text) {c : Spec}
    (hc : command? "init" = some c) : ∃ args', call programs ("init" :: args) =
      callCommand programs (completedLine? ("init" :: args)) c args' ∧
        (completedLine? ("init" :: args) = none → args' = args) := by
  rw [call]
  cases hline : completedLine? ("init" :: args) with
  | none =>
    refine ⟨args, ?_, fun _ => rfl⟩
    cases hc
    rfl
  | some words =>
    obtain ⟨args', rfl⟩ := completedLine?_init hline
    refine ⟨args', ?_, nofun⟩
    cases hc
    rfl

/-- **A request to start a project** is carried out. -/
theorem call_init (programs : Programs) {args : List Text} {r : Request}
    (h : startRequest? args = some r) : call programs ("init" :: args) = startProject r := by
  obtain ⟨c, hc, htask, hlevel⟩ := exists_command_init
  obtain ⟨args', hcall, hargs⟩ := call_init_eq programs args hc
  unfold startRequest? at h
  split at h
  · rename_i given arguments hline hread
    dsimp only at h
    split at h
    · cases h
    rename_i hhelp
    cases h
    rw [Bool.or_eq_true, not_or] at hhelp
    rw [hcall, hargs hline, hline, callCommand, hlevel]
    unfold atLevel
    dsimp only
    rw [hread]
    dsimp only
    rw [if_neg hhelp.1, if_neg hhelp.2, htask, doTask]
  · cases h

/-- Without a request, the site is left alone. -/
theorem detached_call_init (programs : Programs) {args : List Text}
    (h : startRequest? args = none) : (call programs ("init" :: args)).Detached := by
  obtain ⟨c, hc, htask, hlevel⟩ := exists_command_init
  obtain ⟨args', hcall, hargs⟩ := call_init_eq programs args hc
  rw [hcall, callCommand, hlevel]
  refine detached_atLevel _ _ _ _ fun given arguments hread hname => ?_
  split
  · exact detached_showHelp _ _ fun _ => .fail _
  rename_i hhelp
  split
  · exact detached_helpAt _ _ _ _
  rename_i hword
  exfalso
  cases hline : completedLine? ("init" :: args) with
  | some words =>
    have hcontains := hname (by rw [hline]; rfl)
    simp only [helpNames, List.contains_cons, List.contains_nil, Bool.or_false] at hcontains
    exact hword (by simpa [isHelp] using hcontains)
  | none =>
    rw [hargs hline] at hread
    unfold startRequest? at h
    rw [hline, hread] at h
    simp [hhelp, hword] at h

end TinyLang.Command
