import TinyLang.Command.Project
import TinyLang.Proofs.Command.Job
import TinyLang.Proofs.Config.Store

/-!
# How a project is started

Starting a project makes its directory, settles its configuration and its main file, and commits the
two. `ProjectStarted` says what this comes to at a site, step by step, and which steps may be left
out because there is something already.

* `does_startProject`: every start of a project that succeeds is one of these.
* `reaches_settleConfig`, `reaches_settleMain`: where there is something already, and nothing to
  read, it is kept.
-/

namespace TinyLang.Command

/-! ## What is asked for -/

namespace Request

/-- The directory of the project. -/
def directory (r : Request) : Text := if r.first.isEmpty then "." else r.first

/-- A request that names no template, replaces nothing unasked and leaves nothing to be asked for. -/
structure IsPlain (r : Request) : Prop where
  template : (r.given.text "template").isEmpty = true
  force : r.given.isOn "force" = false
  interactive : r.given.isOn "interactive" = false

/-- A setting: given as a flag, or the default. -/
def settingOr (r : Request) (flag byDefault : Text) : Text :=
  if (r.given.text flag).isEmpty then byDefault else r.given.text flag

/-- The configuration of a new project, for a user in the directory `here`. -/
def config (r : Request) (here : Text) : Config :=
  let conf := ({} : Config).withDefaults (Path.base (Path.absolute here r.directory))
  { conf with
    name := r.settingOr "name" conf.name
    version := r.settingOr "version" conf.version
    main := r.settingOr "main" conf.main
    author := r.settingOr "author" conf.author
    tli := "^" ++ toolVersion }

end Request

/-! ## The steps -/

variable {s s' s'' : Site} {dir main : Text} {c conf : Config}

/-- A new configuration is saved, or the one that is there is kept. -/
inductive ConfigSettled (dir : Text) (conf : Config) (s : Site) : Config → Site → Prop
  | saved {w : Workspace} (h : conf.save s.workspace (Path.join dir Config.fileName) = .ok w) :
      ConfigSettled dir conf s conf { s with workspace := w }
  | kept {c : Config} (h : Config.load s.workspace dir = .ok c) : ConfigSettled dir conf s c s

/-- The main file is there, or it is made. -/
inductive MainSettled (dir main : Text) (s : Site) : Site → Prop
  | present (h : s.workspace.locate (Path.join dir main) ≠ .error .notFound) :
      MainSettled dir main s s
  | made {w w' : Workspace} (hmissing : s.workspace.locate (Path.join dir main) = .error .notFound)
      (hdir : s.workspace.ensureDirectory (Path.directory (Path.join dir main)) = .ok w)
      (hwrite : w.write (Path.join dir main) sampleProgram = .ok w') :
      MainSettled dir main s { s with workspace := w' }

/-- The history of a place, with the configuration and the main file staged. -/
def Staged (dir main : Text) (s : Site) (p : Place) (s' : Site) : Prop :=
  ∃ s₁ s₂, s.openHistory dir = .ok (s₁, p) ∧ s₁.stage dir p Config.fileName = .ok s₂ ∧
    s₂.stage dir p main = .ok s'

/-- A project is committed, unless there is nothing to commit. -/
inductive Committed (dir : Text) (conf : Config) (s : Site) : Site → Prop
  | mk {p : Place} {s' : Site} (h : Staged dir conf.main s p s') :
      Committed dir conf s (s'.commit p conf.author firstMessage)

/-- A project is started. -/
def ProjectStarted (r : Request) (s s' : Site) : Prop :=
  ∃ w c s₁ s₂, s.workspace.ensureDirectory r.directory = .ok w ∧
    ConfigSettled r.directory (r.config w.currentPath) { s with workspace := w } c s₁ ∧
    MainSettled r.directory c.main s₁ s₂ ∧
    if r.given.isOn "no-git" then s' = s₂ else Committed r.directory c s₂ s'

/-! ## What the acts do -/

open Act

theorem does_change (f : Workspace → Except FileError Workspace) :
    (change f).Does fun s _ s' => ∃ w, f s.workspace = .ok w ∧ s' = { s with workspace := w } := by
  intro j
  rw [change, Act.run_workspace_bind]
  cases h : f j.site.workspace with
  | error e => exact Nat.one_ne_zero
  | ok w => exact ⟨w, h, rfl⟩

theorem does_ask {α : Type} (question : Text → Asked α) :
    (ask question).Does fun s _ s' => s' = s := fun _ => rfl

theorem setting_eq {r : Request} (hr : r.IsPlain) (flag question byDefault : Text) :
    setting r flag question byDefault = pure (r.settingOr flag byDefault) := by
  rw [setting, Request.settingOr, hr.interactive]
  cases (r.given.text flag).isEmpty <;> rfl

theorem newConfig_eq {r : Request} (hr : r.IsPlain) : newConfig r r.directory =
    Act.workspace >>= fun w => pure (r.config w.currentPath) := by
  simp only [newConfig, setting_eq hr, pure_bind]
  rfl

theorem does_newConfig {r : Request} (hr : r.IsPlain) : (newConfig r r.directory).Does
    fun s c s' => c = r.config s.workspace.currentPath ∧ s' = s := by
  rw [newConfig_eq hr]
  exact fun _ => ⟨rfl, rfl⟩

theorem does_settleSaved (dir : Text) (conf : Config) (w : Workspace) (overwrite : Bool)
    (answer : Option Bool) :
    (settleSaved dir conf
      (conf.saveCarefully w (Path.join dir Config.fileName) overwrite answer)).Does fun s c s' =>
        s.workspace = w → ConfigSettled dir conf s c s' := by
  obtain ⟨asked, ⟨-, hrefused⟩ | ⟨-, hsaved⟩⟩ :=
    conf.saveCarefully_cases w (Path.join dir Config.fileName) overwrite answer
  · rw [hrefused, settleSaved]
    cases hload : Config.load w dir with
    | ok kept => exact fun _ hw => .kept (hw ▸ hload)
    | error e => exact ((Does.say _).bind fun _ => Does.exit _).mono fun ⟨_, _, _, h⟩ => h.elim
  · rw [hsaved, settleSaved]
    cases hsave : conf.save w (Path.join dir Config.fileName) with
    | ok w' => exact fun _ hw => .saved (hw ▸ hsave)
    | error e => exact (Does.exit _).mono False.elim

theorem does_settleConfig (r : Request) (dir : Text) (conf : Config) :
    (settleConfig r dir conf).Does fun s c s' => ConfigSettled dir conf s c s' := by
  have hanswer : ∀ w, (overwriteAnswer r w (Path.join dir Config.fileName)).Does
      fun s _ s' => s' = s := by
    intro w
    rw [overwriteAnswer]
    split
    · refine ((does_ask _).bind fun _ => Does.pure _).mono ?_
      rintro s _ s' ⟨_, _, rfl, -, rfl⟩
      rfl
    · exact (Does.pure none).mono And.right
  refine (Does.workspace.bind fun w => (hanswer w).bind fun answer =>
    does_settleSaved dir conf w (r.given.isOn "force") answer).mono ?_
  rintro s c s' ⟨w, s₁, ⟨rfl, rfl⟩, answer, s₂, rfl, hsettled⟩
  exact hsettled rfl

theorem does_settleMain (dir main : Text) :
    (settleMain dir main).Does fun s _ s' => MainSettled dir main s s' := by
  have hmake : (do change fun w => w.ensureDirectory (Path.directory (Path.join dir main))
                   change fun w => w.write (Path.join dir main) sampleProgram : Act Unit).Does
      fun s _ s' => s.workspace.locate (Path.join dir main) = .error .notFound →
        MainSettled dir main s s' := by
    refine ((does_change _).bind fun _ => does_change _).mono ?_
    rintro s _ s' ⟨_, s₁, ⟨w, hdir, rfl⟩, w', hwrite, rfl⟩ hmissing
    exact .made hmissing hdir hwrite
  rw [settleMain]
  refine (Does.workspace.bind (S := fun w s _ s' => s.workspace = w → MainSettled dir main s s')
    fun w => ?_).mono ?_
  · split
    · rename_i hmissing
      exact hmake.mono fun h hw => h (hw ▸ hmissing)
    · rename_i hpresent
      refine (Does.pure ()).mono ?_
      rintro s _ s' ⟨-, rfl⟩ rfl
      exact .present hpresent
  · rintro s _ s' ⟨w, s₁, ⟨rfl, rfl⟩, h⟩
    exact h rfl

/-- Opens the history of a project. -/
def openProject (dir : Text) : Act Place := do
  let (site, p) ← keep ((← get).site.openHistory dir)
  Act.setSite site
  return p

/-- Stages a path of a project. -/
def stagePath (dir : Text) (p : Place) (path : Text) : Act Unit := do
  Act.setSite (← keep ((← get).site.stage dir p path))

/-- Commits what is staged of a project. -/
def commitAt (p : Place) (author : Text) : Act Unit := do
  Act.setSite ((← get).site.commit p author firstMessage)

theorem commitProject_eq (dir : Text) (conf : Config) : commitProject dir conf =
    openProject dir >>= fun p => stagePath dir p Config.fileName >>= fun _ =>
      stagePath dir p conf.main >>= fun _ => commitAt p conf.author := by
  simp only [commitProject, openProject, stagePath, commitAt, List.forIn_cons, List.forIn_nil,
    bind_assoc, pure_bind]

theorem does_openProject (dir : Text) :
    (openProject dir).Does fun s p s' => s.openHistory dir = .ok (s', p) := by
  intro j
  rw [openProject, Act.run_get_bind]
  cases h : j.site.openHistory dir with
  | error e => exact Nat.one_ne_zero
  | ok r => exact h

theorem does_stagePath (dir : Text) (p : Place) (path : Text) :
    (stagePath dir p path).Does fun s _ s' => s.stage dir p path = .ok s' := by
  intro j
  rw [stagePath, Act.run_get_bind]
  cases h : j.site.stage dir p path with
  | error e => exact Nat.one_ne_zero
  | ok s => exact h

theorem does_commitAt (p : Place) (author : Text) :
    (commitAt p author).Does fun s _ s' => s' = s.commit p author firstMessage := fun _ => rfl

theorem does_commitProject (dir : Text) (conf : Config) :
    (commitProject dir conf).Does fun s _ s' => Committed dir conf s s' := by
  rw [commitProject_eq]
  refine ((does_openProject dir).bind fun p => (does_stagePath dir p _).bind fun _ =>
    (does_stagePath dir p _).bind fun _ => does_commitAt p conf.author).mono ?_
  rintro s _ s' ⟨p, s₁, hopen, _, s₂, hconfig, _, s₃, hmain, rfl⟩
  exact .mk ⟨s₁, s₂, hopen, hconfig, hmain⟩

/-- The last steps of starting a project. -/
def finishProject (r : Request) (conf : Config) : Act Unit := do
  if !r.given.isOn "no-git" then commitProject r.directory conf
  Act.sayLine ("Initialized project " ++ conf.name ++ " in " ++ r.directory)

theorem startProject_eq {r : Request} (hr : r.IsPlain) : startProject r =
    change (fun w => w.ensureDirectory r.directory) >>= fun _ => newConfig r r.directory >>=
      fun conf => settleConfig r r.directory conf >>= fun c => settleMain r.directory c.main >>=
        fun _ => finishProject r c := by
  rw [startProject, hr.template, if_pos rfl]
  rfl

theorem does_finishProject (r : Request) (conf : Config) : (finishProject r conf).Does fun s _ s' =>
    if r.given.isOn "no-git" then s' = s else Committed r.directory conf s s' := by
  rw [finishProject]
  cases r.given.isOn "no-git" with
  | true => exact Does.say _
  | false =>
    refine ((does_commitProject r.directory conf).bind fun _ => Does.say _).mono ?_
    rintro s _ s' ⟨_, s₁, hcommitted, rfl⟩
    exact hcommitted

/-- **What starting a project comes to.** -/
theorem does_startProject {r : Request} (hr : r.IsPlain) :
    (startProject r).Does fun s _ s' => ProjectStarted r s s' := by
  rw [startProject_eq hr]
  refine ((does_change _).bind fun _ => (does_newConfig hr).bind fun conf =>
    (does_settleConfig r r.directory conf).bind fun c => (does_settleMain r.directory c.main).bind
      fun _ => does_finishProject r c).mono ?_
  rintro s _ s' ⟨_, s₁, ⟨w, hdir, rfl⟩, conf, s₂, ⟨rfl, rfl⟩, c, s₃, hconfig, _, s₄, hmain, hfinish⟩
  exact ⟨w, c, s₃, s₄, hdir, hconfig, hmain, hfinish⟩

/-! ## Where there is a project already -/

theorem reaches_change {f : Workspace → Except FileError Workspace} {s : Site} {w : Workspace}
    (h : f s.workspace = .ok w) : (change f).Reaches s () { s with workspace := w } := by
  rw [change]
  refine (Reaches.workspace s).bind ?_
  rw [h]
  exact Reaches.setWorkspace s w

theorem reaches_ask {α : Type} {question : Text → Asked α} (h : (question []).input = []) (s : Site) :
    (ask question).Reaches s (question []).answer s := by
  intro j hs hi
  refine ⟨{ j with input := (question j.input).input
                   output := j.output ++ (question j.input).written }, ?_, hs, by rw [hi, h]⟩
  rw [← hi]
  rfl

theorem reaches_newConfig {r : Request} (hr : r.IsPlain) (s : Site) :
    (newConfig r r.directory).Reaches s (r.config s.workspace.currentPath) s := by
  rw [newConfig_eq hr]
  exact (Reaches.workspace s).bind (Reaches.pure _ s)

theorem isTaken_of_load (h : Config.load s.workspace dir = .ok c) :
    Config.isTaken s.workspace (Path.join dir Config.fileName) = true := by
  rw [Config.load, Config.loadFile] at h
  rw [Config.isTaken]
  cases hloc : s.workspace.locate (Path.join dir Config.fileName) with
  | error fault =>
    rw [hloc] at h
    cases h
  | ok found => rfl

theorem reaches_settleConfig {r : Request} (hr : r.IsPlain) (conf : Config)
    (h : Config.load s.workspace dir = .ok c) : (settleConfig r dir conf).Reaches s c s := by
  have hask : Config.mustAsk s.workspace (Path.join dir Config.fileName) (r.given.isOn "force") =
      true := by
    rw [Config.mustAsk, isTaken_of_load h, hr.force]
    rfl
  have hanswer : (overwriteAnswer r s.workspace (Path.join dir Config.fileName)).Reaches s
      (some false) s := by
    rw [overwriteAnswer, if_pos hask]
    exact (reaches_ask rfl s).bind (Reaches.pure _ s)
  have hrefused : conf.saveCarefully s.workspace (Path.join dir Config.fileName)
      (r.given.isOn "force") (some false) =
      ⟨s.workspace, false, some (Config.overwriteQuestion (Path.join dir Config.fileName)), none⟩ := by
    rw [Config.saveCarefully, hask]
    rfl
  refine (Reaches.workspace s).bind (hanswer.bind ?_)
  rw [hrefused, settleSaved]
  refine (Reaches.say _ s).bind ?_
  rw [h]
  exact Reaches.pure c s

theorem reaches_settleMain (h : s.workspace.locate (Path.join dir main) ≠ .error .notFound) :
    (settleMain dir main).Reaches s () s := by
  rw [settleMain]
  refine (Reaches.workspace s).bind ?_
  split
  · rename_i hmissing
    exact absurd hmissing h
  · exact Reaches.pure () s

theorem reaches_commitProject {p : Place} (h : Staged dir conf.main s p s') :
    (commitProject dir conf).Reaches s () (s'.commit p conf.author firstMessage) := by
  obtain ⟨s₁, s₂, hopen, hconfig, hmain⟩ := h
  have hopened : (openProject dir).Reaches s p s₁ := by
    intro j hs hi
    refine ⟨{ j with site := s₁ }, ?_, rfl, hi⟩
    rw [openProject, Act.run_get_bind, hs, hopen]
    rfl
  have hstage : ∀ {s s' : Site} {path : Text}, s.stage dir p path = .ok s' →
      (stagePath dir p path).Reaches s () s' := by
    intro s s' path hstaged j hs hi
    refine ⟨{ j with site := s' }, ?_, rfl, hi⟩
    rw [stagePath, Act.run_get_bind, hs, hstaged]
    rfl
  have hcommit : (commitAt p conf.author).Reaches s' () (s'.commit p conf.author firstMessage) :=
    fun j hs hi => ⟨{ j with site := _ }, by rw [commitAt, Act.run_get_bind, hs]; rfl, rfl, hi⟩
  rw [commitProject_eq]
  exact hopened.bind ((hstage hconfig).bind ((hstage hmain).bind hcommit))

end TinyLang.Command
