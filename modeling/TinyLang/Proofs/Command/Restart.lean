import TinyLang.Proofs.Command.Invoke
import TinyLang.Proofs.Command.Project
import TinyLang.Proofs.Config.Store
import TinyLang.Proofs.Workspace.History

/-!
# Starting a project again

A project that was started can be started again. Its configuration is kept and its main file is there,
so that no file changes; whether something is committed depends on everything in its directory.

* `stands_of_started`: what a start leaves for the next one.
* `reaches_again`: what the next one comes to.
* `project_starts_again`: both, for calls of the tool.
-/

namespace TinyLang.Command

variable {r : Request} {s s' : Site} {dir : Text} {c conf : Config}

/-- There is a project in a directory, with everything that would be made. -/
structure ProjectStands (dir : Text) (c : Config) (s : Site) : Prop where
  directory : ∃ p, s.workspace.Leads dir p .directory
  config : Config.load s.workspace dir = .ok c
  main : s.workspace.locate (Path.join dir c.main) ≠ .error .notFound

/-! ## What each step leaves -/

/-- The file of a settled configuration: it holds the new one, or is read as the one that counts. -/
def ConfigIn (dir : Text) (conf c : Config) (w : Workspace) : Prop :=
  ∃ p content, w.Leads (Path.join dir Config.fileName) p (.file content) ∧
    (content = conf.toYaml ∧ c = conf ∨ Config.ofYaml content = .ok c)

theorem ConfigSettled.leaves (h : ConfigSettled dir conf s c s') (hw : s.workspace.WellFormed) :
    s'.workspace.WellFormed ∧ s.workspace.Grows s'.workspace ∧ ConfigIn dir conf c s'.workspace := by
  cases h with
  | saved h =>
    obtain ⟨p, hfits, rfl, hleads⟩ := Workspace.write_spec hw h
    exact ⟨hfits.wellFormed hw, hfits.grows, p, _, hleads, .inl ⟨rfl, rfl⟩⟩
  | kept h =>
    refine ⟨hw, .refl _, ?_⟩
    rw [Config.load, Config.loadFile] at h
    split at h
    · cases h
    · cases h
    · rename_i p content hloc
      refine ⟨p, content, Workspace.leads_of_locate hloc, .inr ?_⟩
      cases hread : Config.ofYaml content with
      | error e =>
        rw [hread] at h
        cases h
      | ok c' =>
        rw [hread] at h
        cases h
        rfl

theorem MainSettled.leaves {main : Text} (h : MainSettled dir main s s')
    (hw : s.workspace.WellFormed) : s'.workspace.WellFormed ∧ s.workspace.Extends s'.workspace ∧
      s'.workspace.locate (Path.join dir main) ≠ .error .notFound := by
  cases h with
  | present h => exact ⟨hw, .refl _, h⟩
  | @made w w' hmissing hdir hwrite =>
    obtain ⟨hbuilds, hw', -⟩ := Workspace.ensureDirectory_spec hw hdir
    have hnew : ∀ p old, w.locate (Path.join dir main) ≠ .ok (p, .file old) := by
      intro p old hloc
      rw [← hbuilds.locate_back hw (Path.descends_join _ _) (.inl ⟨p, old, hloc⟩), hmissing] at hloc
      cases hloc
    have hextends := Workspace.extends_of_write hw' hwrite hnew
    obtain ⟨p, hfits, rfl, hleads⟩ := Workspace.write_spec hw' hwrite
    refine ⟨hfits.wellFormed hw', hbuilds.toExtends.trans hextends, ?_⟩
    rw [hleads.locate]
    nofun

theorem ConfigIn.extends {w w' : Workspace} (h : ConfigIn dir conf c w) (hextends : w.Extends w') :
    ConfigIn dir conf c w' := by
  obtain ⟨p, content, hleads, hcontent⟩ := h
  exact ⟨p, content, hleads.grows hextends.grows (hextends.entry p _ hleads.entry) nofun, hcontent⟩

/-- A configuration that is read back has the same main file. -/
def KeepsMain (c : Config) : Prop := ∃ c', Config.ofYaml c.toYaml = .ok c' ∧ c'.main = c.main

theorem keepsMain_of_writable (h : c.Writable) : KeepsMain c := ⟨c, Config.ofYaml_toYaml h, rfl⟩

theorem ConfigIn.load {w : Workspace} (h : ConfigIn dir conf c w)
    (hread : w.read (Path.join dir Config.fileName) = .ok conf.toYaml → KeepsMain conf) :
    ∃ c', Config.load w dir = .ok c' ∧ c'.main = c.main := by
  obtain ⟨p, content, hleads, hcontent⟩ := h
  rcases hcontent with ⟨rfl, rfl⟩ | hcontent
  · obtain ⟨c', hc', hmain⟩ := hread (by rw [Workspace.read, hleads.locate])
    exact ⟨c', (Config.loadsAt_of_leads hleads hc').byFile, hmain⟩
  · exact ⟨c, (Config.loadsAt_of_leads hleads hcontent).byFile, rfl⟩

/-- The configuration and the main file are staged in a history that was opened before. -/
structure Restaged (dir main : Text) (s : Site) (p : Place) (s' : Site) : Prop where
  staged : Staged dir main s p s'
  keepsOn : s.KeepsOn s'
  commits : ∀ q, s'.commitsAt q = s.commitsAt q

/-- What was staged can be staged again. -/
theorem Staged.again {main : Text} {p : Place} {t : Site} (h : Staged dir main s p s')
    (hw : s.workspace.WellFormed) (ht : s'.KeepsOn t) : ∃ t', Restaged dir main t p t' := by
  obtain ⟨s₁, s₂, hopen, hconfig, hmain⟩ := h
  have hkeeps := (Site.stage_spec hconfig).1.trans ((Site.stage_spec hmain).1.trans ht)
  obtain ⟨t₁, ht₁⟩ := Site.stage_again hconfig hkeeps.workspace
  obtain ⟨hkeeps₁, hcommits₁⟩ := Site.stage_spec ht₁
  have hworkspace : t₁.workspace = s₂.workspace := by
    rw [hkeeps₁.workspace, hkeeps.workspace, (Site.stage_spec hconfig).1.workspace]
  obtain ⟨t₂, ht₂⟩ := Site.stage_again hmain hworkspace
  obtain ⟨hkeeps₂, hcommits₂⟩ := Site.stage_spec ht₂
  exact ⟨t₂, ⟨t, t₁, Site.openHistory_again hw hopen hkeeps, ht₁, ht₂⟩, hkeeps₁.trans hkeeps₂,
    fun q => (hcommits₂ q).trans (hcommits₁ q)⟩

theorem Staged.extends {main : Text} {p : Place} {t : Site} (h : Staged dir main s p s')
    (hw : s.workspace.WellFormed) (ht : s'.KeepsOn t) : s.workspace.Extends t.workspace := by
  obtain ⟨s₁, s₂, hopen, hconfig, hmain⟩ := h
  have hkeeps := (Site.stage_spec hconfig).1.trans ((Site.stage_spec hmain).1.trans ht)
  rw [hkeeps.workspace]
  exact (Site.builds_of_openHistory hw hopen).toExtends

/-- **What a start of a project leaves** for the next one. -/
theorem stands_of_started (hw : s.workspace.WellFormed) (h : ProjectStarted r s s')
    (hread : s'.workspace.read (Path.join r.directory Config.fileName) =
      .ok (r.config s.workspace.currentPath).toYaml → KeepsMain (r.config s.workspace.currentPath)) :
    ∃ c, ProjectStands r.directory c s' ∧
      (r.given.isOn "no-git" = false → ∃ p t, Restaged r.directory c.main s' p t) := by
  obtain ⟨w, c, s₁, s₂, hdir, hconfig, hmain, hfinish⟩ := h
  obtain ⟨hbuilds, hw₀, p, hleads⟩ := Workspace.ensureDirectory_spec hw hdir
  have hhere : w.currentPath = s.workspace.currentPath := by
    rw [Workspace.currentPath, Workspace.currentPath, hbuilds.current]
  rw [hhere] at hconfig
  obtain ⟨hw₁, hgrows, hin⟩ := hconfig.leaves hw₀
  obtain ⟨hw₂, hextends, hpresent⟩ := hmain.leaves hw₁
  have hend : s₂.workspace.Extends s'.workspace ∧ (r.given.isOn "no-git" = false →
      ∃ p t, Restaged r.directory c.main s' p t) := by
    cases hgit : r.given.isOn "no-git" with
    | true =>
      rw [hgit, if_pos rfl] at hfinish
      exact ⟨hfinish ▸ .refl _, nofun⟩
    | false =>
      rw [hgit, if_neg Bool.false_ne_true] at hfinish
      cases hfinish with
      | @mk p t hstaged =>
        have hkeeps := t.keepsOn_commit p c.author firstMessage
        obtain ⟨t', ht'⟩ := hstaged.again hw₂ hkeeps
        exact ⟨hstaged.extends hw₂ hkeeps, fun _ => ⟨p, t', ht'⟩⟩
  obtain ⟨hextends', hstaged⟩ := hend
  have hall := hextends.trans hextends'
  obtain ⟨c', hload, hsame⟩ := (hin.extends hall).load hread
  refine ⟨c', ⟨⟨p, (hleads.directory hgrows).directory hall.grows⟩, hload, ?_⟩, hsame ▸ hstaged⟩
  rw [hsame, hextends'.locate hpresent]
  exact hpresent

/-! ## Starting once more -/

/-- With the configuration and the main file staged once more, there is nothing to commit. -/
def UpToDate (s : Site) (dir : Text) : Prop :=
  ∃ c p t, Config.load s.workspace dir = .ok c ∧ Staged dir c.main s p t ∧ t.Settled p

theorem Staged.unique {main : Text} {p p' : Place} {t t' : Site} (h : Staged dir main s p t)
    (h' : Staged dir main s p' t') : p = p' ∧ t = t' := by
  obtain ⟨s₁, s₂, hopen, hconfig, hmain⟩ := h
  obtain ⟨s₁', s₂', hopen', hconfig', hmain'⟩ := h'
  cases hopen.symm.trans hopen'
  cases hconfig.symm.trans hconfig'
  cases hmain.symm.trans hmain'
  exact ⟨rfl, rfl⟩

theorem Staged.upToDate_iff {p : Place} {t : Site} (h : Staged dir c.main s p t)
    (hload : Config.load s.workspace dir = .ok c) : UpToDate s dir ↔ t.Settled p := by
  refine ⟨?_, fun hsettled => ⟨c, p, t, hload, h, hsettled⟩⟩
  rintro ⟨c', p', t', hload', hstaged', hsettled'⟩
  cases hload.symm.trans hload'
  obtain ⟨rfl, rfl⟩ := h.unique hstaged'
  exact hsettled'

/-- Whether there is nothing to commit, with the configuration and the main file staged. -/
def isUpToDate (s : Site) (dir main : Text) : Bool :=
  match s.openHistory dir with
  | .error _ => false
  | .ok (s₁, p) =>
    match s₁.stage dir p Config.fileName with
    | .error _ => false
    | .ok s₂ =>
      match s₂.stage dir p main with
      | .error _ => false
      | .ok t => ((t.history? p).getD {}).isClean (t.filesOf p) (t.workspace.ignoreRules p)

theorem upToDate_iff_isUpToDate (hload : Config.load s.workspace dir = .ok c) :
    UpToDate s dir ↔ isUpToDate s dir c.main = true := by
  constructor
  · rintro ⟨c', p, t, hload', ⟨s₁, s₂, hopen, hconfig, hmain⟩, hsettled⟩
    cases hload.symm.trans hload'
    simp only [isUpToDate, hopen, hconfig, hmain]
    exact (History.isClean_iff ..).mpr hsettled
  · intro h
    rw [isUpToDate] at h
    split at h
    · cases h
    rename_i s₁ p hopen
    split at h
    · cases h
    rename_i s₂ hconfig
    split at h
    · cases h
    rename_i t hmain
    exact ⟨c, p, t, hload, ⟨s₁, s₂, hopen, hconfig, hmain⟩, (History.isClean_iff ..).mp h⟩

theorem load_of_read (hread : s.workspace.read (Path.join dir Config.fileName) = .ok c.toYaml)
    (hc : c.Writable) : Config.load s.workspace dir = .ok c := by
  rw [Workspace.read] at hread
  split at hread
  · rename_i hloc
    cases hread
    exact (Config.loadsAt_of_leads (Workspace.leads_of_locate hloc) (Config.ofYaml_toYaml hc)).byFile
  · cases hread
  · cases hread

theorem reaches_startProject (hr : r.IsPlain) (h : ProjectStands r.directory c s)
    (hfinish : (finishProject r c).Reaches s () s') : (startProject r).Reaches s () s' := by
  obtain ⟨p, hleads⟩ := h.directory
  rw [startProject_eq hr]
  exact (reaches_change (Workspace.ensureDirectory_of_leads hleads)).bind
    ((reaches_newConfig hr s).bind ((reaches_settleConfig hr _ h.config).bind
      ((reaches_settleMain h.main).bind hfinish)))

theorem reaches_finishProject (hgit : r.given.isOn "no-git" = false) {p : Place} {t : Site}
    (h : Staged r.directory c.main s p t) :
    (finishProject r c).Reaches s () (t.commit p c.author firstMessage) := by
  rw [finishProject, hgit]
  exact (reaches_commitProject h).bind (Act.Reaches.say _ _)

/-- **Starting a project once more** changes no file, and commits unless there is nothing to
commit. -/
theorem reaches_again (hr : r.IsPlain) (h : ProjectStands r.directory c s)
    (hstaged : r.given.isOn "no-git" = false → ∃ p t, Restaged r.directory c.main s p t) :
    ∃ s', (startProject r).Reaches s () s' ∧ s'.workspace = s.workspace ∧
      ((∀ p, s'.commitsAt p = s.commitsAt p) ↔
        r.given.isOn "no-git" = true ∨ UpToDate s r.directory) := by
  cases hgit : r.given.isOn "no-git" with
  | true =>
    have hfinish : (finishProject r c).Reaches s () s := by
      rw [finishProject, hgit]
      exact Act.Reaches.say _ s
    exact ⟨s, reaches_startProject hr h hfinish, rfl, iff_of_true (fun _ => rfl) (.inl rfl)⟩
  | false =>
    obtain ⟨p, t, hstaged, hkeeps, hcommits⟩ := hstaged hgit
    refine ⟨_, reaches_startProject hr h (reaches_finishProject hgit hstaged),
      (hkeeps.trans (t.keepsOn_commit p c.author firstMessage)).workspace, ?_⟩
    have hsettled := t.commitsAt_commit p c.author firstMessage
    simp only [hcommits] at hsettled
    rw [hsettled, hstaged.upToDate_iff h.config]
    simp

/-! ## Calling the tool again -/

section Invoke

variable (programs : Programs) {site : Site} {args : List Text} (input : Text)

/-- What a second call comes to, where the first one was a request to start a project. -/
theorem invoke_again (hw : site.workspace.WellFormed) (hrequest : startRequest? args = some r)
    (hr : r.IsPlain) (hok : (invoke programs site ("init" :: args) input).code = 0)
    (hread : (invoke programs site ("init" :: args) input).site.workspace.read
        (Path.join r.directory Config.fileName) = .ok (r.config site.workspace.currentPath).toYaml →
      KeepsMain (r.config site.workspace.currentPath)) :
    let first := (invoke programs site ("init" :: args) input).site
    let again := invoke programs first ("init" :: args) []
    again.code = 0 ∧ again.site.workspace = first.workspace ∧
      ((∀ p, again.site.commitsAt p = first.commitsAt p) ↔
        r.given.isOn "no-git" = true ∨ UpToDate first r.directory) := by
  simp only [invoke, call_init programs hrequest] at hok hread ⊢
  obtain ⟨c, hstands, hstaged⟩ := stands_of_started hw ((does_startProject hr).perform hok) hread
  obtain ⟨s', hreaches, hworkspace, hcommits⟩ := reaches_again hr hstands hstaged
  obtain ⟨hcode, hsite⟩ := hreaches.perform
  rw [hsite]
  exact ⟨hcode, hworkspace, hcommits⟩

/-- **A project can be started again.** If starting a project succeeds, without a template, without
replacing a configuration unasked and without questions, and a new configuration that was saved is
read back with its main file, then the same call with nothing to read succeeds again and changes no
file. It adds no commit exactly if no history is kept, or if with the configuration and the main file
staged once more everything in the directory is committed or ignored. -/
theorem project_starts_again (hw : site.workspace.WellFormed)
    (hplain : ∀ r, startRequest? args = some r → r.IsPlain)
    (hok : (invoke programs site ("init" :: args) input).code = 0)
    (hread : ∀ r, startRequest? args = some r →
      (invoke programs site ("init" :: args) input).site.workspace.read
        (Path.join r.directory Config.fileName) = .ok (r.config site.workspace.currentPath).toYaml →
      KeepsMain (r.config site.workspace.currentPath)) :
    let first := (invoke programs site ("init" :: args) input).site
    let again := invoke programs first ("init" :: args) []
    again.code = 0 ∧ again.site.workspace = first.workspace ∧
      ((∀ p, again.site.commitsAt p = first.commitsAt p) ↔ ∀ r, startRequest? args = some r →
        r.given.isOn "no-git" = true ∨ UpToDate first r.directory) := by
  cases hrequest : startRequest? args with
  | some r =>
    have hagain := invoke_again programs input hw hrequest (hplain r hrequest) hok (hread r hrequest)
    simpa using hagain
  | none =>
    obtain ⟨code, hcode⟩ := (detached_call_init programs hrequest).perform
    have hfirst := hcode site input
    simp only [invoke] at hok ⊢
    rw [hfirst.2]
    have hagain := hcode site []
    rw [hagain.2]
    exact ⟨hagain.1.trans (hfirst.1.symm.trans hok), rfl, iff_of_true (fun _ => rfl) nofun⟩

/-- A call that starts a project with a name. -/
def demoCall (site : Site) : Outcome := invoke [] site ["init", "--name", "demo"] []

/-- The request of that call. -/
def demoRequest : Request := ⟨[⟨"name", "name", .text "demo"⟩], []⟩

theorem startRequest?_demo : startRequest? ["--name", "demo"] = some demoRequest := rfl

theorem isPlain_demo : demoRequest.IsPlain := ⟨by decide, by decide, by decide⟩

theorem writable_demo : (demoRequest.config "/work").Writable :=
  ⟨by decide +kernel, by decide +kernel, by decide +kernel, by decide +kernel, by decide +kernel,
    by decide +kernel, by decide, by decide⟩

/-- Whether a project that was started by the call is up to date can be computed. -/
theorem upToDate_demo_iff
    (hsaved : (demoCall site).site.workspace.read (Path.join demoRequest.directory Config.fileName) =
      .ok (demoRequest.config "/work").toYaml) :
    UpToDate (demoCall site).site demoRequest.directory ↔
      isUpToDate (demoCall site).site demoRequest.directory
        (demoRequest.config "/work").main = true :=
  upToDate_iff_isUpToDate (load_of_read hsaved writable_demo)

/-- In an empty directory, a second call adds no commit. -/
theorem project_starts_again_empty :
    let site : Site := ⟨Workspace.empty ["work"], []⟩
    (site.workspace.WellFormed ∧ (demoCall site).code = 0) ∧
      (demoCall (demoCall site).site).code = 0 ∧
      (demoCall (demoCall site).site).site.workspace = (demoCall site).site.workspace ∧
      ∀ p, (demoCall (demoCall site).site).site.commitsAt p = (demoCall site).site.commitsAt p := by
  intro site
  have hw : site.workspace.WellFormed := Workspace.wellFormed_empty _
  have hok : (demoCall site).code = 0 := by decide +kernel
  have hdate : UpToDate (demoCall site).site demoRequest.directory :=
    (upToDate_demo_iff (by decide +kernel)).mpr (by decide +kernel)
  have hplain : ∀ r, startRequest? ["--name", "demo"] = some r → r.IsPlain := by
    intro r hr
    cases hr.symm.trans startRequest?_demo
    exact isPlain_demo
  have hmain : ∀ r, startRequest? ["--name", "demo"] = some r → KeepsMain (r.config "/work") := by
    intro r hr
    cases hr.symm.trans startRequest?_demo
    exact keepsMain_of_writable writable_demo
  obtain ⟨hcode, hworkspace, hcommits⟩ :=
    project_starts_again [] [] hw hplain hok fun r hr _ => hmain r hr
  refine ⟨⟨hw, hok⟩, hcode, ?_, hcommits.mpr fun r hr => .inr ?_⟩
  · rw [demoCall, demoCall]
    exact hworkspace
  · cases hr.symm.trans startRequest?_demo
    exact hdate

/-- A file that was there before is not in the first commit, so that a second call adds another. -/
theorem second_call_commits_untracked_file :
    let site : Site := ⟨(Workspace.empty ["work"]).put ["work", "notes.txt"] (.file "x"), []⟩
    (site.workspace.WellFormed ∧ (demoCall site).code = 0) ∧
      (demoCall (demoCall site).site).code = 0 ∧
      ∃ p, (demoCall (demoCall site).site).site.commitsAt p ≠ (demoCall site).site.commitsAt p := by
  intro site
  have hfits : (Workspace.empty ["work"]).Fits ["work", "notes.txt"] (.file "x") :=
    .new (p := ["work"]) (by decide) (by decide) _
  have hw : site.workspace.WellFormed := hfits.wellFormed (Workspace.wellFormed_empty _)
  have hok : (demoCall site).code = 0 := by decide +kernel
  have hclean : isUpToDate (demoCall site).site demoRequest.directory
      (demoRequest.config "/work").main = false := by decide +kernel
  have hdate : ¬ UpToDate (demoCall site).site demoRequest.directory := by
    rw [upToDate_demo_iff (by decide +kernel), hclean]
    exact Bool.false_ne_true
  obtain ⟨hcode, -, hcommits⟩ := invoke_again [] [] hw startRequest?_demo isPlain_demo hok
    fun _ => keepsMain_of_writable writable_demo
  refine ⟨⟨hw, hok⟩, hcode, ?_⟩
  by_contra hnone
  have hsame := fun p => not_not.mp (not_exists.mp hnone p)
  rcases hcommits.mp hsame with hgit | hdate'
  · exact absurd hgit (by decide)
  · exact hdate hdate'

end Invoke

end TinyLang.Command
