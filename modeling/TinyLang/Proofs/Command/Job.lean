import TinyLang.Command.Job

/-!
# What a job does to its site

Three ways to say what comes of an act, each with a rule for acts in sequence.

* `Act.Does`: from any job, the act ends early as a failure, or its end is related to its start.
* `Act.Reaches`: from a site, with nothing to read, the act comes to its end at another site.
* `Act.Detached`: the act ends in the same way at any site, and leaves the site alone.
-/

namespace TinyLang.Command

variable {α β : Type}

/-- From any job, an act ends early as a failure, or the sites at its start and its end are related. -/
def Act.Does (act : Act α) (R : Site → α → Site → Prop) : Prop :=
  ∀ j, match act.run.run j with
    | (.ok a, j') => R j.site a j'.site
    | (.error e, _) => e.code ≠ 0

/-- From a site, with nothing to read, an act comes to its end at another site. -/
def Act.Reaches (act : Act α) (s : Site) (a : α) (s' : Site) : Prop :=
  ∀ j, j.site = s → j.input = [] →
    ∃ j', act.run.run j = (.ok a, j') ∧ j'.site = s' ∧ j'.input = []

/-- An act ends in the same way whatever the job is, and leaves the site alone. -/
def Act.Detached (act : Act α) : Prop :=
  ∃ r, ∀ j, ∃ j', act.run.run j = (r, j') ∧ j'.site = j.site

namespace Act

variable {x : Act α} {f : α → Act β} {j j' : Job} {s s' s'' : Site} {a : α} {b : β}

theorem run_bind_ok (h : x.run.run j = (.ok a, j')) :
    (x >>= f).run.run j = (f a).run.run j' := by
  rw [ExceptT.run_bind, StateT.run_bind, h]
  rfl

theorem run_bind_error {e : Exit} (h : x.run.run j = (.error e, j')) :
    (x >>= f).run.run j = (.error e, j') := by
  rw [ExceptT.run_bind, StateT.run_bind, h]
  rfl

theorem run_get_bind {f : Job → Act β} : (get >>= f).run.run j = (f j).run.run j := rfl

theorem run_workspace_bind {f : Workspace → Act β} :
    (Act.workspace >>= f).run.run j = (f j.site.workspace).run.run j := rfl

/-! ## Any job -/

namespace Does

variable {R R' : Site → α → Site → Prop} {S : α → Site → β → Site → Prop}

theorem mono (h : x.Does R) (himp : ∀ {s a s'}, R s a s' → R' s a s') : x.Does R' := by
  intro j
  have hj := h j
  split at hj
  · exact himp hj
  · exact hj

theorem pure (a : α) : (Pure.pure a : Act α).Does fun s b s' => b = a ∧ s' = s :=
  fun _ => ⟨rfl, rfl⟩

theorem say (t : Text) : (Act.say t).Does fun s _ s' => s' = s := fun _ => rfl

theorem exit (message : Text) : (Act.exit message : Act α).Does fun _ _ _ => False :=
  fun _ => Nat.one_ne_zero

theorem workspace : Act.workspace.Does fun s w s' => w = s.workspace ∧ s' = s :=
  fun _ => ⟨rfl, rfl⟩

theorem bind (hx : x.Does R) (hf : ∀ a, (f a).Does (S a)) :
    (x >>= f).Does fun s b s'' => ∃ a s', R s a s' ∧ S a s' b s'' := by
  intro j
  have hj := hx j
  split at hj
  · rename_i a j' hrun
    rw [run_bind_ok hrun]
    have hj' := hf a j'
    split at hj'
    · exact ⟨a, j'.site, hj, hj'⟩
    · exact hj'
  · rename_i e j' hrun
    rw [run_bind_error hrun]
    exact hj

/-- An act that ends without an error code has done what it does. -/
theorem perform {act : Act Unit} {R : Site → Unit → Site → Prop} (h : act.Does R) {site : Site}
    {input : Text} (hcode : (Command.perform act site input).code = 0) :
    R site () (Command.perform act site input).site := by
  have hj := h { site, input }
  rw [Command.perform] at hcode ⊢
  split at hj
  · rename_i j' hrun
    rw [hrun]
    exact hj
  · rename_i e j' hrun
    rw [hrun] at hcode
    exact absurd hcode hj

end Does

/-! ## No input -/

namespace Reaches

theorem pure (a : α) (s : Site) : (Pure.pure a : Act α).Reaches s a s :=
  fun j hs hi => ⟨j, rfl, hs, hi⟩

theorem say (t : Text) (s : Site) : (Act.say t).Reaches s () s :=
  fun j hs hi => ⟨{ j with output := j.output ++ t }, rfl, hs, hi⟩

theorem workspace (s : Site) : Act.workspace.Reaches s s.workspace s :=
  fun j hs hi => ⟨j, by rw [← hs]; rfl, hs, hi⟩

theorem setWorkspace (s : Site) (w : Workspace) :
    (Act.setWorkspace w).Reaches s () { s with workspace := w } :=
  fun j hs hi => ⟨{ j with site := { j.site with workspace := w } }, rfl, by rw [hs], hi⟩

theorem bind (hx : x.Reaches s a s') (hf : (f a).Reaches s' b s'') : (x >>= f).Reaches s b s'' := by
  intro j hs hi
  obtain ⟨j', hrun, hs', hi'⟩ := hx j hs hi
  rw [run_bind_ok hrun]
  exact hf j' hs' hi'

theorem perform {act : Act Unit} (h : act.Reaches s () s') :
    (Command.perform act s []).code = 0 ∧ (Command.perform act s []).site = s' := by
  obtain ⟨j', hrun, hs', -⟩ := h { site := s, input := [] } rfl rfl
  rw [Command.perform]
  rw [hrun]
  exact ⟨rfl, hs'⟩

end Reaches

/-! ## Any site -/

namespace Detached

theorem pure (a : α) : (Pure.pure a : Act α).Detached := ⟨.ok a, fun j => ⟨j, rfl, rfl⟩⟩

theorem say (t : Text) : (Act.say t).Detached := ⟨.ok (), fun _ => ⟨_, rfl, rfl⟩⟩

theorem fail (message : Text) : (Act.fail message : Act α).Detached :=
  ⟨.error _, fun j => ⟨j, rfl, rfl⟩⟩

theorem exitWith (code : Nat) (message : Text) : (Act.exitWith code message : Act α).Detached :=
  ⟨.error _, fun j => ⟨j, rfl, rfl⟩⟩

theorem bind (hx : x.Detached) (hf : ∀ a, (f a).Detached) : (x >>= f).Detached := by
  obtain ⟨r, hr⟩ := hx
  cases r with
  | error e =>
    refine ⟨.error e, fun j => ?_⟩
    obtain ⟨j', hrun, hs⟩ := hr j
    exact ⟨j', run_bind_error hrun, hs⟩
  | ok a =>
    obtain ⟨r', hr'⟩ := hf a
    refine ⟨r', fun j => ?_⟩
    obtain ⟨j', hrun, hs⟩ := hr j
    obtain ⟨j'', hrun', hs'⟩ := hr' j'
    exact ⟨j'', by rw [run_bind_ok hrun, hrun'], hs'.trans hs⟩

theorem forM {act : α → Act Unit} (h : ∀ a, (act a).Detached) (as : List α) :
    (as.forM act).Detached := by
  induction as with
  | nil => exact .pure ()
  | cons a as ih => exact .bind (h a) fun _ => ih

theorem perform {act : Act Unit} (h : act.Detached) : ∃ code, ∀ site input,
    (Command.perform act site input).code = code ∧ (Command.perform act site input).site = site := by
  obtain ⟨r, hr⟩ := h
  refine ⟨match r with | .ok () => 0 | .error e => e.code, fun site input => ?_⟩
  obtain ⟨j', hrun, hs⟩ := hr { site, input }
  rw [Command.perform]
  rw [hrun]
  cases r with
  | ok u => exact ⟨rfl, hs⟩
  | error e => exact ⟨rfl, hs⟩

end Detached

end Act

end TinyLang.Command
