import PodCosts.Proofs.Settings.File
import PodCosts.Settings.Workspace

/-!
# Sessions

Settings are read and ensured again and again, and between two of these steps anything may happen to
the workspace. No step alters a settings file. Once the settings were ensured, every later step
answers the same settings until something else changes the workspace: the file that is made for the
usual settings reads back as them.
-/

namespace PodCosts

namespace Workspace

/-- What can happen to a workspace. -/
inductive Step where
  | load
  | ensure
  /-- Something else puts the workspace into any other state. -/
  | rewrite (workspace : Workspace)

/-- Whether a step comes from elsewhere. -/
def Step.isRewrite : Step → Bool
  | .rewrite _ => true
  | .load | .ensure => false

/-- A step that was made: the workspace before and after it, and what it answered. -/
structure Move where
  before : Workspace
  step : Step
  answer? : Option (Except SettingsError Settings)
  after : Workspace

/-- Makes a step. -/
def move (workspace : Workspace) : Step → Move
  | .load => ⟨workspace, .load, some workspace.load, workspace⟩
  | .ensure => ⟨workspace, .ensure, some workspace.ensure.1, workspace.ensure.2⟩
  | .rewrite other => ⟨workspace, .rewrite other, none, other⟩

/-- A move begins in the workspace that it is made in. -/
@[simp] theorem move_before (workspace : Workspace) (step : Step) :
    (workspace.move step).before = workspace := by
  cases step <;> rfl

/-- A move is made by its step. -/
@[simp] theorem move_step (workspace : Workspace) (step : Step) :
    (workspace.move step).step = step := by
  cases step <;> rfl

/-- Makes steps one after the other. -/
def session (workspace : Workspace) : List Step → List Move
  | [] => []
  | step :: steps => workspace.move step :: (workspace.move step).after.session steps

/-- Every move of a session is a step from the workspace at that time, and the moves behind it are a
session of their own. -/
theorem exists_of_session_eq_append {start : Workspace} {steps : List Step}
    {earlier later : List Move} {made : Move} (h : start.session steps = earlier ++ made :: later) :
    ∃ workspace step rest, made = move workspace step ∧ later = made.after.session rest := by
  induction steps generalizing start earlier with
  | nil => simp [session] at h
  | cons step steps ih =>
    cases earlier with
    | nil =>
      obtain ⟨rfl, rfl⟩ := List.cons.inj h
      exact ⟨start, step, steps, rfl, rfl⟩
    | cons first earlier => exact ih (List.cons.inj h).2

/-! ## What a step may do to the workspace -/

/-- A settings file is only made where there is none and nothing is in its way, and nothing else is
changed. -/
structure Move.Safe (move : Move) : Prop where
  load_keeps : move.step = .load → move.after = move.before
  ensure_creates : move.step = .ensure → move.after ≠ move.before →
    (move.before = .absent ∨ move.before = .directory .absent) ∧
      move.after = .directory (.file (Text.encode Settings.standardText))
  file_kept : move.step.isRewrite = false → ∀ bytes, move.before = .directory (.file bytes) →
    move.after = .directory (.file bytes)
  failure_keeps : move.step = .ensure → ∀ error, move.answer? = some (.error error) →
    move.after = move.before

/-- Ensuring the settings makes the file and answers the usual settings, or it changes nothing. -/
theorem ensure_cases (workspace : Workspace) :
    ((workspace = .absent ∨ workspace = .directory .absent) ∧
      workspace.ensure = (.ok Settings.standard,
        .directory (.file (Text.encode Settings.standardText)))) ∨
    workspace.ensure.2 = workspace := by
  cases workspace with
  | absent => exact .inl ⟨.inl rfl, rfl⟩
  | file => exact .inr rfl
  | directory entry =>
    cases entry with
    | absent => exact .inl ⟨.inr rfl, rfl⟩
    | directory => exact .inr rfl
    | file bytes => exact .inr rfl

/-- No step does more to the workspace than it may. -/
theorem safe_move (workspace : Workspace) (step : Step) : (workspace.move step).Safe := by
  cases step with
  | load => exact ⟨fun _ => rfl, nofun, fun _ _ h => h, nofun⟩
  | rewrite other => exact ⟨nofun, nofun, nofun, nofun⟩
  | ensure =>
    obtain ⟨hvacant, hensure⟩ | hkept := workspace.ensure_cases
    · refine ⟨nofun, fun _ _ => ⟨hvacant, congrArg Prod.snd hensure⟩, ?_, ?_⟩
      · intro _ bytes hfile
        obtain h | h := hvacant <;> cases h.symm.trans hfile
      · intro _ error herror
        rw [move, hensure] at herror
        cases herror
    · exact ⟨nofun, fun _ hchanged => absurd hkept hchanged, fun _ _ h => hkept.trans h,
        fun _ _ _ => hkept⟩

/-! ## Settings that stay -/

/-- Whether every step answers the given settings and leaves the workspace as it is. -/
structure Settled (workspace : Workspace) (settings : Settings) : Prop where
  load : workspace.load = .ok settings
  ensure : workspace.ensure = (.ok settings, workspace)

variable {workspace : Workspace} {settings : Settings}

/-- A workspace with a file that is read as settings is settled on them. -/
theorem settled_of_file {bytes : List UInt8} (h : Settings.ofBytes bytes = .ok settings) :
    (directory (.file bytes)).Settled settings :=
  ⟨h, Prod.ext h rfl⟩

/-- Where settings were ensured they stay. -/
theorem settled_of_ensure (h : workspace.ensure.1 = .ok settings) :
    workspace.ensure.2.Settled settings := by
  cases workspace with
  | absent =>
    cases h
    exact settled_of_file (Settings.ofBytes_encode Settings.ofText?_standardText)
  | file => cases h
  | directory entry =>
    cases entry with
    | absent =>
      cases h
      exact settled_of_file (Settings.ofBytes_encode Settings.ofText?_standardText)
    | directory => cases h
    | file bytes => exact settled_of_file h

/-- A step from within answers the settings of a settled workspace and leaves it as it is. -/
theorem Settled.move (h : workspace.Settled settings) {step : Step}
    (hstep : step.isRewrite = false) :
    (workspace.move step).answer? = some (.ok settings) ∧
      (workspace.move step).after = workspace := by
  cases step with
  | load => exact ⟨congrArg some h.load, rfl⟩
  | ensure =>
    rw [Workspace.move, h.ensure]
    exact ⟨rfl, rfl⟩
  | rewrite other => cases hstep

/-- Settings stay for as long as nothing else changes the workspace. -/
theorem Settled.session (h : workspace.Settled settings) {steps : List Step}
    {quiet rest : List Move} (hmoves : workspace.session steps = quiet ++ rest)
    (hquiet : ∀ next ∈ quiet, next.step.isRewrite = false) :
    ∀ next ∈ quiet, next.answer? = some (.ok settings) ∧ next.after = next.before := by
  induction quiet generalizing steps with
  | nil => exact fun _ hnext => absurd hnext List.not_mem_nil
  | cons first quiet ih =>
    cases steps with
    | nil => cases hmoves
    | cons step steps =>
      obtain ⟨rfl, hlater⟩ := List.cons.inj hmoves
      obtain ⟨hfirst, hquiet⟩ := List.forall_mem_cons.mp hquiet
      rw [move_step] at hfirst
      obtain ⟨hanswer, hafter⟩ := h.move hfirst
      rw [hafter] at hlater
      refine List.forall_mem_cons.mpr ⟨⟨hanswer, ?_⟩, ih hlater hquiet⟩
      rw [hafter, move_before]

/-- Whatever the steps and whatever happens to the workspace between them, no step alters a settings
file, changes a workspace without making one, or changes it and fails; and once the settings were
ensured, each step answers them and changes nothing until something else does. -/
theorem session_safe (start : Workspace) (steps : List Step) :
    (∀ move ∈ start.session steps, move.Safe) ∧
      ∀ earlier move quiet rest settings,
        start.session steps = earlier ++ move :: (quiet ++ rest) → move.step = .ensure →
        move.answer? = some (.ok settings) → (∀ next ∈ quiet, next.step.isRewrite = false) →
        ∀ next ∈ quiet, next.answer? = some (.ok settings) ∧ next.after = next.before := by
  constructor
  · intro move hmove
    obtain ⟨earlier, later, hmoves⟩ := List.append_of_mem hmove
    obtain ⟨workspace, step, rest, rfl, -⟩ := exists_of_session_eq_append hmoves
    exact safe_move workspace step
  · intro earlier move quiet rest settings hmoves hensure hanswer hquiet
    obtain ⟨workspace, step, steps, rfl, hlater⟩ := exists_of_session_eq_append hmoves
    rw [move_step] at hensure
    subst hensure
    have hsettled : workspace.ensure.2.Settled settings :=
      settled_of_ensure (Option.some.inj hanswer)
    exact hsettled.session hlater.symm hquiet

/-- Settings are ensured in an empty workspace, and once more after the file was replaced by one
with blanks around its endpoint. -/
theorem session_safe_replaced :
    let made := Workspace.directory (.file (Text.encode Settings.standardText))
    let replaced := Workspace.directory (.file (Text.encode
      "store.endpoint = \" http://costs:8080/ \"\n"))
    let settings : Settings := ⟨Pricing.standard, ⟨"http://costs:8080", 30⟩⟩
    let moves := absent.session [.load, .ensure, .load, .rewrite replaced, .ensure, .load, .ensure]
    moves.map Move.after = [.absent, made, made, replaced, replaced, replaced, replaced] ∧
      (∀ move ∈ moves, move.Safe) ∧
      ∀ move ∈ moves.drop 5, move.answer? = some (.ok settings) ∧ move.after = move.before := by
  intro made replaced settings moves
  obtain ⟨hsafe, hquiet⟩ := session_safe absent
    [.load, .ensure, .load, .rewrite replaced, .ensure, .load, .ensure]
  have hread : Settings.ofText? "store.endpoint = \" http://costs:8080/ \"\n" = some settings := by
    decide +kernel
  have hanswer : (replaced.move .ensure).answer? = some (.ok settings) :=
    ((settled_of_file (Settings.ofBytes_encode hread)).move rfl).1
  refine ⟨by decide +kernel, hsafe, ?_⟩
  exact hquiet (moves.take 4) (replaced.move .ensure) (moves.drop 5) [] settings rfl rfl
    hanswer (by simp [moves, session, move, Step.isRewrite])

end Workspace

end PodCosts
