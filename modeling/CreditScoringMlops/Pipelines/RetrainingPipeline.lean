import CreditScoringMlops.Interaction.Conversation
import CreditScoringMlops.Interaction.TaskGraph

/-!
# The pipelines

Two DAGs run the scripts of the project as tasks, each a command in a shell, and
`run_training_pipeline.py` runs the scripts of the training one by one. A DAG is what its file
builds: the tasks and the statements `upstream >> downstream`. When to start a task is the
scheduler's choice, which follows the rule that every task directly upstream has succeeded; tasks
are not retried. What the commands exit with is left to the surroundings.
-/

namespace CreditScoringMlops.Pipelines

open Interaction

/-- The scripts, by the modules that `python -m` runs. -/
inductive Script where
  | validateData
  | buildFeatures
  | trainCatboost
  | trainLightgbm
  | trainXgboost
  | selectBestModel
  | promoteModel
  | shapReport
  | driftReport
  deriving DecidableEq

/-! ## The DAGs -/

/-- A statement `upstream >> downstream`, between tasks or lists of them. -/
structure Dependency where
  upstream : List Script
  downstream : List Script

/-- The tasks that the statements put directly upstream of a task. -/
def upstreamOf (statements : List Dependency) (task : Script) : List Script :=
  statements.flatMap fun s => if task ∈ s.downstream then s.upstream else []

/-- The files with a DAG. -/
inductive Dag where
  | batchPipeline
  | retrainingPipeline

namespace Dag

/-- The operators of a file, in order. -/
def tasks : Dag → List Script
  | batchPipeline => [.validateData, .buildFeatures, .driftReport, .shapReport]
  | retrainingPipeline =>
    [.validateData, .buildFeatures, .trainCatboost, .trainLightgbm, .trainXgboost,
      .selectBestModel, .promoteModel, .shapReport]

/-- Its statements; a chain is one statement for each `>>`. -/
def statements : Dag → List Dependency
  | batchPipeline =>
    [⟨[.validateData], [.buildFeatures]⟩, ⟨[.buildFeatures], [.driftReport]⟩,
      ⟨[.driftReport], [.shapReport]⟩]
  | retrainingPipeline =>
    [⟨[.validateData], [.buildFeatures]⟩,
      ⟨[.buildFeatures], [.trainCatboost, .trainLightgbm, .trainXgboost]⟩,
      ⟨[.trainCatboost, .trainLightgbm, .trainXgboost], [.selectBestModel]⟩,
      ⟨[.selectBestModel], [.promoteModel]⟩, ⟨[.promoteModel], [.shapReport]⟩]

/-- The graph of its tasks. -/
def graph (dag : Dag) : TaskGraph Script where
  tasks := dag.tasks
  upstream := upstreamOf dag.statements
  nodup := by cases dag <;> decide
  ordered := by cases dag <;> unfold Ordered <;> decide

/-- How many tasks one after the other come before a task. -/
def layer : Dag → Script → ℕ
  | batchPipeline, .validateData => 0
  | batchPipeline, .buildFeatures => 1
  | batchPipeline, .driftReport => 2
  | batchPipeline, _ => 3
  | retrainingPipeline, .validateData => 0
  | retrainingPipeline, .buildFeatures => 1
  | retrainingPipeline, .selectBestModel => 3
  | retrainingPipeline, .promoteModel => 4
  | retrainingPipeline, .shapReport => 5
  | retrainingPipeline, _ => 2

/-- The tasks come in layers. -/
theorem layered (dag : Dag) : dag.graph.Layered dag.layer := by
  cases dag <;> constructor <;> decide

end Dag

/-- In every run of a DAG, whatever the order of its tasks and however they overlap, a task starts
after all tasks of the layers before it have succeeded, only tasks of one layer run at one time, and
after a failure no task of a later layer ever starts. -/
theorem schedule_layers (dag : Dag) {events : List (TaskEvent Script)}
    (h : dag.graph.Schedule events) :
    (∀ pre t post, events = pre ++ .start t :: post →
      ∀ s ∈ dag.tasks, dag.layer s < dag.layer t → .exit s 0 ∈ pre) ∧
    (∀ s t, board events s = .running → board events t = .running →
      dag.layer s = dag.layer t) ∧
    ∀ s c, .exit s c ∈ events → c ≠ 0 →
      ∀ t ∈ dag.tasks, dag.layer s < dag.layer t → .start t ∉ events := by
  have htask {t : Script} {state : TaskState} (ht : board events t = state)
      (hstate : state ≠ .waiting) : t ∈ dag.graph.tasks := h.explained.task t (ht ▸ hstate)
  refine ⟨?_, fun s t hs ht => ?_, fun s c hexit hc t ht hlt => ?_⟩
  · rintro pre t post rfl s hs hlt
    have ht : t ∈ dag.graph.tasks := h.task_of_start (by simp)
    exact h.exit_of_start ((dag.layered.ancestor_iff ht hs).mpr hlt)
  · have hs' := htask hs (by decide)
    have ht' := htask ht (by decide)
    rcases Nat.lt_trichotomy (dag.layer s) (dag.layer t) with hlt | heq | hlt
    · exact absurd hs (h.not_running ht (.inl ((dag.layered.ancestor_iff ht' hs').mpr hlt)))
    · exact heq
    · exact absurd hs (h.not_running ht (.inr ((dag.layered.ancestor_iff hs' ht').mpr hlt)))
  · have hs := htask (h.mem_iff.mp hexit : board events s = .ended c) (by simp)
    exact h.not_started ((dag.layered.ancestor_iff ht hs).mpr hlt) hexit hc

/-- A run in which two models are trained at once, and the training of one of them fails. -/
def overlappingTraining : List (TaskEvent Script) :=
  [.start .validateData, .exit .validateData 0, .start .buildFeatures, .exit .buildFeatures 0,
    .start .trainLightgbm, .start .trainCatboost, .exit .trainLightgbm 0, .exit .trainCatboost 1]

theorem schedule_overlappingTraining :
    Dag.retrainingPipeline.graph.Schedule overlappingTraining := by
  have hstart (events : List (TaskEvent Script)) (t : Script)
      (h : Dag.retrainingPipeline.graph.Schedule events)
      (hallowed : t ∈ Dag.retrainingPipeline.tasks ∧ board events t = .waiting ∧
        ∀ u ∈ upstreamOf Dag.retrainingPipeline.statements t, board events u = .ended 0) :
      Dag.retrainingPipeline.graph.Schedule (events ++ [.start t]) :=
    h.snoc (.start hallowed.1 hallowed.2.1 hallowed.2.2)
  have hexit (events : List (TaskEvent Script)) (t : Script) (code : ℤ)
      (h : Dag.retrainingPipeline.graph.Schedule events) (hrunning : board events t = .running) :
      Dag.retrainingPipeline.graph.Schedule (events ++ [.exit t code]) := h.snoc (.exit hrunning)
  have hvalidated := hexit _ .validateData 0 (hstart _ .validateData .nil (by decide)) rfl
  have hbuilt := hexit _ .buildFeatures 0 (hstart _ .buildFeatures hvalidated (by decide)) rfl
  have htraining := hstart _ .trainCatboost (hstart _ .trainLightgbm hbuilt (by decide)) (by decide)
  exact hexit _ .trainCatboost 1 (hexit _ .trainLightgbm 0 htraining rfl) rfl

/-- Nothing is promoted in that run. -/
theorem schedule_layers_overlappingTraining :
    board overlappingTraining .trainCatboost = .ended 1 ∧
      .start .promoteModel ∉ overlappingTraining :=
  ⟨rfl, (schedule_layers .retrainingPipeline schedule_overlappingTraining).2.2 .trainCatboost 1
    (by decide) (by decide) .promoteModel (by decide) (by decide)⟩

/-- What comes of a run depends on the exit codes alone: there is always one after which the
scheduler has nothing left to do, and then a task has ended if every task of the layers before it
exited with zero, and has been given up otherwise; two such runs differ in the order of their events
at most. -/
theorem settled_outcome (dag : Dag) (code : Script → ℤ) :
    (∃ events, dag.graph.Schedule events ∧ dag.graph.Settled events ∧
      TaskGraph.Exits code events) ∧
    ∀ events, dag.graph.Schedule events → dag.graph.Settled events →
      TaskGraph.Exits code events →
      (∀ t ∈ dag.tasks, board events t =
        if ∀ s ∈ dag.tasks, dag.layer s < dag.layer t → code s = 0 then .ended (code t)
        else .givenUp) ∧
      ∀ events', dag.graph.Schedule events' → dag.graph.Settled events' →
        TaskGraph.Exits code events' → events.Perm events' := by
  refine ⟨dag.graph.exists_settled code, fun events h hsettled hexits => ⟨fun t ht => ?_, ?_⟩⟩
  · have hreached : dag.graph.Reached code t ↔
        ∀ s ∈ dag.tasks, dag.layer s < dag.layer t → code s = 0 := by
      constructor
      · exact fun hreached s hs hlt => hreached s ((dag.layered.ancestor_iff ht hs).mpr hlt)
      · intro hall s hs
        have hmem := dag.graph.mem_of_ancestor ht hs
        exact hall s hmem ((dag.layered.ancestor_iff ht hmem).mp hs)
    rcases hsettled.outcome h hexits t ht with ⟨hstate, hcodes⟩ | ⟨hstate, hcodes⟩
    · rw [if_pos (hreached.mp hcodes), hstate]
    · rw [if_neg fun hall => hcodes (hreached.mpr hall), hstate]
  · exact fun events' h' hsettled' hexits' => hsettled.perm h hexits h' hsettled' hexits'

/-! ## The offline pipeline -/

/-- The exception of `sys.exit(code)`. -/
structure SystemExit where
  code : ℤ

/-- Programs that run commands in a shell, which replies with their return codes. -/
abbrev ShellProgram (A : Type) := Program Script (fun _ => ℤ) SystemExit A

namespace RunTrainingPipeline

/-- The scripts of `COMMANDS`. -/
def commands : List Script :=
  [.validateData, .buildFeatures, .trainCatboost, .trainLightgbm, .trainXgboost, .selectBestModel]

/-- `run_command`. -/
def runCommand (script : Script) : ShellProgram Unit := do
  let returncode ← Program.request script
  if returncode ≠ 0 then Program.raise ⟨returncode⟩

/-- `main`. -/
def main : ShellProgram Unit := commands.forM runCommand

/-- The exit status of the process. -/
def exitStatus : Except SystemExit Unit → ℤ
  | .ok () => 0
  | .error exit => exit.code % 256

/-- The commands that are run, one after the other, as the events of a run of tasks. -/
def taskEvents (log : List (Exchange Script fun _ => ℤ)) : List (TaskEvent Script) :=
  log.flatMap fun e => [.start e.op, .exit e.op e.reply]

/-- What is run, and how it ends, if every command returns the given code. -/
def sequence (code : Script → ℤ) :
    List Script → List (Exchange Script fun _ => ℤ) × Except SystemExit Unit
  | [] => ([], .ok ())
  | s :: rest =>
    if code s = 0 then (⟨s, code s⟩ :: (sequence code rest).1, (sequence code rest).2)
    else ([⟨s, code s⟩], .error ⟨code s⟩)

/-- The events of these commands are those of tasks in order. -/
theorem taskEvents_sequence (code : Script → ℤ) (order : List Script) :
    taskEvents (sequence code order).1 = TaskGraph.inOrder code order := by
  induction order with
  | nil => rfl
  | cons s rest ih =>
    rw [sequence, TaskGraph.inOrder, ← ih]
    split <;> rfl

/-- Codes of other commands do not matter. -/
theorem sequence_congr {code code' : Script → ℤ} {order : List Script}
    (h : ∀ s ∈ order, code s = code' s) : sequence code order = sequence code' order := by
  induction order with
  | nil => rfl
  | cons s rest ih =>
    rw [List.forall_mem_cons] at h
    rw [sequence, sequence, h.1, ih h.2]

/-- Only the codes that have been returned matter. -/
theorem sequence_eq_of_replies {code code' : Script → ℤ} {order : List Script}
    (h : ∀ e ∈ (sequence code' order).1, e.reply = code e.op) :
    sequence code order = sequence code' order := by
  induction order with
  | nil => rfl
  | cons s rest ih =>
    rw [sequence] at h ⊢
    split at h
    · rename_i hcode
      rw [List.forall_mem_cons] at h
      rw [← show code' s = code s from h.1, ih h.2, sequence]
    · rename_i hcode
      rw [← show code' s = code s from h ⟨s, code' s⟩ List.mem_cons_self, sequence, if_neg hcode,
        if_neg hcode]

/-- The commands are run up to the first one that fails, and its code is what is left. -/
theorem sequence_spec (code : Script → ℤ) (order : List Script) :
    ((sequence code order).2 = .ok () ∧ (sequence code order).1.map (·.op) = order ∧
      ∀ e ∈ (sequence code order).1, e.reply = 0) ∨
    ∃ pre failed rest, order = pre.map (·.op) ++ failed :: rest ∧
      (sequence code order).1 = pre ++ [⟨failed, code failed⟩] ∧ (∀ e ∈ pre, e.reply = 0) ∧
      code failed ≠ 0 ∧ (sequence code order).2 = .error ⟨code failed⟩ := by
  induction order with
  | nil => exact .inl ⟨rfl, rfl, by simp [sequence]⟩
  | cons s order ih =>
    rw [sequence]
    split
    · rename_i hcode
      rcases ih with ⟨hok, hops, hreplies⟩ | ⟨pre, failed, rest, horder, hlog, hpre, hfailed, herror⟩
      · exact .inl ⟨hok, by rw [List.map_cons, hops], List.forall_mem_cons.mpr ⟨hcode, hreplies⟩⟩
      · refine .inr ⟨⟨s, code s⟩ :: pre, failed, rest, ?_, ?_, ?_, hfailed, herror⟩
        · rw [horder, List.map_cons, List.cons_append]
        · rw [hlog, List.cons_append]
        · exact List.forall_mem_cons.mpr ⟨hcode, hpre⟩
    · rename_i hcode
      exact .inr ⟨[], s, order, rfl, rfl, by simp, hcode, rfl⟩

/-- One command is run, and its return code ends the pipeline if it is not zero. -/
theorem converses_runCommand {s : Script} {log : List (Exchange Script fun _ => ℤ)}
    {result : Except SystemExit Unit} :
    (runCommand s).Converses log result ↔
      ∃ c, log = [⟨s, c⟩] ∧ result = if c ≠ 0 then .error ⟨c⟩ else .ok () := by
  unfold runCommand
  rw [Program.converses_request_bind]
  constructor
  · rintro ⟨c, rest, rfl, h⟩
    refine ⟨c, ?_⟩
    split at h
    · obtain ⟨rfl, rfl⟩ := Program.converses_raise.mp h
      simp_all
    · obtain ⟨rfl, rfl⟩ := Program.converses_ret.mp h
      simp_all
  · rintro ⟨c, rfl, rfl⟩
    refine ⟨c, [], rfl, ?_⟩
    split
    · exact .raise _
    · exact .ret _

/-- Distinct commands are run in sequence. -/
theorem converses_forM {order : List Script} (hnodup : order.Nodup)
    {log : List (Exchange Script fun _ => ℤ)} {result : Except SystemExit Unit}
    (h : (order.forM runCommand : ShellProgram Unit).Converses log result) :
    ∃ code, sequence code order = (log, result) := by
  induction order generalizing log result with
  | nil =>
    obtain ⟨rfl, rfl⟩ := Program.converses_ret.mp h
    exact ⟨fun _ => 0, rfl⟩
  | cons s rest ih =>
    obtain ⟨hs, hrest⟩ := List.nodup_cons.mp hnodup
    change (runCommand s >>= fun _ => rest.forM runCommand).Converses log result at h
    rcases Program.converses_bind.mp h with ⟨exit, rfl, hrun⟩ | ⟨_, pre, post, rfl, hrun, hpost⟩
    · obtain ⟨c, rfl, hc⟩ := converses_runCommand.mp hrun
      split at hc
      · rename_i hfailed
        cases hc
        exact ⟨fun _ => c, by rw [sequence, if_neg hfailed]⟩
      · cases hc
    · obtain ⟨c, rfl, hc⟩ := converses_runCommand.mp hrun
      split at hc
      · cases hc
      · rename_i hzero
        obtain rfl : c = 0 := not_not.mp hzero
        obtain ⟨code, hcode⟩ := ih hrest hpost
        -- the code of the command itself is added to those of the others
        have hother : ∀ u ∈ rest, Function.update code s 0 u = code u := fun u hu =>
          Function.update_of_ne (by rintro rfl; exact hs hu) _ _
        refine ⟨Function.update code s 0, ?_⟩
        rw [sequence, Function.update_self, if_pos rfl, sequence_congr hother, hcode]
        rfl

/-- Every run of the pipeline is a run of the retraining DAG, in which the models are trained one
after the other and nothing is promoted. It runs its commands up to the first one that fails, with
whose code it exits, and it starts no task that the DAG would not start if the commands exit alike.
As long as the return codes are those of processes, the exit status tells whether all commands have
succeeded. -/
theorem main_schedule {log : List (Exchange Script fun _ => ℤ)}
    {result : Except SystemExit Unit} (h : main.Converses log result) :
    Dag.retrainingPipeline.graph.Schedule (taskEvents log) ∧
    (result = .ok () ∧ log.map (·.op) = commands ∧ (∀ e ∈ log, e.reply = 0) ∨
      ∃ pre failed c rest, commands = pre.map (·.op) ++ failed :: rest ∧
        log = pre ++ [⟨failed, c⟩] ∧ (∀ e ∈ pre, e.reply = 0) ∧ c ≠ 0 ∧ result = .error ⟨c⟩) ∧
    (∀ code events, Dag.retrainingPipeline.graph.Schedule events →
      Dag.retrainingPipeline.graph.Settled events → TaskGraph.Exits code events →
      (∀ e ∈ log, e.reply = code e.op) → ∀ e ∈ log, .start e.op ∈ events) ∧
    ((∀ e ∈ log, -256 < e.reply ∧ e.reply < 256) →
      (exitStatus result = 0 ↔ log.map (·.op) = commands ∧ ∀ e ∈ log, e.reply = 0)) := by
  obtain ⟨code, hcode⟩ := converses_forM (by decide) h
  have hordered : Ordered Dag.retrainingPipeline.graph.upstream commands := by
    unfold Ordered
    decide
  have hlog : log = (sequence code commands).1 := by rw [hcode]
  have hresult : result = (sequence code commands).2 := by rw [hcode]
  have hspec := sequence_spec code commands
  rw [← hlog, ← hresult] at hspec
  have hschedule : Dag.retrainingPipeline.graph.Schedule (taskEvents log) := by
    rw [hlog, taskEvents_sequence]
    exact TaskGraph.schedule_inOrder (by decide) (by decide) hordered
  refine ⟨hschedule, ?_, ?_, ?_⟩
  · rcases hspec with ⟨hok, hops, hzero⟩ | ⟨pre, failed, rest, horder, hsplit, hpre, hfailed, herror⟩
    · exact .inl ⟨hok, hops, hzero⟩
    · exact .inr ⟨pre, failed, _, rest, horder, hsplit, hpre, hfailed, herror⟩
  · intro code' events hevents hsettled hexits hagree e he
    have hsame := sequence_eq_of_replies (hlog ▸ hagree)
    have hstart : .start e.op ∈ taskEvents log := List.mem_flatMap.mpr ⟨e, he, by simp⟩
    have htask : e.op ∈ Dag.retrainingPipeline.graph.tasks := hschedule.task_of_start hstart
    rw [hlog, ← hsame, taskEvents_sequence] at hstart
    exact (hsettled.start_iff hevents hexits htask).mpr
      (TaskGraph.reached_of_inOrder hordered hstart)
  · intro hrange
    rcases hspec with ⟨hok, hops, hzero⟩ | ⟨pre, failed, rest, horder, hsplit, hpre, hfailed, herror⟩
    · exact iff_of_true (by rw [hok]; rfl) ⟨hops, hzero⟩
    · have hmem : (⟨failed, code failed⟩ : Exchange Script fun _ => ℤ) ∈ log := by simp [hsplit]
      have hbound := hrange _ hmem
      refine iff_of_false ?_ fun hall => hfailed (hall.2 _ hmem)
      rw [herror]
      change code failed % 256 ≠ 0
      dsimp only at hbound
      omega

/-- The return codes of commands of which one fails. -/
def failingTraining (script : Script) : ℤ := if script = .trainLightgbm then 1 else 0

/-- With them, the pipeline stops after the command that failed, and its process fails. -/
theorem main_schedule_failingTraining :
    Dag.retrainingPipeline.graph.Schedule (taskEvents (main.converse failingTraining).1) ∧
      (main.converse failingTraining).1.map (·.op) =
        [.validateData, .buildFeatures, .trainCatboost, .trainLightgbm] ∧
      exitStatus (main.converse failingTraining).2 ≠ 0 := by
  have h := main_schedule (Program.converses_converse failingTraining main)
  refine ⟨h.1, rfl, fun hzero => ?_⟩
  have hrun : (main.converse failingTraining).1[3]? = some ⟨.trainLightgbm, 1⟩ := rfl
  have hall := ((h.2.2.2 (by decide)).mp hzero).2
  exact absurd (hall _ (List.mem_of_getElem? hrun)) (by decide)

end RunTrainingPipeline

end CreditScoringMlops.Pipelines
