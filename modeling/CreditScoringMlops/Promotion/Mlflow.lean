import CreditScoringMlops.Data.Keyed
import CreditScoringMlops.Interaction.Contract
import CreditScoringMlops.Python.Exceptions
import CreditScoringMlops.Python.Floats
import Mathlib.Data.List.Sort

/-!
# The MLflow server

The registry holds runs with their metrics, registered model versions and aliases. The code reaches
it through the calls of `MlflowClient`, which are operations here. How the server answers them is a
parameter, of which only the documented behaviour is assumed: replies agree with the registry, and
only `set_registered_model_alias` changes it. A call may also fail for reasons of its own, and a
write that failed may have taken effect or not.
-/

namespace CreditScoringMlops.Promotion

open Python Interaction Data

/-- The metrics of a run by name. -/
abbrev Metrics := List (String × PyFloat)

/-- `metrics.get(name)`. -/
def Metrics.get? (metrics : Metrics) (name : String) : Option PyFloat := metrics.lookup name

/-- Metrics as a dictionary. -/
def Metrics.toDict (metrics : Metrics) : Dict := metrics.map fun (name, x) => (name, .float x)

/-- The states of a run. -/
inductive RunStatus where
  | running
  | scheduled
  | finished
  | failed
  | killed
  deriving DecidableEq

/-- A run of the tracking server. Its name is the tag `mlflow.runName`. -/
structure MlflowRun where
  runId : String
  experimentId : String
  runName : Option String
  status : RunStatus
  startTime : ℤ
  metrics : Metrics
  params : List (String × String)

/-- A registered version of a model, with the run that logged it. -/
structure ModelVersion where
  name : String
  version : String
  runId : Option String
  status : String

/-- What the server stores. Experiments have identifiers by name, aliases versions by model and
alias. -/
structure Registry where
  experiments : String → Option String
  runs : Keyed MlflowRun.runId
  modelVersions : Keyed fun v : ModelVersion => (v.name, v.version)
  aliases : String → String → Option String

namespace Registry

/-- The run of an identifier. -/
def run? (r : Registry) (runId : String) : Option MlflowRun := r.runs.find? runId

/-- The registered version of a model. -/
def modelVersion? (r : Registry) (name version : String) : Option ModelVersion :=
  r.modelVersions.find? (name, version)

/-- The metrics of the run that logged a version; none without such a run. -/
def metricsOf (r : Registry) (v : ModelVersion) : Metrics :=
  ((v.runId.bind r.run?).map (·.metrics)).getD []

/-- The version under an alias. -/
def aliased? (r : Registry) (name modelAlias : String) : Option ModelVersion :=
  (r.aliases name modelAlias).bind (r.modelVersion? name)

/-- Point an alias at a version. -/
def setAlias (r : Registry) (name modelAlias version : String) : Registry :=
  { r with aliases := fun n a =>
      if n = name ∧ a = modelAlias then some version else r.aliases n a }

/-- Log a finished or unfinished run and register the version it produced. -/
def register (r : Registry) (run : MlflowRun) (v : ModelVersion) : Registry :=
  { r with runs := r.runs.insert run, modelVersions := r.modelVersions.insert v }

@[simp] theorem setAlias_run? (r : Registry) (name modelAlias version runId : String) :
    (r.setAlias name modelAlias version).run? runId = r.run? runId := rfl

@[simp] theorem setAlias_modelVersion? (r : Registry) (name modelAlias version n v : String) :
    (r.setAlias name modelAlias version).modelVersion? n v = r.modelVersion? n v := rfl

@[simp] theorem setAlias_metricsOf (r : Registry) (name modelAlias version : String)
    (v : ModelVersion) : (r.setAlias name modelAlias version).metricsOf v = r.metricsOf v := rfl

@[simp] theorem setAlias_aliases (r : Registry) (name modelAlias version : String) :
    (r.setAlias name modelAlias version).aliases name modelAlias = some version := by
  simp [setAlias]

/-- A registered version is found under its own name and version. -/
theorem modelVersion?_key {r : Registry} {name version : String} {v : ModelVersion}
    (h : r.modelVersion? name version = some v) : v.name = name ∧ v.version = version :=
  Prod.mk.inj (Keyed.key_of_find? (t := r.modelVersions) h)

end Registry

/-- What a search for runs asks for: finished runs of the experiments, newest first, with the given
name and a positive value of the given metric where the filter names one. -/
structure RunQuery where
  experimentIds : List String
  runName : Option String := none
  positiveMetric : Option String := none
  maxResults : ℕ := 1000

/-- The filter of a search. -/
def RunQuery.accepts (q : RunQuery) (run : MlflowRun) : Bool :=
  q.experimentIds.contains run.experimentId && decide (run.status = .finished) &&
    q.runName.all (fun name => decide (run.runName = some name)) &&
      q.positiveMetric.all fun name => (run.metrics.get? name).any PyFloat.positive

/-- The order `attributes.start_time DESC`. -/
def newestFirst (a b : MlflowRun) : Prop := b.startTime ≤ a.startTime

instance : DecidableRel newestFirst := fun _ _ => inferInstanceAs (Decidable (_ ≤ _))

instance : Std.Total newestFirst := ⟨fun a b => le_total b.startTime a.startTime⟩

instance : IsTrans MlflowRun newestFirst := ⟨fun _ _ _ hab hbc => le_trans hbc hab⟩

/-- The calls of `MlflowClient` that the code makes. -/
inductive MlflowOp where
  | getModelVersionByAlias (name modelAlias : String)
  | getModelVersion (name version : String)
  | setRegisteredModelAlias (name modelAlias version : String)
  | getRun (runId : String)
  | getExperimentByName (name : String)
  | searchRuns (query : RunQuery)
  | searchModelVersions (name : String)

/-- What they return. -/
abbrev MlflowOp.Result : MlflowOp → Type
  | getModelVersionByAlias _ _ => ModelVersion
  | getModelVersion _ _ => ModelVersion
  | setRegisteredModelAlias _ _ _ => Unit
  | getRun _ => MlflowRun
  | getExperimentByName _ => Option String
  | searchRuns _ => List MlflowRun
  | searchModelVersions _ => List ModelVersion

/-- A call returns or raises. -/
abbrev MlflowOp.Reply (op : MlflowOp) : Type := Except PyExc op.Result

/-- The calls that only read. -/
def MlflowOp.ReadOnly : MlflowOp → Prop
  | setRegisteredModelAlias _ _ _ => False
  | _ => True

/-- How a server answers a call, and what it stores afterwards. -/
structure MlflowServer where
  call : (op : MlflowOp) → Registry → op.Reply × Registry

/-- The documented behaviour of a server. -/
structure MlflowServer.Documented (server : MlflowServer) : Prop where
  readOnly : ∀ op r, op.ReadOnly → (server.call op r).2 = r
  getModelVersionByAlias : ∀ r name modelAlias v,
    (server.call (.getModelVersionByAlias name modelAlias) r).1 = .ok v →
      r.aliased? name modelAlias = some v
  getModelVersion : ∀ r name version v,
    (server.call (.getModelVersion name version) r).1 = .ok v →
      r.modelVersion? name v.version = some v ∧
        ∀ v', r.modelVersion? name version = some v' → v = v'
  getRun : ∀ r runId run, (server.call (.getRun runId) r).1 = .ok run → r.run? runId = some run
  searchRuns : ∀ r query runs, (server.call (.searchRuns query) r).1 = .ok runs →
    ∃ all : List MlflowRun, all.Perm (r.runs.items.filter query.accepts) ∧
      all.Pairwise newestFirst ∧ runs = all.take query.maxResults
  searchModelVersions : ∀ r name versions,
    (server.call (.searchModelVersions name) r).1 = .ok versions →
      ∀ v, v ∈ versions → v.name = name ∧ v ∈ r.modelVersions.items
  setRegisteredModelAlias : ∀ r name modelAlias version,
    (server.call (.setRegisteredModelAlias name modelAlias version) r).2 =
      match (server.call (.setRegisteredModelAlias name modelAlias version) r).1 with
      | .ok () => r.setAlias name modelAlias version
      | .error _ => r

/-- What the surroundings contribute to one call: a failure, and whether the call took effect
before it failed. -/
structure MlflowEnv where
  fault : Option PyExc := none
  applied : Bool := false

/-- Programs that call MLflow. -/
abbrev MlflowProgram (A : Type) := Program MlflowOp MlflowOp.Reply PyExc A

/-- One call, which may fail. -/
def MlflowServer.exec (server : MlflowServer) (op : MlflowOp) (env : MlflowEnv) (r : Registry) :
    op.Reply × Registry :=
  match env.fault with
  | none => server.call op r
  | some exc => (.error exc, if env.applied then (server.call op r).2 else r)

/-- The programs that call a server. -/
def MlflowServer.machine (server : MlflowServer) :
    Machine MlflowOp MlflowOp.Reply PyExc MlflowEnv Registry (MlflowProgram Unit) Unit where
  program p := p
  exec _ := server.exec
  abort _ r := r

/-- Run a program to its end, from its `k`-th call on: what it returns or raises, and the registry
then. -/
def MlflowServer.runFrom {A : Type} (server : MlflowServer) (env : ℕ → MlflowEnv) (k : ℕ)
    (r : Registry) (p : MlflowProgram A) : Except PyExc A × Registry :=
  let ended := server.machine.finish 0 { env := env } k r p
  (ended.outcome, ended.world)

/-- Run a program. -/
abbrev MlflowServer.run {A : Type} (server : MlflowServer) (env : ℕ → MlflowEnv) (r : Registry)
    (p : MlflowProgram A) : Except PyExc A × Registry := server.runFrom env 0 r p

/-- Make a call. -/
def callMlflow (op : MlflowOp) : MlflowProgram op.Result := do
  Program.ofExcept (← Program.request op)

/-- A call of a permitted operation. -/
theorem callMlflow_uses {allowed : MlflowOp → Prop} {op : MlflowOp} (h : allowed op) :
    (callMlflow op).Uses allowed :=
  (Program.uses_request h).bind fun result => Program.uses_ofExcept result

variable {server : MlflowServer}

/-- A read leaves the registry alone, also when it fails. -/
theorem exec_readOnly (hserver : server.Documented) {op : MlflowOp} (hop : op.ReadOnly)
    (env : MlflowEnv) (r : Registry) : (server.exec op env r).2 = r := by
  unfold MlflowServer.exec
  have hcall := hserver.readOnly op r hop
  cases env.fault with
  | none => exact hcall
  | some exc =>
    dsimp only
    split
    · exact hcall
    · rfl

/-- A call that returns has been answered by the server. -/
theorem call_of_exec {op : MlflowOp} {env : MlflowEnv} {r : Registry} {result : op.Result}
    (h : (server.exec op env r).1 = .ok result) : (server.call op r).1 = .ok result := by
  unfold MlflowServer.exec at h
  cases hfault : env.fault with
  | none => simpa only [hfault] using h
  | some exc => simp only [hfault, reduceCtorEq] at h

/-- The write of an alias takes effect as a whole or not at all. -/
theorem exec_setRegisteredModelAlias (hserver : server.Documented) (env : MlflowEnv)
    (r : Registry) (name modelAlias version : String) :
    (server.exec (.setRegisteredModelAlias name modelAlias version) env r).2 = r ∨
      (server.exec (.setRegisteredModelAlias name modelAlias version) env r).2 =
        r.setAlias name modelAlias version := by
  have hcall : (server.call (.setRegisteredModelAlias name modelAlias version) r).2 = r ∨
      (server.call (.setRegisteredModelAlias name modelAlias version) r).2 =
        r.setAlias name modelAlias version := by
    rw [hserver.setRegisteredModelAlias]
    cases (server.call (.setRegisteredModelAlias name modelAlias version) r).1 with
    | error exc => exact .inl rfl
    | ok _ => exact .inr rfl
  unfold MlflowServer.exec
  cases env.fault with
  | none => exact hcall
  | some exc =>
    dsimp only
    split
    · exact hcall
    · exact .inl rfl

/-- A run that a search returns is in the registry and passes the filter. -/
theorem mem_searchRuns (hserver : server.Documented) {r : Registry} {query : RunQuery}
    {runs : List MlflowRun} (h : (server.call (.searchRuns query) r).1 = .ok runs)
    {run : MlflowRun} (hrun : run ∈ runs) :
    r.run? run.runId = some run ∧ query.accepts run := by
  obtain ⟨all, hperm, -, rfl⟩ := hserver.searchRuns r query runs h
  have hmem := hperm.subset (List.mem_of_mem_take hrun)
  exact ⟨Keyed.find?_key_of_mem (List.mem_of_mem_filter hmem), (List.mem_filter.mp hmem).2⟩

/-! ## Runs of programs -/

/-- Surroundings in which no call fails for a reason of its own. -/
def noFaults : ℕ → MlflowEnv := fun _ => {}

/-- Surroundings in which one call fails. -/
def faultAt (n : ℕ) : ℕ → MlflowEnv := fun k =>
  { fault := if k = n then some (.other "INTERNAL_ERROR") else none }

variable {A B : Type} {env : ℕ → MlflowEnv} {k : ℕ} {r : Registry}

@[simp] theorem runFrom_pure (a : A) : server.runFrom env k r (pure a) = (.ok a, r) := rfl

@[simp] theorem runFrom_raise (exc : PyExc) :
    server.runFrom env k r (Program.raise exc : MlflowProgram A) = (.error exc, r) := rfl

/-- One call, and the program goes on with its reply. -/
@[simp] theorem runFrom_request_bind (op : MlflowOp) (f : op.Reply → MlflowProgram A) :
    server.runFrom env k r (Program.request op >>= f) =
      server.runFrom env (k + 1) (server.exec op (env k) r).2 (f (server.exec op (env k) r).1) :=
  rfl

/-- A read, and the program goes on in the same registry. -/
theorem finish_read (hserver : server.Documented) (op : MlflowOp) (hop : op.ReadOnly)
    (f : op.Reply → MlflowProgram A) :
    server.machine.finish 0 { env := env } k r (Program.request op >>= f) =
      let rest := server.machine.finish 0 { env := env } (k + 1) r (f (server.exec op (env k) r).1)
      { rest with entries := server.machine.entry 0 (env k) op r :: rest.entries } := by
  have hexec : server.machine.exec 0 op (env k) r = ((server.exec op (env k) r).1, r) :=
    Prod.ext rfl (exec_readOnly hserver hop (env k) r)
  exact Machine.finish_perform (s := { env := env }) hexec

/-- One call, which ends a program with the exception of a call that fails. -/
theorem runFrom_callMlflow_bind (op : MlflowOp)
    (f : op.Result → MlflowProgram A) :
    server.runFrom env k r (callMlflow op >>= f) =
      match (server.exec op (env k) r).1 with
      | .ok result => server.runFrom env (k + 1) (server.exec op (env k) r).2 (f result)
      | .error exc => (.error exc, (server.exec op (env k) r).2) := by
  change server.runFrom env (k + 1) (server.exec op (env k) r).2
    (Program.ofExcept (server.exec op (env k) r).1 >>= f) = _
  cases (server.exec op (env k) r).1 <;> rfl

/-- A mapped program has the mapped outcome. -/
@[simp] theorem runFrom_map (p : MlflowProgram A) (f : A → B) :
    server.runFrom env k r (f <$> p) =
      ((server.runFrom env k r p).1.map f, (server.runFrom env k r p).2) := by
  unfold MlflowServer.runFrom
  rw [Machine.finish_map]

/-- A program that only reads leaves the registry alone, whatever it meets. -/
theorem runFrom_of_uses (hserver : server.Documented) {p : MlflowProgram A}
    (hp : p.Uses MlflowOp.ReadOnly) (env : ℕ → MlflowEnv) (k : ℕ) (r : Registry) :
    (server.runFrom env k r p).2 = r := by
  induction p generalizing k with
  | ret a => rfl
  | raise e => rfl
  | perform op next ih =>
    change (server.runFrom env (k + 1) (server.exec op (env k) r).2 _).2 = r
    rw [exec_readOnly hserver hp.1]
    exact ih _ (hp.2 _ trivial) (k + 1)

/-- What a program promises for all replies holds of its outcome. -/
theorem runFrom_of_obeys {allowed : MlflowOp → Prop} {Q : A → Prop} {p : MlflowProgram A}
    (hp : p.Obeys (.only allowed) (fun _ a => Q a) (fun _ _ => True) ()) {a : A}
    (h : (server.runFrom env k r p).1 = .ok a) : Q a := by
  induction p generalizing k r with
  | ret b =>
    obtain rfl := Except.ok.inj h
    exact hp
  | raise e => cases h
  | perform op next ih => exact ih _ (hp.2 _ trivial) h

@[simp] theorem exec_noFaults (op : MlflowOp) : server.exec op (noFaults k) r = server.call op r :=
  rfl

/-- Without faults, the number of a call does not matter. -/
theorem runFrom_noFaults (p : MlflowProgram A) :
    server.runFrom noFaults k r p = server.run noFaults r p := by
  induction p generalizing k r with
  | ret a => rfl
  | raise e => rfl
  | perform op next ih =>
    change server.runFrom noFaults (k + 1) (server.call op r).2 _ =
      server.runFrom noFaults (0 + 1) (server.call op r).2 _
    rw [ih, ih]

/-- Without faults, a sequence is run part by part. -/
theorem run_bind (p : MlflowProgram A) (f : A → MlflowProgram B) :
    server.run noFaults r (p >>= f) =
      match server.run noFaults r p with
      | (.ok a, r') => server.run noFaults r' (f a)
      | (.error e, r') => (.error e, r') := by
  simp only [MlflowServer.run, MlflowServer.runFrom, Machine.finish_bind]
  cases (server.machine.finish 0 { env := noFaults } 0 r p).outcome with
  | ok a =>
    dsimp only
    exact runFrom_noFaults _
  | error e => rfl

/-! ## A server -/

/-- A tracking server that answers every call from its registry. -/
def trackingServer : MlflowServer where
  call
    | .getModelVersionByAlias name modelAlias, r =>
      ((r.aliased? name modelAlias).elim (.error (.other "RESOURCE_DOES_NOT_EXIST")) .ok, r)
    | .getModelVersion name version, r =>
      ((r.modelVersion? name version).elim (.error (.other "RESOURCE_DOES_NOT_EXIST")) .ok, r)
    | .setRegisteredModelAlias name modelAlias version, r =>
      if (r.modelVersion? name version).isSome then (.ok (), r.setAlias name modelAlias version)
      else (.error (.other "RESOURCE_DOES_NOT_EXIST"), r)
    | .getRun runId, r => ((r.run? runId).elim (.error (.other "RESOURCE_DOES_NOT_EXIST")) .ok, r)
    | .getExperimentByName name, r => (.ok (r.experiments name), r)
    | .searchRuns query, r =>
      (.ok (((r.runs.items.filter query.accepts).insertionSort newestFirst).take
        query.maxResults), r)
    | .searchModelVersions name, r =>
      (.ok (r.modelVersions.items.filter fun v => decide (v.name = name)), r)

/-- What is found in the registry is what the call returns. -/
theorem elim_eq_ok {A : Type} {found : Option A} {exc : PyExc} {a : A}
    (h : found.elim (.error exc) .ok = (.ok a : Except PyExc A)) : found = some a := by
  cases found with
  | none => cases h
  | some b => rw [Except.ok.inj h]

/-- It behaves as documented. -/
theorem trackingServer_documented : trackingServer.Documented where
  readOnly op r hop := by
    cases op with
    | setRegisteredModelAlias name modelAlias version => exact hop.elim
    | _ => rfl
  getModelVersionByAlias r name modelAlias v h := elim_eq_ok h
  getModelVersion r name version v h := by
    have hfound : r.modelVersion? name version = some v := elim_eq_ok h
    obtain ⟨-, hversion⟩ := Registry.modelVersion?_key hfound
    rw [hversion]
    exact ⟨hfound, fun v' h' => Option.some.inj (hfound.symm.trans h')⟩
  getRun r runId run h := elim_eq_ok h
  searchRuns r query runs h :=
    ⟨_, List.perm_insertionSort newestFirst _, List.pairwise_insertionSort newestFirst _,
      (Except.ok.inj h).symm⟩
  searchModelVersions r name versions h v hv := by
    rw [← Except.ok.inj h] at hv
    exact ⟨of_decide_eq_true (List.mem_filter.mp hv).2, List.mem_of_mem_filter hv⟩
  setRegisteredModelAlias r name modelAlias version := by
    simp only [trackingServer]
    split <;> rfl

end CreditScoringMlops.Promotion
