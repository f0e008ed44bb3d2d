import CreditScoringMlops.Promotion.PromotionGate

/-!
# Guarded promotion, once and repeated

A call of `execute` writes the alias at most once, only past both layers of checks, and returns
`promoted` exactly if that write succeeded; otherwise the registry stays as it is. A repetition
changes nothing either, unless the first call failed: then it may find the version, or succeed in the
write, that the first call could not.
-/

namespace CreditScoringMlops.Promotion

open Python Interaction

/-- A write of an alias, and whether it succeeded. -/
structure AliasWrite where
  name : String
  modelAlias : String
  version : String
  succeeded : Bool

/-- The write of a call. -/
def aliasWrite? : Entry MlflowOp MlflowOp.Reply MlflowEnv Registry → Option AliasWrite
  | ⟨_, _, .setRegisteredModelAlias name modelAlias version, reply, _, _⟩ =>
    some ⟨name, modelAlias, version, reply.toBool⟩
  | _ => none

/-- A program that was served to its end: its outcome, the aliases it wrote, and the registry. -/
structure Served (A : Type) where
  outcome : Except PyExc A
  writes : List AliasWrite
  registry : Registry

/-- Serve a program from its `k`-th call on. -/
def MlflowServer.serve {A : Type} (server : MlflowServer) (env : ℕ → MlflowEnv) (k : ℕ)
    (r : Registry) (p : MlflowProgram A) : Served A :=
  let ended := server.machine.finish 0 { env := env } k r p
  ⟨ended.outcome, ended.entries.filterMap aliasWrite?, ended.world⟩

/-- Looking up a version does not depend on where aliases point. -/
def MlflowServer.IgnoresAliases (server : MlflowServer) : Prop :=
  ∀ r name modelAlias target n version,
    (server.call (.getModelVersion n version) (r.setAlias name modelAlias target)).1 =
      (server.call (.getModelVersion n version) r).1

/-- A write that fails leaves the registry unchanged. -/
def FailsCleanly (env : ℕ → MlflowEnv) : Prop := ∀ k, (env k).applied = false

namespace Registry

/-- Setting an alias to where it points changes nothing. -/
theorem setAlias_of_aliases {r : Registry} {name modelAlias version : String}
    (h : r.aliases name modelAlias = some version) : r.setAlias name modelAlias version = r := by
  refine congrArg (Registry.mk r.experiments r.runs r.modelVersions) ?_
  funext n a
  by_cases hsame : n = name ∧ a = modelAlias
  · rw [if_pos hsame, hsame.1, hsame.2, h]
  · rw [if_neg hsame]

end Registry

variable {server : MlflowServer} {env : ℕ → MlflowEnv} {r : Registry} {k : ℕ} {A B : Type}

/-- A read that goes on with its reply writes nothing. -/
theorem serve_read (hserver : server.Documented) (op : MlflowOp) (hop : op.ReadOnly)
    (f : op.Reply → MlflowProgram A) :
    server.serve env k r (Program.request op >>= f) =
      server.serve env (k + 1) r (f (server.exec op (env k) r).1) := by
  have hwrite : aliasWrite? (server.machine.entry 0 (env k) op r) = none := by
    cases op with
    | setRegisteredModelAlias name modelAlias version => exact hop.elim
    | _ => rfl
  unfold MlflowServer.serve
  rw [finish_read hserver op hop]
  dsimp only
  rw [List.filterMap_cons_none hwrite]

/-- Looking the champion up is one read. -/
theorem serve_getChampionModel_bind (hserver : server.Documented) (tools : MlflowTools)
    (f : ChampionModel → MlflowProgram A) :
    server.serve env k r (tools.getChampionModel >>= f) =
      server.serve env (k + 1) r (f (.ofReply (server.exec
        (.getModelVersionByAlias tools.modelName tools.modelAlias) (env k) r).1)) :=
  serve_read hserver (.getModelVersionByAlias tools.modelName tools.modelAlias) trivial fun reply =>
    f (.ofReply reply)

/-- A write is recorded with its success. -/
theorem serve_write (name modelAlias version : String)
    (f : (MlflowOp.setRegisteredModelAlias name modelAlias version).Reply → MlflowProgram A) :
    server.serve env k r
        (Program.request (MlflowOp.setRegisteredModelAlias name modelAlias version) >>= f) =
      let done := server.exec (.setRegisteredModelAlias name modelAlias version) (env k) r
      let rest := server.serve env (k + 1) done.2 (f done.1)
      { rest with writes := ⟨name, modelAlias, version, done.1.toBool⟩ :: rest.writes } := rfl

/-- Mapping a program maps its outcome. -/
theorem serve_map (p : MlflowProgram A) (f : A → B) :
    server.serve env k r (f <$> p) =
      let served := server.serve env k r p
      ⟨served.outcome.map f, served.writes, served.registry⟩ := by
  unfold MlflowServer.serve
  rw [Machine.finish_map]

/-- A write that fails cleanly takes effect exactly if it returns. -/
theorem exec_write (hserver : server.Documented) {env : MlflowEnv} (henv : env.applied = false)
    (r : Registry) (name modelAlias version : String) :
    server.exec (.setRegisteredModelAlias name modelAlias version) env r =
        (.ok (), r.setAlias name modelAlias version) ∨
      ∃ exc, server.exec (.setRegisteredModelAlias name modelAlias version) env r =
        (.error exc, r) := by
  have hcall := hserver.setRegisteredModelAlias r name modelAlias version
  unfold MlflowServer.exec
  cases env.fault with
  | some exc =>
    rw [henv]
    exact .inr ⟨exc, rfl⟩
  | none =>
    cases hreply : (server.call (.setRegisteredModelAlias name modelAlias version) r).1 with
    | ok _ =>
      rw [hreply] at hcall
      exact .inl (Prod.ext hreply hcall)
    | error exc =>
      rw [hreply] at hcall
      exact .inr ⟨exc, Prod.ext hreply hcall⟩

section

variable (server : MlflowServer) (env : ℕ → MlflowEnv) (tools : MlflowTools) (r : Registry)
  (candidateVersion : String)

/-- `promote_model` gets as far as the write: the version is named and found, and it is not known
to be the champion. -/
structure MayWrite (candidate : ModelVersion) : Prop where
  named : isBlank candidateVersion = false
  found : (server.exec (.getModelVersion tools.modelName candidateVersion) (env 0) r).1 =
    .ok candidate
  notChampion : MlflowTools.isChampion (.ofReply (server.exec
    (.getModelVersionByAlias tools.modelName tools.modelAlias) (env 1) r).1) candidate = false

/-- The ways in which an approved promotion ends: its status, its writes, and the registry. -/
inductive PromotionEnds : PromotionStatus → List AliasWrite → Registry → Prop where
  | notFound : PromotionEnds .failed [] r
  | champion {candidate : ModelVersion}
    (hfound : (server.exec (.getModelVersion tools.modelName candidateVersion) (env 0) r).1 =
      .ok candidate)
    (hchampion : MlflowTools.isChampion (.ofReply (server.exec
      (.getModelVersionByAlias tools.modelName tools.modelAlias) (env 1) r).1) candidate = true) :
    PromotionEnds .alreadyChampion [] r
  | moved {candidate : ModelVersion}
    (hmay : MayWrite server env tools r candidateVersion candidate) :
    PromotionEnds .promoted [⟨tools.modelName, tools.modelAlias, candidate.version, true⟩]
      (r.setAlias tools.modelName tools.modelAlias candidate.version)
  | notMoved {candidate : ModelVersion}
    (hmay : MayWrite server env tools r candidateVersion candidate) :
    PromotionEnds .failed [⟨tools.modelName, tools.modelAlias, candidate.version, false⟩] r

end

variable {tools : MlflowTools} {candidateVersion : String}

/-- The write decides between `promoted` and `failed`. -/
theorem serve_moveAlias (hserver : server.Documented) (henv : FailsCleanly env)
    (candidate : ModelVersion) :
    ∃ result moved, server.serve env k r (tools.moveAlias candidate) =
        ⟨.ok result, [⟨tools.modelName, tools.modelAlias, candidate.version, moved⟩],
          if moved then r.setAlias tools.modelName tools.modelAlias candidate.version else r⟩ ∧
      (ModelPromotionWorkflow.promotionResult result).status =
        if moved then .promoted else .failed := by
  unfold MlflowTools.moveAlias
  rw [serve_write]
  obtain hwrite | ⟨exc, hwrite⟩ := exec_write hserver (henv k) r tools.modelName tools.modelAlias
    candidate.version
  · rw [hwrite]
    exact ⟨_, true, rfl, rfl⟩
  · rw [hwrite]
    exact ⟨_, false, rfl, rfl⟩

/-- Every approved promotion ends in one of these ways. -/
theorem promotion_ends (hserver : server.Documented) (henv : FailsCleanly env)
    (tools : MlflowTools) (r : Registry) (candidateVersion : String) :
    ∃ result writes registry,
      server.serve env 0 r (tools.promoteModel candidateVersion "PROMOTE" true) =
        ⟨.ok result, writes, registry⟩ ∧
      PromotionEnds server env tools r candidateVersion
        (ModelPromotionWorkflow.promotionResult result).status writes registry := by
  unfold MlflowTools.promoteModel
  rw [if_neg (by decide), if_neg (by decide)]
  by_cases hblank : isBlank candidateVersion = true
  · rw [if_pos hblank]
    exact ⟨_, _, _, rfl, .notFound⟩
  have hnamed : isBlank candidateVersion = false := Bool.eq_false_iff.mpr hblank
  rw [if_neg hblank, serve_read hserver (.getModelVersion tools.modelName candidateVersion) trivial]
  cases hfound : (server.exec (.getModelVersion tools.modelName candidateVersion) (env 0) r).1 with
  | error exc => exact ⟨_, _, _, rfl, .notFound⟩
  | ok candidate =>
    dsimp only
    rw [serve_getChampionModel_bind hserver]
    split
    · exact ⟨_, _, _, rfl, .champion hfound ‹_›⟩
    · rename_i hchampion
      have hmay : MayWrite server env tools r candidateVersion candidate :=
        ⟨hnamed, hfound, Bool.eq_false_iff.mpr hchampion⟩
      obtain ⟨result, moved, hserve, hstatus⟩ := serve_moveAlias hserver henv candidate
      refine ⟨result, _, _, hserve, ?_⟩
      rw [hstatus]
      cases moved with
      | true => exact .moved hmay
      | false => exact .notMoved hmay

/-- The gate of `execute`. -/
def GateOpen (evaluation : Dict) (humanApproved : Bool) : Prop :=
  evaluation.isStrAt "decision" "PROMOTE" = true ∧ evaluation.isTrueAt "approved" = true ∧
    humanApproved = true

/-- A call of `execute` stops at the gate, or ends as an approved promotion does. -/
theorem execute_ends (hserver : server.Documented) (henv : FailsCleanly env)
    (workflow : ModelPromotionWorkflow) (r : Registry) (candidateVersion : String)
    (evaluation : Dict) (humanApproved : Bool) :
    ∃ result writes registry,
      server.serve env 0 r (workflow.execute candidateVersion evaluation humanApproved) =
        ⟨.ok result, writes, registry⟩ ∧
      (result.status ≠ .promoted ∧ ¬GateOpen evaluation humanApproved ∧ writes = [] ∧
          registry = r ∨
        GateOpen evaluation humanApproved ∧ PromotionEnds server env workflow.mlflowTools r
          candidateVersion result.status writes registry) := by
  by_cases hgate : GateOpen evaluation humanApproved
  · obtain ⟨result, writes, registry, hserve, hends⟩ :=
      promotion_ends hserver henv workflow.mlflowTools r candidateVersion
    refine ⟨ModelPromotionWorkflow.promotionResult result, writes, registry, ?_, .inr ⟨hgate, hends⟩⟩
    rw [execute_of_gate hgate.1 hgate.2.1 hgate.2.2, serve_map, hserve]
    rfl
  · obtain ⟨result, hresult, hstatus⟩ := execute_of_not_gate workflow candidateVersion hgate
    exact ⟨result, [], r, by rw [hresult]; rfl, .inl ⟨hstatus, hgate, rfl, rfl⟩⟩

/-! ## One call -/

/-- What is written was found in the registry, and everything was checked before. -/
def Warranted (server : MlflowServer) (env : ℕ → MlflowEnv) (tools : MlflowTools) (r : Registry)
    (candidateVersion : String) (write : AliasWrite) : Prop :=
  write.name = tools.modelName ∧ write.modelAlias = tools.modelAlias ∧
    ∃ candidate, candidate.version = write.version ∧
      r.modelVersion? tools.modelName candidate.version = some candidate ∧
      MayWrite server env tools r candidateVersion candidate

/-- A call of `execute` is guarded: it writes at most once, only what is warranted, says `promoted`
exactly if the write succeeded, and otherwise leaves the registry as it is. -/
structure Guarded (server : MlflowServer) (env : ℕ → MlflowEnv) (tools : MlflowTools) (r : Registry)
    (candidateVersion : String) (evaluation : Dict) (humanApproved : Bool)
    (status : PromotionStatus) (writes : List AliasWrite) (registry : Registry) : Prop where
  once : writes.length ≤ 1
  warranted : ∀ write, write ∈ writes → GateOpen evaluation humanApproved ∧
    Warranted server env tools r candidateVersion write
  promoted : status = .promoted ↔ ∃ write, write ∈ writes ∧ write.succeeded = true
  effect : ∀ write, write ∈ writes → write.succeeded = true →
    registry = r.setAlias write.name write.modelAlias write.version
  frame : status ≠ .promoted → registry = r

/-- A version that may be written is warranted, as the server looks versions up. -/
theorem MayWrite.warranted (hserver : server.Documented) {candidate : ModelVersion}
    (hmay : MayWrite server env tools r candidateVersion candidate) (moved : Bool) :
    Warranted server env tools r candidateVersion
      ⟨tools.modelName, tools.modelAlias, candidate.version, moved⟩ :=
  ⟨rfl, rfl, candidate, rfl, (hserver.getModelVersion _ _ _ _ (call_of_exec hmay.found)).1, hmay⟩

variable {evaluation : Dict} {humanApproved : Bool} {status : PromotionStatus}
  {writes : List AliasWrite} {registry : Registry}

/-- A call that writes nothing and promotes nothing is guarded. -/
theorem guarded_nil (hstatus : status ≠ .promoted) :
    Guarded server env tools r candidateVersion evaluation humanApproved status [] r where
  once := Nat.zero_le _
  warranted write hwrite := by cases hwrite
  promoted := ⟨fun h => (hstatus h).elim, fun ⟨write, hwrite, _⟩ => by cases hwrite⟩
  effect write hwrite := by cases hwrite
  frame _ := rfl

/-- So is one that writes once. -/
theorem guarded_singleton (hgate : GateOpen evaluation humanApproved) {write : AliasWrite}
    (hwarranted : Warranted server env tools r candidateVersion write)
    (hpromoted : status = .promoted ↔ write.succeeded = true)
    (heffect : registry =
      if write.succeeded then r.setAlias write.name write.modelAlias write.version else r) :
    Guarded server env tools r candidateVersion evaluation humanApproved status [write]
      registry where
  once := le_rfl
  warranted other hother := List.mem_singleton.mp hother ▸ ⟨hgate, hwarranted⟩
  promoted := by simpa using hpromoted
  effect other hother hsucceeded := by
    obtain rfl := List.mem_singleton.mp hother
    rw [heffect, if_pos hsucceeded]
  frame hstatus := by rw [heffect, if_neg fun h => hstatus (hpromoted.mpr h)]

/-- However an approved promotion ends, it is guarded. -/
theorem PromotionEnds.guarded (hserver : server.Documented)
    (hgate : GateOpen evaluation humanApproved)
    (hends : PromotionEnds server env tools r candidateVersion status writes registry) :
    Guarded server env tools r candidateVersion evaluation humanApproved status writes
      registry := by
  cases hends with
  | notFound => exact guarded_nil (by decide)
  | champion hfound hchampion => exact guarded_nil (by decide)
  | moved hmay =>
    exact guarded_singleton hgate (hmay.warranted hserver true) (by simp) rfl
  | notMoved hmay =>
    exact guarded_singleton hgate (hmay.warranted hserver false) (by simp) rfl

/-! ## And its repetition -/

/-- The champion that a version is known to be is the one under the alias. -/
theorem aliases_of_isChampion (hserver : server.Documented) {env : MlflowEnv}
    {candidate : ModelVersion}
    (h : MlflowTools.isChampion (.ofReply (server.exec
      (.getModelVersionByAlias tools.modelName tools.modelAlias) env r).1) candidate = true) :
    r.aliases tools.modelName tools.modelAlias = some candidate.version := by
  cases hreply : (server.exec (.getModelVersionByAlias tools.modelName tools.modelAlias) env r).1
    with
  | error exc =>
    rw [hreply] at h
    cases h
  | ok v =>
    rw [hreply] at h
    have hsame : v.version = candidate.version := of_decide_eq_true h
    have haliased := hserver.getModelVersionByAlias _ _ _ _ (call_of_exec hreply)
    obtain ⟨version, haliases, hversion⟩ := Option.bind_eq_some_iff.mp haliased
    rw [haliases, ← hsame, (Registry.modelVersion?_key hversion).2]

/-- Where the alias points at the version of the call already, a repetition changes nothing. -/
theorem PromotionEnds.registry_of_aliases {candidate : ModelVersion}
    (hfound : (server.call (.getModelVersion tools.modelName candidateVersion) r).1 =
      .ok candidate)
    (haliases : r.aliases tools.modelName tools.modelAlias = some candidate.version)
    (hends : PromotionEnds server env tools r candidateVersion status writes registry) :
    registry = r := by
  cases hends with
  | notFound => rfl
  | champion _ _ => rfl
  | notMoved _ => rfl
  | moved hmay =>
    obtain rfl := Except.ok.inj (hfound.symm.trans (call_of_exec hmay.found))
    exact Registry.setAlias_of_aliases haliases

/-- Only a promotion changes the registry. -/
theorem PromotionEnds.registry_eq_or
    (hends : PromotionEnds server env tools r candidateVersion status writes registry) :
    registry = r ∨ status = .promoted := by
  cases hends with
  | notFound => exact .inl rfl
  | champion _ _ => exact .inl rfl
  | moved _ => exact .inr rfl
  | notMoved _ => exact .inl rfl

/-- A repetition changes the registry only where it makes the promotion that failed before. -/
theorem PromotionEnds.repeated (hserver : server.Documented) (hignores : server.IgnoresAliases)
    {env env' : ℕ → MlflowEnv} {status' : PromotionStatus} {writes' : List AliasWrite}
    {registry' : Registry}
    (hfirst : PromotionEnds server env tools r candidateVersion status writes registry)
    (hsecond : PromotionEnds server env' tools registry candidateVersion status' writes'
      registry') :
    registry' = registry ∨ status = .failed ∧ status' = .promoted := by
  cases hfirst with
  | notFound => exact hsecond.registry_eq_or.imp_right fun hstatus => ⟨rfl, hstatus⟩
  | champion hfound hchampion =>
    exact .inl (hsecond.registry_of_aliases (call_of_exec hfound)
      (aliases_of_isChampion hserver hchampion))
  | moved hmay =>
    refine .inl (hsecond.registry_of_aliases ?_ (Registry.setAlias_aliases ..))
    exact (hignores ..).trans (call_of_exec hmay.found)
  | notMoved hmay => exact hsecond.registry_eq_or.imp_right fun hstatus => ⟨rfl, hstatus⟩

/-- Every call of `execute` returns a result and is guarded. A repetition, in whatever registry the
first call left, changes it only if the first call failed and the repetition promotes. -/
theorem execute_guarded (hserver : server.Documented) (hignores : server.IgnoresAliases)
    {env env' : ℕ → MlflowEnv} (henv : FailsCleanly env) (henv' : FailsCleanly env')
    (workflow : ModelPromotionWorkflow) (r : Registry) (candidateVersion : String)
    (evaluation : Dict) (humanApproved : Json) :
    let call (env : ℕ → MlflowEnv) (r : Registry) := server.serve env 0 r
      (workflow.execute candidateVersion evaluation humanApproved.truthy)
    let first := call env r
    let second := call env' first.registry
    ∃ result result', first.outcome = .ok result ∧ second.outcome = .ok result' ∧
      Guarded server env workflow.mlflowTools r candidateVersion evaluation humanApproved.truthy
        result.status first.writes first.registry ∧
      (second.registry = first.registry ∨
        result.status = .failed ∧ result'.status = .promoted) := by
  intro call first second
  obtain ⟨result, writes, registry, hfirst, hends⟩ := execute_ends hserver henv workflow r
    candidateVersion evaluation humanApproved.truthy
  obtain ⟨result', writes', registry', hsecond, hends'⟩ := execute_ends hserver henv' workflow
    first.registry candidateVersion evaluation humanApproved.truthy
  have hfirst : first = ⟨.ok result, writes, registry⟩ := hfirst
  have hsecond : second = ⟨.ok result', writes', registry'⟩ := hsecond
  rw [hfirst] at hends'
  refine ⟨result, result', by rw [hfirst], by rw [hsecond], ?_⟩
  rw [hfirst, hsecond]
  obtain ⟨hstatus, hclosed, rfl, rfl⟩ | ⟨hgate, hends⟩ := hends
  · refine ⟨guarded_nil hstatus, .inl ?_⟩
    obtain ⟨-, -, -, hregistry'⟩ | ⟨hgate, -⟩ := hends'
    · exact hregistry'
    · exact absurd hgate hclosed
  · refine ⟨hends.guarded hserver hgate, ?_⟩
    obtain ⟨-, hclosed, -, -⟩ | ⟨-, hends'⟩ := hends'
    · exact absurd hgate hclosed
    · exact hends.repeated hserver hignores hends'

/-- The tracking server looks versions up whatever the aliases are. -/
theorem trackingServer_ignoresAliases : trackingServer.IgnoresAliases := fun _ _ _ _ _ _ => rfl

/-- The write of the first call fails, and its repetition moves the champion. -/
theorem champion_of_retry :
    let call (env : ℕ → MlflowEnv) (r : Registry) := trackingServer.serve env 0 r
      (ModelPromotionWorkflow.execute {} "3" evaluationOfRunC (Json.bool true).truthy)
    let first := call (faultAt 2) threeVersions
    let second := call noFaults first.registry
    first.registry.aliases "CreditScoringCatBoost" "champion" = some "1" ∧
      second.registry.aliases "CreditScoringCatBoost" "champion" = some "3" := by
  intro call first second
  exact ⟨by decide +kernel, by decide +kernel⟩

/-- So the first call reports a failure, and its repetition the promotion. -/
theorem execute_guarded_retry :
    let call (env : ℕ → MlflowEnv) (r : Registry) := trackingServer.serve env 0 r
      (ModelPromotionWorkflow.execute {} "3" evaluationOfRunC (Json.bool true).truthy)
    let first := call (faultAt 2) threeVersions
    let second := call noFaults first.registry
    ∃ result result', first.outcome = .ok result ∧ second.outcome = .ok result' ∧
      Guarded trackingServer (faultAt 2) {} threeVersions "3" evaluationOfRunC
        (Json.bool true).truthy result.status first.writes first.registry ∧
      result.status = .failed ∧ result'.status = .promoted := by
  intro call first second
  have hfault : FailsCleanly (faultAt 2) := fun _ => rfl
  have hnone : FailsCleanly noFaults := fun _ => rfl
  obtain ⟨result, result', hfirst, hsecond, hguarded, hretry⟩ :=
    execute_guarded trackingServer_documented trackingServer_ignoresAliases hfault hnone {}
      threeVersions "3" evaluationOfRunC (.bool true)
  refine ⟨result, result', hfirst, hsecond, hguarded, hretry.resolve_left fun hsame => ?_⟩
  obtain ⟨hbefore, hafter⟩ := champion_of_retry
  rw [hsame, hbefore] at hafter
  exact absurd hafter (by decide)

/-- That repetition does not leave the registry as it was after the first call. -/
theorem execute_not_idempotent :
    let call (env : ℕ → MlflowEnv) (r : Registry) := trackingServer.serve env 0 r
      (ModelPromotionWorkflow.execute {} "3" evaluationOfRunC (Json.bool true).truthy)
    let first := call (faultAt 2) threeVersions
    let second := call noFaults first.registry
    FailsCleanly (faultAt 2) ∧ FailsCleanly noFaults ∧
      first.registry.aliases "CreditScoringCatBoost" "champion" = some "1" ∧
      second.registry.aliases "CreditScoringCatBoost" "champion" = some "3" ∧
      second.registry ≠ first.registry := by
  intro call first second
  obtain ⟨hbefore, hafter⟩ := champion_of_retry
  refine ⟨fun _ => rfl, fun _ => rfl, hbefore, hafter, fun hsame => ?_⟩
  rw [hsame, hbefore] at hafter
  exact absurd hafter (by decide)

end CreditScoringMlops.Promotion
