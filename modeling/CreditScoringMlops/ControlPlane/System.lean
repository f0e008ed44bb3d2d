import CreditScoringMlops.ControlPlane.AgentService

/-!
# The control plane as a system

Requests reach API processes, approval services and workers, and the cluster moves on its own.
Each request is served by one program, and the programs interleave.
-/

namespace CreditScoringMlops.ControlPlane

open Python Interaction

/-- What can arrive, with the process it arrives at. -/
inductive Request where
  | createAgentDecision (request : AgentDecisionRequest)
  | createApproval (request : ApprovalCreateRequest)
  | decideApproval (approvalId : String) (decision : ApprovalDecision)
  | executeApproval (service : AgentService) (approvalId : String)
  | reconcileApproval (service : AgentService) (approvalId : String)
  | retryApproval (service : AgentService) (approvalId : String)
  | createTrainingApproval (reason : String) (executionPlan : Dict)
  | decide (decision : ApprovalDecision)
  | execute (service : ApprovalService) (approvalId : String)
  | runOnce (worker : ReconciliationWorker)
  | cluster (change : ClusterChange)

/-- What a request returns. -/
inductive Response where
  | decision (response : AgentDecisionResponse)
  | approval (approval : ApprovalRequest)
  | processed (count : ℕ)
  | done

/-- The program that serves a request. -/
def serve : Request → Handler Response
  | .createAgentDecision request => .decision <$> AgentService.createAgentDecision request
  | .createApproval request => .approval <$> AgentService.createApproval request
  | .decideApproval id decision => .approval <$> AgentService.decideApproval id decision
  | .executeApproval service id => .approval <$> service.executeApproval id
  | .reconcileApproval service id => .approval <$> service.reconcileApproval id
  | .retryApproval service id => .approval <$> service.retryApproval id
  | .createTrainingApproval reason plan =>
      .approval <$> ApprovalService.createTrainingApproval reason plan
  | .decide decision => .approval <$> ApprovalService.decide decision
  | .execute service id => .approval <$> service.execute id
  | .runOnce worker => .processed <$> worker.runOnce
  | .cluster change => (fun _ => .done) <$> ask (.cluster change)

/-- The control plane. -/
def system : Machine Op Op.Reply PyExc Env World Request Response where
  program := serve
  exec := exec
  abort := abort

/-- Entries of its traces. -/
abbrev LogEntry := Entry Op Op.Reply Env World

/-- Events of its runs. -/
abbrev SystemEvent := Event Env Request

/-- A run from the empty tables, with any Jobs in the cluster. -/
def runFrom (jobs : Jobs) (events : List SystemEvent) :
    Config Op Op.Reply PyExc Env World Request Response :=
  system.run { jobs := jobs } events

/-- A short run that opens the approval `a1` and approves it. -/
def approvedRun : List SystemEvent :=
  [.arrive (.createTrainingApproval "drift" []), .step 0 { uuid := "a1" }, .step 0 { uuid := "t1" },
    .step 0 {}, .step 0 {},
    .arrive (.decide { approvalId := "a1", approved := true, decidedAt := 1 }), .step 1 {}]

end CreditScoringMlops.ControlPlane
