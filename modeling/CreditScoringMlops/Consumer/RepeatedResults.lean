import CreditScoringMlops.Consumer.MessageLoss
import Mathlib.Data.List.Perm.Basic

/-!
# When results are repeated

A process scores the messages in order and enqueues the result of each at most once. A message is
scored again by a process that takes the partition over before the message has been committed, so a
message has no more results than times it has been polled.
-/

namespace CreditScoringMlops.Consumer

open Python Interaction Scoring ConsumerProtocol

/-- A message is polled. -/
def taken (offset : ℕ) : (op : Op) → op.Reply → Prop
  | .poll, .ok (.message m) => m.offset = offset
  | _, _ => False

instance (offset : ℕ) (op : Op) (reply : op.Reply) : Decidable (taken offset op reply) := by
  unfold taken
  split <;> infer_instance

instance (offset : ℕ) (op : Op) (reply : op.Reply) : Decidable (enqueued offset op reply) := by
  unfold enqueued
  split <;> infer_instance

section Phases

variable {s : Phase} {op : Op} {reply : op.Reply} {offset : ℕ} {stage : Stage}

/-- A line rejects one message. -/
theorem eq_of_isRejection {line : Line} {o : ℕ} (h : isRejection offset line)
    (h' : isRejection o line) : offset = o := by
  cases line <;> simp_all [isRejection]

/-- A score is saved for the message that the process works on. -/
theorem working_of_saved (hmay : May s op) (h : saved offset op reply) :
    s = .busy offset .working := by
  cases op with
  | saveScoringLog o row =>
    cases reply with
    | error raised => cases h
    | ok a =>
      obtain rfl : o = offset := h
      cases hmay with
      | save => rfl
      | aside h => cases h
      | work h => cases h
  | _ => simp [saved] at h

/-- What has been enqueued is not prepared any more. -/
theorem stage_of_enqueued {o : ℕ} (h : enqueued o op reply)
    (hnext : next s op reply = .busy offset stage) : stage = .produced := by
  revert h
  fun_cases enqueued o op reply <;> intro h
  · cases hnext
    rfl
  · exact h.elim

/-- A process works on the message it has worked on before, or has just taken. -/
theorem busy_of_next (hmay : May s op) (h : next s op reply = .busy offset stage) :
    (∃ stage', s = .busy offset stage') ∨ effectOf op reply = .take offset := by
  rcases next_eq_busy h with h | hreaches
  · exact .inl ⟨stage, h⟩
  · cases stage with
    | working => exact .inr hreaches
    | logged => exact .inl ⟨_, working_of_saved hmay hreaches⟩
    | produced => exact .inl ⟨_, logged_of_enqueued hmay hreaches⟩
    | rejected =>
      cases op with
      | print line =>
        cases reply with
        | error raised => cases hreaches
        | ok a =>
          have hline : isRejection offset line := hreaches
          cases hmay with
          | reject h => exact .inl ⟨_, by rw [eq_of_isRejection hline h]⟩
          | aside h => cases line <;> simp_all [isRejection, isAside]
          | work h => cases h
          | announce result => simp [isRejection] at hline
          | fail exc => simp [isRejection] at hline
      | _ => simp [reaches, rejected] at hreaches

end Phases

section History

variable {validate : Validation} {partition : List MessageValue} {trace pre post : List LogEntry}
  {w : World} {f g e : LogEntry} {offset : ℕ}

/-- A process that works on a message has taken it. -/
theorem Legal.taken_of_busy (h : Legal validate partition trace w) {i : ℕ} {stage : Stage}
    (hs : consumerProtocol.stateOf trace i = .busy offset stage) :
    Did Entry.caller entryEffect trace i (.take offset) :=
  Machine.Legal.history (C := fun s => ∃ stage, s = .busy offset stage)
    (R := fun e => e.caller = i ∧ entryEffect e = .take offset) i
    (by simp [consumerProtocol])
    (fun _ _ _ hmay ⟨_, hnext⟩ => (busy_of_next hmay hnext).imp_right fun htake => ⟨rfl, htake⟩)
    h ⟨stage, hs⟩

/-- A result is enqueued by a process that has taken its message. -/
theorem Legal.taken_of_enqueued (h : Legal validate partition trace w)
    (htrace : trace = pre ++ e :: post) (henqueued : enqueued offset e.op e.reply) :
    consumerProtocol.stateOf pre e.caller = .busy offset .logged ∧
      Did Entry.caller entryEffect pre e.caller (.take offset) := by
  obtain ⟨hpre, hmay, -⟩ := Machine.Legal.split h htrace
  have hlogged := logged_of_enqueued hmay henqueued
  exact ⟨hlogged, Legal.taken_of_busy hpre hlogged⟩

/-- While a process prepares a result, all results that it has enqueued are of earlier messages. -/
def Ahead (i : ℕ) (trace : List LogEntry) (s : Phase) : Prop :=
  ∀ offset stage, s = .busy offset stage → stage = .working ∨ stage = .logged →
    ∀ f ∈ trace, f.caller = i → ∀ o, enqueued o f.op f.reply → o < offset

/-- A process is ahead of its results at all times. -/
theorem Legal.ahead (h : Legal validate partition trace w) (i : ℕ) :
    Ahead i trace (consumerProtocol.stateOf trace i) := by
  refine Machine.Legal.stateOf_induction (P := Ahead i) i ?_ ?_ ?_ h
  · intro offset stage hs
    cases hs
  · intro trace s e hne ih offset stage hs hstage f hf hcaller o ho
    refine ih offset stage hs hstage f ?_ hcaller o ho
    exact (List.mem_append.mp hf).resolve_right fun hself =>
      hne (by rw [← List.mem_singleton.mp hself, hcaller])
  · intro trace w env op hlegal hmay ih offset stage hs hstage f hf hcaller o ho
    rcases List.mem_append.mp hf with hf | hf
    · rcases next_eq_busy hs with hs | hreaches
      · exact ih offset stage hs hstage f hf hcaller o ho
      · rcases hstage with rfl | rfl
        · -- a message that is taken comes after all that have been taken before
          obtain ⟨pre, post, rfl⟩ := List.append_of_mem hf
          obtain ⟨-, g, hg, hgcaller, hgtake⟩ := Legal.taken_of_enqueued hlegal rfl ho
          have hrun := Legal.offsetRun (Machine.Legal.snoc i env op hlegal hmay)
          exact hrun.take_lt rfl hreaches
            ⟨g, List.mem_append_left _ hg, hgcaller.trans hcaller, hgtake⟩
        · exact ih offset .working (working_of_saved hmay hreaches) (.inl rfl) f hf hcaller o ho
    · obtain rfl := List.mem_singleton.mp hf
      obtain rfl := stage_of_enqueued ho hs
      simp at hstage

/-- A process enqueues the results in the order of their messages, none of them twice. -/
theorem Legal.enqueued_lt (h : Legal validate partition trace w) (hsub : [f, g].Sublist trace)
    (hcaller : f.caller = g.caller) {o : ℕ} (hf : enqueued o f.op f.reply)
    (hg : enqueued offset g.op g.reply) : o < offset := by
  obtain ⟨pre, post, htrace, hmem⟩ := exists_split_of_sublist hsub
  obtain ⟨hpre, -, -⟩ := Machine.Legal.split h htrace
  obtain ⟨hlogged, -⟩ := Legal.taken_of_enqueued h htrace hg
  exact Legal.ahead hpre g.caller offset .logged hlogged (.inr rfl) f hmem hcaller o hf

/-! ## Counting -/

/-- The results of a message that a process may still enqueue before it polls again. -/
def Phase.credit (offset : ℕ) : Phase → ℕ
  | .busy o .working => if o = offset then 1 else 0
  | .busy o .logged => if o = offset then 1 else 0
  | _ => 0

/-- To poll a message gives one result to enqueue, and nothing else does. -/
theorem credit_next (offset : ℕ) {s : Phase} {op : Op} (reply : op.Reply) (hmay : May s op) :
    (if enqueued offset op reply then 1 else 0) + (next s op reply).credit offset ≤
      s.credit offset + if taken offset op reply then 1 else 0 := by
  cases reply with
  | error raised =>
    rw [next_error]
    cases op <;> simp [enqueued]
  | ok a =>
    have hpoll (s : Phase) (a : Polled) : (if enqueued offset .poll (.ok a) then 1 else 0) +
        (next s .poll (.ok a)).credit offset ≤
          s.credit offset + if taken offset .poll (.ok a) then 1 else 0 := by
      cases a with
      | message m =>
        by_cases ho : m.offset = offset <;> simp [enqueued, taken, next, Phase.credit, ho]
      | _ => simp [enqueued, taken, next, Phase.credit]
    cases hmay with
    | aside h =>
      cases op with
      | print line => cases line <;> simp_all [isAside, enqueued, taken, next]
      | _ => simp_all [isAside, enqueued, taken, next]
    | work h => cases op <;> simp_all [isWork, enqueued, taken, next]
    | poll => exact hpoll _ _
    | pollNext => exact hpoll _ _
    | produce result =>
      by_cases ho : result.offset = offset <;> simp [enqueued, taken, next, Phase.credit, ho]
    | @reject o stage line h =>
      cases line <;> simp_all [isRejection, enqueued, taken, next, Phase.credit]
    | _ => simp [enqueued, taken, next, Phase.credit]

/-- A process has enqueued no more results of a message than it has polled the message. -/
theorem Legal.enqueued_le_taken (h : Legal validate partition trace w) (i : ℕ) :
    trace.countP (fun e => decide (enqueued offset e.op e.reply) && decide (e.caller = i)) +
        (consumerProtocol.stateOf trace i).credit offset ≤
      trace.countP fun e => decide (taken offset e.op e.reply) && decide (e.caller = i) := by
  refine Machine.Legal.stateOf_induction (P := fun trace s =>
    trace.countP (fun e => decide (enqueued offset e.op e.reply) && decide (e.caller = i)) +
        s.credit offset ≤
      trace.countP fun e => decide (taken offset e.op e.reply) && decide (e.caller = i)) i ?_ ?_ ?_ h
  · exact Nat.le_refl 0
  · intro trace s e hne ih
    simpa [List.countP_append, hne] using ih
  · intro trace w env op hlegal hmay ih
    have hcredit := credit_next offset ((system validate).exec i op env w).1 hmay
    simp only [List.countP_append, List.countP_singleton, Machine.entry, decide_true, Bool.and_true,
      decide_eq_true_eq] at ih hcredit ⊢
    change _ + (next _ op _).credit offset ≤ _
    omega

/-- The results of a message, on their way or at the broker. -/
def World.resultsOf (w : World) (offset : ℕ) : ℕ :=
  (w.acknowledged ++ w.inFlight).countP fun result => decide (result.offset = offset)

/-- The broker makes no results. -/
theorem execDeliver_resultsOf (index : ℕ) (acknowledged : Bool) (w : World) :
    (execDeliver index acknowledged w).resultsOf offset ≤ w.resultsOf offset := by
  unfold execDeliver
  cases hresult : w.inFlight[index]? with
  | none => exact Nat.le_refl _
  | some result =>
    obtain ⟨hindex, rfl⟩ := List.getElem?_eq_some_iff.mp hresult
    have hperm := List.getElem_cons_eraseIdx_perm hindex
    have hcount := hperm.countP_eq fun result => decide (result.offset = offset)
    simp only [World.resultsOf, List.countP_append, List.countP_cons, decide_eq_true_eq] at hcount ⊢
    cases acknowledged <;> simp [List.countP_append] <;> omega

/-- Nothing but an enqueued result adds to them. -/
theorem exec_resultsOf (i : ℕ) (op : Op) (env : Env) (w : World) :
    (exec i op env w).2.resultsOf offset ≤
      w.resultsOf offset + if enqueued offset op (exec i op env w).1 then 1 else 0 := by
  unfold exec
  split
  · exact Nat.le_add_right _ _
  cases op with
  | deliver index acknowledged =>
    exact (execDeliver_resultsOf index acknowledged w).trans (Nat.le_add_right _ _)
  | poll =>
    simp only [perform, execPoll]
    split <;> try exact Nat.le_add_right _ _
    split <;> try exact Nat.le_add_right _ _
    split <;> exact Nat.le_add_right _ _
  | saveScoringLog o row =>
    simp only [perform, execSave]
    split
    · exact Nat.le_add_right _ _
    · split <;> exact Nat.le_add_right _ _
  | commit message =>
    simp only [perform, execCommit]
    split
    · exact Nat.le_add_right _ _
    · split <;> exact Nat.le_add_right _ _
  | produce result =>
    cases hproduce : env.produce with
    | error exc =>
      have hexec : perform i (.produce result) env w = (.error (.exception exc), w) := by
        simp [perform, execProduce, hproduce]
      rw [hexec]
      exact Nat.le_add_right _ _
    | ok _ =>
      have hexec : perform i (.produce result) env w =
          (.ok (), { w with inFlight := w.inFlight ++ [result] }) := by
        simp [perform, execProduce, hproduce]
      rw [hexec]
      by_cases ho : result.offset = offset
      · simp [World.resultsOf, enqueued, List.countP_append, ho]
        omega
      · simp [World.resultsOf, enqueued, List.countP_append, ho]
  | _ => exact Nat.le_add_right _ _

/-- The results of a message on their way and at the broker are among those enqueued. -/
theorem Legal.results_le_enqueued (h : Legal validate partition trace w) :
    w.resultsOf offset ≤ trace.countP fun e => decide (enqueued offset e.op e.reply) := by
  induction h with
  | nil => exact Nat.le_refl 0
  | @snoc trace w i env op h hmay ih =>
    refine (exec_resultsOf i op env w).trans ?_
    simp only [List.countP_append, List.countP_singleton, Machine.entry, decide_eq_true_eq]
    exact Nat.add_le_add ih (Nat.le_refl _)
  | abort i h ih => exact ih

end History

/-- In every run of the consumers, a process enqueues results in the order of their messages and
none of them twice. Two results of one message are enqueued by two processes, of which the second
joined the group before anybody had committed the message. And a message has no more results, on
their way or at the broker, than times it has been polled. -/
theorem results_repeated (validate : Validation) (partition : List MessageValue)
    (events : List ConsumerEvent) :
    let c := runFrom validate partition events
    (∀ f g, [f, g].Sublist c.trace → f.caller = g.caller → ∀ o o',
      enqueued o f.op f.reply → enqueued o' g.op g.reply → o < o') ∧
    (∀ f g, [f, g].Sublist c.trace → ∀ o,
      enqueued o f.op f.reply → enqueued o g.op g.reply →
      f.caller ≠ g.caller ∧ ∃ before j after, c.trace = before ++ j :: after ∧
        j.caller = g.caller ∧ entryEffect j = .join ∧
        ∀ i, ¬Did Entry.caller entryEffect before i (.commit o)) ∧
    ∀ o, c.world.resultsOf o ≤ c.trace.countP fun e => decide (taken o e.op e.reply) := by
  intro c
  have h : Legal validate partition c.trace c.world := legal_runFrom validate partition events
  refine ⟨fun f g hsub hcaller o o' hf hg => Legal.enqueued_lt h hsub hcaller hf hg,
    fun f g hsub o hf hg => ⟨fun hcaller => ?_, ?_⟩, fun o => ?_⟩
  · exact lt_irrefl o (Legal.enqueued_lt h hsub hcaller hf hg)
  · obtain ⟨pre, post, htrace, -⟩ := exists_split_of_sublist hsub
    obtain ⟨-, t, ht, htcaller, htake⟩ := Legal.taken_of_enqueued h htrace hg
    obtain ⟨start, rest, rfl⟩ := List.append_of_mem ht
    obtain ⟨before, j, after, rfl, hj, hjoin, hnot⟩ :=
      (Legal.offsetRun h).join_of_take (by rw [htrace, List.append_assoc]; rfl) htake
    refine ⟨before, j, after ++ t :: rest ++ g :: post, by simp [htrace], hj.trans htcaller, hjoin,
      hnot⟩
  · calc c.world.resultsOf o
        ≤ c.trace.countP fun e => decide (enqueued o e.op e.reply) := Legal.results_le_enqueued h
      _ ≤ c.trace.countP fun e => decide (taken o e.op e.reply) :=
        countP_le_of_members Entry.caller fun i =>
          (Nat.le_add_right _ _).trans (Legal.enqueued_le_taken h i)

end CreditScoringMlops.Consumer
