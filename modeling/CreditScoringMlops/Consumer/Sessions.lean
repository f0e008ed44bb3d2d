import CreditScoringMlops.Consumer.ConsumerProtocol

/-!
# The consumer's runs as runs of a group

What a consumer process does, seen from the group: it joins, takes, commits, abandons a message
in the transient branch, and leaves. Every run of the consumers is a run of such a group, so its
committed offset is the watermark of the library, and every commit is one of a message whose
score has been saved and enqueued, or that has been rejected.
-/

namespace CreditScoringMlops.Consumer

open Python Interaction Program Scoring ConsumerProtocol

/-- What an operation does to the group. -/
def effectOf : (op : Op) → op.Reply → OffsetEffect
  | .subscribe, .ok _ => .join
  | .close, .ok _ => .leave
  | .poll, .ok (.message m) => .take m.offset
  | .commit message, .ok _ => .commit message.offset
  | .print (.failedToProcess offset _), .ok _ => .abandon offset
  | _, _ => .none

/-- An operation that raises does nothing to the group. -/
theorem effectOf_error (op : Op) (raised : Raised) : effectOf op (.error raised) = .none := by
  cases op with
  | print line => cases line <;> rfl
  | _ => rfl

/-- Only a commit commits. -/
theorem effectOf_eq_commit {op : Op} {reply : op.Reply} {offset : ℕ}
    (h : effectOf op reply = .commit offset) :
    ∃ message, op = .commit message ∧ message.offset = offset := by
  revert h
  fun_cases effectOf op reply <;> intro h <;> cases h
  exact ⟨_, rfl, rfl⟩

/-- What an entry does to the group. -/
def entryEffect (e : LogEntry) : OffsetEffect := effectOf e.op e.reply

/-- The turn of a process in a phase. -/
def Phase.turn : Phase → Turn
  | .new => .new
  | .ready => .ready
  | .busy offset _ => .pending offset
  | .settled _ => .ready

/-- The state of the group. -/
def World.offsets (w : World) : OffsetState ℕ := ⟨w.committed, w.holder, w.resumed, w.position⟩

/-- What a process may do is permitted in its turn, which follows its phase. -/
theorem ConsumerProtocol.turn_next {s : Phase} {op : Op} (h : May s op) (reply : op.Reply) :
    s.turn.Permits (effectOf op reply) ∧
      (next s op reply).turn = s.turn.after (effectOf op reply) := by
  cases reply with
  | error raised =>
    rw [effectOf_error, next_error]
    exact ⟨.none _, rfl⟩
  | ok a =>
    cases h with
    | aside h =>
      cases op with
      | close => exact ⟨.leave _, rfl⟩
      | print line => cases line <;> first | exact ⟨.none _, rfl⟩ | cases h
      | _ => first | exact ⟨.none _, rfl⟩ | cases h
    | subscribe => exact ⟨.join, rfl⟩
    | poll =>
      cases a with
      | message m => exact ⟨.take _, rfl⟩
      | _ => exact ⟨.none _, rfl⟩
    | pollNext =>
      cases a with
      | message m => exact ⟨.take _, rfl⟩
      | _ => exact ⟨.none _, rfl⟩
    | work h => cases op <;> first | exact ⟨.none _, rfl⟩ | cases h
    | save row => exact ⟨.none _, rfl⟩
    | produce result => exact ⟨.none _, rfl⟩
    | @reject offset stage line h =>
      cases line with
      | invalidMessage o exc =>
        obtain rfl : o = offset := by simpa [isRejection] using h
        exact ⟨.none _, rfl⟩
      | invalidPayload o exc =>
        obtain rfl : o = offset := by simpa [isRejection] using h
        exact ⟨.none _, rfl⟩
      | _ => cases h
    | commit message h => exact ⟨.commit _, rfl⟩
    | announce result => exact ⟨.none _, rfl⟩
    | fail exc => exact ⟨.abandon _, rfl⟩

/-- A step of the broker does not concern the group. -/
theorem execDeliver_offsets (index : ℕ) (acknowledged : Bool) (w : World) :
    (execDeliver index acknowledged w).offsets = w.offsets := by
  unfold execDeliver
  split <;> rfl

/-- An operation that is not interrupted is a step of the group. -/
theorem perform_offsetStep {e : LogEntry} (op : Op) (env : Env) (w : World)
    (heffect : entryEffect e = effectOf op (perform e.caller op env w).1) :
    OffsetStep Entry.caller entryEffect w.offsets e (perform e.caller op env w).2.offsets := by
  cases op with
  | subscribe => exact .join heffect
  | close => exact .leave heffect
  | poll =>
    revert heffect
    simp only [perform, execPoll]
    split
    · exact fun heffect => .none heffect
    · exact fun heffect => .none heffect
    · exact fun heffect => .none heffect
    · exact fun heffect => .none heffect
    split
    · split
      · rename_i hholder
        exact fun heffect => .take heffect hholder
      · exact fun heffect => .none heffect
    · exact fun heffect => .none heffect
  | commit message =>
    revert heffect
    simp only [perform, execCommit]
    split
    · exact fun heffect => .none heffect
    split
    · rename_i hholder
      exact fun heffect => .commit heffect hholder
    · exact fun heffect => .none heffect
  | saveScoringLog offset row =>
    revert heffect
    simp only [perform, execSave]
    split
    · exact fun heffect => .none heffect
    · split <;> exact fun heffect => .none heffect
  | produce result =>
    revert heffect
    simp only [perform, execProduce]
    split <;> exact fun heffect => .none heffect
  | print line =>
    cases line with
    | failedToProcess offset exc => exact .abandon heffect
    | _ => exact .none heffect
  | deliver index acknowledged =>
    simp only [perform, execDeliver_offsets]
    exact .none heffect
  | _ => exact .none (heffect.trans (by simp only [effectOf]))

section Group

variable {validate : Validation} {partition : List MessageValue} {trace : List LogEntry} {w : World}

/-- Every operation is a step of the group. -/
theorem exec_offsetStep (i : ℕ) (env : Env) (op : Op) (w : World) :
    OffsetStep Entry.caller entryEffect w.offsets ((system validate).entry i env op w)
      (exec i op env w).2.offsets := by
  by_cases hinterrupt : env.interrupt
  · have hexec : exec i op env w = (.error .keyboardInterrupt, w) := if_pos hinterrupt
    rw [hexec]
    refine .none ?_
    simp only [entryEffect, Machine.entry, system, hexec, effectOf_error]
  · have hexec : exec i op env w = perform i op env w := if_neg hinterrupt
    rw [hexec]
    refine perform_offsetStep op env w ?_
    simp only [entryEffect, Machine.entry, system, hexec]

/-- Legal traces of the consumers. -/
abbrev Legal (validate : Validation) (partition : List MessageValue) (trace : List LogEntry)
    (w : World) : Prop :=
  (system validate).Legal consumerProtocol { partition } trace w

/-- The trace of a run is legal. -/
theorem legal_runFrom (validate : Validation) (partition : List MessageValue)
    (events : List ConsumerEvent) :
    Legal validate partition (runFrom validate partition events).trace
      (runFrom validate partition events).world :=
  ((system validate).disciplined_run exec_possible (obeys_serve validate) _ events).legal

/-- The turn of a process follows its phase. -/
theorem Legal.turnOf_eq (h : Legal validate partition trace w) (i : ℕ) :
    turnOf Entry.caller entryEffect trace i = (consumerProtocol.stateOf trace i).turn := by
  induction h with
  | nil => rfl
  | @snoc trace w j env op h hmay ih =>
    rw [turnOf_concat, Monitor.stateOf_concat, ih]
    split
    · rename_i hj
      subst hj
      exact (turn_next hmay _).2.symm
    · rfl
  | abort j h ih => exact ih

/-- A legal trace is a run of the group. -/
theorem Legal.offsetRun (h : Legal validate partition trace w) :
    OffsetRun Entry.caller entryEffect trace w.offsets := by
  induction h with
  | nil => exact .nil
  | @snoc trace w i env op h hmay ih =>
    refine .snoc _ ih (exec_offsetStep i env op w) ?_
    rw [Legal.turnOf_eq h]
    exact (turn_next hmay _).1
  | abort i h ih => exact .vanish i ih

/-- A commit of a legal trace sets the committed offset behind its message. -/
theorem Legal.committed_of_commit {pre post : List LogEntry} {e : LogEntry}
    (h : Legal validate partition trace w) (htrace : trace = pre ++ e :: post) {n : ℕ}
    (heffect : entryEffect e = .commit n) : e.after.committed = n + 1 := by
  obtain ⟨-, -, hentry⟩ := Machine.Legal.split h htrace
  rw [hentry] at heffect ⊢
  exact congrArg OffsetState.committed
    ((exec_offsetStep e.caller e.env e.op e.before).of_commit heffect).2

/-- When everything below the committed offset is covered, all along a run. -/
theorem watermark_iff {D : List LogEntry → ℕ → Prop}
    (hmono : ∀ trace e o, D trace o → D (trace ++ [e]) o) (events : List ConsumerEvent) :
    (∀ earlier later, events = earlier ++ later →
        ∀ o < (runFrom validate partition earlier).world.committed,
          D (runFrom validate partition earlier).trace o) ↔
      CommitsCovered Entry.caller entryEffect D (runFrom validate partition events).trace := by
  have hlegal := fun events => legal_runFrom validate partition events
  constructor
  · intro hbelow pre e post n htrace heffect o htake
    obtain ⟨earlier, later, hevents, hpre, hworld⟩ :=
      (system validate).exists_run_of_entry htrace
    rw [← hpre]
    refine hbelow earlier later hevents o ?_
    rw [runFrom, hworld, (hlegal events).committed_of_commit htrace heffect]
    exact (hlegal events).offsetRun.taken_lt htrace heffect htake
  · intro hcover earlier later hevents o ho
    refine (hlegal earlier).offsetRun.covered hmono ?_ o ho
    intro pre e post n htrace
    obtain ⟨rest, hrest⟩ := (system validate).trace_extends { partition } earlier later
    refine hcover pre e (post ++ rest) n ?_
    rw [runFrom, hevents, ← hrest, ← List.cons_append, ← List.append_assoc]
    exact congrArg (· ++ rest) htrace

end Group

end CreditScoringMlops.Consumer
