import CreditScoringMlops.Consumer.MessageLoss

/-!
# When results are lost

The result of a message is acknowledged when the broker says so, which no commit waits for. All
results are safe exactly in the runs in which every commit comes after the acknowledgement of the
results of all valid messages that its process has polled so far.
-/

namespace CreditScoringMlops.Consumer

open Python Interaction Scoring ConsumerProtocol

/-- The result of a message is acknowledged by the output topic. -/
def World.Acknowledged (w : World) (offset : ℕ) : Prop :=
  ∃ result ∈ w.acknowledged, result.offset = offset

/-- At every point of a run, the result of every valid application that the committed offset lies
beyond is acknowledged. -/
def NoResultLost (validate : Validation) (partition : List MessageValue)
    (events : List ConsumerEvent) : Prop :=
  ∀ earlier later, events = earlier ++ later →
    let w := (runFrom validate partition earlier).world
    ∀ offset < w.committed, ∀ value, partition[offset]? = some value → value.isValid validate →
      w.Acknowledged offset

/-- A process has polled a message. -/
def polled (message : Message) : (op : Op) → op.Reply → Prop
  | .poll, .ok (.message m) => m = message
  | _, _ => False

/-- A process takes an offset by polling its message. -/
theorem effectOf_eq_take {op : Op} {reply : op.Reply} {offset : ℕ} :
    effectOf op reply = .take offset ↔
      ∃ message, polled message op reply ∧ message.offset = offset := by
  constructor
  · intro h
    revert h
    fun_cases effectOf op reply <;> intro h <;> cases h
    exact ⟨_, rfl, rfl⟩
  · rintro ⟨message, h, rfl⟩
    revert h
    fun_cases polled message op reply <;> intro h
    · exact congrArg (OffsetEffect.take ·.offset) h
    · exact h.elim

/-- Every commit comes after the acknowledgement of the results of all valid messages that its
process has polled before. -/
def CommitsAcknowledged (validate : Validation) (trace : List LogEntry) : Prop :=
  ∀ f g, [f, g].Sublist trace → f.caller = g.caller → ∀ message committed,
    polled message f.op f.reply → message.value.isValid validate →
      entryEffect g = .commit committed → g.before.Acknowledged message.offset

section Frame

variable (i : ℕ) (op : Op) (env : Env) (w : World)

/-- No process changes the messages or acknowledges results. -/
theorem exec_frame (h : ∀ index acknowledged, op ≠ .deliver index acknowledged) :
    (exec i op env w).2.partition = w.partition ∧
      (exec i op env w).2.acknowledged = w.acknowledged := by
  unfold exec
  split
  · exact ⟨rfl, rfl⟩
  cases op with
  | poll =>
    simp only [perform, execPoll]
    split <;> first | exact ⟨rfl, rfl⟩ | skip
    split
    · split <;> exact ⟨rfl, rfl⟩
    · exact ⟨rfl, rfl⟩
  | saveScoringLog offset row =>
    simp only [perform, execSave]
    split
    · exact ⟨rfl, rfl⟩
    · split <;> exact ⟨rfl, rfl⟩
  | produce result =>
    simp only [perform, execProduce]
    split <;> exact ⟨rfl, rfl⟩
  | commit message =>
    simp only [perform, execCommit]
    split
    · exact ⟨rfl, rfl⟩
    · split <;> exact ⟨rfl, rfl⟩
  | deliver index acknowledged => exact absurd rfl (h index acknowledged)
  | _ => exact ⟨rfl, rfl⟩

/-- The broker changes no message, and takes no acknowledgement back. -/
theorem execDeliver_frame (index : ℕ) (acknowledged : Bool) :
    (execDeliver index acknowledged w).partition = w.partition ∧
      w.acknowledged ⊆ (execDeliver index acknowledged w).acknowledged := by
  unfold execDeliver
  split
  · exact ⟨rfl, List.Subset.refl _⟩
  · refine ⟨rfl, ?_⟩
    dsimp only
    split
    · exact List.subset_append_left _ _
    · exact List.Subset.refl _

/-- Neither does any operation. -/
theorem exec_mono :
    (exec i op env w).2.partition = w.partition ∧
      w.acknowledged ⊆ (exec i op env w).2.acknowledged := by
  by_cases hdeliver : ∃ index acknowledged, op = .deliver index acknowledged
  · obtain ⟨index, acknowledged, rfl⟩ := hdeliver
    unfold exec
    split
    · exact ⟨rfl, List.Subset.refl _⟩
    · exact execDeliver_frame w index acknowledged
  · obtain ⟨hpartition, hacknowledged⟩ :=
      exec_frame i op env w fun index acknowledged h => hdeliver ⟨index, acknowledged, h⟩
    exact ⟨hpartition, hacknowledged ▸ List.Subset.refl _⟩

/-- What a process polls is a message of the partition. -/
theorem partition_of_polled {message : Message} (h : polled message op (exec i op env w).1) :
    w.partition[message.offset]? = some message.value := by
  cases op with
  | poll =>
    revert h
    unfold exec
    split
    · exact fun h => h.elim
    simp only [perform, execPoll]
    split <;> try exact fun h => h.elim
    split
    · rename_i value hvalue
      split
      · rintro rfl
        exact hvalue
      · exact fun h => h.elim
    · exact fun h => h.elim
  | _ => simp only [polled] at h

end Frame

section Acknowledgement

variable {validate : Validation} {partition : List MessageValue} {trace : List LogEntry} {w : World}

/-- The messages stay what they are. -/
theorem Legal.partition_eq (h : Legal validate partition trace w) : w.partition = partition := by
  induction h with
  | nil => rfl
  | snoc i env op h hmay ih => exact (exec_mono i op env _).1.trans ih
  | abort i h ih => exact ih

/-- A process polls the messages of the partition. -/
theorem Legal.value_of_polled (h : Legal validate partition trace w) {e : LogEntry} (he : e ∈ trace)
    {message : Message} (hpolled : polled message e.op e.reply) :
    partition[message.offset]? = some message.value := by
  obtain ⟨pre, post, rfl⟩ := List.append_of_mem he
  obtain ⟨hpre, -, hentry⟩ := Machine.Legal.split h rfl
  rw [← Legal.partition_eq hpre]
  rw [hentry] at hpolled
  exact partition_of_polled _ _ _ _ hpolled

/-- The result of a message has been acknowledged in a trace. -/
def AcknowledgedIn (trace : List LogEntry) (offset : ℕ) : Prop :=
  ∃ e ∈ trace, e.after.Acknowledged offset

/-- What has been acknowledged in a trace is acknowledged at its end. -/
theorem Legal.acknowledgedIn_iff (h : Legal validate partition trace w) (offset : ℕ) :
    AcknowledgedIn trace offset ↔ w.Acknowledged offset := by
  constructor
  · rintro ⟨e, he, hacknowledged⟩
    refine Machine.Legal.relates_after
      (R := fun w w' => w.Acknowledged offset → w'.Acknowledged offset) (fun _ h => h)
      (fun _ _ _ h h' hw => h' (h hw)) (fun _ _ h => h) h (fun i op env w _ => ?_) he hacknowledged
    rintro ⟨result, hresult, hoffset⟩
    exact ⟨result, (exec_mono i op env w).2 hresult, hoffset⟩
  · intro hacknowledged
    induction h with
    | nil =>
      obtain ⟨result, hresult, -⟩ := hacknowledged
      cases hresult
    | snoc i env op h hmay ih =>
      exact ⟨_, List.mem_append_right _ List.mem_cons_self, hacknowledged⟩
    | abort i h ih => exact ih hacknowledged

/-- A commit acknowledges nothing: what is acknowledged behind it has been so before. -/
theorem Legal.acknowledgedIn_commit {pre post : List LogEntry} {e : LogEntry}
    (h : Legal validate partition trace w) (htrace : trace = pre ++ e :: post) {committed : ℕ}
    (heffect : entryEffect e = .commit committed) (offset : ℕ) :
    AcknowledgedIn (pre ++ [e]) offset ↔ e.before.Acknowledged offset := by
  obtain ⟨hpre, hmay, hentry⟩ := Machine.Legal.split h htrace
  obtain ⟨message, hop, -⟩ := effectOf_eq_commit heffect
  have hframe : ((system validate).exec e.caller e.op e.env e.before).2.acknowledged =
      e.before.acknowledged := (exec_frame _ _ _ _ (by simp [hop])).2
  have hnext := Machine.Legal.snoc e.caller e.env e.op hpre hmay
  rw [← hentry] at hnext
  rw [Legal.acknowledgedIn_iff hnext, World.Acknowledged, World.Acknowledged, hframe]

/-- All results are safe exactly in the runs in which every commit comes after the acknowledgement
of the results of all valid messages that its process has polled so far. -/
theorem noResultLost_iff (validate : Validation) (partition : List MessageValue)
    (events : List ConsumerEvent) :
    NoResultLost validate partition events ↔
      CommitsAcknowledged validate (runFrom validate partition events).trace := by
  have hlegal := legal_runFrom validate partition
  have hlost : NoResultLost validate partition events ↔ ∀ earlier later,
      events = earlier ++ later →
        ∀ offset < (runFrom validate partition earlier).world.committed,
          ∀ value, partition[offset]? = some value → value.isValid validate →
            AcknowledgedIn (runFrom validate partition earlier).trace offset := by
    simp only [NoResultLost, (hlegal _).acknowledgedIn_iff]
  rw [hlost, watermark_iff (D := fun trace offset => ∀ value, partition[offset]? = some value →
    value.isValid validate → AcknowledgedIn trace offset) ?_]
  · constructor
    · intro hcover f g hsub hcaller message committed hpolled hvalid heffect
      obtain ⟨pre, post, htrace, hf⟩ := exists_split_of_sublist hsub
      have hvalue := (hlegal events).value_of_polled (htrace ▸ List.mem_append_left _ hf) hpolled
      rw [← (hlegal events).acknowledgedIn_commit htrace heffect]
      have htake : Did Entry.caller entryEffect pre g.caller (.take message.offset) :=
        ⟨f, hf, hcaller, effectOf_eq_take.mpr ⟨message, hpolled, rfl⟩⟩
      exact hcover pre g post committed htrace heffect _ htake _ hvalue hvalid
    · rintro hcommits pre e post committed htrace heffect offset ⟨f, hf, hcaller, htake⟩ value
        hvalue hvalid
      obtain ⟨message, hpolled, rfl⟩ := effectOf_eq_take.mp htake
      have hmessage := (hlegal events).value_of_polled (htrace ▸ List.mem_append_left _ hf) hpolled
      obtain rfl := Option.some.inj (hmessage.symm.trans hvalue)
      rw [(hlegal events).acknowledgedIn_commit htrace heffect]
      refine hcommits f e ?_ hcaller message committed hpolled hvalid heffect
      rw [htrace]
      exact (List.singleton_sublist.mpr hf).append (List.singleton_sublist.mpr List.mem_cons_self)
  · rintro trace e offset hD value hvalue hvalid
    obtain ⟨f, hf, hacknowledged⟩ := hD value hvalue hvalid
    exact ⟨f, List.mem_append_left _ hf, hacknowledged⟩

end Acknowledgement

/-- A process enqueues the result of the only message and commits it. Then the broker gives the
result up, the process prints the report, and another process takes over. -/
def givenUpRun : List ConsumerEvent :=
  [.arrive (.main 2), .step 0 {}, .step 0 {}, .step 0 {}, .step 0 {}, .step 0 {}, .step 0 {},
    .step 0 {}, .step 0 {}, .step 0 {}, .step 0 {}, .arrive (.deliver 0 false), .step 1 {},
    .step 0 { poll := .nothing }, .step 0 { reports := .ok [some "_MSG_TIMED_OUT"] }, .step 0 {},
    .crash 0, .arrive (.main 1), .step 2 {}, .step 2 {}]

/-- The result is neither acknowledged nor on its way any more, the failure is printed, and the
process that takes over resumes behind the message. -/
theorem result_lost_after_commit :
    let c := runFrom validateTyped [sampleApplication] givenUpRun
    sampleApplication.isValid validateTyped ∧
      (∃ e ∈ c.trace, e.caller = 0 ∧ e.op = .print (.failedToDeliver "_MSG_TIMED_OUT")) ∧
        c.world.acknowledged = [] ∧ c.world.inFlight = [] ∧ c.world.committed = 1 ∧
          c.world.holder = some 2 ∧ c.world.resumed = 1 ∧
            ¬NoResultLost validateTyped [sampleApplication] givenUpRun := by
  refine ⟨rfl, ⟨_, List.mem_of_getElem? (i := 13) rfl, rfl, rfl⟩, rfl, rfl, rfl, rfl, rfl,
    fun h => ?_⟩
  obtain ⟨result, hresult, -⟩ := h givenUpRun [] (by simp) 0 (by decide) _ rfl rfl
  cases hresult

end CreditScoringMlops.Consumer
