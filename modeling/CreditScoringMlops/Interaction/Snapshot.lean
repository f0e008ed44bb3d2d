import CreditScoringMlops.Interaction.Contract

/-!
# Reading at one moment

A program that is answered, operation by operation, as it would be in one state of the world, and
leaves that state as it is, ends as if it had been served in that state alone. In a run, the answers
of a program are those of one moment if no entry between that moment and one of its operations
changes the answer to that operation.
-/

namespace CreditScoringMlops.Interaction

variable {Op : Type} {Reply : Op → Type} {Exc Env World Request Out A B S : Type}

namespace Machine

/-! ## Replaying a program -/

variable (M : Machine Op Reply Exc Env World Request Out) (i : ℕ)

/-- The outcome of a program of caller `i` that is served alone, in one environment. -/
def alone (env : Env) : World → Program Op Reply Exc A → Except Exc A
  | _, .ret a => .ok a
  | _, .raise e => .error e
  | w, .perform op next => alone env (M.exec i op env w).2 (next (M.exec i op env w).1)

/-- Others may do anything, and nothing is kept. -/
def unconstrained : Contract Op Reply Env World := { rely _ _ := True, given _ := True }

/-- The operation would have been answered alike in a state of the world, which it leaves as it
is. -/
def AnswersAlike (env : Env) (w : World) (e : Entry Op Reply Env World) : Prop :=
  M.exec i e.op env w = (e.reply, w)

variable {M i} {env : Env} {w₀ w : World}

/-- One operation of a program that is served alone. -/
theorem alone_perform {op : Op} {next : Reply op → Program Op Reply Exc A} {reply : Reply op}
    {after : World} (h : M.exec i op env w = (reply, after)) :
    M.alone i env w (.perform op next) = M.alone i env after (next reply) := by
  simp only [alone, h]

/-- An evaluated result is its own outcome. -/
@[simp] theorem alone_ofExcept (result : Except Exc A) :
    M.alone i env w (.ofExcept result) = result := by
  cases result <;> rfl

/-- Mapping a program maps its outcome. -/
@[simp] theorem alone_map (f : A → B) (p : Program Op Reply Exc A) :
    M.alone i env w (f <$> p) = (M.alone i env w p).map f := by
  induction p generalizing w with
  | ret a => rfl
  | raise e => rfl
  | perform op next ih => exact ih _

/-- A program that is answered as in one state returns what it returns there. -/
theorem ensures_replays (env : Env) (w : World) (h : List (Entry Op Reply Env World)) (w' : World)
    (p : Program Op Reply Exc A) :
    M.Ensures i unconstrained
      (fun h' _ a => ∃ more, h' = h ++ more ∧
        ((∀ e ∈ more, M.AnswersAlike i env w e) → M.alone i env w p = .ok a))
      (fun _ _ _ => True) h w' p := by
  induction p generalizing h w' with
  | ret a => exact ⟨trivial, [], (List.append_nil h).symm, fun _ => rfl⟩
  | raise e => exact ⟨trivial, trivial⟩
  | perform op next ih =>
    refine ⟨trivial, fun w'' env' _ _ => ?_⟩
    refine (ih _ (h ++ [M.entry i env' op w'']) _).mono (fun h' _ a _ hend => ?_)
      fun _ _ _ _ _ => trivial
    obtain ⟨more, rfl, hout⟩ := hend
    refine ⟨M.entry i env' op w'' :: more, by simp, fun halike => ?_⟩
    obtain ⟨hfirst, hrest⟩ := List.forall_mem_cons.mp halike
    have hexec : M.exec i op env w = ((M.exec i op env' w'').1, w) := hfirst
    rw [alone_perform hexec]
    exact hout hrest

/-- In every run, a caller that was answered as in one state has returned what it returns there. -/
theorem outcome_of_answersAlike {events : List (Event Env Request)} {r : Request} {a : Out}
    (hcaller : (M.run w₀ events).callers[i]? = some ⟨r, some (.ret a)⟩)
    (h : ∀ e ∈ own (M.run w₀ events).trace i, M.AnswersAlike i env w e) :
    M.alone i env w (M.program r) = .ok a := by
  have hkeeps := keeps_run (M := M) (i := i) (c := unconstrained) (r := r) (fun _ => trivial)
    (fun _ _ _ _ _ => trivial) (fun _ _ _ _ => trivial) (fun _ _ => trivial)
    (fun w' => ensures_replays env w [] w' (M.program r)) w₀ events fun _ _ => trivial
  obtain ⟨-, -, -, more, hmore, hout⟩ := hkeeps.live _ hcaller
  refine hout fun e he => h e ?_
  rwa [hmore]

/-! ## The state of a moment -/

variable {m : Monitor Op Reply S} {trace pre post : List (Entry Op Reply Env World)}

/-- The world after the last entry of a trace. -/
def worldAfter (w₀ : World) (trace : List (Entry Op Reply Env World)) : World :=
  (trace.getLast?.map (·.after)).getD w₀

@[simp] theorem worldAfter_nil :
    worldAfter w₀ ([] : List (Entry Op Reply Env World)) = w₀ := rfl

@[simp] theorem worldAfter_concat (e : Entry Op Reply Env World) :
    worldAfter w₀ (trace ++ [e]) = e.after := by
  simp [worldAfter]

/-- It is the world of an earlier run. -/
theorem exists_run_of_prefix {events : List (Event Env Request)}
    (h : pre <+: (M.run w₀ events).trace) :
    ∃ earlier, earlier <+: events ∧ (M.run w₀ earlier).world = worldAfter w₀ pre := by
  rcases List.eq_nil_or_concat pre with rfl | ⟨init, e, rfl⟩
  · exact ⟨[], List.nil_prefix, rfl⟩
  · obtain ⟨post, hpost⟩ := h
    rw [List.concat_eq_append, List.append_assoc] at hpost
    obtain ⟨earlier, later, rfl, -, hworld⟩ := M.exists_run_of_entry hpost.symm
    refine ⟨earlier, List.prefix_append _ _, ?_⟩
    rw [hworld, List.concat_eq_append, worldAfter_concat]

/-- A part of a legal trace leads to the world after its last entry. -/
theorem Legal.worldAfter (h : M.Legal m w₀ (pre ++ post) w) :
    M.Legal m w₀ pre (worldAfter w₀ pre) := by
  rcases List.eq_nil_or_concat pre with rfl | ⟨init, e, rfl⟩
  · exact .nil
  · rw [List.concat_eq_append, List.append_assoc] at h
    obtain ⟨hlegal, hmay, hentry⟩ := h.split rfl
    rw [List.concat_eq_append, worldAfter_concat, hentry]
    exact .snoc _ _ _ hlegal hmay

/-- What the aborts and the later entries preserve leads from a moment of a legal trace to its
end. -/
theorem Legal.relates_since {R : World → World → Prop} (hrefl : ∀ w, R w w)
    (htrans : ∀ a b c, R a b → R b c → R a c) (habort : ∀ i w, R w (M.abort i w))
    (h : M.Legal m w₀ trace w) (htrace : trace = pre ++ post)
    (hpost : ∀ e ∈ post, R e.before e.after) : R (Machine.worldAfter w₀ pre) w := by
  induction h generalizing post with
  | nil =>
    obtain ⟨rfl, -⟩ := List.append_eq_nil_iff.mp htrace.symm
    exact hrefl w₀
  | @snoc trace w i env op h hmay ih =>
    rcases List.eq_nil_or_concat post with rfl | ⟨init, e, rfl⟩
    · rw [List.append_nil] at htrace
      rw [← htrace, worldAfter_concat]
      exact hrefl _
    · rw [List.concat_eq_append] at htrace hpost
      rw [← List.append_assoc] at htrace
      obtain ⟨rfl, hlast⟩ := List.append_inj' htrace rfl
      obtain rfl : M.entry i env op w = e := by simpa using hlast
      refine htrans _ _ _ (ih rfl fun e he => hpost e (List.mem_append_left _ he)) ?_
      exact hpost _ (List.mem_append_right _ (List.mem_singleton_self _))
  | abort i h ih => exact htrans _ _ _ (ih htrace hpost) (habort i _)

/-! ## Undisturbed callers -/

variable (M i env) in
/-- An entry does not change the answer to an operation. -/
def LeavesAnswer (op : Op) (e : Entry Op Reply Env World) : Prop :=
  (M.exec i op env e.after).1 = (M.exec i op env e.before).1

variable (M i env) in
/-- There is a moment such that no entry between it and an operation of the caller changes the
answer to that operation. -/
def Undisturbed (trace : List (Entry Op Reply Env World)) : Prop :=
  ∃ before after, trace = before ++ after ∧
    (∀ pre e post, before = pre ++ e :: post → e.caller = i →
      ∀ f ∈ post, M.LeavesAnswer i env e.op f) ∧
    ∀ pre e post, after = pre ++ e :: post → e.caller = i →
      ∀ f ∈ pre, M.LeavesAnswer i env e.op f

/-- A caller that only reads, and is undisturbed, is answered as in the state of one moment. -/
theorem Legal.answersAlike (h : M.Legal m w₀ trace w) (hundisturbed : M.Undisturbed i env trace)
    (habort : ∀ e ∈ own trace i, ∀ j w,
      (M.exec i e.op env (M.abort j w)).1 = (M.exec i e.op env w).1)
    (hreads : ∀ e ∈ own trace i, (∀ w, (M.exec i e.op env w).2 = w) ∧
      M.AnswersAlike i env e.before e ∧ e.after = e.before) :
    ∃ pre, pre <+: trace ∧
      ∀ e ∈ own trace i, M.AnswersAlike i env (Machine.worldAfter w₀ pre) e := by
  obtain ⟨before, after, rfl, hbefore, hafter⟩ := hundisturbed
  refine ⟨before, List.prefix_append _ _, fun e he => ?_⟩
  obtain ⟨hsame, halike, hkeep⟩ := hreads e he
  have habort' := fun j w => (habort e he j w).symm
  obtain ⟨hmem, hcaller⟩ := List.mem_filter.mp he
  replace hcaller : e.caller = i := by simpa using hcaller
  suffices hanswer : (M.exec i e.op env (Machine.worldAfter w₀ before)).1 =
      (M.exec i e.op env e.before).1 by
    have hreply : (M.exec i e.op env e.before).1 = e.reply := congrArg Prod.fst halike
    exact Prod.ext (hanswer.trans hreply) (hsame _)
  rcases List.mem_append.mp hmem with hmem | hmem
  · obtain ⟨pre, post, rfl⟩ := List.append_of_mem hmem
    have hsince := h.worldAfter.relates_since
      (R := fun w w' => (M.exec i e.op env w).1 = (M.exec i e.op env w').1) (fun _ => rfl)
      (fun _ _ _ => Eq.trans) habort' (show _ = (pre ++ [e]) ++ post by simp)
      fun f hf => (hbefore pre e post rfl hcaller f hf).symm
    rw [worldAfter_concat, hkeep] at hsince
    exact hsince.symm
  · obtain ⟨pre, post, rfl⟩ := List.append_of_mem hmem
    rw [← List.append_assoc] at h
    exact (h.split rfl).1.relates_since
      (R := fun w w' => (M.exec i e.op env w).1 = (M.exec i e.op env w').1) (fun _ => rfl)
      (fun _ _ _ => Eq.trans) habort' rfl
      fun f hf => (hafter pre e post rfl hcaller f hf).symm

end Machine

end CreditScoringMlops.Interaction
