import CreditScoringMlops.Interaction.Machine

/-!
# Contracts of programs in the company of others

A contract says what a program may rely on: how the world can change between its operations, and
what is known of each operation it performs. Under a contract, `Machine.Ensures` is the weakest
precondition of a program: in its own history a property holds at all times, and the
postconditions hold where it returns and where it raises.

Two kinds of execution are covered. `Machine.finish` serves one program to its end, while the
others change the world in between; and in every interleaved run, a caller whose program ensures
its postconditions has kept them.
-/

namespace CreditScoringMlops.Interaction

variable {Op : Type} {Reply : Op → Type} {Exc Env World Request Out A B : Type}

/-- What one program meets: the environment of each of its operations, and the change of the
world by others before it. -/
structure Surroundings (Env World : Type) where
  env : ℕ → Env
  others : ℕ → World → World := fun _ w => w

/-- The end of a program: its outcome, the operations it has performed, and the world. -/
structure Ended (Op : Type) (Reply : Op → Type) (Exc Env World A : Type) where
  outcome : Except Exc A
  entries : List (Entry Op Reply Env World)
  world : World

/-- How a program ended, after the operations `h`: where it returned, `Q` holds, and where it
raised, `E` does. -/
def Ended.Meets (Q : List (Entry Op Reply Env World) → World → A → Prop)
    (E : List (Entry Op Reply Env World) → World → Exc → Prop)
    (h : List (Entry Op Reply Env World)) (ended : Ended Op Reply Exc Env World A) : Prop :=
  match ended.outcome with
  | .ok a => Q (h ++ ended.entries) ended.world a
  | .error e => E (h ++ ended.entries) ended.world e

/-- What a program may rely on between its operations, what is given of each of them, and what it
has to keep about those it has performed. -/
structure Contract (Op : Type) (Reply : Op → Type) (Env World : Type) where
  rely : World → World → Prop
  given : Entry Op Reply Env World → Prop
  always : List (Entry Op Reply Env World) → Prop := fun _ => True

namespace Machine

variable (M : Machine Op Reply Exc Env World Request Out) (i : ℕ)

/-- Serve a program of caller `i` to its end, from its `k`-th operation on. -/
def finish (s : Surroundings Env World) :
    ℕ → World → Program Op Reply Exc A → Ended Op Reply Exc Env World A
  | _, w, .ret a => ⟨.ok a, [], w⟩
  | _, w, .raise e => ⟨.error e, [], w⟩
  | k, w, .perform op next =>
    let (reply, after) := M.exec i op (s.env k) (s.others k w)
    let rest := finish s (k + 1) after (next reply)
    { rest with entries := M.entry i (s.env k) op (s.others k w) :: rest.entries }

/-- One operation of a program that is served to its end. -/
theorem finish_perform {M : Machine Op Reply Exc Env World Request Out} {i : ℕ}
    {s : Surroundings Env World} {k : ℕ} {w : World} {op : Op}
    {next : Reply op → Program Op Reply Exc A} {reply : Reply op} {after : World}
    (h : M.exec i op (s.env k) (s.others k w) = (reply, after)) :
    M.finish i s k w (.perform op next) =
      let rest := M.finish i s (k + 1) after (next reply)
      { rest with entries := M.entry i (s.env k) op (s.others k w) :: rest.entries } := by
  simp only [finish, h]

/-- Serving a sequence is serving its parts, where an exception skips the second. -/
theorem finish_bind (M : Machine Op Reply Exc Env World Request Out) (i : ℕ)
    (s : Surroundings Env World) (k : ℕ) (w : World) (p : Program Op Reply Exc A)
    (f : A → Program Op Reply Exc B) :
    M.finish i s k w (p >>= f) =
      let first := M.finish i s k w p
      match first.outcome with
      | .ok a =>
        let rest := M.finish i s (k + first.entries.length) first.world (f a)
        { rest with entries := first.entries ++ rest.entries }
      | .error e => ⟨.error e, first.entries, first.world⟩ := by
  induction p generalizing k w with
  | ret a => rfl
  | raise e => rfl
  | perform op next ih =>
    rw [Program.perform_bind]
    simp only [finish, ih]
    cases (M.finish i s (k + 1) (M.exec i op (s.env k) (s.others k w)).2
      (next (M.exec i op (s.env k) (s.others k w)).1)).outcome with
    | ok a =>
      simp only [List.length_cons, List.cons_append]
      rw [Nat.add_right_comm, Nat.add_assoc]
    | error e => rfl

/-- Mapping a program maps its outcome. -/
theorem finish_map (M : Machine Op Reply Exc Env World Request Out) (i : ℕ)
    (s : Surroundings Env World) (k : ℕ) (w : World) (p : Program Op Reply Exc A) (f : A → B) :
    M.finish i s k w (f <$> p) =
      let ended := M.finish i s k w p
      ⟨ended.outcome.map f, ended.entries, ended.world⟩ := by
  have hbind := M.finish_bind i s k w p fun a => .ret (f a)
  refine Eq.trans hbind ?_
  dsimp only
  cases (M.finish i s k w p).outcome with
  | ok a => simp only [finish, List.append_nil, Except.map]
  | error e => rfl

/-- Every operation of a served program is one with the environment of its number. -/
theorem env_of_mem_finish {s : Surroundings Env World} {k : ℕ} {w : World}
    {p : Program Op Reply Exc A} {e : Entry Op Reply Env World}
    (he : e ∈ (M.finish i s k w p).entries) : ∃ n, e.env = s.env n := by
  induction p generalizing k w with
  | ret a => cases he
  | raise exc => cases he
  | perform op next ih =>
    rcases List.mem_cons.mp he with rfl | he
    · exact ⟨k, rfl⟩
    · exact ih _ he

/-- What the others and the permitted operations preserve leads from the world in which a program
is served to its end to the world then. -/
theorem finish_relates {allowed : Op → Prop} {R : World → World → Prop} (hrefl : ∀ w, R w w)
    (htrans : ∀ a b d, R a b → R b d → R a d)
    (hexec : ∀ op env w, allowed op → R w (M.exec i op env w).2) {s : Surroundings Env World}
    (hothers : ∀ k w, R w (s.others k w)) {p : Program Op Reply Exc A} (hp : p.Uses allowed)
    (k : ℕ) (w : World) : R w (M.finish i s k w p).world := by
  induction p generalizing k w with
  | ret a => exact hrefl w
  | raise e => exact hrefl w
  | perform op next ih =>
    have hop := htrans _ _ _ (hothers k w) (hexec op (s.env k) _ hp.1)
    exact htrans _ _ _ hop (ih _ (hp.2 _ trivial) _ _)

/-- Where all replies are possible, a program that obeys a monitor without a state performs what it
permits. -/
theorem may_of_mem_finish {m : Monitor Op Reply Unit} {Q : Unit → A → Prop} {E : Unit → Exc → Prop}
    {p : Program Op Reply Exc A} (hp : p.Obeys m Q E ()) {s : Surroundings Env World}
    (hpossible : ∀ k op w, m.possible op (M.exec i op (s.env k) w).1) {k : ℕ} {w : World}
    {e : Entry Op Reply Env World} (he : e ∈ (M.finish i s k w p).entries) : m.may () e.op := by
  induction p generalizing k w with
  | ret a => cases he
  | raise exc => cases he
  | perform op next ih =>
    rcases List.mem_cons.mp he with rfl | he
    · exact hp.1
    · exact ih _ (hp.2 _ (hpossible k op _)) he

/-- The program, after the operations `h` and in world `w`, keeps its history right at all times;
where it returns, `Q` holds, and where it raises, `E` does. -/
def Ensures (c : Contract Op Reply Env World)
    (Q : List (Entry Op Reply Env World) → World → A → Prop)
    (E : List (Entry Op Reply Env World) → World → Exc → Prop) :
    List (Entry Op Reply Env World) → World → Program Op Reply Exc A → Prop
  | h, w, .ret a => c.always h ∧ Q h w a
  | h, w, .raise e => c.always h ∧ E h w e
  | h, w, .perform op next => c.always h ∧ ∀ w' env, c.rely w w' →
      c.given (M.entry i env op w') →
        Ensures c Q E (h ++ [M.entry i env op w']) (M.exec i op env w').2
          (next (M.exec i op env w').1)

variable {M i} {c : Contract Op Reply Env World}
  {Q : List (Entry Op Reply Env World) → World → A → Prop}
  {E : List (Entry Op Reply Env World) → World → Exc → Prop}
  {h : List (Entry Op Reply Env World)} {w : World}

/-- What is to be kept holds at every point. -/
theorem Ensures.always {p : Program Op Reply Exc A} (hp : M.Ensures i c Q E h w p) :
    c.always h := by
  cases p <;> exact hp.1

/-- Sequencing: the continuation starts where the first program returned. -/
@[simp] theorem ensures_bind (p : Program Op Reply Exc A) (f : A → Program Op Reply Exc B)
    {Q : List (Entry Op Reply Env World) → World → B → Prop} :
    M.Ensures i c Q E h w (p >>= f) ↔
      M.Ensures i c (fun h w a => M.Ensures i c Q E h w (f a)) E h w p := by
  induction p generalizing h w with
  | ret a => exact ⟨fun hf => ⟨hf.always, hf⟩, And.right⟩
  | raise e => rfl
  | perform op next ih =>
    rw [Program.perform_bind, Ensures, Ensures]
    refine and_congr_right fun _ => forall₂_congr fun w' env => ?_
    exact imp_congr_right fun _ => imp_congr_right fun _ => ih _

/-- Mapping a program maps what it returns. -/
@[simp] theorem ensures_map (f : A → B) (p : Program Op Reply Exc A)
    {Q : List (Entry Op Reply Env World) → World → B → Prop} :
    M.Ensures i c Q E h w (f <$> p) ↔ M.Ensures i c (fun h w a => Q h w (f a)) E h w p := by
  induction p generalizing h w with
  | ret a => rfl
  | raise e => rfl
  | perform op next ih =>
    change M.Ensures i c Q E h w (.perform op fun reply => f <$> next reply) ↔ _
    rw [Ensures, Ensures]
    refine and_congr_right fun _ => forall₂_congr fun w' env => ?_
    exact imp_congr_right fun _ => imp_congr_right fun _ => ih _

/-- A `try` block turns both ways of ending into a returned value. -/
@[simp] theorem ensures_attempt (p : Program Op Reply Exc A)
    {Q : List (Entry Op Reply Env World) → World → Except Exc A → Prop} :
    M.Ensures i c Q E h w p.attempt ↔
      M.Ensures i c (fun h w a => Q h w (.ok a)) (fun h w e => Q h w (.error e)) h w p := by
  induction p generalizing h w with
  | ret a => rfl
  | raise e => rfl
  | perform op next ih =>
    rw [Program.attempt, Ensures, Ensures]
    refine and_congr_right fun _ => forall₂_congr fun w' env => ?_
    exact imp_congr_right fun _ => imp_congr_right fun _ => ih _

/-- An evaluated result ensures what its own case does. -/
theorem ensures_ofExcept {r : Except Exc A} (halways : c.always h) (hok : ∀ a, r = .ok a → Q h w a)
    (herror : ∀ e, r = .error e → E h w e) :
    M.Ensures i c Q E h w (Program.ofExcept r : Program Op Reply Exc A) := by
  cases r with
  | ok a => exact ⟨halways, hok a rfl⟩
  | error e => exact ⟨halways, herror e rfl⟩

/-- Postconditions may be weakened. -/
theorem Ensures.mono {p : Program Op Reply Exc A}
    {Q' : List (Entry Op Reply Env World) → World → A → Prop}
    {E' : List (Entry Op Reply Env World) → World → Exc → Prop}
    (hp : M.Ensures i c Q E h w p) (hQ : ∀ h w a, c.always h → Q h w a → Q' h w a)
    (hE : ∀ h w e, c.always h → E h w e → E' h w e) : M.Ensures i c Q' E' h w p := by
  induction p generalizing h w with
  | ret a => exact ⟨hp.1, hQ _ _ _ hp.1 hp.2⟩
  | raise e => exact ⟨hp.1, hE _ _ _ hp.1 hp.2⟩
  | perform op next ih =>
    exact ⟨hp.1, fun w' env hrely hgiven => ih _ (hp.2 w' env hrely hgiven)⟩

/-- The history only grows. -/
theorem Ensures.extends {p : Program Op Reply Exc A} (hp : M.Ensures i c Q E h w p) :
    M.Ensures i c (fun h' w a => h <+: h' ∧ Q h' w a) (fun h' w e => h <+: h' ∧ E h' w e) h w p := by
  induction p generalizing h w with
  | ret a => exact ⟨hp.1, List.prefix_rfl, hp.2⟩
  | raise e => exact ⟨hp.1, List.prefix_rfl, hp.2⟩
  | perform op next ih =>
    refine ⟨hp.1, fun w' env hrely hgiven => ?_⟩
    have hgrows := List.prefix_append h [M.entry i env op w']
    exact (ih _ (hp.2 w' env hrely hgiven)).mono
      (fun _ _ _ _ hend => ⟨hgrows.trans hend.1, hend.2⟩)
      fun _ _ _ _ hend => ⟨hgrows.trans hend.1, hend.2⟩

/-- A program that obeys a monitor ensures what the permitted operations preserve. -/
theorem ensures_of_obeys {S : Type} {m : Monitor Op Reply S} {Q : S → A → Prop}
    {E : S → Exc → Prop} {s : S} {p : Program Op Reply Exc A} (hp : p.Obeys m Q E s)
    {I : S → List (Entry Op Reply Env World) → World → Prop}
    (halways : ∀ s h w, I s h w → c.always h)
    (hstep : ∀ s h w w' op env, m.may s op → I s h w → c.rely w w' →
      c.given (M.entry i env op w') → m.possible op (M.exec i op env w').1 ∧
        I (m.next s op (M.exec i op env w').1) (h ++ [M.entry i env op w'])
          (M.exec i op env w').2)
    (hI : I s h w) :
    M.Ensures i c (fun h w a => ∃ s, Q s a ∧ I s h w) (fun h w e => ∃ s, E s e ∧ I s h w)
      h w p := by
  induction p generalizing s h w with
  | ret a => exact ⟨halways _ _ _ hI, s, hp, hI⟩
  | raise e => exact ⟨halways _ _ _ hI, s, hp, hI⟩
  | perform op next ih =>
    refine ⟨halways _ _ _ hI, fun w' env hrely hgiven => ?_⟩
    obtain ⟨hpossible, hnext⟩ := hstep s h w w' op env hp.1 hI hrely hgiven
    exact ih _ (hp.2 _ hpossible) hnext

/-- A program served to its end meets the postconditions that it ensures. -/
theorem Ensures.finish {p : Program Op Reply Exc A} (hp : M.Ensures i c Q E h w p)
    {s : Surroundings Env World} (hrely : ∀ k w, c.rely w (s.others k w)) {k : ℕ}
    (hgiven : ∀ e ∈ (M.finish i s k w p).entries, c.given e) :
    (M.finish i s k w p).Meets Q E h := by
  induction p generalizing h w k with
  | ret a => simpa [Machine.finish, Ended.Meets] using hp.2
  | raise e => simpa [Machine.finish, Ended.Meets] using hp.2
  | perform op next ih =>
    simp only [Machine.finish, List.forall_mem_cons] at hgiven ⊢
    have hnext := ih _ (hp.2 _ _ (hrely k w) hgiven.1) hgiven.2
    simpa only [Ended.Meets, List.append_assoc, List.singleton_append] using hnext

end Machine

namespace Machine

variable (M : Machine Op Reply Exc Env World Request Out) (env : ℕ → Env)

/-- The last caller, served without interruption from its `k`-th operation on. -/
theorem foldl_step_finish (r : Request) (p : Program Op Reply Exc Out) (k : ℕ) (w : World)
    (callers : List (Caller Op Reply Exc Request Out)) (trace : List (Entry Op Reply Env World)) :
    let ended := M.finish callers.length { env := env } k w p
    ((List.range' k ended.entries.length).map fun n => Event.step callers.length (env n)).foldl
        M.step ⟨w, callers ++ [⟨r, some p⟩], trace⟩ =
      ⟨ended.world, callers ++ [⟨r, some (.ofExcept ended.outcome)⟩], trace ++ ended.entries⟩ := by
  induction p generalizing k w trace with
  | ret a => simp [Machine.finish, Program.ofExcept]
  | raise e => simp [Machine.finish, Program.ofExcept]
  | perform op next ih =>
    have hset (a b : Caller Op Reply Exc Request Out) :
        (callers ++ [a]).set callers.length b = callers ++ [b] := by simp
    have hrest := ih (M.exec callers.length op (env k) w).1 (k + 1)
      (M.exec callers.length op (env k) w).2
      (trace ++ [M.entry callers.length (env k) op w])
    simp only [Machine.finish, List.length_cons, List.range'_succ, List.map_cons, List.foldl_cons,
      Machine.step, List.getElem?_concat_length, hset]
    simpa only [List.append_assoc, List.singleton_append] using hrest

/-- A request that is served without interruption is such a continuation of the run. -/
theorem run_finish (w : World) (events : List (Event Env Request)) (r : Request) :
    let config := M.run w events
    let i := config.callers.length
    let ended := M.finish i { env := env } 0 config.world (M.program r)
    M.run w (events ++ .arrive r ::
        (List.range' 0 ended.entries.length).map fun n => .step i (env n)) =
      ⟨ended.world, config.callers ++ [⟨r, some (.ofExcept ended.outcome)⟩],
        config.trace ++ ended.entries⟩ := by
  intro config i ended
  rw [run, List.foldl_append, List.foldl_cons, ← run]
  exact M.foldl_step_finish env r (M.program r) 0 config.world config.callers config.trace

end Machine

/-! ## Callers of a run -/

/-- The operations of one caller. -/
def own (trace : List (Entry Op Reply Env World)) (i : ℕ) : List (Entry Op Reply Env World) :=
  trace.filter fun e => e.caller = i

/-- One entry more is one more of its caller. -/
theorem own_concat (trace : List (Entry Op Reply Env World)) (e : Entry Op Reply Env World)
    (i : ℕ) : own (trace ++ [e]) i = if e.caller = i then own trace i ++ [e] else own trace i := by
  by_cases hi : e.caller = i <;> simp [own, hi]

namespace Machine

variable {M : Machine Op Reply Exc Env World Request Out} {i : ℕ}
  {c : Contract Op Reply Env World} {Q : List (Entry Op Reply Env World) → World → Out → Prop}
  {E : List (Entry Op Reply Env World) → World → Exc → Prop} {r : Request}

variable (M i c Q E r) in
/-- If caller `i` serves request `r`, it has kept its contract so far. -/
structure Keeps (config : Config Op Reply Exc Env World Request Out) : Prop where
  absent : config.callers[i]? = none → own config.trace i = []
  always : ∀ rest, config.callers[i]? = some ⟨r, rest⟩ → c.always (own config.trace i)
  live : ∀ p, config.callers[i]? = some ⟨r, some p⟩ →
    ∃ w, c.rely w config.world ∧ M.Ensures i c Q E (own config.trace i) w p

/-- What others do keeps the contract. -/
theorem Keeps.unmoved (htrans : ∀ a b d, c.rely a b → c.rely b d → c.rely a d)
    {config config' : Config Op Reply Exc Env World Request Out} (h : M.Keeps i c Q E r config)
    (hcaller : config'.callers[i]? = config.callers[i]?)
    (hown : own config'.trace i = own config.trace i) (hworld : c.rely config.world config'.world) :
    M.Keeps i c Q E r config' := by
  refine ⟨fun hi => ?_, fun rest hi => ?_, fun p hi => ?_⟩ <;> rw [hcaller] at hi <;> rw [hown]
  · exact h.absent hi
  · exact h.always rest hi
  · obtain ⟨w, hw, hensures⟩ := h.live p hi
    exact ⟨w, htrans _ _ _ hw hworld, hensures⟩

/-- One event keeps the contract of every caller. -/
theorem Keeps.step (hrefl : ∀ w, c.rely w w) (htrans : ∀ a b d, c.rely a b → c.rely b d → c.rely a d)
    (hexec : ∀ j op env w, c.rely w (M.exec j op env w).2) (habort : ∀ j w, c.rely w (M.abort j w))
    (hprogram : ∀ w, M.Ensures i c Q E [] w (M.program r))
    {config : Config Op Reply Exc Env World Request Out} (h : M.Keeps i c Q E r config)
    (event : Event Env Request) (hgiven : ∀ e ∈ (M.step config event).trace, c.given e) :
    M.Keeps i c Q E r (M.step config event) := by
  cases event with
  | arrive r' =>
    by_cases heq : i = config.callers.length
    · -- the new caller has performed nothing yet
      have hnone := h.absent (by rw [List.getElem?_eq_none_iff]; omega)
      have hnew : (M.step config (.arrive r')).callers[i]? = some ⟨r', some (M.program r')⟩ := by
        simp [Machine.step, heq]
      refine ⟨fun hi => ?_, fun rest hi => ?_, fun p hi => ?_⟩ <;> rw [hnew] at hi <;> cases hi
      · exact hnone ▸ (hprogram config.world).always
      · exact ⟨config.world, hrefl _, hnone ▸ hprogram config.world⟩
    · refine h.unmoved htrans ?_ rfl (hrefl _)
      simp only [Machine.step, List.getElem?_append]
      split
      · rfl
      · rw [List.getElem?_eq_none_iff.mpr (by simp; omega),
          List.getElem?_eq_none_iff.mpr (by omega)]
  | step j env =>
    simp only [Machine.step] at hgiven ⊢
    split
    · rename_i r' op next hj
      simp only [hj] at hgiven
      have hown := own_concat config.trace (M.entry j env op config.world) i
      by_cases hij : j = i
      · subst hij
        have hlen : j < config.callers.length := (List.getElem?_eq_some_iff.mp hj).1
        rw [if_pos (show (M.entry j env op config.world).caller = j from rfl)] at hown
        refine ⟨fun hi => ?_, fun rest hi => ?_, fun p hi => ?_⟩ <;>
          simp only [List.getElem?_set_self hlen] at hi <;> cases hi
        all_goals
          obtain ⟨w, hw, hensures⟩ := h.live _ hj
          have hnext := hensures.2 _ env hw (hgiven _ (by simp))
        · exact hown ▸ hnext.always
        · exact ⟨_, hrefl _, hown ▸ hnext⟩
      · rw [if_neg (show (M.entry j env op config.world).caller ≠ i from hij)] at hown
        exact h.unmoved htrans (List.getElem?_set_ne hij) hown (hexec _ _ _ _)
    · exact h
  | crash j =>
    simp only [Machine.step]
    split
    · rename_i r' p' hj
      by_cases hij : j = i
      · subst hij
        have hlen : j < config.callers.length := (List.getElem?_eq_some_iff.mp hj).1
        refine ⟨fun hi => ?_, fun rest hi => ?_, fun p hi => ?_⟩ <;>
          simp only [List.getElem?_set_self hlen] at hi <;> cases hi
        exact h.always _ hj
      · exact h.unmoved htrans (List.getElem?_set_ne hij) rfl (habort _ _)
    · exact h

/-- In every run, a caller whose program ensures its postconditions has kept its contract. -/
theorem keeps_run (hrefl : ∀ w, c.rely w w) (htrans : ∀ a b d, c.rely a b → c.rely b d → c.rely a d)
    (hexec : ∀ j op env w, c.rely w (M.exec j op env w).2) (habort : ∀ j w, c.rely w (M.abort j w))
    (hprogram : ∀ w, M.Ensures i c Q E [] w (M.program r)) (w : World)
    (events : List (Event Env Request)) (hgiven : ∀ e ∈ (M.run w events).trace, c.given e) :
    M.Keeps i c Q E r (M.run w events) := by
  induction events using List.reverseRecOn with
  | nil => exact ⟨fun _ => rfl, fun _ hi => (by cases hi), fun _ hi => (by cases hi)⟩
  | append_singleton events event ih =>
    have hearlier : ∀ e ∈ (M.run w events).trace, c.given e := fun e he =>
      hgiven e ((M.trace_extends w events [event]).subset he)
    rw [run_concat] at hgiven ⊢
    exact (ih hearlier).step hrefl htrans hexec habort hprogram event hgiven

end Machine

end CreditScoringMlops.Interaction
