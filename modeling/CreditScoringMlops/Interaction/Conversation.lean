import CreditScoringMlops.Interaction.Contract
import CreditScoringMlops.Interaction.Translation

/-!
# Conversations of a program with its surroundings

A conversation lists the operations that a program performs from its start to its end, each with the
reply it got. The replies are arbitrary, so what holds of every conversation holds whatever the
surroundings do, and a hypothesis on the surroundings is one on the replies.

Sequencing splits a conversation in two, and the operations of a caller in a run of interleaved
programs are a conversation as soon as the caller has ended.
-/

namespace CreditScoringMlops.Interaction

variable {Op Op' : Type} {Reply : Op → Type} {Reply' : Op' → Type} {Exc A B : Type}

/-- One operation and its reply. -/
structure Exchange (Op : Type) (Reply : Op → Type) where
  op : Op
  reply : Reply op

namespace Program

/-- The conversations of a program, with how it ends. -/
inductive Converses :
    Program Op Reply Exc A → List (Exchange Op Reply) → Except Exc A → Prop where
  | ret (a : A) : Converses (ret a) [] (.ok a)
  | raise (e : Exc) : Converses (raise e) [] (.error e)
  | perform (op : Op) (reply : Reply op) {next : Reply op → Program Op Reply Exc A}
      {log : List (Exchange Op Reply)} {result : Except Exc A}
      (h : Converses (next reply) log result) :
      Converses (perform op next) (⟨op, reply⟩ :: log) result

variable {log : List (Exchange Op Reply)} {result : Except Exc A}

@[simp] theorem converses_ret {a : A} :
    Converses (ret a : Program Op Reply Exc A) log result ↔ log = [] ∧ result = .ok a := by
  refine ⟨fun h => ?_, ?_⟩
  · cases h with
    | ret => exact ⟨rfl, rfl⟩
  · rintro ⟨rfl, rfl⟩
    exact .ret a

@[simp] theorem converses_raise {e : Exc} :
    Converses (raise e : Program Op Reply Exc A) log result ↔ log = [] ∧ result = .error e := by
  refine ⟨fun h => ?_, ?_⟩
  · cases h with
    | raise => exact ⟨rfl, rfl⟩
  · rintro ⟨rfl, rfl⟩
    exact .raise e

@[simp] theorem converses_perform {op : Op} {next : Reply op → Program Op Reply Exc A} :
    Converses (perform op next) log result ↔
      ∃ reply rest, log = ⟨op, reply⟩ :: rest ∧ Converses (next reply) rest result := by
  refine ⟨fun h => ?_, ?_⟩
  · cases h with
    | perform op reply h => exact ⟨reply, _, rfl, h⟩
  · rintro ⟨reply, rest, rfl, h⟩
    exact .perform op reply h

@[simp] theorem converses_request {op : Op} {result : Except Exc (Reply op)} :
    Converses (request op) log result ↔ ∃ reply, log = [⟨op, reply⟩] ∧ result = .ok reply := by
  simp [request]

@[simp] theorem converses_ofExcept {r : Except Exc A} :
    Converses (ofExcept r : Program Op Reply Exc A) log result ↔ log = [] ∧ result = r := by
  cases r <;> simp [ofExcept]

/-- A sequence raises in its first part, or its parts converse one after the other. -/
theorem converses_bind {p : Program Op Reply Exc A} {f : A → Program Op Reply Exc B}
    {result : Except Exc B} :
    Converses (p >>= f) log result ↔
      (∃ e, result = .error e ∧ Converses p log (.error e)) ∨
        ∃ a pre post, log = pre ++ post ∧ Converses p pre (.ok a) ∧
          Converses (f a) post result := by
  induction p generalizing log with
  | ret a =>
    change Converses (f a) log result ↔ _
    simp
  | raise e =>
    change Converses (raise e) log result ↔ _
    simp [and_comm]
  | perform op next ih =>
    rw [perform_bind, converses_perform]
    constructor
    · rintro ⟨reply, rest, rfl, h⟩
      obtain ⟨e, he, hp⟩ | ⟨a, pre, post, rfl, hp, hf⟩ := (ih reply).mp h
      · exact .inl ⟨e, he, .perform op reply hp⟩
      · exact .inr ⟨a, _, post, (List.cons_append ..).symm, .perform op reply hp, hf⟩
    · rintro (⟨e, he, h⟩ | ⟨a, pre, post, rfl, h, hf⟩)
      · obtain ⟨reply, rest, rfl, hp⟩ := converses_perform.mp h
        exact ⟨reply, rest, rfl, (ih reply).mpr (.inl ⟨e, he, hp⟩)⟩
      · obtain ⟨reply, rest, rfl, hp⟩ := converses_perform.mp h
        exact ⟨reply, rest ++ post, List.cons_append .., (ih reply).mpr
          (.inr ⟨a, rest, post, rfl, hp, hf⟩)⟩

/-- A sequence returns if both parts do. -/
theorem converses_bind_ok {p : Program Op Reply Exc A} {f : A → Program Op Reply Exc B} {b : B} :
    Converses (p >>= f) log (.ok b) ↔
      ∃ a pre post, log = pre ++ post ∧ Converses p pre (.ok a) ∧
        Converses (f a) post (.ok b) := by
  simp [converses_bind]

/-- A program whose result is mapped returns if it does by itself. -/
theorem converses_map_ok {f : A → B} {p : Program Op Reply Exc A} {b : B} :
    Converses (f <$> p) log (.ok b) ↔ ∃ a, f a = b ∧ Converses p log (.ok a) := by
  change Converses (p >>= fun a => ret (f a)) log (.ok b) ↔ _
  simp only [converses_bind_ok, converses_ret, Except.ok.injEq]
  constructor
  · rintro ⟨a, pre, post, rfl, hp, rfl, rfl⟩
    exact ⟨a, rfl, by rwa [List.append_nil]⟩
  · rintro ⟨a, rfl, hp⟩
    exact ⟨a, log, [], (List.append_nil log).symm, hp, rfl, rfl⟩

/-- A request at the start is the first exchange. -/
theorem converses_request_bind {op : Op} {f : Reply op → Program Op Reply Exc B}
    {result : Except Exc B} :
    Converses (request op >>= f) log result ↔
      ∃ reply rest, log = ⟨op, reply⟩ :: rest ∧ Converses (f reply) rest result :=
  converses_perform

/-- A value at the start is raised, or handed on. -/
theorem converses_ofExcept_bind {r : Except Exc A} {f : A → Program Op Reply Exc B}
    {result : Except Exc B} :
    Converses (ofExcept r >>= f) log result ↔
      (∃ e, r = .error e ∧ log = [] ∧ result = .error e) ∨
        ∃ a, r = .ok a ∧ Converses (f a) log result := by
  cases r with
  | error e =>
    change Converses (raise e) log result ↔ _
    simp
  | ok a =>
    change Converses (f a) log result ↔ _
    simp

/-- In a sequence that returns it is handed on. -/
theorem converses_ofExcept_bind_ok {r : Except Exc A} {f : A → Program Op Reply Exc B} {b : B} :
    Converses (ofExcept r >>= f) log (.ok b) ↔ ∃ a, r = .ok a ∧ Converses (f a) log (.ok b) := by
  simp [converses_ofExcept_bind]

/-- A `try` block returns how its program ends. -/
@[simp] theorem converses_attempt {p : Program Op Reply Exc A}
    {result : Except Exc (Except Exc A)} :
    Converses p.attempt log result ↔ ∃ r, result = .ok r ∧ Converses p log r := by
  induction p generalizing log with
  | ret a => simp [attempt, and_comm]
  | raise e => simp [attempt, and_comm]
  | perform op next ih =>
    simp only [attempt, converses_perform, ih]
    constructor
    · rintro ⟨reply, rest, rfl, r, rfl, h⟩
      exact ⟨r, rfl, reply, rest, rfl, h⟩
    · rintro ⟨r, rfl, reply, rest, rfl, h⟩
      exact ⟨reply, rest, rfl, r, rfl, h⟩

/-- In a conversation only permitted operations occur. -/
theorem Converses.forall_of_uses {p : Program Op Reply Exc A} (h : Converses p log result)
    {allowed : Op → Prop} (hp : p.Uses allowed) : ∀ e ∈ log, allowed e.op := by
  induction h with
  | ret a => simp
  | raise e => simp
  | perform op reply h ih =>
    rw [List.forall_mem_cons]
    exact ⟨hp.1, ih (hp.2 reply trivial)⟩

/-- Where all replies are possible, a program that obeys a monitor ends as its postconditions
say. -/
theorem Converses.end_of_obeys {S : Type} {m : Monitor Op Reply S} {Q : S → A → Prop}
    {E : S → Exc → Prop} {s : S} {p : Program Op Reply Exc A} (h : Converses p log result)
    (hp : p.Obeys m Q E s) (hpossible : ∀ e ∈ log, m.possible e.op e.reply) :
    (∃ a s', result = .ok a ∧ Q s' a) ∨ ∃ e s', result = .error e ∧ E s' e := by
  induction h generalizing s with
  | ret a => exact .inl ⟨a, s, rfl, hp⟩
  | raise e => exact .inr ⟨e, s, rfl, hp⟩
  | perform op reply h ih =>
    rw [List.forall_mem_cons] at hpossible
    exact ih (hp.2 reply hpossible.1) hpossible.2

/-- Under a monitor without states, every operation of a conversation is permitted. -/
theorem Converses.forall_may {m : Monitor Op Reply Unit} {Q : Unit → A → Prop}
    {E : Unit → Exc → Prop} {p : Program Op Reply Exc A} (h : Converses p log result)
    (hp : p.Obeys m Q E ()) (hpossible : ∀ e ∈ log, m.possible e.op e.reply) :
    ∀ e ∈ log, m.may () e.op := by
  induction h with
  | ret a => simp
  | raise e => simp
  | perform op reply h ih =>
    rw [List.forall_mem_cons] at hpossible ⊢
    exact ⟨hp.1, ih (hp.2 reply hpossible.1) hpossible.2⟩

/-- The conversation with surroundings that answer each operation in one way. -/
def converse (answer : (op : Op) → Reply op) :
    Program Op Reply Exc A → List (Exchange Op Reply) × Except Exc A
  | ret a => ([], .ok a)
  | raise e => ([], .error e)
  | perform op next =>
    let (log, result) := (next (answer op)).converse answer
    (⟨op, answer op⟩ :: log, result)

/-- It is a conversation: every program has one. -/
theorem converses_converse (answer : (op : Op) → Reply op) (p : Program Op Reply Exc A) :
    Converses p (p.converse answer).1 (p.converse answer).2 := by
  induction p with
  | ret a => exact .ret a
  | raise e => exact .raise e
  | perform op next ih => exact .perform op (answer op) (ih (answer op))

/-- Its replies are the answers. -/
theorem reply_of_mem_converse {answer : (op : Op) → Reply op} {p : Program Op Reply Exc A}
    {e : Exchange Op Reply} (he : e ∈ (p.converse answer).1) : e.reply = answer e.op := by
  induction p with
  | ret a => cases he
  | raise exc => cases he
  | perform op next ih =>
    obtain rfl | he := List.mem_cons.mp he
    · rfl
    · exact ih (answer op) he

@[simp] theorem converse_ret (answer : (op : Op) → Reply op) (a : A) :
    (ret a : Program Op Reply Exc A).converse answer = ([], .ok a) := rfl

@[simp] theorem converse_pure (answer : (op : Op) → Reply op) (a : A) :
    (pure a : Program Op Reply Exc A).converse answer = ([], .ok a) := rfl

@[simp] theorem converse_raise (answer : (op : Op) → Reply op) (e : Exc) :
    (raise e : Program Op Reply Exc A).converse answer = ([], .error e) := rfl

@[simp] theorem converse_request (answer : (op : Op) → Reply op) (op : Op) :
    (request op : Program Op Reply Exc _).converse answer = ([⟨op, answer op⟩], .ok (answer op)) :=
  rfl

@[simp] theorem converse_ofExcept (answer : (op : Op) → Reply op) (r : Except Exc A) :
    (ofExcept r : Program Op Reply Exc A).converse answer = ([], r) := by
  cases r <;> rfl

/-- The conversations of a sequence follow each other, as far as it gets. -/
theorem converse_bind (answer : (op : Op) → Reply op) (p : Program Op Reply Exc A)
    (f : A → Program Op Reply Exc B) :
    (p >>= f).converse answer = match (p.converse answer).2 with
      | .ok a => ((p.converse answer).1 ++ ((f a).converse answer).1, ((f a).converse answer).2)
      | .error e => ((p.converse answer).1, .error e) := by
  induction p with
  | ret a => rfl
  | raise e => rfl
  | perform op next ih =>
    rw [perform_bind]
    simp only [converse, ih]
    cases ((next (answer op)).converse answer).2 <;> rfl

/-- A `try` block has the conversation of its program. -/
@[simp] theorem converse_attempt (answer : (op : Op) → Reply op) (p : Program Op Reply Exc A) :
    p.attempt.converse answer = ((p.converse answer).1, .ok (p.converse answer).2) := by
  induction p with
  | ret a => rfl
  | raise e => rfl
  | perform op next ih => simp only [attempt, converse, ih]

/-! ## Translated programs -/

/-- The second conversation implements the first, exchange by exchange. -/
inductive Implements (implement : (op : Op) → Program Op' Reply' Exc (Reply op)) :
    List (Exchange Op Reply) → List (Exchange Op' Reply') → Prop where
  | nil : Implements implement [] []
  | cons (op : Op) (reply : Reply op) {part : List (Exchange Op' Reply')}
      {log : List (Exchange Op Reply)} {log' : List (Exchange Op' Reply')}
      (hop : Converses (implement op) part (.ok reply)) (h : Implements implement log log') :
      Implements implement (⟨op, reply⟩ :: log) (part ++ log')

/-- A conversation of a translated program implements one of the program itself, if no
implementation raises. -/
theorem Converses.exists_of_translate {implement : (op : Op) → Program Op' Reply' Exc (Reply op)}
    (hreturns : ∀ op log e, ¬Converses (implement op) log (.error e))
    {p : Program Op Reply Exc A} {log' : List (Exchange Op' Reply')} {result : Except Exc A}
    (h : Converses (p.translate implement) log' result) :
    ∃ log, Converses p log result ∧ Implements implement log log' := by
  induction p generalizing log' with
  | ret a =>
    obtain ⟨rfl, rfl⟩ := converses_ret.mp h
    exact ⟨[], .ret a, .nil⟩
  | raise e =>
    obtain ⟨rfl, rfl⟩ := converses_raise.mp h
    exact ⟨[], .raise e, .nil⟩
  | perform op next ih =>
    obtain ⟨e, rfl, hop⟩ | ⟨reply, part, rest, rfl, hop, hnext⟩ := converses_bind.mp h
    · exact (hreturns op log' e hop).elim
    · obtain ⟨log, hlog, himplements⟩ := ih reply hnext
      exact ⟨_, .perform op reply hlog, .cons op reply hop himplements⟩

end Program

/-! ## Callers of a run -/

variable {Env World Request Out : Type}

/-- The exchange of an entry. -/
def Entry.exchange (e : Entry Op Reply Env World) : Exchange Op Reply := ⟨e.op, e.reply⟩

namespace Machine

variable (M : Machine Op Reply Exc Env World Request Out)

/-- A contract that relies on nothing, and keeps what is to be kept. -/
def anyContract (always : List (Entry Op Reply Env World) → Prop) :
    Contract Op Reply Env World where
  rely _ _ := True
  given _ := True
  always := always

/-- The program has come to what is left of it by some operations: with any conversation of the rest
they are a conversation of the program. -/
def LeadsTo (program : Program Op Reply Exc A) (h : List (Entry Op Reply Env World))
    (p : Program Op Reply Exc A) : Prop :=
  ∀ post result, p.Converses post result →
    program.Converses (h.map Entry.exchange ++ post) result

/-- The ends of what is left of a program are ends of the program. -/
theorem ensures_converses {i : ℕ} {program p : Program Op Reply Exc A}
    {always : List (Entry Op Reply Env World) → Prop}
    (halways : ∀ h p, LeadsTo program h p → always h) {h : List (Entry Op Reply Env World)}
    {w : World} (hp : LeadsTo program h p) :
    M.Ensures i (anyContract always)
      (fun h _ a => program.Converses (h.map Entry.exchange) (.ok a))
      (fun h _ e => program.Converses (h.map Entry.exchange) (.error e)) h w p := by
  induction p generalizing h w with
  | ret a => exact ⟨halways h _ hp, by simpa using hp [] _ (.ret a)⟩
  | raise e => exact ⟨halways h _ hp, by simpa using hp [] _ (.raise e)⟩
  | perform op next ih =>
    refine ⟨halways h _ hp, fun w' env _ _ => ih _ fun post result hnext => ?_⟩
    rw [List.map_append, List.append_assoc]
    exact hp _ result (.perform op _ hnext)

/-- Every caller keeps what all its histories have. -/
theorem keeps_always (always : List (Entry Op Reply Env World) → Prop) {r : Request}
    (halways : ∀ h p, LeadsTo (M.program r) h p → always h) (w : World)
    (events : List (Event Env Request)) (i : ℕ) :
    M.Keeps i (anyContract always)
      (fun h _ a => (M.program r).Converses (h.map Entry.exchange) (.ok a))
      (fun h _ e => (M.program r).Converses (h.map Entry.exchange) (.error e)) r
      (M.run w events) :=
  M.keeps_run (fun _ => trivial) (fun _ _ _ _ _ => trivial) (fun _ _ _ _ => trivial)
    (fun _ _ => trivial) (fun _ => M.ensures_converses halways fun _ _ h => h) w events
    fun _ _ => trivial

/-- In every run of interleaved programs, the operations of a caller that has returned are a
conversation of its program. -/
theorem converses_run (w : World) (events : List (Event Env Request)) {i : ℕ} {r : Request}
    {out : Out} (hcaller : (M.run w events).callers[i]? = some ⟨r, some (.ret out)⟩) :
    (M.program r).Converses ((own (M.run w events).trace i).map Entry.exchange) (.ok out) := by
  obtain ⟨_, _, _, hconverses⟩ :=
    (M.keeps_always (fun _ => True) (fun _ _ _ => trivial) w events i).live _ hcaller
  exact hconverses

/-- So are those of one that has raised. -/
theorem converses_run_of_raise (w : World) (events : List (Event Env Request)) {i : ℕ} {r : Request}
    {e : Exc} (hcaller : (M.run w events).callers[i]? = some ⟨r, some (.raise e)⟩) :
    (M.program r).Converses ((own (M.run w events).trace i).map Entry.exchange) (.error e) := by
  obtain ⟨_, _, _, hconverses⟩ :=
    (M.keeps_always (fun _ => True) (fun _ _ _ => trivial) w events i).live _ hcaller
  exact hconverses

/-- The operations of any other caller are the start of a conversation, which may go on with replies
of one's choice. -/
theorem exists_converses_run (answer : (op : Op) → Reply op) (w : World)
    (events : List (Event Env Request)) {i : ℕ} {r : Request}
    {rest : Option (Program Op Reply Exc Out)}
    (hcaller : (M.run w events).callers[i]? = some ⟨r, rest⟩) :
    ∃ post result, (M.program r).Converses
        ((own (M.run w events).trace i).map Entry.exchange ++ post) result ∧
      ∀ e ∈ post, e.reply = answer e.op := by
  refine (M.keeps_always (fun h => ∃ post result, (M.program r).Converses
    (h.map Entry.exchange ++ post) result ∧ ∀ e ∈ post, e.reply = answer e.op)
    (fun h p hp => ?_) w events i).always rest hcaller
  exact ⟨_, _, hp _ _ (Program.converses_converse answer p),
    fun _ he => Program.reply_of_mem_converse he⟩

end Machine

end CreditScoringMlops.Interaction
