import CreditScoringMlops.Interaction.Program
import Mathlib.Data.List.Induction

/-!
# Interleaved runs of programs over a shared world

Callers arrive at any time, each with a request and the program that serves it. One event
lets one caller perform its next operation atomically, or makes a caller crash for good; the
environment's part of an operation (clock readings, failures, replies of foreign systems) is
carried by the event. Every list of events is a run: an event that does not apply leaves the
configuration alone.

The performed operations are kept in a trace. If every program obeys a monitor, the trace is
`Legal`: every operation in it was permitted in the monitor state of its caller. Invariants of
runs are inductions over legal traces, where the programs have disappeared.
-/

namespace CreditScoringMlops.Interaction

variable {Op : Type} {Reply : Op → Type} {Exc Env World Request Out S : Type}

/-- The callers' programs and the effect of one operation by one caller. `abort` is what the
world does by itself when a caller dies. -/
structure Machine (Op : Type) (Reply : Op → Type) (Exc Env World Request Out : Type) where
  program : Request → Program Op Reply Exc Out
  exec : ℕ → (op : Op) → Env → World → Reply op × World
  abort : ℕ → World → World

/-- Of two elements in order, the second has the first in the list before it. -/
theorem exists_split_of_sublist {A : Type} {a b : A} {l : List A} (h : [a, b].Sublist l) :
    ∃ pre post, l = pre ++ b :: post ∧ a ∈ pre := by
  obtain ⟨front, back, rfl, ha, hb⟩ :=
    List.append_sublist_iff.mp (show ([a] ++ [b]).Sublist l from h)
  obtain ⟨mid, post, rfl⟩ := List.append_of_mem (List.singleton_sublist.mp hb)
  exact ⟨front ++ mid, post, by simp, List.mem_append_left _ (List.singleton_sublist.mp ha)⟩

/-- Two elements of a list are one, or stand in it in one of the two orders. -/
theorem eq_or_sublist_of_mem {A : Type} {a b : A} {l : List A} (ha : a ∈ l) (hb : b ∈ l) :
    a = b ∨ [a, b].Sublist l ∨ [b, a].Sublist l := by
  obtain ⟨pre, post, rfl⟩ := List.append_of_mem ha
  rcases List.mem_append.mp hb with hb | hb
  · exact .inr (.inr ((List.singleton_sublist.mpr hb).append
      (List.singleton_sublist.mpr List.mem_cons_self)))
  · rcases List.mem_cons.mp hb with rfl | hb
    · exact .inl rfl
    · exact .inr (.inl (((List.singleton_sublist.mpr hb).cons_cons a).trans
        (List.sublist_append_right _ _)))

/-- One performed operation, with the world around it. -/
structure Entry (Op : Type) (Reply : Op → Type) (Env World : Type) where
  caller : ℕ
  env : Env
  op : Op
  reply : Reply op
  before : World
  after : World

/-- A request and what is left of its program; nothing is left of a crashed caller. -/
structure Caller (Op : Type) (Reply : Op → Type) (Exc Request Out : Type) where
  request : Request
  rest : Option (Program Op Reply Exc Out)

/-- The shared world, the callers in order of arrival, and the operations performed so far. -/
structure Config (Op : Type) (Reply : Op → Type) (Exc Env World Request Out : Type) where
  world : World
  callers : List (Caller Op Reply Exc Request Out)
  trace : List (Entry Op Reply Env World)

/-- What can happen next: a request arrives, a caller performs its next operation, or dies. -/
inductive Event (Env Request : Type) where
  | arrive (request : Request)
  | step (caller : ℕ) (env : Env)
  | crash (caller : ℕ)

/-- The request that arrives. -/
def Event.request? : Event Env Request → Option Request
  | .arrive request => some request
  | _ => none

/-- A caller keeps its request. -/
theorem map_request_set {callers : List (Caller Op Reply Exc Request Out)} {i : ℕ} {r : Request}
    {rest : Option (Program Op Reply Exc Out)} (h : callers[i]? = some ⟨r, rest⟩)
    (rest' : Option (Program Op Reply Exc Out)) :
    (callers.set i ⟨r, rest'⟩).map (·.request) = callers.map (·.request) := by
  obtain ⟨hi, hcaller⟩ := List.getElem?_eq_some_iff.mp h
  have hi' : i < (callers.map (·.request)).length := by rwa [List.length_map]
  have hsame : r = (callers.map (·.request))[i] := by rw [List.getElem_map, hcaller]
  rw [List.map_set]
  dsimp only
  rw [hsame]
  exact List.set_getElem_self hi'

namespace Machine

variable (M : Machine Op Reply Exc Env World Request Out)

/-- The trace entry of one operation. -/
def entry (i : ℕ) (env : Env) (op : Op) (w : World) : Entry Op Reply Env World :=
  { caller := i, env := env, op := op, reply := (M.exec i op env w).1, before := w,
    after := (M.exec i op env w).2 }

/-- The effect of one event. -/
def step (c : Config Op Reply Exc Env World Request Out) :
    Event Env Request → Config Op Reply Exc Env World Request Out
  | .arrive r => { c with callers := c.callers ++ [⟨r, some (M.program r)⟩] }
  | .step i env =>
    match c.callers[i]? with
    | some ⟨r, some (.perform op next)⟩ =>
      { world := (M.exec i op env c.world).2
        callers := c.callers.set i ⟨r, some (next (M.exec i op env c.world).1)⟩
        trace := c.trace ++ [M.entry i env op c.world] }
    | _ => c
  | .crash i =>
    match c.callers[i]? with
    | some ⟨r, some _⟩ =>
      { c with world := M.abort i c.world, callers := c.callers.set i ⟨r, none⟩ }
    | _ => c

/-- No caller has arrived yet. -/
def initial (w : World) : Config Op Reply Exc Env World Request Out := ⟨w, [], []⟩

/-- The configuration after a run from world `w`. -/
def run (w : World) (events : List (Event Env Request)) :
    Config Op Reply Exc Env World Request Out :=
  events.foldl M.step (initial w)

/-- Running one event more is one step more. -/
theorem run_concat (w : World) (events : List (Event Env Request)) (e : Event Env Request) :
    M.run w (events ++ [e]) = M.step (M.run w events) e := by
  simp only [run, List.foldl_append, List.foldl_cons, List.foldl_nil]

/-- What holds initially and is preserved by every event holds after every run. -/
theorem run_induction (w : World) {P : Config Op Reply Exc Env World Request Out → Prop}
    (hinit : P (initial w)) (hstep : ∀ c e, P c → P (M.step c e))
    (events : List (Event Env Request)) : P (M.run w events) := by
  induction events using List.reverseRecOn with
  | nil => exact hinit
  | append_singleton events e ih =>
    rw [run_concat]
    exact hstep _ e ih

/-- The callers are those that have arrived, in order. -/
theorem requests_run (w : World) (events : List (Event Env Request)) :
    (M.run w events).callers.map (·.request) = events.filterMap Event.request? := by
  induction events using List.reverseRecOn with
  | nil => rfl
  | append_singleton events e ih =>
    have hstep (c : Config Op Reply Exc Env World Request Out) :
        (M.step c e).callers.map (·.request) =
          c.callers.map (·.request) ++ e.request?.toList := by
      cases e with
      | arrive r => simp [step, Event.request?]
      | step i env =>
        simp only [step, Event.request?, Option.toList_none, List.append_nil]
        split
        · exact map_request_set ‹_› _
        · rfl
      | crash i =>
        simp only [step, Event.request?, Option.toList_none, List.append_nil]
        split
        · exact map_request_set ‹_› _
        · rfl
    rw [run_concat, hstep, ih, List.filterMap_append]
    cases e <;> rfl

/-- A request that has arrived has a caller. -/
theorem exists_caller (w : World) {events : List (Event Env Request)} {i : ℕ} {r : Request}
    (h : (events.filterMap Event.request?)[i]? = some r) :
    ∃ rest, (M.run w events).callers[i]? = some ⟨r, rest⟩ := by
  rw [← M.requests_run w events, List.getElem?_map] at h
  obtain ⟨caller, hcaller, rfl⟩ := Option.map_eq_some_iff.mp h
  exact ⟨caller.rest, hcaller⟩

/-- One event adds at most one entry, and then leads to the world after it. -/
theorem step_trace (c : Config Op Reply Exc Env World Request Out) (e : Event Env Request) :
    (M.step c e).trace = c.trace ∨
      ∃ entry, (M.step c e).trace = c.trace ++ [entry] ∧ (M.step c e).world = entry.after := by
  cases e with
  | arrive r => exact .inl rfl
  | step i env =>
    simp only [step]
    split
    · exact .inr ⟨_, rfl, rfl⟩
    · exact .inl rfl
  | crash i =>
    simp only [step]
    split <;> exact .inl rfl

/-- A longer run has a longer trace. -/
theorem trace_extends (w : World) (earlier later : List (Event Env Request)) :
    (M.run w earlier).trace <+: (M.run w (earlier ++ later)).trace := by
  induction later using List.reverseRecOn with
  | nil => simp
  | append_singleton later e ih =>
    rw [← List.append_assoc, run_concat]
    obtain htrace | ⟨entry, htrace, -⟩ := M.step_trace (M.run w (earlier ++ later)) e
    · exact htrace ▸ ih
    · exact htrace ▸ ih.trans (List.prefix_append _ _)

/-- What every operation and every abort preserve leads from the world of a run to that of a longer
one. -/
theorem run_relates {R : World → World → Prop} (hrefl : ∀ w, R w w)
    (htrans : ∀ a b c, R a b → R b c → R a c) (hexec : ∀ i op env w, R w (M.exec i op env w).2)
    (habort : ∀ i w, R w (M.abort i w)) (w : World) (earlier later : List (Event Env Request)) :
    R (M.run w earlier).world (M.run w (earlier ++ later)).world := by
  induction later using List.reverseRecOn with
  | nil => exact (List.append_nil earlier).symm ▸ hrefl _
  | append_singleton later e ih =>
    rw [← List.append_assoc, run_concat]
    refine htrans _ _ _ ih ?_
    cases e with
    | arrive r => exact hrefl _
    | step i env =>
      simp only [step]
      split
      · exact hexec _ _ _ _
      · exact hrefl _
    | crash i =>
      simp only [step]
      split
      · exact habort _ _
      · exact hrefl _

/-- Every entry of a run is the last one of an earlier run. -/
theorem exists_run_of_entry {w : World} {events : List (Event Env Request)}
    {pre post : List (Entry Op Reply Env World)} {entry : Entry Op Reply Env World}
    (h : (M.run w events).trace = pre ++ entry :: post) :
    ∃ earlier later, events = earlier ++ later ∧ (M.run w earlier).trace = pre ++ [entry] ∧
      (M.run w earlier).world = entry.after := by
  induction events using List.reverseRecOn generalizing post with
  | nil => simp [run, initial] at h
  | append_singleton events e ih =>
    have hpast : ∀ post, (M.run w events).trace = pre ++ entry :: post →
        ∃ earlier later, events ++ [e] = earlier ++ later ∧
          (M.run w earlier).trace = pre ++ [entry] ∧ (M.run w earlier).world = entry.after := by
      intro post h
      obtain ⟨earlier, later, rfl, hearlier⟩ := ih h
      exact ⟨earlier, later ++ [e], by simp, hearlier⟩
    have hrun := M.run_concat w events e
    obtain htrace | ⟨last, htrace, hworld⟩ := M.step_trace (M.run w events) e
    · exact hpast post (htrace.symm.trans ((congrArg Config.trace hrun).symm.trans h))
    · rw [hrun, htrace] at h
      rcases List.eq_nil_or_concat post with rfl | ⟨init, final, rfl⟩
      · obtain ⟨hpre, hlast⟩ := List.append_inj' h rfl
        obtain rfl : last = entry := by simpa using hlast
        exact ⟨events ++ [e], [], by simp, by rw [hrun, htrace, hpre], by rw [hrun, hworld]⟩
      · rw [List.concat_eq_append, ← List.cons_append, ← List.append_assoc] at h
        exact hpast init (List.append_inj_left' h rfl)

end Machine

namespace Monitor

variable (m : Monitor Op Reply S)

/-- The monitor state of one caller after the operations of a trace. -/
def stateOf (trace : List (Entry Op Reply Env World)) (i : ℕ) : S :=
  trace.foldl (fun s e => if e.caller = i then m.next s e.op e.reply else s) m.start

@[simp] theorem stateOf_nil (i : ℕ) :
    m.stateOf ([] : List (Entry Op Reply Env World)) i = m.start := rfl

/-- One entry moves the monitor of its own caller only. -/
theorem stateOf_concat (trace : List (Entry Op Reply Env World)) (e : Entry Op Reply Env World)
    (i : ℕ) :
    m.stateOf (trace ++ [e]) i =
      if e.caller = i then m.next (m.stateOf trace i) e.op e.reply else m.stateOf trace i := by
  simp only [stateOf, List.foldl_append, List.foldl_cons, List.foldl_nil]

/-- A caller's own entry moves its monitor. -/
theorem stateOf_concat_self (trace : List (Entry Op Reply Env World))
    (e : Entry Op Reply Env World) :
    m.stateOf (trace ++ [e]) e.caller = m.next (m.stateOf trace e.caller) e.op e.reply := by
  rw [stateOf_concat, if_pos rfl]

/-- Another caller's entry does not. -/
theorem stateOf_concat_of_ne (trace : List (Entry Op Reply Env World))
    {e : Entry Op Reply Env World} {i : ℕ} (h : e.caller ≠ i) :
    m.stateOf (trace ++ [e]) i = m.stateOf trace i := by
  rw [stateOf_concat, if_neg h]

/-- A caller that has performed nothing is still at the start. -/
theorem stateOf_of_forall_ne (trace : List (Entry Op Reply Env World)) {i : ℕ}
    (h : ∀ e ∈ trace, e.caller ≠ i) : m.stateOf trace i = m.start := by
  induction trace using List.reverseRecOn with
  | nil => rfl
  | append_singleton trace e ih =>
    rw [m.stateOf_concat_of_ne _ (h e (by simp))]
    exact ih fun e' he' => h e' (by simp [he'])

end Monitor

namespace Machine

variable (M : Machine Op Reply Exc Env World Request Out) (m : Monitor Op Reply S)

/-- A trace from world `w₀` whose operations all took effect in order and were all permitted.
The second index is the world the trace leads to. -/
inductive Legal (w₀ : World) : List (Entry Op Reply Env World) → World → Prop where
  | nil : Legal w₀ [] w₀
  | snoc {trace : List (Entry Op Reply Env World)} {w : World} (i : ℕ) (env : Env) (op : Op)
      (h : Legal w₀ trace w) (hmay : m.may (m.stateOf trace i) op) :
      Legal w₀ (trace ++ [M.entry i env op w]) (M.exec i op env w).2
  | abort {trace : List (Entry Op Reply Env World)} {w : World} (i : ℕ) (h : Legal w₀ trace w) :
      Legal w₀ trace (M.abort i w)

variable {M m}

/-- Every entry of a legal trace was permitted after the trace before it and did what its
operation does. -/
theorem Legal.split {w₀ w : World} {trace : List (Entry Op Reply Env World)}
    (h : M.Legal m w₀ trace w) {pre post : List (Entry Op Reply Env World)}
    {e : Entry Op Reply Env World} (htrace : trace = pre ++ e :: post) :
    M.Legal m w₀ pre e.before ∧ m.may (m.stateOf pre e.caller) e.op ∧
      e = M.entry e.caller e.env e.op e.before := by
  induction h generalizing post with
  | nil => simp at htrace
  | @snoc trace w i env op h hmay ih =>
    rcases List.eq_nil_or_concat post with rfl | ⟨init, last, rfl⟩
    · obtain ⟨rfl, hlast⟩ := List.append_inj' htrace rfl
      obtain rfl : M.entry i env op w = e := by simpa using hlast
      exact ⟨h, hmay, rfl⟩
    · rw [List.concat_eq_append, ← List.cons_append, ← List.append_assoc] at htrace
      exact ih (List.append_inj_left' htrace rfl)
  | abort i h ih => exact ih htrace

/-- A prefix of a legal trace is legal. -/
theorem Legal.take {w₀ w : World} {pre post : List (Entry Op Reply Env World)}
    (h : M.Legal m w₀ (pre ++ post) w) : ∃ w', M.Legal m w₀ pre w' := by
  cases post with
  | nil => exact ⟨w, by simpa using h⟩
  | cons e post => exact ⟨e.before, (h.split rfl).1⟩

/-- What every abort and the operations of a trace preserve leads from the world after an entry to
the last one. -/
theorem Legal.relates_after {R : World → World → Prop} (hrefl : ∀ w, R w w)
    (htrans : ∀ a b c, R a b → R b c → R a c) (habort : ∀ i w, R w (M.abort i w)) {w₀ w : World}
    {trace : List (Entry Op Reply Env World)} (h : M.Legal m w₀ trace w)
    (hexec : ∀ i op env w, M.entry i env op w ∈ trace → R w (M.exec i op env w).2)
    {e : Entry Op Reply Env World} (he : e ∈ trace) : R e.after w := by
  induction h with
  | nil => cases he
  | @snoc trace w i env op h hmay ih =>
    rcases List.mem_append.mp he with he | he
    · refine htrans _ _ _ (ih (fun i op env w hmem => ?_) he) (hexec i op env w (by simp))
      exact hexec i op env w (List.mem_append_left _ hmem)
    · obtain rfl := List.mem_singleton.mp he
      exact hrefl _
  | abort i h ih => exact htrans _ _ _ (ih hexec he) (habort i _)

/-- A history property of one caller's monitor state: it holds at the start, it survives the
entries of other callers, and every permitted entry of its own re-establishes it. -/
theorem Legal.stateOf_induction {P : List (Entry Op Reply Env World) → S → Prop} (i : ℕ)
    {w₀ : World} (hstart : P [] m.start)
    (hother : ∀ trace s (e : Entry Op Reply Env World), e.caller ≠ i → P trace s →
      P (trace ++ [e]) s)
    (hown : ∀ trace w env op, M.Legal m w₀ trace w → m.may (m.stateOf trace i) op →
      P trace (m.stateOf trace i) →
      P (trace ++ [M.entry i env op w]) (m.next (m.stateOf trace i) op (M.exec i op env w).1))
    {w : World} {trace : List (Entry Op Reply Env World)} (h : M.Legal m w₀ trace w) :
    P trace (m.stateOf trace i) := by
  induction h with
  | nil => exact hstart
  | @snoc trace w j env op h hmay ih =>
    by_cases hij : j = i
    · subst hij
      have hself := m.stateOf_concat_self trace (M.entry j env op w)
      simp only [entry] at hself ⊢
      rw [hself]
      exact hown trace w env op h hmay ih
    · rw [m.stateOf_concat_of_ne trace (by simpa [entry] using hij)]
      exact hother _ _ _ (by simpa [entry] using hij) ih
  | abort j h ih => exact ih

/-- What a monitor state tells has been brought about by one entry of its caller, if it is not so
at the start. -/
theorem Legal.history {C : S → Prop} {R : Entry Op Reply Env World → Prop} (i : ℕ) {w₀ : World}
    (hstart : ¬C m.start)
    (hown : ∀ {s} (env : Env) (op : Op) (w : World), m.may s op →
      C (m.next s op (M.exec i op env w).1) → C s ∨ R (M.entry i env op w))
    {w : World} {trace : List (Entry Op Reply Env World)} (h : M.Legal m w₀ trace w)
    (hC : C (m.stateOf trace i)) : ∃ e ∈ trace, R e := by
  refine h.stateOf_induction (P := fun trace s => C s → ∃ e ∈ trace, R e) i
    (fun h => absurd h hstart) ?_ ?_ hC
  · intro trace s e _ ih hs
    obtain ⟨f, hf, hR⟩ := ih hs
    exact ⟨f, List.mem_append_left _ hf, hR⟩
  · intro trace w env op hlegal hmay ih hs
    obtain hs | hR := hown env op w hmay hs
    · obtain ⟨f, hf, hR⟩ := ih hs
      exact ⟨f, List.mem_append_left _ hf, hR⟩
    · exact ⟨_, by simp, hR⟩

variable (M m)

/-- Callers named in the trace have arrived, and every live caller still obeys the monitor. -/
structure Disciplined (Q : Request → S → Out → Prop) (E : Request → S → Exc → Prop)
    (w₀ : World) (c : Config Op Reply Exc Env World Request Out) : Prop where
  arrived : ∀ e ∈ c.trace, e.caller < c.callers.length
  live : ∀ (i : ℕ) (r : Request) (p : Program Op Reply Exc Out), c.callers[i]? = some ⟨r, some p⟩ →
    p.Obeys m (Q r) (E r) (m.stateOf c.trace i)
  legal : M.Legal m w₀ c.trace c.world

variable {M m} {Q : Request → S → Out → Prop} {E : Request → S → Exc → Prop}

/-- One event keeps the discipline. -/
theorem Disciplined.step (hpossible : ∀ i op env w, m.possible op (M.exec i op env w).1)
    (hprogram : ∀ r, (M.program r).Obeys m (Q r) (E r) m.start)
    {w₀ : World} {c : Config Op Reply Exc Env World Request Out} (h : M.Disciplined m Q E w₀ c)
    (e : Event Env Request) : M.Disciplined m Q E w₀ (M.step c e) := by
  cases e with
  | arrive r =>
    refine ⟨fun e he => ?_, fun i r' p hi => ?_, h.legal⟩
    · simpa [Machine.step] using Nat.lt_succ_of_lt (h.arrived e he)
    · rcases Nat.lt_or_ge i c.callers.length with hlt | hge
      · exact h.live i r' p (by simpa [Machine.step, List.getElem?_append_left hlt] using hi)
      · -- the new caller has performed nothing yet
        have hfresh : m.stateOf c.trace i = m.start :=
          m.stateOf_of_forall_ne _ fun e he => by have := h.arrived e he; omega
        simp only [Machine.step, List.getElem?_append_right hge] at hi
        obtain ⟨rfl, hnew⟩ := Caller.mk.inj (List.mem_singleton.mp (List.mem_of_getElem? hi))
        obtain rfl := Option.some.inj hnew
        simpa only [Machine.step, hfresh] using hprogram r'
  | step i env =>
    simp only [Machine.step]
    split
    · rename_i r op next hi
      have hobeys := h.live i r _ hi
      have hlen : i < c.callers.length := (List.getElem?_eq_some_iff.mp hi).1
      refine ⟨fun e he => ?_, fun j r' p hj => ?_, ?_⟩
      · rcases List.mem_append.mp he with he | he
        · simpa using h.arrived e he
        · obtain rfl : e = M.entry i env op c.world := by simpa using he
          simpa [Machine.entry] using hlen
      · by_cases hij : i = j
        · subst hij
          simp only [List.getElem?_set_self hlen, Option.some.injEq, Caller.mk.injEq] at hj
          obtain ⟨rfl, rfl⟩ := hj
          have hself := m.stateOf_concat_self c.trace (M.entry i env op c.world)
          simp only [Machine.entry] at hself ⊢
          rw [hself]
          exact hobeys.2 _ (hpossible i op env c.world)
        · rw [m.stateOf_concat_of_ne _ (by simpa [Machine.entry] using hij)]
          exact h.live j r' p (by simpa [List.getElem?_set_ne hij] using hj)
      · exact .snoc i env op h.legal hobeys.1
    · exact h
  | crash i =>
    simp only [Machine.step]
    split
    · rename_i r p hi
      have hlen : i < c.callers.length := (List.getElem?_eq_some_iff.mp hi).1
      refine ⟨fun e he => by simpa using h.arrived e he, fun j r' p' hj => ?_, .abort i h.legal⟩
      by_cases hij : i = j
      · subst hij
        simp [List.getElem?_set_self hlen] at hj
      · exact h.live j r' p' (by simpa [List.getElem?_set_ne hij] using hj)
    · exact h

/-- If every reply is possible and every program obeys the monitor, every run is disciplined. -/
theorem disciplined_run (hpossible : ∀ i op env w, m.possible op (M.exec i op env w).1)
    (hprogram : ∀ r, (M.program r).Obeys m (Q r) (E r) m.start) (w : World)
    (events : List (Event Env Request)) : M.Disciplined m Q E w (M.run w events) :=
  M.run_induction w ⟨by simp [initial], by simp [initial], .nil⟩
    (fun _ e h => h.step hpossible hprogram e) events

/-- If the programs perform permitted operations only, and these and the aborts preserve what
holds of the world at the start, it holds of the world after every run. -/
theorem invariant_run {allowed : Op → Prop} {I : World → Prop}
    (hprogram : ∀ r, (M.program r).Uses allowed)
    (hexec : ∀ i op env w, allowed op → I w → I (M.exec i op env w).2)
    (habort : ∀ i w, I w → I (M.abort i w)) {w : World} (hw : I w)
    (events : List (Event Env Request)) : I (M.run w events).world := by
  have hlegal := (M.disciplined_run (m := .only allowed) (fun _ _ _ _ => trivial) hprogram w
    events).legal
  generalize (M.run w events).world = w', (M.run w events).trace = trace at hlegal
  induction hlegal with
  | nil => exact hw
  | snoc i env op h hmay ih => exact hexec i op env _ hmay ih
  | abort i h ih => exact habort i _ ih

end Machine

end CreditScoringMlops.Interaction
