import Mathlib.Data.Int.Notation
import Mathlib.Data.List.Basic
import Mathlib.Data.List.Induction
import Mathlib.Logic.Function.Basic
import Mathlib.Logic.Relation

/-!
# Task graphs

The tasks of a graph run a command each. A scheduler may start a task once, and only after every
task directly upstream of it has succeeded; it may give a task up once one of them has not. Apart
from that, tasks start in any order and overlap. What comes of a task depends on the exit codes
alone, whatever the schedule was, and going through tasks one by one until the first failure is a
schedule as well.
-/

namespace CreditScoringMlops.Interaction

variable {T : Type}

/-- What has become of a task. A command has succeeded if its exit code is zero. -/
inductive TaskState where
  | waiting
  | running
  | ended (code : ℤ)
  | givenUp
  deriving DecidableEq

/-- A task that will not succeed any more. -/
def TaskState.Failed : TaskState → Prop
  | ended code => code ≠ 0
  | givenUp => True
  | _ => False

/-- A task whose command has been started. -/
def TaskState.Begun : TaskState → Prop
  | running => True
  | ended _ => True
  | _ => False

/-- A task that will not move any more. -/
def TaskState.Over : TaskState → Prop
  | ended _ => True
  | givenUp => True
  | _ => False

/-- One event of a run. -/
inductive TaskEvent (T : Type) where
  | start (task : T)
  | exit (task : T) (code : ℤ)
  | giveUp (task : T)
  deriving DecidableEq

/-- The task that an event is about. -/
def TaskEvent.task : TaskEvent T → T
  | start t => t
  | exit t _ => t
  | giveUp t => t

/-- What becomes of that task. -/
def TaskEvent.state : TaskEvent T → TaskState
  | start _ => .running
  | exit _ code => .ended code
  | giveUp _ => .givenUp

/-- The state of every task after the events of a run. -/
def board [DecidableEq T] (events : List (TaskEvent T)) : T → TaskState :=
  events.foldl (fun b e => Function.update b e.task e.state) fun _ => .waiting

/-- The state of a task tells that an event of the task has happened. -/
def TaskState.Shows (s : TaskState) : TaskEvent T → Prop
  | .start _ => s.Begun
  | .exit _ code => s = .ended code
  | .giveUp _ => s = .givenUp

/-- One event more moves its own task. -/
theorem board_concat [DecidableEq T] (events : List (TaskEvent T)) (e : TaskEvent T) :
    board (events ++ [e]) = Function.update (board events) e.task e.state := by
  simp only [board, List.foldl_append, List.foldl_cons, List.foldl_nil]

/-- What becomes of that task is known. -/
theorem board_concat_self [DecidableEq T] (events : List (TaskEvent T)) {e : TaskEvent T} {t : T}
    (h : e.task = t) : board (events ++ [e]) t = e.state := by
  rw [board_concat, h, Function.update_self]

/-- It moves no other task. -/
theorem board_concat_of_ne [DecidableEq T] (events : List (TaskEvent T)) {e : TaskEvent T} {t : T}
    (h : t ≠ e.task) : board (events ++ [e]) t = board events t := by
  rw [board_concat, Function.update_of_ne h]

/-- Every task comes after those directly upstream of it. -/
def Ordered [DecidableEq T] (upstream : T → List T) (order : List T) : Prop :=
  ∀ t ∈ order, ∀ u ∈ upstream t, order.idxOf u < order.idxOf t

namespace Ordered

variable [DecidableEq T] {upstream : T → List T} {order pre post : List T} {a t u : T}

/-- Its own list holds what a task comes after. -/
theorem mem (h : Ordered upstream order) (ht : t ∈ order) (hu : u ∈ upstream t) : u ∈ order :=
  List.idxOf_lt_length_iff.mp (Nat.lt_trans (h t ht u hu) (List.idxOf_lt_length_iff.mpr ht))

/-- What a task comes after stands before it. -/
theorem mem_before (h : Ordered upstream order) (horder : order = pre ++ t :: post)
    (hu : u ∈ upstream t) : u ∈ pre := by
  subst horder
  have hlt := h t (by simp) u hu
  have hle : (pre ++ t :: post).idxOf t ≤ pre.length := by
    by_cases ht : t ∈ pre
    · rw [List.idxOf_append_of_mem ht]
      exact List.idxOf_le_length
    · simp [List.idxOf_append_of_notMem ht]
  by_contra hne
  rw [List.idxOf_append_of_notMem hne] at hlt
  omega

/-- So does everything that it has to wait for. -/
theorem ancestor (h : Ordered upstream order)
    (ha : Relation.TransGen (fun u t => u ∈ upstream t) a t) (horder : order = pre ++ t :: post) :
    a ∈ pre := by
  induction ha generalizing pre post with
  | single hu => exact h.mem_before horder hu
  | tail _ hu ih =>
    obtain ⟨front, back, rfl⟩ := List.append_of_mem (h.mem_before horder hu)
    exact List.mem_append_left _ (ih (by simpa using horder))

end Ordered

/-- Tasks, each with the tasks directly upstream of it. They can be listed in order, so no task
waits for itself. -/
structure TaskGraph (T : Type) [DecidableEq T] where
  tasks : List T
  upstream : T → List T
  nodup : tasks.Nodup
  ordered : Ordered upstream tasks

namespace TaskGraph

variable [DecidableEq T] (G : TaskGraph T)

/-- A task has to wait for another, directly or not. -/
def Ancestor : T → T → Prop := Relation.TransGen fun u t => u ∈ G.upstream t

/-- What a scheduler may do in a state of the tasks. -/
inductive Allows (b : T → TaskState) : TaskEvent T → Prop where
  | start {t : T} (htask : t ∈ G.tasks) (hwaiting : b t = .waiting)
      (hready : ∀ u ∈ G.upstream t, b u = .ended 0) : Allows b (.start t)
  | exit {t : T} {code : ℤ} (hrunning : b t = .running) : Allows b (.exit t code)
  | giveUp {t : T} (htask : t ∈ G.tasks) (hwaiting : b t = .waiting)
      (hfailed : ∃ u ∈ G.upstream t, (b u).Failed) : Allows b (.giveUp t)

/-- The runs of a scheduler. -/
inductive Schedule : List (TaskEvent T) → Prop where
  | nil : Schedule []
  | snoc {events : List (TaskEvent T)} {e : TaskEvent T} (h : Schedule events)
      (hallows : G.Allows (board events) e) : Schedule (events ++ [e])

/-- The scheduler has nothing left to do. -/
def Settled (events : List (TaskEvent T)) : Prop := ∀ e, ¬G.Allows (board events) e

/-- The commands of a run have exited with these codes. -/
def Exits (code : T → ℤ) (events : List (TaskEvent T)) : Prop :=
  ∀ t c, .exit t c ∈ events → c = code t

/-- Every ancestor of a task exits with code zero. -/
def Reached (code : T → ℤ) (t : T) : Prop := ∀ a, G.Ancestor a t → code a = 0

/-- Tasks of the graph alone move, every task that has begun had what it waits for, and every task
given up has a failure upstream. -/
structure Explained (b : T → TaskState) : Prop where
  task : ∀ t, b t ≠ .waiting → t ∈ G.tasks
  begun : ∀ t, (b t).Begun → ∀ u ∈ G.upstream t, b u = .ended 0
  givenUp : ∀ t, b t = .givenUp → ∃ u ∈ G.upstream t, (b u).Failed

variable {G} {b : T → TaskState} {e : TaskEvent T} {events pre post : List (TaskEvent T)}
  {code : T → ℤ} {a t u : T}

/-! ## One event -/

/-- A task moves while it waits or runs. -/
theorem Allows.pending (h : G.Allows b e) : b e.task = .waiting ∨ b e.task = .running := by
  cases h with
  | start _ hwaiting _ => exact .inl hwaiting
  | exit hrunning => exact .inr hrunning
  | giveUp _ hwaiting _ => exact .inl hwaiting

/-- What has ended or has been given up stays so. -/
theorem Allows.keeps (h : G.Allows b e) {s : TaskState} (hs : b t = s) (hwaiting : s ≠ .waiting)
    (hrunning : s ≠ .running) : Function.update b e.task e.state t = s := by
  have hne : t ≠ e.task := by
    rintro rfl
    exact h.pending.elim (hs ▸ hwaiting) (hs ▸ hrunning)
  rw [Function.update_of_ne hne, hs]

/-- A failure stays one. -/
theorem Allows.keeps_failed (h : G.Allows b e) (hfailed : (b t).Failed) :
    (Function.update b e.task e.state t).Failed := by
  cases hs : b t with
  | ended c => exact (h.keeps hs (by simp) (by simp)).symm ▸ hs ▸ hfailed
  | givenUp => exact (h.keeps hs (by simp) (by simp)).symm ▸ trivial
  | waiting => simp [hs, TaskState.Failed] at hfailed
  | running => simp [hs, TaskState.Failed] at hfailed

/-- One event keeps the states explained. -/
theorem Explained.step (hb : G.Explained b) (h : G.Allows b e) :
    G.Explained (Function.update b e.task e.state) := by
  have hended {u : T} (hu : b u = .ended 0) : Function.update b e.task e.state u = .ended 0 :=
    h.keeps hu (by simp) (by simp)
  refine ⟨fun t ht => ?_, fun t ht u hu => ?_, fun t ht => ?_⟩
  · by_cases hne : t = e.task
    · subst hne
      cases h with
      | start htask _ _ => exact htask
      | exit hrunning => exact hb.task _ (by simp [TaskEvent.task, hrunning])
      | giveUp htask _ _ => exact htask
    · exact hb.task t (by rwa [Function.update_of_ne hne] at ht)
  · refine hended ?_
    by_cases hne : t = e.task
    · subst hne
      cases h with
      | start _ _ hready => exact hready u hu
      | exit hrunning => exact hb.begun _ (hrunning ▸ trivial) u hu
      | giveUp _ _ _ => exact absurd ht (by simp [TaskEvent.state, TaskState.Begun])
    · exact hb.begun t (by rwa [Function.update_of_ne hne] at ht) u hu
  · have hfailed : ∃ u ∈ G.upstream t, (b u).Failed := by
      by_cases hne : t = e.task
      · subst hne
        cases h with
        | giveUp _ _ hfailed => exact hfailed
        | _ => simp [TaskEvent.state] at ht
      · exact hb.givenUp t (by rwa [Function.update_of_ne hne] at ht)
    obtain ⟨u, hu, hu'⟩ := hfailed
    exact ⟨u, hu, h.keeps_failed hu'⟩

/-! ## Runs -/

/-- The states of a run are explained. -/
theorem Schedule.explained (h : G.Schedule events) : G.Explained (board events) := by
  induction h with
  | nil => exact ⟨fun _ ht => absurd rfl ht, fun _ ht => absurd ht id, fun _ ht => nomatch ht⟩
  | snoc h hallows ih =>
    rw [board_concat]
    exact ih.step hallows

/-- A task that has begun has waited for all its ancestors. -/
theorem Explained.ancestor (hb : G.Explained b) (ht : (b t).Begun) (ha : G.Ancestor a t) :
    b a = .ended 0 := by
  induction ha with
  | single hu => exact hb.begun _ ht _ hu
  | tail _ hu ih => exact ih (hb.begun _ ht _ hu ▸ trivial)

/-- One event shows itself, and hides none. -/
theorem Allows.shows_iff {e' : TaskEvent T} (h : G.Allows b e') :
    (Function.update b e'.task e'.state e.task).Shows e ↔ (b e.task).Shows e ∨ e = e' := by
  by_cases hne : e.task = e'.task
  · rw [hne, Function.update_self]
    cases h with
    | start _ hwaiting _ =>
      cases e <;> simp only [TaskEvent.task] at hne ⊢ <;> subst hne <;>
        simp [TaskState.Shows, TaskState.Begun, TaskEvent.state, hwaiting]
    | exit hrunning =>
      cases e <;> simp only [TaskEvent.task] at hne ⊢ <;> subst hne <;>
        simp [TaskState.Shows, TaskState.Begun, TaskEvent.state, hrunning, eq_comm]
    | giveUp _ hwaiting _ =>
      cases e <;> simp only [TaskEvent.task] at hne ⊢ <;> subst hne <;>
        simp [TaskState.Shows, TaskState.Begun, TaskEvent.state, hwaiting]
  · rw [Function.update_of_ne hne]
    exact (or_iff_left fun heq => hne (congrArg TaskEvent.task heq)).symm

/-- The events of a run are those that the states of the tasks show. -/
theorem Schedule.mem_iff (h : G.Schedule events) : e ∈ events ↔ (board events e.task).Shows e := by
  induction h with
  | nil => cases e <;> simp [TaskState.Shows, board, TaskState.Begun]
  | snoc h hallows ih =>
    rw [List.mem_append, List.mem_singleton, ih, board_concat, hallows.shows_iff]

/-- No event of a run happens twice. -/
theorem Schedule.nodup (h : G.Schedule events) : events.Nodup := by
  induction h with
  | nil => exact List.nodup_nil
  | @snoc events e h hallows ih =>
    refine List.nodup_append.mpr ⟨ih, by simp, fun f hf g hg heq => ?_⟩
    obtain rfl := List.mem_singleton.mp hg
    subst heq
    have hshows := h.mem_iff.mp hf
    cases hallows with
    | start _ hwaiting _ => simp [TaskEvent.task, hwaiting, TaskState.Shows, TaskState.Begun] at hshows
    | exit hrunning => simp [TaskEvent.task, hrunning, TaskState.Shows] at hshows
    | giveUp _ hwaiting _ => simp [TaskEvent.task, hwaiting, TaskState.Shows] at hshows

/-- Every event of a run was allowed after the events before it. -/
theorem Schedule.split (h : G.Schedule events) (hevents : events = pre ++ e :: post) :
    G.Schedule pre ∧ G.Allows (board pre) e := by
  induction h generalizing post with
  | nil => simp at hevents
  | @snoc events e' h hallows ih =>
    rcases List.eq_nil_or_concat post with rfl | ⟨init, last, rfl⟩
    · obtain ⟨rfl, hlast⟩ := List.append_inj' hevents rfl
      obtain rfl : e' = e := by simpa using hlast
      exact ⟨h, hallows⟩
    · rw [List.concat_eq_append, ← List.cons_append, ← List.append_assoc] at hevents
      exact ih (List.append_inj_left' hevents rfl)

/-- Tasks of the graph alone start. -/
theorem Schedule.task_of_start (h : G.Schedule events) (hstart : .start t ∈ events) :
    t ∈ G.tasks := by
  have hbegun : (board events t).Begun := h.mem_iff.mp hstart
  exact h.explained.task t fun hwaiting => by simp [hwaiting, TaskState.Begun] at hbegun

/-- A task starts after all its ancestors have succeeded. -/
theorem Schedule.exit_of_start (h : G.Schedule (pre ++ .start t :: post))
    (ha : G.Ancestor a t) : .exit a 0 ∈ pre := by
  obtain ⟨hpre, hallows⟩ := h.split rfl
  have hupstream {u : T} (hu : u ∈ G.upstream t) : board pre u = .ended 0 := by
    cases hallows with
    | start _ _ hready => exact hready u hu
  refine hpre.mem_iff.mpr ?_
  rcases Relation.TransGen.tail'_iff.mp ha with ⟨u, hau, hu⟩
  rcases Relation.reflTransGen_iff_eq_or_transGen.mp hau with rfl | hau
  · exact hupstream hu
  · exact hpre.explained.ancestor (hupstream hu ▸ trivial) hau

/-- While a task runs, none of its ancestors does, and no task that it is an ancestor of. -/
theorem Schedule.not_running (h : G.Schedule events) (ht : board events t = .running)
    (ha : G.Ancestor a t ∨ G.Ancestor t a) : board events a ≠ .running := by
  intro hrunning
  rcases ha with ha | ha
  · simpa [hrunning] using h.explained.ancestor (ht ▸ trivial) ha
  · simpa [ht] using h.explained.ancestor (hrunning ▸ trivial) ha

/-- Where an ancestor has failed, a task is never started. -/
theorem Schedule.not_started (h : G.Schedule events) (ha : G.Ancestor a t) {c : ℤ}
    (hexit : .exit a c ∈ events) (hc : c ≠ 0) : .start t ∉ events := by
  intro hstart
  have hended : board events a = .ended c := h.mem_iff.mp hexit
  have hsucceeded : board events a = .ended 0 := h.explained.ancestor (h.mem_iff.mp hstart) ha
  exact hc (TaskState.ended.inj (hended.symm.trans hsucceeded))

/-- What a task of the graph waits for is one. -/
theorem mem_of_ancestor (G : TaskGraph T) (ht : t ∈ G.tasks) (ha : G.Ancestor a t) :
    a ∈ G.tasks := by
  induction ha with
  | single hu => exact G.ordered.mem ht hu
  | tail _ hu ih => exact ih (G.ordered.mem ht hu)

/-! ## Layers -/

/-- A task waits for exactly the tasks of the layer before its own, and no layer is empty. -/
structure Layered (G : TaskGraph T) (layer : T → ℕ) : Prop where
  upstream_iff : ∀ t ∈ G.tasks, ∀ u ∈ G.tasks, u ∈ G.upstream t ↔ layer u + 1 = layer t
  inhabited : ∀ t ∈ G.tasks, ∀ n < layer t, ∃ u ∈ G.tasks, layer u = n

/-- Then its ancestors are the tasks of all layers before its own. -/
theorem Layered.ancestor_iff {layer : T → ℕ} (h : G.Layered layer) (ht : t ∈ G.tasks)
    (ha : a ∈ G.tasks) : G.Ancestor a t ↔ layer a < layer t := by
  constructor
  · intro hancestor
    induction hancestor with
    | single hu =>
      have := (h.upstream_iff _ ht a ha).mp hu
      omega
    | tail _ hu ih =>
      have htask := G.ordered.mem ht hu
      have hbefore := (h.upstream_iff _ ht _ htask).mp hu
      have := ih htask
      omega
  · intro hlt
    induction hn : layer t generalizing t with
    | zero => omega
    | succ n ih =>
      rcases Nat.lt_or_eq_of_le (Nat.lt_succ_iff.mp (hn ▸ hlt)) with hlt | heq
      · obtain ⟨u, hu, hlayer⟩ := h.inhabited t ht n (by omega)
        exact (ih hu (hlayer ▸ hlt) hlayer).tail ((h.upstream_iff t ht u hu).mpr (by omega))
      · exact .single ((h.upstream_iff t ht a ha).mpr (by omega))

/-! ## What comes of a settled run -/

/-- What holds of a task once it holds of all tasks directly upstream holds of every task. -/
theorem upstream_induction {P : T → Prop}
    (h : ∀ t ∈ G.tasks, (∀ u ∈ G.upstream t, P u) → P t) : ∀ t ∈ G.tasks, P t := by
  suffices hbound : ∀ n, ∀ t ∈ G.tasks, G.tasks.idxOf t < n → P t from
    fun t ht => hbound _ t ht (Nat.lt_succ_self _)
  intro n
  induction n with
  | zero => exact fun t _ hlt => absurd hlt (Nat.not_lt_zero _)
  | succ n ih =>
    intro t ht hlt
    refine h t ht fun u hu => ih u (G.ordered.mem ht hu) ?_
    exact Nat.lt_of_lt_of_le (G.ordered t ht u hu) (Nat.lt_succ_iff.mp hlt)

/-- Where nothing is left to do, a task has ended if all its ancestors succeeded, and has been given
up otherwise. -/
theorem Settled.outcome (h : G.Schedule events) (hsettled : G.Settled events)
    (hexits : Exits code events) : ∀ t ∈ G.tasks,
    board events t = .ended (code t) ∧ G.Reached code t ∨
      board events t = .givenUp ∧ ¬G.Reached code t := by
  refine upstream_induction fun t ht ih => ?_
  cases hstate : board events t with
  | waiting =>
    exfalso
    by_cases hready : ∀ u ∈ G.upstream t, board events u = .ended 0
    · exact hsettled _ (.start ht hstate hready)
    · push Not at hready
      obtain ⟨u, hu, hne⟩ := hready
      refine hsettled _ (.giveUp ht hstate ⟨u, hu, ?_⟩)
      rcases ih u hu with ⟨hended, -⟩ | ⟨hgivenUp, -⟩
      · rw [hended] at hne ⊢
        exact fun hzero => hne (congrArg _ hzero)
      · exact hgivenUp ▸ trivial
  | running => exact absurd (.exit hstate) (hsettled (.exit t 0))
  | ended c =>
    have hexit {u : T} {c : ℤ} (hu : board events u = .ended c) : c = code u :=
      hexits u c (h.mem_iff.mpr hu)
    refine .inl ⟨by rw [hexit hstate], fun a ha => ?_⟩
    exact (hexit (h.explained.ancestor (hstate ▸ trivial) ha)).symm
  | givenUp =>
    refine .inr ⟨rfl, fun hreached => ?_⟩
    obtain ⟨u, hu, hfailed⟩ := h.explained.givenUp t hstate
    rcases ih u hu with ⟨hended, -⟩ | ⟨-, hnot⟩
    · rw [hended] at hfailed
      exact hfailed (hreached u (.single hu))
    · exact hnot fun a ha => hreached a (ha.tail hu)

/-- A settled run has started a task exactly if all its ancestors exit with code zero. -/
theorem Settled.start_iff (h : G.Schedule events) (hsettled : G.Settled events)
    (hexits : Exits code events) (ht : t ∈ G.tasks) :
    .start t ∈ events ↔ G.Reached code t := by
  rw [h.mem_iff]
  rcases hsettled.outcome h hexits t ht with ⟨hstate, hreached⟩ | ⟨hstate, hreached⟩
  · exact iff_of_true (by rw [TaskEvent.task, hstate]; trivial) hreached
  · exact iff_of_false (by rw [TaskEvent.task, hstate]; exact id) hreached

/-- Two settled runs whose commands exit alike have the same events, in an order of their own. -/
theorem Settled.perm {events' : List (TaskEvent T)} (h : G.Schedule events)
    (hsettled : G.Settled events) (hexits : Exits code events) (h' : G.Schedule events')
    (hsettled' : G.Settled events') (hexits' : Exits code events') : events.Perm events' := by
  have hboard (t : T) : board events t = board events' t := by
    by_cases ht : t ∈ G.tasks
    · rcases hsettled.outcome h hexits t ht with ⟨hstate, hreached⟩ | ⟨hstate, hreached⟩ <;>
        rcases hsettled'.outcome h' hexits' t ht with ⟨hstate', hreached'⟩ | ⟨hstate', hreached'⟩
      · rw [hstate, hstate']
      · exact absurd hreached hreached'
      · exact absurd hreached' hreached
      · rw [hstate, hstate']
    · have hwaiting {events : List (TaskEvent T)} (h : G.Schedule events) :
          board events t = .waiting := by
        by_contra hne
        exact ht (h.explained.task t hne)
      rw [hwaiting h, hwaiting h']
  refine (List.perm_ext_iff_of_nodup h.nodup h'.nodup).mpr fun e => ?_
  rw [h.mem_iff, h'.mem_iff, hboard]

variable (G) (code) in
/-- A run in which these tasks are over, and no other has moved. -/
structure Swept (done : List T) (events : List (TaskEvent T)) : Prop where
  schedule : G.Schedule events
  exits : Exits code events
  settled : ∀ t ∈ done, (board events t).Over
  waiting : ∀ t, t ∉ done → board events t = .waiting

/-- One more task is over once its own events are added. -/
theorem Swept.concat {done : List T} {events' : List (TaskEvent T)} (h : Swept G code done events)
    (hschedule : G.Schedule events') (hexits : Exits code events') (hover : (board events' t).Over)
    (hother : ∀ u, u ≠ t → board events' u = board events u) :
    Swept G code (done ++ [t]) events' where
  schedule := hschedule
  exits := hexits
  settled u hu := by
    by_cases hne : u = t
    · exact hne ▸ hover
    · rw [hother u hne]
      exact h.settled u ((List.mem_append.mp hu).resolve_right (by simpa using hne))
  waiting u hu := by
    simp only [List.mem_append, List.mem_singleton, not_or] at hu
    rw [hother u hu.2]
    exact h.waiting u hu.1

/-- A task can be brought to its end once everything upstream of it is over. -/
theorem Swept.next {done : List T} (h : Swept G code done events) (htask : t ∈ G.tasks)
    (hnew : t ∉ done) (hupstream : ∀ u ∈ G.upstream t, u ∈ done) :
    ∃ events', Swept G code (done ++ [t]) events' := by
  by_cases hready : ∀ u ∈ G.upstream t, board events u = .ended 0
  · have hstarted := h.schedule.snoc (.start htask (h.waiting t hnew) hready)
    have hexit : G.Allows (board (events ++ [.start t])) (.exit t (code t)) :=
      .exit (board_concat_self events rfl)
    refine ⟨_, h.concat (hstarted.snoc hexit) (fun u c hmem => ?_) ?_ fun u hu => ?_⟩
    · simp only [List.mem_append, List.mem_singleton, reduceCtorEq, or_false,
        TaskEvent.exit.injEq] at hmem
      rcases hmem with hmem | ⟨rfl, rfl⟩
      · exact h.exits u c hmem
      · rfl
    · exact (board_concat_self _ (e := .exit t (code t)) rfl).symm ▸ trivial
    · exact (board_concat_of_ne _ hu).trans (board_concat_of_ne _ hu)
  · push Not at hready
    obtain ⟨u, hu, hne⟩ := hready
    have hfailed : (board events u).Failed := by
      have hover := h.settled u (hupstream u hu)
      cases hstate : board events u with
      | ended c => exact fun hzero => hne (by rw [hstate, hzero])
      | givenUp => trivial
      | waiting => simp [hstate, TaskState.Over] at hover
      | running => simp [hstate, TaskState.Over] at hover
    have hgivenUp := h.schedule.snoc (.giveUp htask (h.waiting t hnew) ⟨u, hu, hfailed⟩)
    refine ⟨_, h.concat hgivenUp (fun v c hmem => ?_) ?_ fun v hv => board_concat_of_ne _ hv⟩
    · exact h.exits v c (by simpa using hmem)
    · exact (board_concat_self _ (e := .giveUp t) rfl).symm ▸ trivial

/-- Whatever the commands exit with, some run leaves the scheduler nothing to do. -/
theorem exists_settled (G : TaskGraph T) (code : T → ℤ) :
    ∃ events, G.Schedule events ∧ G.Settled events ∧ Exits code events := by
  have hsweep (done rest : List T) (hsplit : G.tasks = done ++ rest) :
      ∃ events, Swept G code done events := by
    induction done using List.reverseRecOn generalizing rest with
    | nil => exact ⟨[], .nil, by simp [Exits], by simp, fun _ _ => rfl⟩
    | append_singleton done t ih =>
      have htasks : G.tasks = done ++ t :: rest := by simpa using hsplit
      obtain ⟨events, hevents⟩ := ih (t :: rest) htasks
      refine hevents.next (htasks ▸ by simp) (fun ht => ?_) fun u hu =>
        G.ordered.mem_before htasks hu
      exact (List.nodup_append.mp (htasks ▸ G.nodup)).2.2 t ht t List.mem_cons_self rfl
  obtain ⟨events, h⟩ := hsweep G.tasks [] (by simp)
  refine ⟨events, h.schedule, fun e hallows => ?_, h.exits⟩
  have htask : e.task ∈ G.tasks := by
    cases hallows with
    | start htask _ _ => exact htask
    | exit hrunning => exact h.schedule.explained.task _ (by simp [TaskEvent.task, hrunning])
    | giveUp htask _ _ => exact htask
  have hover := h.settled e.task htask
  rcases hallows.pending with hstate | hstate <;> simp [hstate, TaskState.Over] at hover

/-! ## One task after the other -/

/-- Run the tasks one after the other, up to the first one that fails. -/
def inOrder (code : T → ℤ) : List T → List (TaskEvent T)
  | [] => []
  | t :: rest => .start t :: .exit t (code t) :: if code t = 0 then inOrder code rest else []

/-- Tasks of the graph can be run so after any run in which they still wait and what they wait for
besides each other has succeeded. -/
theorem Schedule.append_inOrder {order : List T} (h : G.Schedule events) (hnodup : order.Nodup)
    (htasks : ∀ t ∈ order, t ∈ G.tasks) (hwaiting : ∀ t ∈ order, board events t = .waiting)
    (hready : ∀ pre t post, order = pre ++ t :: post → ∀ u ∈ G.upstream t,
      u ∈ pre ∨ board events u = .ended 0) :
    G.Schedule (events ++ inOrder code order) := by
  induction order generalizing events with
  | nil => rwa [inOrder, List.append_nil]
  | cons t rest ih =>
    obtain ⟨ht, hrest⟩ := List.nodup_cons.mp hnodup
    have hstarted : G.Schedule (events ++ [.start t]) :=
      h.snoc (.start (htasks t List.mem_cons_self) (hwaiting t List.mem_cons_self) fun u hu =>
        (hready [] t rest rfl u hu).resolve_left List.not_mem_nil)
    have hrunning : board (events ++ [.start t]) t = .running := board_concat_self events rfl
    have hended : G.Schedule (events ++ [.start t] ++ [.exit t (code t)]) :=
      hstarted.snoc (.exit hrunning)
    have hother {u : T} (hu : u ≠ t) :
        board (events ++ [.start t] ++ [.exit t (code t)]) u = board events u :=
      (board_concat_of_ne _ hu).trans (board_concat_of_ne _ hu)
    have hsplit : events ++ inOrder code (t :: rest) = events ++ [.start t] ++ [.exit t (code t)] ++
        if code t = 0 then inOrder code rest else [] := by simp [inOrder]
    rw [hsplit]
    split
    · rename_i hcode
      have hself : board (events ++ [.start t] ++ [.exit t (code t)]) t = .ended 0 :=
        (board_concat_self _ rfl).trans (congrArg _ hcode)
      refine ih hended hrest (fun u hu => htasks u (List.mem_cons_of_mem _ hu)) (fun u hu => ?_)
        fun pre u post hpost w hw => ?_
      · rw [hother fun heq => ht (heq ▸ hu)]
        exact hwaiting u (List.mem_cons_of_mem _ hu)
      · by_cases hwt : w = t
        · exact .inr (hwt ▸ hself)
        · rw [hother hwt]
          have hpast := hready (t :: pre) u post (by rw [hpost, List.cons_append]) w hw
          exact hpast.imp_left fun hmem => (List.mem_cons.mp hmem).resolve_left hwt
    · rwa [List.append_nil]

/-- To go through tasks of the graph in order is a schedule. -/
theorem schedule_inOrder {order : List T} (hnodup : order.Nodup)
    (htasks : ∀ t ∈ order, t ∈ G.tasks) (hordered : Ordered G.upstream order) :
    G.Schedule (inOrder code order) :=
  Schedule.nil.append_inOrder hnodup htasks (fun _ _ => rfl) fun _ _ _ h _ hu =>
    .inl (hordered.mem_before h hu)

omit [DecidableEq T] in
/-- The tasks that are started are those before which no task fails. -/
theorem start_mem_inOrder {order : List T} :
    .start t ∈ inOrder code order ↔
      ∃ pre post, order = pre ++ t :: post ∧ ∀ u ∈ pre, code u = 0 := by
  induction order with
  | nil => simp [inOrder]
  | cons u rest ih =>
    constructor
    · intro h
      simp only [inOrder, List.mem_cons, TaskEvent.start.injEq, reduceCtorEq, false_or] at h
      rcases h with rfl | h
      · exact ⟨[], rest, rfl, by simp⟩
      · split at h
        · rename_i hcode
          obtain ⟨pre, post, rfl, hpre⟩ := ih.mp h
          exact ⟨u :: pre, post, rfl, List.forall_mem_cons.mpr ⟨hcode, hpre⟩⟩
        · cases h
    · rintro ⟨_ | ⟨v, pre⟩, post, horder, hpre⟩
      · obtain ⟨rfl, -⟩ := List.cons.inj horder
        exact List.mem_cons_self
      · obtain ⟨rfl, rfl⟩ := List.cons.inj horder
        obtain ⟨hcode, hpre⟩ := List.forall_mem_cons.mp hpre
        rw [inOrder, if_pos hcode]
        exact List.mem_cons_of_mem _ (List.mem_cons_of_mem _ (ih.mpr ⟨pre, post, rfl, hpre⟩))

/-- Such a task has no ancestor that fails. -/
theorem reached_of_inOrder {order : List T} (hordered : Ordered G.upstream order)
    (h : .start t ∈ inOrder code order) : G.Reached code t := by
  obtain ⟨pre, post, horder, hpre⟩ := start_mem_inOrder.mp h
  exact fun a ha => hpre a (hordered.ancestor ha horder)

end TaskGraph

end CreditScoringMlops.Interaction
