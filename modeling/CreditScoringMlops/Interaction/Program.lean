import Mathlib.Logic.Basic

/-!
# Programs that perform operations and may raise

A program is a tree: it returns, raises, or performs one operation and continues with the
reply. `bind` and `attempt` are sequencing and the `try` block of the source language.

A `Monitor` follows the operations of one program with a state of its own and says which
operation is permitted in which state. `Program.Obeys` is the weakest precondition of a
program for a monitor: every operation it can perform, under any replies that are possible, is
permitted, and the two postconditions hold where it returns and where it raises.
-/

namespace CreditScoringMlops.Interaction

/-- A program over operations `Op`, where `Reply op` is the type of the answers to `op`. -/
inductive Program (Op : Type) (Reply : Op → Type) (Exc A : Type) : Type where
  | ret (a : A)
  | raise (e : Exc)
  | perform (op : Op) (next : Reply op → Program Op Reply Exc A)

namespace Program

variable {Op : Type} {Reply : Op → Type} {Exc A B : Type}

/-- Continue with the returned value; an exception skips the continuation. -/
def bind : Program Op Reply Exc A → (A → Program Op Reply Exc B) → Program Op Reply Exc B
  | ret a, f => f a
  | raise e, _ => raise e
  | perform op next, f => perform op fun reply => (next reply).bind f

instance : Monad (Program Op Reply Exc) where
  pure := ret
  bind := bind

/-- Run a program to its end and hand over how it ended, as a `try` block does. -/
def attempt : Program Op Reply Exc A → Program Op Reply Exc (Except Exc A)
  | ret a => ret (.ok a)
  | raise e => ret (.error e)
  | perform op next => perform op fun reply => (next reply).attempt

/-- Return a result or raise its exception. -/
def ofExcept : Except Exc A → Program Op Reply Exc A
  | .ok a => ret a
  | .error e => raise e

/-- Perform one operation and return its reply. -/
def request (op : Op) : Program Op Reply Exc (Reply op) := perform op ret

@[simp] theorem perform_bind (op : Op) (next : Reply op → Program Op Reply Exc A)
    (f : A → Program Op Reply Exc B) :
    (perform op next >>= f) = perform op fun reply => next reply >>= f := rfl

/-- Returning what a program returned adds nothing. -/
@[simp] theorem bind_ret (p : Program Op Reply Exc A) : (p >>= ret) = p := by
  induction p with
  | ret a => rfl
  | raise e => rfl
  | perform op next ih => exact congrArg (perform op) (funext ih)

/-- Sequencing is associative. -/
theorem bind_assoc {C : Type} (p : Program Op Reply Exc A) (f : A → Program Op Reply Exc B)
    (g : B → Program Op Reply Exc C) : (p >>= f >>= g) = p >>= fun a => f a >>= g := by
  induction p with
  | ret a => rfl
  | raise e => rfl
  | perform op next ih => exact congrArg (perform op) (funext ih)

/-- Mapping, and then going on. -/
theorem map_bind {C : Type} (f : A → B) (p : Program Op Reply Exc A)
    (g : B → Program Op Reply Exc C) : (f <$> p >>= g) = p >>= fun a => g (f a) :=
  bind_assoc p (fun a => ret (f a)) g

/-- A `try` block around a sequence, part by part. -/
theorem attempt_bind (p : Program Op Reply Exc A) (f : A → Program Op Reply Exc B) :
    (p >>= f).attempt = p.attempt >>= fun
      | .ok a => (f a).attempt
      | .error e => ret (.error e) := by
  induction p with
  | ret a => rfl
  | raise e => rfl
  | perform op next ih => exact congrArg (perform op) (funext ih)

/-- A `try` block never raises. -/
theorem attempt_attempt (p : Program Op Reply Exc A) :
    p.attempt.attempt = Except.ok <$> p.attempt := by
  induction p with
  | ret a => rfl
  | raise e => rfl
  | perform op next ih => exact congrArg (perform op) (funext ih)

end Program

/-- A typestate discipline: which operations a program may perform, given what it did before.
`possible` bounds the replies it has to be ready for. -/
structure Monitor (Op : Type) (Reply : Op → Type) (S : Type) where
  start : S
  may : S → Op → Prop
  possible : (op : Op) → Reply op → Prop
  next : S → (op : Op) → Reply op → S

/-- The discipline that permits some operations at all times. -/
def Monitor.only {Op : Type} {Reply : Op → Type} (allowed : Op → Prop) : Monitor Op Reply Unit where
  start := ()
  may _ op := allowed op
  possible _ _ := True
  next _ _ _ := ()

namespace Program

variable {Op : Type} {Reply : Op → Type} {Exc A B S : Type}

/-- Every operation the program can perform from monitor state `s` is permitted; where it
returns, `Q` holds of the final state and the value, and where it raises, `E` does. -/
def Obeys (m : Monitor Op Reply S) (Q : S → A → Prop) (E : S → Exc → Prop) :
    S → Program Op Reply Exc A → Prop
  | s, ret a => Q s a
  | s, raise e => E s e
  | s, perform op next => m.may s op ∧
      ∀ reply, m.possible op reply → Obeys m Q E (m.next s op reply) (next reply)

variable {m : Monitor Op Reply S} {Q : S → A → Prop} {E : S → Exc → Prop} {s : S}

@[simp] theorem obeys_perform (op : Op) (next : Reply op → Program Op Reply Exc A) :
    Obeys m Q E s (perform op next) ↔
      m.may s op ∧
        ∀ reply, m.possible op reply → Obeys m Q E (m.next s op reply) (next reply) := Iff.rfl

/-- One operation is permitted, and what follows holds for every reply that is possible. -/
theorem obeys_request (op : Op) {Q : S → Reply op → Prop} :
    Obeys m Q E s (request op : Program Op Reply Exc (Reply op)) ↔
      m.may s op ∧ ∀ reply, m.possible op reply → Q (m.next s op reply) reply := Iff.rfl

/-- Sequencing: the continuation starts where the first program returned. -/
@[simp] theorem obeys_bind (p : Program Op Reply Exc A) (f : A → Program Op Reply Exc B)
    {Q : S → B → Prop} :
    Obeys m Q E s (p >>= f) ↔ Obeys m (fun s a => Obeys m Q E s (f a)) E s p := by
  induction p generalizing s with
  | ret a => rfl
  | raise e => rfl
  | perform op next ih =>
    rw [perform_bind, obeys_perform, obeys_perform]
    exact and_congr_right fun _ => forall_congr' fun reply => imp_congr_right fun _ => ih reply

/-- Mapping a program maps what it returns. -/
@[simp] theorem obeys_map (f : A → B) (p : Program Op Reply Exc A) {Q : S → B → Prop} :
    Obeys m Q E s (f <$> p) ↔ Obeys m (fun s a => Q s (f a)) E s p :=
  obeys_bind p fun a => ret (f a)

/-- A `try` block turns both ways of ending into a returned value. -/
@[simp] theorem obeys_attempt (p : Program Op Reply Exc A) {Q : S → Except Exc A → Prop} :
    Obeys m Q E s p.attempt ↔
      Obeys m (fun s a => Q s (.ok a)) (fun s e => Q s (.error e)) s p := by
  induction p generalizing s with
  | ret a => rfl
  | raise e => rfl
  | perform op next ih =>
    rw [attempt, obeys_perform, obeys_perform]
    exact and_congr_right fun _ => forall_congr' fun reply => imp_congr_right fun _ => ih reply

/-- An evaluated result obeys when its own case does. -/
theorem obeys_ofExcept (r : Except Exc A) (hok : ∀ a, r = .ok a → Q s a)
    (herror : ∀ e, r = .error e → E s e) :
    Obeys m Q E s (ofExcept r : Program Op Reply Exc A) := by
  cases r with
  | ok a => exact hok a rfl
  | error e => exact herror e rfl

/-- Postconditions may be weakened. -/
theorem Obeys.mono {p : Program Op Reply Exc A} {Q' : S → A → Prop} {E' : S → Exc → Prop}
    (h : Obeys m Q E s p) (hQ : ∀ s a, Q s a → Q' s a) (hE : ∀ s e, E s e → E' s e) :
    Obeys m Q' E' s p := by
  induction p generalizing s with
  | ret a => exact hQ _ _ h
  | raise e => exact hE _ _ h
  | perform op next ih => exact ⟨h.1, fun reply hreply => ih reply (h.2 reply hreply)⟩

/-- The program performs permitted operations only. -/
abbrev Uses (allowed : Op → Prop) (p : Program Op Reply Exc A) : Prop :=
  p.Obeys (.only allowed) (fun _ _ => True) (fun _ _ => True) ()

/-- More may be permitted. -/
theorem Obeys.weaken {allowed allowed' : Op → Prop} {Q : Unit → A → Prop} {E : Unit → Exc → Prop}
    {p : Program Op Reply Exc A} (hp : p.Obeys (.only allowed) Q E ())
    (h : ∀ op, allowed op → allowed' op) : p.Obeys (.only allowed') Q E () := by
  induction p with
  | ret a => exact hp
  | raise e => exact hp
  | perform op next ih => exact ⟨h op hp.1, fun reply hreply => ih reply (hp.2 reply hreply)⟩

/-- Also where only the operations matter. -/
theorem Uses.weaken {allowed allowed' : Op → Prop} {p : Program Op Reply Exc A}
    (hp : p.Uses allowed) (h : ∀ op, allowed op → allowed' op) : p.Uses allowed' :=
  Obeys.weaken hp h

/-- How a program ends may be forgotten. -/
theorem Obeys.uses {allowed : Op → Prop} {Q : Unit → A → Prop} {E : Unit → Exc → Prop}
    {p : Program Op Reply Exc A} (hp : p.Obeys (.only allowed) Q E ()) : p.Uses allowed :=
  hp.mono (fun _ _ _ => trivial) fun _ _ _ => trivial

/-- A program obeys a monitor if its operations keep the monitor where they are permitted. -/
theorem Uses.obeys {allowed : Op → Prop} {I : S → Prop} {p : Program Op Reply Exc A}
    (hp : p.Uses allowed) (hmay : ∀ s op, I s → allowed op → m.may s op)
    (hnext : ∀ s op reply, I s → allowed op → m.possible op reply → I (m.next s op reply))
    (hs : I s) : p.Obeys m (fun s _ => I s) (fun s _ => I s) s := by
  induction p generalizing s with
  | ret a => exact hs
  | raise e => exact hs
  | perform op next ih =>
    refine ⟨hmay s op hs hp.1, fun reply hreply => ?_⟩
    exact ih reply (hp.2 reply trivial) (hnext s op reply hs hp.1 hreply)

/-- Sequencing keeps to the permitted operations. -/
theorem Uses.bind {allowed : Op → Prop} {p : Program Op Reply Exc A}
    {f : A → Program Op Reply Exc B} (hp : p.Uses allowed) (hf : ∀ a, (f a).Uses allowed) :
    (p >>= f).Uses allowed :=
  (obeys_bind p f).mpr (hp.mono (fun _ a _ => hf a) fun _ _ h => h)

/-- So does a `try` block. -/
theorem Uses.attempt {allowed : Op → Prop} {p : Program Op Reply Exc A} (hp : p.Uses allowed) :
    p.attempt.Uses allowed :=
  (obeys_attempt p).mpr hp

/-- One operation, if it is permitted. -/
theorem uses_request {allowed : Op → Prop} {op : Op} (h : allowed op) :
    (request op : Program Op Reply Exc (Reply op)).Uses allowed :=
  ⟨h, fun _ _ => trivial⟩

/-- Every program performs operations. -/
theorem uses_all (p : Program Op Reply Exc A) : p.Uses fun _ => True := by
  induction p with
  | ret a => trivial
  | raise e => trivial
  | perform op next ih => exact ⟨trivial, fun reply _ => ih reply⟩

/-- An evaluated result performs nothing. -/
theorem uses_ofExcept {allowed : Op → Prop} (r : Except Exc A) :
    (ofExcept r : Program Op Reply Exc A).Uses allowed :=
  obeys_ofExcept r (fun _ _ => trivial) fun _ _ => trivial

end Program

end CreditScoringMlops.Interaction
