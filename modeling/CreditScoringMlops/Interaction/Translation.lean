import CreditScoringMlops.Interaction.Program

/-!
# Programs over other operations

A program over some operations becomes a program over others once each of its operations is
implemented by a program over them. Translation keeps the structure of a program, so a rule for
translated programs needs a rule for each implementation and nothing else.
-/

namespace CreditScoringMlops.Interaction.Program

variable {Op Op' : Type} {Reply : Op → Type} {Reply' : Op' → Type} {Exc A B S : Type}

/-- Perform the implementation of each operation. -/
def translate (implement : (op : Op) → Program Op' Reply' Exc (Reply op)) :
    Program Op Reply Exc A → Program Op' Reply' Exc A
  | ret a => ret a
  | raise e => raise e
  | perform op next => implement op >>= fun reply => (next reply).translate implement

variable {implement : (op : Op) → Program Op' Reply' Exc (Reply op)}

@[simp] theorem translate_ret (a : A) :
    (ret a : Program Op Reply Exc A).translate implement = ret a := rfl

@[simp] theorem translate_raise (e : Exc) :
    (raise e : Program Op Reply Exc A).translate implement = raise e := rfl

@[simp] theorem translate_ofExcept (result : Except Exc A) :
    (ofExcept result : Program Op Reply Exc A).translate implement = ofExcept result := by
  cases result <;> rfl

/-- One operation is translated to its implementation. -/
@[simp] theorem translate_request (op : Op) :
    (request op : Program Op Reply Exc (Reply op)).translate implement = implement op :=
  bind_ret (implement op)

/-- A sequence is translated part by part. -/
theorem translate_bind (p : Program Op Reply Exc A) (f : A → Program Op Reply Exc B) :
    (p >>= f).translate implement =
      p.translate implement >>= fun a => (f a).translate implement := by
  induction p with
  | ret a => rfl
  | raise e => rfl
  | perform op next ih =>
    rw [perform_bind, translate, translate, bind_assoc]
    exact congrArg (implement op >>= ·) (funext ih)

/-- So is a `try` block, if no implementation raises. -/
theorem translate_attempt
    (hreturns : ∀ op, (implement op).attempt = Except.ok <$> implement op)
    (p : Program Op Reply Exc A) :
    p.attempt.translate implement = (p.translate implement).attempt := by
  induction p with
  | ret a => rfl
  | raise e => rfl
  | perform op next ih =>
    rw [attempt, translate, translate, attempt_bind, hreturns, map_bind]
    exact congrArg (implement op >>= ·) (funext ih)

variable {m : Monitor Op' Reply' S} {E : S → Exc → Prop} {s : S}

/-- One operation obeys as its implementation does. -/
@[simp] theorem obeys_translate_request (op : Op) {Q : S → Reply op → Prop} :
    Obeys m Q E s ((request op : Program Op Reply Exc (Reply op)).translate implement) ↔
      Obeys m Q E s (implement op) :=
  obeys_bind (implement op) ret

/-- Sequencing: the translated continuation starts where the translated first program returned. -/
@[simp] theorem obeys_translate_bind (p : Program Op Reply Exc A)
    (f : A → Program Op Reply Exc B) {Q : S → B → Prop} :
    Obeys m Q E s ((p >>= f).translate implement) ↔
      Obeys m (fun s a => Obeys m Q E s ((f a).translate implement)) E s
        (p.translate implement) := by
  induction p generalizing s with
  | ret a => rfl
  | raise e => rfl
  | perform op next ih =>
    rw [perform_bind, translate, translate, obeys_bind, obeys_bind]
    simp only [ih]

/-- Mapping a program maps what its translation returns. -/
@[simp] theorem obeys_translate_map (f : A → B) (p : Program Op Reply Exc A) {Q : S → B → Prop} :
    Obeys m Q E s ((f <$> p).translate implement) ↔
      Obeys m (fun s a => Q s (f a)) E s (p.translate implement) :=
  obeys_translate_bind p fun a => ret (f a)

/-- A translation performs what the implementations of the permitted operations perform. -/
theorem Uses.translate {allowed : Op → Prop} {allowed' : Op' → Prop}
    (himplement : ∀ op, allowed op → (implement op).Uses allowed') {p : Program Op Reply Exc A}
    (hp : p.Uses allowed) : (p.translate implement).Uses allowed' := by
  induction p with
  | ret a => trivial
  | raise e => trivial
  | perform op next ih => exact (himplement op hp.1).bind fun reply => ih reply (hp.2 reply trivial)

/-! ## Other exceptions -/

variable {Exc' : Type}

/-- Raise exceptions of another type. -/
def mapError (f : Exc → Exc') : Program Op Reply Exc A → Program Op Reply Exc' A
  | ret a => ret a
  | raise e => raise (f e)
  | perform op next => perform op fun reply => (next reply).mapError f

/-- What holds where a program raises is said of its own exception. -/
theorem obeys_mapError {m : Monitor Op Reply S} {Q : S → A → Prop} {E : S → Exc' → Prop} {s : S}
    {f : Exc → Exc'} {p : Program Op Reply Exc A} :
    Obeys m Q E s (p.mapError f) ↔ Obeys m Q (fun s e => E s (f e)) s p := by
  induction p generalizing s with
  | ret a => rfl
  | raise e => rfl
  | perform op next ih =>
    rw [mapError, obeys_perform, obeys_perform]
    exact and_congr_right fun _ => forall_congr' fun reply => imp_congr_right fun _ => ih reply

end CreditScoringMlops.Interaction.Program
