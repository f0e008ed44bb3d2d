import CreditScoringMlops.Python.Text

/-!
# Exceptions

The exception classes the code raises or catches, with their messages. Subclassing is the
predicate `isValueError`; `except Exception` catches every one of them.
-/

namespace CreditScoringMlops.Python

/-- A raised exception. `other` is any exception of a library that no handler names. -/
inductive PyExc where
  | keyError (message : String)
  | valueError (message : String)
  | invalidApprovalTransition (message : String)
  | jsonDecodeError (message : String)
  | unicodeDecodeError (message : String)
  | validationError (message : String)
  | overflowError (message : String)
  | typeError (message : String)
  | attributeError (message : String)
  | permissionError (message : String)
  | fileNotFoundError (message : String)
  | kubernetesExecutionUnknown (message : String)
  | httpException (statusCode : ℕ) (detail : String)
  | other (message : String)
  deriving DecidableEq

namespace PyExc

/-- `str(exc)`; a `KeyError` prints the `repr` of its argument. -/
def str : PyExc → String
  | keyError message => reprString message
  | valueError message => message
  | invalidApprovalTransition message => message
  | jsonDecodeError message => message
  | unicodeDecodeError message => message
  | validationError message => message
  | overflowError message => message
  | typeError message => message
  | attributeError message => message
  | permissionError message => message
  | fileNotFoundError message => message
  | kubernetesExecutionUnknown message => message
  | httpException _ detail => detail
  | other message => message

/-- The subclasses of `ValueError` among them. -/
def isValueError : PyExc → Bool
  | valueError _ => true
  | invalidApprovalTransition _ => true
  | jsonDecodeError _ => true
  | unicodeDecodeError _ => true
  | validationError _ => true
  | _ => false

end PyExc

/-- What a value is passed on to. -/
theorem ok_bind {A B : Type} (a : A) (f : A → Except PyExc B) : (Except.ok a >>= f) = f a := rfl

/-- A sequence raises what its first part or its second part raises. -/
theorem bind_eq_error {A B : Type} {x : Except PyExc A} {f : A → Except PyExc B} {exc : PyExc} :
    (x >>= f) = .error exc ↔ x = .error exc ∨ ∃ a, x = .ok a ∧ f a = .error exc := by
  cases x <;> simp [bind, Except.bind]

/-- A sequence returns what its second part returns for what its first part returned. -/
theorem bind_eq_ok {A B : Type} {x : Except PyExc A} {f : A → Except PyExc B} {b : B} :
    (x >>= f) = .ok b ↔ ∃ a, x = .ok a ∧ f a = .ok b := by
  cases x <;> simp [bind, Except.bind]

/-- A list comprehension has a value for every item. -/
theorem exists_of_mapM {A B : Type} {f : A → Except PyExc B} {items : List A} {values : List B}
    (h : items.mapM f = .ok values) {a : A} (ha : a ∈ items) : ∃ b ∈ values, f a = .ok b := by
  induction items generalizing values with
  | nil => cases ha
  | cons item items ih =>
    rw [List.mapM_cons] at h
    obtain ⟨b, hb, h⟩ := bind_eq_ok.mp h
    obtain ⟨rest, hrest, h⟩ := bind_eq_ok.mp h
    cases h
    rcases List.mem_cons.mp ha with rfl | ha
    · exact ⟨b, List.mem_cons_self, hb⟩
    · obtain ⟨b', hb', hfa⟩ := ih hrest ha
      exact ⟨b', List.mem_cons_of_mem _ hb', hfa⟩

/-- A list comprehension without exceptions is a map. -/
theorem mapM_eq_ok {A B : Type} {f : A → Except PyExc B} {g : A → B} {items : List A}
    (h : ∀ a ∈ items, f a = .ok (g a)) : items.mapM f = .ok (items.map g) := by
  induction items with
  | nil => rfl
  | cons item items ih =>
    rw [List.forall_mem_cons] at h
    rw [List.mapM_cons, h.1, ok_bind, ih h.2]
    rfl

end CreditScoringMlops.Python
