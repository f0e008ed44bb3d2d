import CreditScoringMlops.Consumer.CleanRuns
import CreditScoringMlops.Producers.CreditApplications

/-!
# Generated applications are scored

Every range that a generator draws from lies within the bounds of the application schema, so
that whatever the draws are, the topic holds valid applications only. Together with the consumer:
after any runs of both sides, a consumer process that nothing disturbs publishes one result for
each application that it takes, under the id of that application, and leaves none behind.
-/

namespace CreditScoringMlops.Producers

open Python Interaction Machine Program Scoring

/-! ## What is drawn -/

/-- The fields have been drawn. -/
def Drawn (draws : List (String × Draw)) (fields : Dict) : Prop :=
  List.Forall₂ (fun draw field => field.1 = draw.1 ∧ ∃ n, field.2 = .int n ∧ draw.2.allows n)
    draws fields

/-- A drawn field holds an integer of its range. -/
theorem Drawn.get? {draws : List (String × Draw)} {fields : Dict} (h : Drawn draws fields)
    (name : String) {draw : Draw} (hdraw : draws.lookup name = some draw) :
    ∃ n, Dict.get? fields name = some (.int n) ∧ draw.allows n := by
  induction h with
  | nil => cases hdraw
  | @cons first field draws fields hfirst hrest ih =>
    obtain ⟨name', draw'⟩ := first
    obtain ⟨key, value⟩ := field
    obtain ⟨rfl, n, rfl, hallows⟩ := hfirst
    by_cases hname : name = key
    · subst hname
      obtain rfl : draw' = draw := by simpa using hdraw
      exact ⟨n, by simp [Dict.get?], hallows⟩
    · have hlookup : draws.lookup name = some draw := by
        simpa [List.lookup_cons, beq_eq_false_iff_ne.mpr hname] using hdraw
      obtain ⟨m, hm, hallows⟩ := ih hlookup
      exact ⟨m, by simpa [Dict.get?, Ne.symm hname] using hm, hallows⟩

/-- It has the names of the draws. -/
theorem Drawn.names {draws : List (String × Draw)} {fields : Dict} (h : Drawn draws fields) :
    fields.map (·.1) = draws.map (·.1) := by
  induction h with
  | nil => rfl
  | cons hfirst _ ih => simp [hfirst.1, ih]

/-- An integer field within its bounds. -/
theorem Drawn.exists_integerField {draws : List (String × Draw)} {fields : Dict}
    (h : Drawn draws fields) {name : String} {draw : Draw} {lower upper : ℤ}
    (hdraw : draws.lookup name = some draw) (hwithin : draw.within lower upper) :
    ∃ x, integerField fields name lower upper = .ok x := by
  obtain ⟨n, hn, hallows⟩ := h.get? name hdraw
  have hbounds := Draw.le_of_within hwithin hallows
  exact ⟨⟨n, hbounds⟩, by simp [integerField, hn, hbounds]⟩

/-- A positive field. -/
theorem Drawn.exists_positiveField {draws : List (String × Draw)} {fields : Dict}
    (h : Drawn draws fields) {name : String} {draw : Draw} (upper : ℤ)
    (hdraw : draws.lookup name = some draw) (hwithin : draw.within 1 upper) :
    ∃ x, positiveField fields name = .ok x := by
  obtain ⟨n, hn, hallows⟩ := h.get? name hdraw
  have hbounds := Draw.le_of_within hwithin hallows
  have hpositive : (PyFloat.finite n).positive = true := by
    simp only [PyFloat.positive, decide_eq_true_eq]
    exact_mod_cast (by omega : 0 < n)
  exact ⟨⟨.finite n, hpositive⟩, by simp [positiveField, hn, hpositive]⟩

/-- A sequence of successes. -/
theorem exists_bind {A B : Type} {x : Except String A} {f : A → Except String B}
    (hx : ∃ a, x = .ok a) (hf : ∀ a, ∃ b, f a = .ok b) : ∃ b, (x >>= f) = .ok b := by
  obtain ⟨a, rfl⟩ := hx
  exact hf a

/-- What the generators draw is a valid application. -/
theorem exists_validateTyped {fields : Dict} (h : Drawn applicationDraws fields) :
    ∃ application, validateTyped fields = .ok application := by
  unfold validateTyped
  iterate 4 refine exists_bind (h.exists_integerField rfl rfl) fun _ => ?_
  refine exists_bind (h.exists_positiveField 15000 rfl rfl) fun _ => ?_
  iterate 15 refine exists_bind (h.exists_integerField rfl rfl) fun _ => ?_
  exact ⟨_, rfl⟩

/-- An application with an id, which is its key, and of the schema apart from the metadata. -/
structure Sent.IsApplication (message : Sent) : Prop where
  key : ∃ id : UuidText, message.key = .str id.1 ∧
    Dict.get? message.value "application_id" = some (.str id.1)
  valid : ∃ application, validateTyped (Consumer.cleanPayload message.value) = .ok application

/-- The producers enqueue applications. -/
def sends : Op → Prop
  | .produce message => message.IsApplication
  | _ => True

/-- One operation. -/
theorem obeys_ask (op : Op) (hop : sends op) {Q : Unit → op.Result → Prop} (hQ : ∀ a, Q () a) :
    (ask op).Obeys (.only sends) Q (fun _ _ => True) () := by
  rw [ask, obeys_bind]
  refine ⟨hop, ?_⟩
  rintro (exc | a) -
  · trivial
  · exact hQ a

/-- Drawing the fields of a dictionary. -/
theorem obeys_drawFields (draws : List (String × Draw)) :
    (drawFields draws).Obeys (.only sends) (fun _ fields => Drawn draws fields)
      (fun _ _ => True) () := by
  induction draws with
  | nil => exact .nil
  | cons draw draws ih =>
    obtain ⟨name, draw⟩ := draw
    unfold drawFields
    rw [obeys_bind]
    refine obeys_ask (.draw draw) trivial fun n => ?_
    rw [obeys_bind]
    exact ih.mono (fun _ fields hfields => .cons ⟨rfl, n.1, rfl, n.2⟩ hfields) fun _ _ _ => trivial

/-- Serving reports sends nothing. -/
theorem uses_serveReports : serveReports.Uses sends := by
  have hreports (reports : List (Option String)) : (reports.forM deliveryReport).Uses sends := by
    induction reports with
    | nil => trivial
    | cons report reports ih =>
      change (deliveryReport report >>= fun _ => reports.forM deliveryReport).Uses sends
      refine Uses.bind ?_ fun _ => ih
      cases report <;> exact obeys_ask (.print _) trivial fun _ => trivial
  exact Uses.bind (obeys_ask .serveReports trivial fun _ => trivial) hreports

/-- An application without metadata, as the script generates it that calls the endpoint. -/
theorem obeys_generateApplication :
    generateApplication.Obeys (.only sends)
      (fun _ application => ∃ accepted, validateTyped application = .ok accepted)
      (fun _ _ => True) () :=
  (obeys_drawFields _).mono (fun _ _ => exists_validateTyped) fun _ _ _ => trivial

/-- The message, as the consumer decodes it. -/
def Sent.message (sent : Sent) : Consumer.MessageValue := .json (.obj sent.value)

/-- An application is valid by every validation that the schema agrees with. -/
theorem Sent.IsApplication.isValid {sent : Sent} (h : sent.IsApplication)
    {validate : Consumer.Validation}
    (hschema : ∀ payload application, validateTyped payload = .ok application →
      validate payload = .ok application) :
    sent.message.isValid validate := by
  obtain ⟨application, happlication⟩ := h.valid
  change (validate (Consumer.cleanPayload sent.value)).toBool = true
  rw [hschema _ _ happlication]
  rfl

/-- Its result has the key of the application. -/
theorem Sent.IsApplication.key_eq {sent : Sent} (h : sent.IsApplication)
    {validate : Consumer.Validation} {x : Consumer.Publication} (hx : x.IsRight validate)
    (hmessage : x.message.value = sent.message) :
    x.result.key.map Json.str = some sent.key := by
  obtain ⟨id, hkey, hid⟩ := h.key
  have hnonempty : id.1.isEmpty = false := by
    cases hempty : id.1.isEmpty with
    | false => rfl
    | true =>
      have hlength := id.2
      rw [String.isEmpty_iff.mp hempty] at hlength
      cases hlength
  rw [hx.key_eq sent.value id.1 (hmessage ▸ rfl) hid, hnonempty, hkey]
  rfl

end CreditScoringMlops.Producers
