import CreditScoringMlops.Interaction.Conversation
import CreditScoringMlops.Scoring.LoggedScores

/-!
# What is shown of the scoring log

The endpoint shows the newest rows, and the drift report takes its current data from them. Both read
the table once, after they have arrived. So what has been inserted before they arrived is among what
they read, unless newer rows take all the places.
-/

namespace CreditScoringMlops.ScoringLogs

open Python Interaction Machine Program Scoring Data
open Consumer (Validation MessageValue)

/-! ## The query -/

/-- The order of a query is total. -/
theorem newer_total (rank : ℕ → ℕ) (a b : StoredLog) : newer rank a b ∨ newer rank b a := by
  rcases lt_trichotomy a.createdAt b.createdAt with hlt | heq | hgt
  · exact .inr (.inl hlt)
  · exact (Nat.le_total (rank a.id) (rank b.id)).imp (fun h => .inr ⟨heq.symm, h⟩)
      fun h => .inr ⟨heq, h⟩
  · exact .inl (.inl hgt)

/-- And transitive. -/
theorem newer_trans {rank : ℕ → ℕ} {a b c : StoredLog} (hab : newer rank a b)
    (hbc : newer rank b c) : newer rank a c := by
  rcases hab with hab | ⟨hab, hrank⟩ <;> rcases hbc with hbc | ⟨hbc, hrank'⟩
  · exact .inl (hbc.trans hab)
  · exact .inl (hbc ▸ hab)
  · exact .inl (hab ▸ hbc)
  · exact .inr ⟨hbc.trans hab, hrank.trans hrank'⟩

/-- A query that succeeds takes the newest rows. -/
theorem takesNewest_of_newest {limit : ℤ} {env : Env} {w : World} {logs : List StoredLog}
    (h : newest limit env w = .ok logs) :
    0 ≤ limit ∧ TakesNewest StoredLog.createdAt limit.toNat w.table logs := by
  unfold newest at h
  split at h
  · cases h
  split at h
  · cases h
  rename_i hlimit
  cases h
  have : Std.Total (newer env.rank) := ⟨newer_total env.rank⟩
  have : IsTrans StoredLog (newer env.rank) := ⟨fun _ _ _ => newer_trans⟩
  refine ⟨not_lt.mp hlimit, takesNewest_take (List.perm_insertionSort _ _) ?_ _⟩
  exact (List.pairwise_insertionSort (newer env.rank) w.table).imp fun hab =>
    hab.elim le_of_lt fun hab => hab.1.le

/-- Rows are only added. -/
theorem table_prefix_exec (i : ℕ) (op : Op) (env : Env) (w : World) :
    w.table <+: (exec i op env w).2.table := by
  cases hop : op.inserts with
  | none => exact (table_exec_of_inserts_eq_none i op env w hop).symm ▸ List.prefix_rfl
  | some row =>
    obtain ⟨-, ⟨-, htable⟩ | ⟨stored, -, htable⟩⟩ := exec_of_inserts i op env w hop
    · exact htable.symm ▸ List.prefix_rfl
    · exact htable.symm ▸ List.prefix_append _ _

section Runs

variable (validate : Validation) (partition : List MessageValue)

/-- In every run. -/
theorem table_prefix_run (earlier later : List LogEvent) :
    (runFrom validate partition earlier).world.table <+:
      (runFrom validate partition (earlier ++ later)).world.table :=
  (system validate).run_relates (R := fun w w' => w.table <+: w'.table) (fun _ => List.prefix_rfl)
    (fun _ _ _ => List.IsPrefix.trans) table_prefix_exec (fun _ _ => List.prefix_rfl) _ earlier later

/-- Of two runs that are continued to one, the one with more callers is the longer one. -/
theorem extends_of_arrived {earlier later before after : List LogEvent}
    (hevents : earlier ++ later = before ++ after)
    (harrived : (runFrom validate partition earlier).callers.length <
      (runFrom validate partition before).callers.length) :
    ∃ mid, before = earlier ++ mid := by
  obtain ⟨mid, rfl, -⟩ | ⟨mid, rfl, -⟩ := List.append_eq_append_iff.mp hevents
  · exact ⟨mid, rfl⟩
  · have hlength (events : List LogEvent) : (runFrom validate partition events).callers.length =
        (events.filterMap Event.request?).length := by
      rw [← (system validate).requests_run _ events, List.length_map]
      rfl
    rw [hlength, hlength, List.filterMap_append, List.length_append] at harrived
    omega

/-- A caller whose only operation is a query has made it at a moment of the run at which it had
arrived. -/
theorem exists_moment {events : List LogEvent} {i : ℕ} {limit : ℤ}
    {reply : Except QueryError (List StoredLog)}
    (hown : (own (runFrom validate partition events).trace i).map Entry.exchange =
      [⟨.newest limit, reply⟩]) :
    ∃ earlier later env, events = earlier ++ later ∧
      i < (runFrom validate partition earlier).callers.length ∧
      newest limit env (runFrom validate partition earlier).world = reply := by
  obtain ⟨e, hfilter, hexchange⟩ := List.map_eq_singleton_iff.mp hown
  have he : e ∈ own (runFrom validate partition events).trace i := hfilter ▸ List.mem_singleton_self e
  obtain ⟨hmem, hcaller⟩ := List.mem_filter.mp he
  obtain ⟨pre, post, htrace⟩ := List.append_of_mem hmem
  obtain ⟨earlier, later, hevents, hearlier, hworld⟩ :=
    (system validate).exists_run_of_entry htrace
  have hdisciplined := disciplined_runFrom validate partition earlier
  have hentry := (hdisciplined.legal.split hearlier).2.2
  refine ⟨earlier, later, e.env, hevents, ?_, ?_⟩
  · have := hdisciplined.arrived e (hearlier ▸ List.mem_concat_self)
    rwa [of_decide_eq_true hcaller] at this
  · obtain ⟨j, env, op, reply', before, after⟩ := e
    cases hexchange
    obtain ⟨-, -, -, hreply, -, hafter⟩ := Entry.mk.inj hentry
    have hworld : (runFrom validate partition earlier).world = after := hworld
    have hafter : after = before := hafter
    rw [hworld, hafter]
    exact (eq_of_heq hreply).symm

/-- What a caller has done who got the newest rows. -/
theorem own_of_scoringLogs {events : List LogEvent} {i : ℕ} {limit : ℤ} {answer : Answer}
    (hcaller : (runFrom validate partition events).callers[i]? =
      some ⟨.scoringLogs limit, some (.ret answer)⟩) :
    ∃ logs, answer = .logs logs ∧
      (own (runFrom validate partition events).trace i).map Entry.exchange =
        [⟨.newest limit, .ok logs⟩] := by
  have hconverses := (system validate).converses_run _ events hcaller
  obtain ⟨logs, rfl, hlogs⟩ := converses_map_ok.mp hconverses
  obtain ⟨reply, rest, hlog, hrest⟩ := converses_request_bind.mp hlogs
  cases reply with
  | error error => cases hrest
  | ok shown =>
    obtain ⟨rfl, hshown⟩ := converses_ret.mp hrest
    cases hshown
    exact ⟨logs, rfl, hlog⟩

/-- What one has done who got current data. -/
theorem own_of_driftReport {events : List LogEvent} {i : ℕ} {answer : Answer}
    (hcaller : (runFrom validate partition events).callers[i]? =
      some ⟨.driftReport, some (.ret answer)⟩) :
    ∃ logs, logs ≠ [] ∧ answer = .currentData (logs.map StoredLog.currentRow) ∧
      (own (runFrom validate partition events).trace i).map Entry.exchange =
        [⟨.newest 1000, .ok logs⟩] := by
  have hconverses := (system validate).converses_run _ events hcaller
  obtain ⟨rows, rfl, hrows⟩ := converses_map_ok.mp hconverses
  obtain ⟨reply, rest, hlog, hrest⟩ := converses_request_bind.mp hrows
  rcases reply with (_ | _ | _) | logs
  · cases hrest
  · cases hrest
  · cases hrest
  · change (if logs.isEmpty then _ else _ : Handler _).Converses _ _ at hrest
    split at hrest
    · cases hrest
    · obtain ⟨rfl, hshown⟩ := converses_ret.mp hrest
      cases hshown
      refine ⟨logs, ?_, rfl, hlog⟩
      rintro rfl
      exact absurd rfl ‹¬_›

/-- What one has done who found no data. -/
theorem own_of_driftReport_raise {events : List LogEvent} {i : ℕ} {exc : PyExc}
    (hcaller : (runFrom validate partition events).callers[i]? =
      some ⟨.driftReport, some (.raise (.exception exc))⟩) :
    exc = .valueError "No production scoring logs found in database" ∧
      (own (runFrom validate partition events).trace i).map Entry.exchange =
        [⟨.newest 1000, .ok []⟩] := by
  have hconverses := (system validate).converses_run_of_raise _ events hcaller
  obtain ⟨exc', hexc, hrows⟩ | ⟨_, _, _, -, -, hret⟩ := converses_bind.mp hconverses
  · cases hexc
    obtain ⟨reply, rest, hlog, hrest⟩ := converses_request_bind.mp hrows
    rcases reply with (_ | _ | _) | logs
    · cases hrest
    · cases hrest
    · cases hrest
    · change (if logs.isEmpty then _ else _ : Handler _).Converses _ _ at hrest
      split at hrest
      · obtain ⟨rfl, hraised⟩ := converses_raise.mp hrest
        cases hraised
        obtain rfl := List.isEmpty_iff.mp ‹_›
        exact ⟨rfl, hlog⟩
      · cases hrest
  · cases hret

/-! ## What readers find -/

/-- In every run, `GET /scoring-logs` shows the newest rows of the table at a moment after it has
arrived, and never for a negative limit. So the row of a response that was returned before it
arrived is shown, unless the limit is used up by rows that are no older. -/
theorem logs_shown (earlier later : List LogEvent) {i : ℕ} {limit : ℤ} {logs : List StoredLog}
    (hnew : (runFrom validate partition earlier).callers.length ≤ i)
    (hcaller : (runFrom validate partition (earlier ++ later)).callers[i]? =
      some ⟨.scoringLogs limit, some (.ret (.logs logs))⟩) :
    0 ≤ limit ∧
      (∃ before after, earlier ++ later = before ++ after ∧
        i < (runFrom validate partition before).callers.length ∧
        TakesNewest StoredLog.createdAt limit.toNat (runFrom validate partition before).world.table
          logs) ∧
      ∀ (j : ℕ) (application : CreditApplication) (response : ScoringApi.ScoringResponse),
        (runFrom validate partition earlier).callers[j]? =
          some ⟨.score application, some (.ret (.scored response))⟩ →
        ∃ stored, IsRowOf application stored.log ∧
          response = responseOf stored.log response.topReasons ∧
          (stored ∈ logs ∨ logs.length = limit.toNat ∧
            ∀ a ∈ logs, stored.createdAt ≤ a.createdAt) := by
  obtain ⟨_, ⟨⟩, hown⟩ := own_of_scoringLogs validate partition hcaller
  obtain ⟨before, after, env, hevents, harrived, hquery⟩ :=
    exists_moment validate partition hown
  obtain ⟨hlimit, htakes⟩ := takesNewest_of_newest hquery
  refine ⟨hlimit, ⟨before, after, hevents, harrived, htakes⟩, fun j application response hscored => ?_⟩
  obtain ⟨stored, hstored, hrow, hresponse⟩ := exists_stored_of_scored hscored
  obtain ⟨mid, rfl⟩ := extends_of_arrived validate partition hevents (hnew.trans_lt harrived)
  have htable := (table_prefix_run validate partition earlier mid).subset hstored
  exact ⟨stored, hrow, hresponse, htakes.mem_or htable⟩

/-- The columns of an application that the drift report compares. -/
structure IsCurrent (row : CurrentRow) : Prop where
  age : 18 ≤ row.age ∧ row.age ≤ 100
  durationMonths : 1 ≤ row.durationMonths ∧ row.durationMonths ≤ 100
  creditAmount : row.creditAmount.positive

/-- Those of a row that is one of an application. -/
theorem isCurrent_currentRow {stored : StoredLog}
    (h : ∃ application, IsRowOf application stored.log) : IsCurrent stored.currentRow := by
  obtain ⟨application, defaultProbability, score, -, hrow⟩ := h
  rw [StoredLog.currentRow, hrow]
  exact ⟨application.age.2, application.durationMonths.2, application.creditAmount.2⟩

/-- In every run, the current data of a drift report are the columns of the newest 1000 rows of the
table at a moment after it has arrived, all of them of valid applications; and it finds no data only
if no row had been inserted before it arrived. -/
theorem currentData_shown (earlier later : List LogEvent) {i : ℕ}
    (hnew : (runFrom validate partition earlier).callers.length ≤ i) :
    (∀ rows, (runFrom validate partition (earlier ++ later)).callers[i]? =
        some ⟨.driftReport, some (.ret (.currentData rows))⟩ →
      rows ≠ [] ∧ (∀ row ∈ rows, IsCurrent row) ∧
        ∃ before after logs, earlier ++ later = before ++ after ∧
          i < (runFrom validate partition before).callers.length ∧
          TakesNewest StoredLog.createdAt 1000 (runFrom validate partition before).world.table
            logs ∧
          rows = logs.map StoredLog.currentRow) ∧
      ∀ exc, (runFrom validate partition (earlier ++ later)).callers[i]? =
          some ⟨.driftReport, some (.raise (.exception exc))⟩ →
        exc = .valueError "No production scoring logs found in database" ∧
          (runFrom validate partition earlier).world.table = [] := by
  constructor
  · intro rows hcaller
    obtain ⟨logs, hne, ⟨⟩, hown⟩ := own_of_driftReport validate partition hcaller
    obtain ⟨before, after, env, hevents, harrived, hquery⟩ :=
      exists_moment validate partition hown
    have htakes := (takesNewest_of_newest hquery).2
    refine ⟨by simpa using hne, fun row hrow => ?_,
      before, after, logs, hevents, harrived, htakes, rfl⟩
    obtain ⟨stored, hstored, rfl⟩ := List.mem_map.mp hrow
    exact isCurrent_currentRow ((kept_runFrom validate partition before).isRowOf stored
      (htakes.subperm.subset hstored))
  · intro exc hcaller
    obtain ⟨rfl, hown⟩ := own_of_driftReport_raise validate partition hcaller
    obtain ⟨before, after, env, hevents, harrived, hquery⟩ :=
      exists_moment validate partition hown
    obtain ⟨mid, rfl⟩ := extends_of_arrived validate partition hevents (hnew.trans_lt harrived)
    have hlength := (takesNewest_of_newest hquery).2.length
    have hempty : (runFrom validate partition (earlier ++ mid)).world.table.length = 0 := by
      have : Int.toNat 1000 = 1000 := rfl
      simp only [List.length_nil] at hlength
      omega
    refine ⟨rfl, List.eq_nil_of_length_eq_zero (Nat.le_zero.mp ?_)⟩
    exact hempty ▸ (table_prefix_run validate partition earlier mid).length_le

end Runs

/-- An application that is scored, and a query after it. -/
def scoring : List LogEvent := .arrive (.score plainApplication) :: List.replicate 4 (.step 0 {})

/-- The query. -/
def showing : List LogEvent := [.arrive (.scoringLogs 5), .step 1 {}]

/-- The response is among the five newest. -/
theorem logs_shown_scoring : ∃ logs response,
    (runFrom (fun _ => .error "") [] (scoring ++ showing)).callers[1]? =
        some ⟨.scoringLogs 5, some (.ret (.logs logs))⟩ ∧
      (runFrom (fun _ => .error "") [] scoring).callers[0]? =
          some ⟨.score plainApplication, some (.ret (.scored response))⟩ ∧
        ∃ stored ∈ logs, response = responseOf stored.log response.topReasons := by
  refine ⟨_, _, rfl, rfl, ?_⟩
  obtain ⟨-, -, hshown⟩ := logs_shown (fun _ => .error "") [] scoring showing (Nat.le_refl 1) rfl
  obtain ⟨stored, -, hlog, hmem | ⟨hlength, -⟩⟩ := hshown 0 plainApplication _ rfl
  · exact ⟨stored, hmem, hlog⟩
  · cases hlength

/-- A drift report, of the scored application. -/
def reporting : List LogEvent := [.arrive .driftReport, .step 1 {}]

/-- It shows its row, and a report before it finds none. -/
theorem currentData_shown_scoring :
    (∃ row, (runFrom (fun _ => .error "") [] (scoring ++ reporting)).callers[1]? =
        some ⟨.driftReport, some (.ret (.currentData [row]))⟩ ∧ IsCurrent row) ∧
      (runFrom (fun _ => .error "") [] [.arrive .driftReport, .step 0 {}]).callers[0]? =
        some ⟨.driftReport, some (.raise (.exception
          (.valueError "No production scoring logs found in database")))⟩ := by
  have hshown := currentData_shown (fun _ => .error "") [] scoring reporting (Nat.le_refl 1)
  exact ⟨⟨_, rfl, (hshown.1 _ rfl).2.1 _ (List.mem_singleton_self _)⟩, rfl⟩

end CreditScoringMlops.ScoringLogs
