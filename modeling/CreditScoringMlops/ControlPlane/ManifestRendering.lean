import CreditScoringMlops.ControlPlane.KubernetesExecutor
import CreditScoringMlops.Data.Pattern
import CreditScoringMlops.Interaction.Conversation

/-!
# The rendering of the manifest

What `re.subn` does with the manifest, against the meaning of its pattern: it replaces the literal
of the first match and nothing else. So `apply_training_job` sends the manifest with another name,
or raises without calling kubectl. The manifest is the text that `read_text` returns.
-/

namespace CreditScoringMlops.ControlPlane

open Python Interaction Program Data

namespace KubernetesExecutor

/-! ## The pattern -/

/-- The name in the manifest that is replaced. -/
def templateName : List Char := "credit-model-training".toList

/-- `(^\s*name:\s*)credit-model-training(\s*$)` with `re.MULTILINE`. -/
def namePattern : List (Atom Char) :=
  [.lineStart, .star isSpace, .lit "name:".toList, .star isSpace, .lit templateName,
    .star isSpace, .lineEnd]

/-- The free parts of a match, and what follows it. -/
structure NameParts (indent gap trailing after : List Char) : Prop where
  indent : ∀ c ∈ indent, isSpace c
  gap : ∀ c ∈ gap, isSpace c
  trailing : ∀ c ∈ trailing, isSpace c
  lineEnd : AtLineEnd '\n' after

/-- Where the name of the first match stands: what is in front of it and what is behind it. -/
def Located (text front back : List Char) : Prop :=
  ∃ before parts after, FirstMatch '\n' namePattern text before parts after ∧
    front = before ++ (parts.take 4).flatten ∧ back = (parts.drop 5).flatten ++ after

/-- A prefix is dropped where it is one. -/
theorem dropPrefix?_eq_some {lead text rest : List Char} :
    dropPrefix? lead text = some rest ↔ text = lead ++ rest := by
  unfold dropPrefix?
  split
  · rename_i h
    obtain ⟨tail, rfl⟩ := List.isPrefixOf_iff_prefix.mp h
    simp
  · rename_i h
    refine ⟨nofun, ?_⟩
    rintro rfl
    exact absurd (List.isPrefixOf_iff_prefix.mpr (List.prefix_append lead rest)) h

/-- A text in which the key follows the white space. -/
theorem span_key (rest : List Char) {indent : List Char} (h : ∀ c ∈ indent, isSpace c) :
    (indent ++ ("name:".toList ++ rest)).takeWhile isSpace = indent ∧
      (indent ++ ("name:".toList ++ rest)).dropWhile isSpace = "name:".toList ++ rest :=
  takeWhile_eq_of_head h (by rintro c ⟨⟩; decide)

/-- A text in which the name follows it. -/
theorem span_templateName (rest : List Char) {gap : List Char} (h : ∀ c ∈ gap, isSpace c) :
    (gap ++ (templateName ++ rest)).takeWhile isSpace = gap ∧
      (gap ++ (templateName ++ rest)).dropWhile isSpace = templateName ++ rest :=
  takeWhile_eq_of_head h (by rintro c ⟨⟩; decide)

/-- White space up to a line end: there is a line end in it, or nothing behind it. -/
theorem exists_lineEnd_iff {rest : List Char} :
    ('\n' ∈ rest.takeWhile isSpace ∨ rest.dropWhile isSpace = []) ↔
      ∃ trailing after, rest = trailing ++ after ∧ (∀ c ∈ trailing, isSpace c) ∧
        AtLineEnd '\n' after := by
  constructor
  · rintro (hmem | hempty)
    · obtain ⟨trailing, after, hsplit⟩ := List.append_of_mem hmem
      refine ⟨trailing, '\n' :: after ++ rest.dropWhile isSpace, ?_, fun c hc => ?_, ?_⟩
      · calc rest = rest.takeWhile isSpace ++ rest.dropWhile isSpace :=
            (List.takeWhile_append_dropWhile ..).symm
          _ = _ := by rw [hsplit, List.append_assoc]
      · exact List.mem_takeWhile_imp (hsplit ▸ List.mem_append_left _ hc)
      · rintro c ⟨⟩
        rfl
    · refine ⟨rest, [], (List.append_nil rest).symm, fun c hc => ?_, nofun⟩
      exact List.dropWhile_eq_nil_iff.mp hempty c hc
  · rintro ⟨trailing, after, rfl, htrailing, hend⟩
    cases after with
    | nil => exact .inr (by simpa using htrailing)
    | cons c after =>
      obtain rfl : c = '\n' := hend c rfl
      refine .inl ?_
      rw [List.takeWhile_append_of_pos htrailing, List.takeWhile_cons_of_pos (by decide)]
      simp

/-- What the function that decides the pattern at one position looks at. -/
theorem matchName_eq_some_iff {text front back : List Char} :
    matchName text = some (front, back) ↔
      ∃ afterKey, text.dropWhile isSpace = "name:".toList ++ afterKey ∧
        afterKey.dropWhile isSpace = templateName ++ back ∧
        ('\n' ∈ back.takeWhile isSpace ∨ back.dropWhile isSpace = []) ∧
        front = text.takeWhile isSpace ++ "name:".toList ++ afterKey.takeWhile isSpace := by
  constructor
  · intro h
    obtain ⟨afterKey, hkey, h⟩ := Option.bind_eq_some_iff.mp h
    obtain ⟨rest, hname, h⟩ := Option.bind_eq_some_iff.mp h
    dsimp only at h
    split at h
    · rename_i hend
      cases h
      exact ⟨afterKey, dropPrefix?_eq_some.mp hkey, dropPrefix?_eq_some.mp hname, hend, rfl⟩
    · cases h
  · rintro ⟨afterKey, hkey, hname, hend, rfl⟩
    refine Option.bind_eq_some_iff.mpr ⟨afterKey, dropPrefix?_eq_some.mpr hkey, ?_⟩
    refine Option.bind_eq_some_iff.mpr ⟨back, dropPrefix?_eq_some.mpr hname, ?_⟩
    exact if_pos hend

/-- It finds what the pattern matches there. -/
theorem matchName_eq_some {text front back : List Char} :
    matchName text = some (front, back) ↔
      ∃ indent gap trailing after, NameParts indent gap trailing after ∧
        text = indent ++ ("name:".toList ++ (gap ++ (templateName ++ (trailing ++ after)))) ∧
        front = indent ++ "name:".toList ++ gap ∧ back = trailing ++ after := by
  rw [matchName_eq_some_iff]
  constructor
  · rintro ⟨afterKey, hkey, hname, hend, rfl⟩
    obtain ⟨trailing, after, rfl, htrailing, hafter⟩ := exists_lineEnd_iff.mp hend
    refine ⟨text.takeWhile isSpace, afterKey.takeWhile isSpace, trailing, after,
      ⟨fun _ => List.mem_takeWhile_imp, fun _ => List.mem_takeWhile_imp, htrailing, hafter⟩, ?_,
      rfl, rfl⟩
    rw [← hname, List.takeWhile_append_dropWhile, ← hkey, List.takeWhile_append_dropWhile]
  · rintro ⟨indent, gap, trailing, after, hparts, rfl, rfl, rfl⟩
    have hkey := span_key (gap ++ (templateName ++ (trailing ++ after))) hparts.indent
    have hname := span_templateName (trailing ++ after) hparts.gap
    refine ⟨_, hkey.2, hname.2, ?_, ?_⟩
    · exact exists_lineEnd_iff.mpr ⟨trailing, after, rfl, hparts.trailing, hparts.lineEnd⟩
    · rw [hkey.1, hname.1]

/-- A match of the pattern: a line start, and its parts. -/
theorem matches_namePattern {before after : List Char} {parts : List (List Char)} :
    Matches '\n' namePattern before parts after ↔ AtLineStart '\n' before ∧
      ∃ indent gap trailing, NameParts indent gap trailing after ∧
        parts = [[], indent, "name:".toList, gap, templateName, trailing, []] := by
  simp only [namePattern, Matches, Atom.Accepts]
  constructor
  · rintro ⟨_, _, rfl, ⟨rfl, hstart⟩, indent, _, rfl, hindent, _, _, rfl, rfl, gap, _, rfl, hgap,
      _, _, rfl, rfl, trailing, _, rfl, htrailing, _, _, rfl, ⟨rfl, hend⟩, rfl⟩
    exact ⟨hstart, indent, gap, trailing, ⟨hindent, hgap, htrailing, hend⟩, rfl⟩
  · rintro ⟨hstart, indent, gap, trailing, hparts, rfl⟩
    exact ⟨_, _, rfl, ⟨rfl, hstart⟩, _, _, rfl, hparts.indent, _, _, rfl, rfl, _, _, rfl,
      hparts.gap, _, _, rfl, rfl, _, _, rfl, hparts.trailing, _, _, rfl, ⟨rfl, hparts.lineEnd⟩, rfl⟩

/-- So it is the function at a line start. -/
theorem exists_matches_iff {before rest front back : List Char} :
    (AtLineStart '\n' before ∧ matchName rest = some (front, back)) ↔
      ∃ parts after, rest = parts.flatten ++ after ∧ Matches '\n' namePattern before parts after ∧
        front = (parts.take 4).flatten ∧ back = (parts.drop 5).flatten ++ after := by
  constructor
  · rintro ⟨hstart, hmatch⟩
    obtain ⟨indent, gap, trailing, after, hparts, rfl, rfl, rfl⟩ := matchName_eq_some.mp hmatch
    refine ⟨_, after, ?_, matches_namePattern.mpr ⟨hstart, indent, gap, trailing, hparts, rfl⟩, ?_⟩
    all_goals simp
  · rintro ⟨parts, after, rfl, hmatches, rfl, rfl⟩
    obtain ⟨hstart, indent, gap, trailing, hparts, rfl⟩ := matches_namePattern.mp hmatches
    refine ⟨hstart, matchName_eq_some.mpr ⟨indent, gap, trailing, after, hparts, ?_⟩⟩
    simp

/-! ## The first match -/

/-- What is in front of the name of the first match, and what is behind it. -/
def locate (lineStart : Bool) : List Char → Option (List Char × List Char)
  | [] => none
  | c :: text => (if lineStart then matchName (c :: text) else none).or
      ((locate (c == '\n') text).map fun found => (c :: found.1, found.2))

/-- The substitution replaces the name there. -/
theorem substitute_eq_map_locate (name : List Char) (lineStart : Bool) (text : List Char) :
    substitute name lineStart text =
      (locate lineStart text).map fun found => found.1 ++ name ++ found.2 := by
  induction text generalizing lineStart with
  | nil => rfl
  | cons c text ih =>
    rw [substitute, locate, ih]
    cases hmatch : if lineStart then matchName (c :: text) else none with
    | some found => rfl
    | none =>
      rw [Option.none_or, Option.map_map, Option.map_map]
      rfl

/-- A line starts behind a text, or at once. -/
def Starts : Bool → List Char → Prop
  | lineStart, [] => lineStart = true
  | _, c :: before => Starts (c == '\n') before

/-- At the beginning of the manifest one does. -/
theorem starts_true_iff {before : List Char} : Starts true before ↔ AtLineStart '\n' before := by
  have hcons : ∀ (before : List Char) (lineStart : Bool) (c : Char),
      Starts lineStart (c :: before) ↔ AtLineStart '\n' (c :: before) := by
    intro before
    induction before with
    | nil => simp [Starts, AtLineStart]
    | cons d before ih =>
      intro lineStart c
      rw [Starts, ih, AtLineStart, AtLineStart, List.getLast?_cons_cons]
  cases before with
  | nil => simp [Starts, AtLineStart]
  | cons c before => exact hcons before true c

/-- The pattern matches behind a text. -/
def FoundAt (lineStart : Bool) (text before : List Char) (found : List Char × List Char) : Prop :=
  ∃ rest, text = before ++ rest ∧ Starts lineStart before ∧ matchName rest = some found

/-- Matches of the rest of a text. -/
theorem foundAt_cons {lineStart : Bool} {c : Char} {text before : List Char}
    {found : List Char × List Char} :
    FoundAt lineStart (c :: text) (c :: before) found ↔ FoundAt (c == '\n') text before found := by
  simp [FoundAt, Starts]

/-- Matches at the beginning of a text. -/
theorem foundAt_nil {lineStart : Bool} {text : List Char} {found : List Char × List Char} :
    FoundAt lineStart text [] found ↔ lineStart = true ∧ matchName text = some found := by
  simp [FoundAt, Starts]

/-- What is located is a match, and none is earlier. -/
theorem foundAt_of_locate {lineStart : Bool} {text front back : List Char}
    (h : locate lineStart text = some (front, back)) :
    ∃ before lead, front = before ++ lead ∧ FoundAt lineStart text before (lead, back) ∧
      ∀ before' found', FoundAt lineStart text before' found' → before.length ≤ before'.length := by
  induction text generalizing lineStart front with
  | nil => cases h
  | cons c text ih =>
    obtain hhere | ⟨hhere, hrest⟩ := Option.or_eq_some_iff.mp h
    · refine ⟨[], front, rfl, foundAt_nil.mpr ?_, fun _ _ _ => Nat.zero_le _⟩
      cases lineStart with
      | true => exact ⟨rfl, hhere⟩
      | false => cases hhere
    · obtain ⟨found, hfound, heq⟩ := Option.map_eq_some_iff.mp hrest
      obtain ⟨rfl, rfl⟩ := Prod.mk.inj heq
      obtain ⟨before, lead, heq, hat, hfirst⟩ := ih hfound
      refine ⟨c :: before, lead, by rw [heq]; rfl, foundAt_cons.mpr hat, ?_⟩
      intro before' found' hat'
      cases before' with
      | nil =>
        obtain ⟨rfl, hmatch⟩ := foundAt_nil.mp hat'
        exact absurd (hhere.symm.trans hmatch) nofun
      | cons d before' =>
        obtain rfl : c = d := by
          obtain ⟨rest, hsplit, -⟩ := hat'
          exact (List.cons.inj hsplit).1
        exact Nat.succ_le_succ (hfirst before' found' (foundAt_cons.mp hat'))

/-- If nothing is located, nothing matches. -/
theorem not_foundAt_of_locate {lineStart : Bool} {text : List Char}
    (h : locate lineStart text = none) (before : List Char) (found : List Char × List Char) :
    ¬FoundAt lineStart text before found := by
  induction text generalizing lineStart before with
  | nil =>
    rintro ⟨rest, hsplit, -, hmatch⟩
    obtain ⟨rfl, rfl⟩ := List.append_eq_nil_iff.mp hsplit.symm
    cases hmatch
  | cons c text ih =>
    obtain ⟨hhere, hrest⟩ := Option.or_eq_none_iff.mp h
    intro hat
    cases before with
    | nil =>
      obtain ⟨rfl, hmatch⟩ := foundAt_nil.mp hat
      exact absurd (hhere.symm.trans hmatch) nofun
    | cons d before =>
      obtain rfl : c = d := by
        obtain ⟨rest, hsplit, -⟩ := hat
        exact (List.cons.inj hsplit).1
      exact ih (Option.map_eq_none_iff.mp hrest) before (foundAt_cons.mp hat)

/-- From the beginning of a text these are the matches of the pattern. -/
theorem foundAt_true_iff {text before lead back : List Char} :
    FoundAt true text before (lead, back) ↔
      ∃ parts after, text = before ++ parts.flatten ++ after ∧
        Matches '\n' namePattern before parts after ∧
        lead = (parts.take 4).flatten ∧ back = (parts.drop 5).flatten ++ after := by
  constructor
  · rintro ⟨rest, rfl, hstart, hmatch⟩
    obtain ⟨parts, after, rfl, h⟩ := exists_matches_iff.mp ⟨starts_true_iff.mp hstart, hmatch⟩
    exact ⟨parts, after, (List.append_assoc ..).symm, h⟩
  · rintro ⟨parts, after, rfl, h⟩
    obtain ⟨hstart, hmatch⟩ := exists_matches_iff.mpr ⟨parts, after, rfl, h⟩
    exact ⟨_, List.append_assoc .., starts_true_iff.mpr hstart, hmatch⟩

/-- What is located is the first match. -/
theorem located_of_locate {text front back : List Char}
    (h : locate true text = some (front, back)) : Located text front back := by
  obtain ⟨before, lead, rfl, hat, hfirst⟩ := foundAt_of_locate h
  obtain ⟨parts, after, hsplit, hmatches, rfl, rfl⟩ := foundAt_true_iff.mp hat
  refine ⟨before, parts, after, ⟨hsplit, hmatches, ?_⟩, rfl, rfl⟩
  intro before' parts' after' hsplit' hmatches'
  exact hfirst before' _ (foundAt_true_iff.mpr ⟨parts', after', hsplit', hmatches', rfl, rfl⟩)

/-- A text has one first match at most. -/
theorem Located.unique {text front back front' back' : List Char} (h : Located text front back)
    (h' : Located text front' back') : front = front' ∧ back = back' := by
  obtain ⟨before, parts, after, hmatch, rfl, rfl⟩ := h
  obtain ⟨before', parts', after', hmatch', rfl, rfl⟩ := h'
  obtain ⟨rfl, hrest⟩ := hmatch.eq_of_firstMatch hmatch'
  have hhere := (exists_matches_iff.mpr ⟨parts, after, rfl, hmatch.here, rfl, rfl⟩).2
  have hhere' := (exists_matches_iff.mpr ⟨parts', after', hrest, hmatch'.here, rfl, rfl⟩).2
  obtain ⟨hfront, hback⟩ := Prod.mk.inj (Option.some.inj (hhere.symm.trans hhere'))
  exact ⟨congrArg (before ++ ·) hfront, hback⟩

/-- A text with a match has a first one, and that is located. -/
theorem locate_isSome_iff {text : List Char} :
    (locate true text).isSome ↔ HasMatch '\n' namePattern text := by
  constructor
  · intro h
    obtain ⟨⟨front, back⟩, hlocate⟩ := Option.isSome_iff_exists.mp h
    obtain ⟨before, parts, after, hmatch, -, -⟩ := located_of_locate hlocate
    exact ⟨before, parts, after, hmatch.split, hmatch.here⟩
  · rintro ⟨before, parts, after, hsplit, hmatches⟩
    by_contra hnone
    exact not_foundAt_of_locate (Option.not_isSome_iff_eq_none.mp hnone) before _
      (foundAt_true_iff.mpr ⟨parts, after, hsplit, hmatches, rfl, rfl⟩)

/-- The name stands between the two. -/
theorem Located.text_eq {text front back : List Char} (h : Located text front back) :
    text = front ++ templateName ++ back := by
  obtain ⟨before, parts, after, hmatch, rfl, rfl⟩ := h
  obtain ⟨-, indent, gap, trailing, -, rfl⟩ := matches_namePattern.mp hmatch.here
  rw [hmatch.split]
  simp

/-! ## The call of kubectl -/

/-- An accepted id gives a name of the fixed text and 1 to 40 safe characters. -/
theorem exists_safeId_of_jobName {executionId name : String} (h : jobName executionId = .ok name) :
    ∃ safeId, name.toList = jobNamePrefix ++ safeId ∧ 1 ≤ safeId.length ∧ safeId.length ≤ 40 ∧
      ∀ c ∈ safeId, isLowerAlnumDash c := by
  unfold jobName at h
  dsimp only at h
  split at h
  · rename_i hmatches
    cases h
    simp only [matchesJobId, Bool.and_eq_true, decide_eq_true_eq, List.all_eq_true] at hmatches
    obtain ⟨⟨⟨hlength, hall⟩, hhead⟩, -⟩ := hmatches
    refine ⟨_, String.toList_ofList, ?_, hlength, hall⟩
    refine List.length_pos_iff.mpr fun hempty => ?_
    rw [hempty] at hhead
    cases hhead
  · cases h

/-- A refused id is a value error. -/
theorem jobName_error {executionId : String} {exc : PyExc} (h : jobName executionId = .error exc) :
    ∃ message, exc = .valueError message := by
  unfold jobName at h
  dsimp only at h
  split at h
  · cases h
  · exact ⟨_, (Except.error.inj h).symm⟩

/-- The manifest exists and holds a text. -/
def Serves (text : String) : (op : Op) → op.Reply → Prop
  | .manifestExists, found => found = true
  | .readManifest, content => content = .ok text
  | _, _ => True

variable {text executionId name : String} {log : List (Exchange Op Op.Reply)}

/-- Rendering reads the manifest and substitutes the name. -/
theorem converses_renderManifest {result : Except PyExc String}
    (hname : jobName executionId = .ok name)
    (h : (renderManifest executionId).Converses log result)
    (hserves : ∀ e ∈ log, Serves text e.op e.reply) :
    log = [⟨.readManifest, .ok text⟩] ∧
      ((substitute name.toList true text.toList = none ∧
          ∃ message, result = .error (.valueError message)) ∨
        ∃ rendered, substitute name.toList true text.toList = some rendered ∧
          result = .ok (String.ofList rendered)) := by
  obtain ⟨content, rest, rfl, hrest⟩ := converses_request_bind.mp h
  obtain rfl : content = .ok text := hserves _ List.mem_cons_self
  obtain ⟨_, herror, -⟩ | ⟨manifest, hmanifest, hrest⟩ := converses_ofExcept_bind.mp hrest
  · cases herror
  obtain rfl : text = manifest := Except.ok.inj hmanifest
  obtain ⟨_, herror, -⟩ | ⟨name', hname', hrest⟩ := converses_ofExcept_bind.mp hrest
  · rw [hname] at herror
    cases herror
  obtain rfl := Except.ok.inj (hname.symm.trans hname')
  split at hrest
  · rename_i rendered hsubstitute
    obtain ⟨rfl, rfl⟩ := converses_ret.mp hrest
    exact ⟨rfl, .inr ⟨rendered, hsubstitute, rfl⟩⟩
  · rename_i hsubstitute
    obtain ⟨rfl, rfl⟩ := converses_raise.mp hrest
    exact ⟨rfl, .inl ⟨hsubstitute, _, rfl⟩⟩

/-- The handlers perform nothing, and pass on a value error. -/
theorem converses_onApplyError {exc : PyExc} {result : Except PyExc Dict}
    (h : (onApplyError exc).Converses log result) :
    log = [] ∧ ∀ message, exc = .valueError message → result = .error exc := by
  unfold onApplyError at h
  split at h
  · obtain ⟨rfl, -⟩ := converses_ret.mp h
    exact ⟨rfl, nofun⟩
  · obtain ⟨rfl, rfl⟩ := converses_raise.mp h
    exact ⟨rfl, fun _ _ => rfl⟩

/-- The operations of the `try` statement are those of its block. -/
theorem converses_block {executor : KubernetesExecutor} {result : Except PyExc Dict}
    (h : (executor.runKubectlApply name executionId).Converses log result) :
    ∃ ended, Converses (do
        let manifest ← renderManifest executionId
        ask (.kubectlApply name manifest)) log ended ∧
      ∀ message, ended = .error (.valueError message) → result = .error (.valueError message) := by
  obtain ⟨_, -, hattempt⟩ | ⟨ended, pre, post, rfl, hattempt, hrest⟩ := converses_bind.mp h
  · obtain ⟨_, heq, -⟩ := converses_attempt.mp hattempt
    cases heq
  · obtain ⟨_, heq, hblock⟩ := converses_attempt.mp hattempt
    obtain rfl := Except.ok.inj heq
    suffices hpost : post = [] ∧ ∀ message, ended = .error (.valueError message) →
        result = .error (.valueError message) by
      obtain ⟨rfl, herror⟩ := hpost
      exact ⟨ended, by rwa [List.append_nil], herror⟩
    split at hrest
    · exact ⟨(converses_raise.mp hrest).1, nofun⟩
    · exact ⟨(converses_ret.mp hrest).1, nofun⟩
    · exact ⟨(converses_onApplyError hrest).1, nofun⟩
    · exact ⟨(converses_ret.mp hrest).1, nofun⟩
    · obtain ⟨rfl, herror⟩ := converses_onApplyError hrest
      refine ⟨rfl, ?_⟩
      rintro message ⟨⟩
      exact herror message rfl

/-- The call of kubectl that a conversation may contain. -/
def Sends (log : List (Exchange Op Op.Reply)) (name sent : String) : Prop :=
  ∃ e ∈ log, e.op = .kubectlApply name sent

/-- The `try` statement sends what the substitution gives, or raises a value error. -/
theorem converses_runKubectlApply {executor : KubernetesExecutor} {result : Except PyExc Dict}
    (hname : jobName executionId = .ok name)
    (h : (executor.runKubectlApply name executionId).Converses log result)
    (hserves : ∀ e ∈ log, Serves text e.op e.reply) :
    (substitute name.toList true text.toList = none ∧ (∀ name' sent, ¬Sends log name' sent) ∧
        ∃ message, result = .error (.valueError message)) ∨
      ∃ rendered, substitute name.toList true text.toList = some rendered ∧
        ∀ name' sent, Sends log name' sent ↔ name' = name ∧ sent = String.ofList rendered := by
  obtain ⟨ended, hblock, herror⟩ := converses_block h
  obtain ⟨exc, rfl, hrender⟩ | ⟨manifest, pre, post, rfl, hrender, hcall⟩ :=
    converses_bind.mp hblock
  · obtain ⟨rfl, ⟨hnone, message, heq⟩ | ⟨_, -, heq⟩⟩ :=
      converses_renderManifest hname hrender hserves
    · obtain rfl := Except.error.inj heq
      refine .inl ⟨hnone, ?_, message, herror message rfl⟩
      simp [Sends]
    · cases heq
  · obtain ⟨rfl, ⟨_, _, heq⟩ | ⟨rendered, hsome, heq⟩⟩ := converses_renderManifest hname hrender
      fun e he => hserves e (List.mem_append_left _ he)
    · cases heq
    · obtain ⟨reply, rfl, -⟩ := converses_request.mp hcall
      obtain rfl := Except.ok.inj heq
      refine .inr ⟨rendered, hsome, fun name' sent => ?_⟩
      simp [Sends, eq_comm]

/-- What `apply_training_job` does, between its marks. -/
theorem converses_applyTrainingJob {executor : KubernetesExecutor} {approved : Bool}
    {executionId : Option String} {result : Except PyExc Dict}
    (h : (executor.applyTrainingJob approved executionId).Converses log result) :
    ∃ body, (executor.applyBody approved executionId).Converses body result ∧
      (∀ e ∈ body, e ∈ log) ∧ ∀ name sent, Sends log name sent ↔ Sends body name sent := by
  obtain ⟨reply, rest, rfl, hrest⟩ := converses_request_bind.mp h
  obtain ⟨_, -, hattempt⟩ | ⟨ended, body, post, rfl, hattempt, hmark⟩ := converses_bind.mp hrest
  · obtain ⟨_, heq, -⟩ := converses_attempt.mp hattempt
    cases heq
  · obtain ⟨_, heq, hbody⟩ := converses_attempt.mp hattempt
    obtain rfl := Except.ok.inj heq
    obtain ⟨reply', post, rfl, hend⟩ := converses_request_bind.mp hmark
    obtain ⟨rfl, rfl⟩ := converses_ofExcept.mp hend
    refine ⟨body, hbody, fun e he => by simp [he], fun name sent => ?_⟩
    simp [Sends]

/-- The id is accepted by `_job_name`. -/
def Accepted (executionId : String) : Prop := ∃ name, jobName executionId = .ok name

/-- Nothing is sent, and a value error is raised. -/
def Refuses (log : List (Exchange Op Op.Reply)) (result : Except PyExc Dict) : Prop :=
  (∀ name sent, ¬Sends log name sent) ∧ ∃ message, result = .error (.valueError message)

/-- What the body does for an approved id: it refuses, or renders and sends. -/
theorem converses_applyBody {executor : KubernetesExecutor} {result : Except PyExc Dict}
    (hnamespace : executor.namespace = "ai-engineering")
    (h : (executor.applyBody true (some executionId)).Converses log result)
    (hserves : ∀ e ∈ log, Serves text e.op e.reply) :
    (¬Accepted executionId ∧ Refuses log result) ∨
      ∃ name, jobName executionId = .ok name ∧
        ((substitute name.toList true text.toList = none ∧ Refuses log result) ∨
          ∃ rendered, substitute name.toList true text.toList = some rendered ∧
            ∀ name' sent, Sends log name' sent ↔ name' = name ∧ sent = String.ofList rendered) := by
  unfold applyBody at h
  rw [if_neg (by decide), if_neg (not_not.mpr hnamespace)] at h
  split at h
  · rename_i hempty
    obtain rfl : executionId = "" := hempty
    obtain ⟨rfl, rfl⟩ := converses_raise.mp h
    refine .inl ⟨?_, by simp [Sends], _, rfl⟩
    rintro ⟨name, hname⟩
    cases hname
  · obtain ⟨found, rest, rfl, hrest⟩ := converses_request_bind.mp h
    obtain rfl : found = true := hserves _ List.mem_cons_self
    rw [if_neg (by decide)] at hrest
    have hsends : ∀ name sent, Sends (⟨.manifestExists, true⟩ :: rest) name sent ↔
        Sends rest name sent := by
      intro name sent
      simp [Sends]
    obtain ⟨exc, herror, rfl, rfl⟩ | ⟨name, hname, hrun⟩ := converses_ofExcept_bind.mp hrest
    · obtain ⟨message, rfl⟩ := jobName_error herror
      refine .inl ⟨?_, by simp [Sends], message, rfl⟩
      rintro ⟨name, hname⟩
      cases herror.symm.trans hname
    · refine .inr ⟨name, hname, ?_⟩
      simp only [Refuses, hsends]
      obtain ⟨hnone, hrefuses⟩ | hsome := converses_runKubectlApply hname hrun
        fun e he => hserves e (List.mem_cons_of_mem _ he)
      · exact .inl ⟨hnone, hrefuses⟩
      · exact .inr hsome

/-- `apply_training_job` calls kubectl exactly if the id is accepted and the pattern matches. What
it sends differs from the manifest in the name of the first match only, and where that stands does
not depend on the id. -/
theorem applyTrainingJob_renders {executor : KubernetesExecutor} {result : Except PyExc Dict}
    (hnamespace : executor.namespace = "ai-engineering")
    (h : (executor.applyTrainingJob true (some executionId)).Converses log result)
    (hserves : ∀ e ∈ log, Serves text e.op e.reply) :
    ((∃ name sent, Sends log name sent) ↔
        Accepted executionId ∧ HasMatch '\n' namePattern text.toList) ∧
      (∀ name sent, Sends log name sent → (∃ front back, Located text.toList front back) ∧
        ∀ front back, Located text.toList front back →
          text.toList = front ++ templateName ++ back ∧
            ∃ safeId, sent.toList = front ++ (jobNamePrefix ++ safeId) ++ back ∧
              1 ≤ safeId.length ∧ safeId.length ≤ 40 ∧ ∀ c ∈ safeId, isLowerAlnumDash c) ∧
      (¬(Accepted executionId ∧ HasMatch '\n' namePattern text.toList) →
        ∃ message, result = .error (.valueError message)) := by
  obtain ⟨body, hbody, hmem, hsends⟩ := converses_applyTrainingJob h
  simp only [hsends, ← locate_isSome_iff]
  obtain ⟨hrefused, hnone, herror⟩ | ⟨name, hname, hrun⟩ := converses_applyBody hnamespace hbody
    fun e he => hserves e (hmem e he)
  · refine ⟨⟨?_, fun haccepted => absurd haccepted.1 hrefused⟩, ?_, fun _ => herror⟩
    · rintro ⟨name, sent, hsent⟩
      exact absurd hsent (hnone name sent)
    · exact fun name sent hsent => absurd hsent (hnone name sent)
  · rw [substitute_eq_map_locate] at hrun
    obtain ⟨hunmatched, hnone, herror⟩ | ⟨rendered, hrendered, hsent⟩ := hrun
    · have hlocate : ¬(locate true text.toList).isSome := by
        simpa using Option.map_eq_none_iff.mp hunmatched
      refine ⟨⟨?_, fun haccepted => absurd haccepted.2 hlocate⟩, ?_, fun _ => herror⟩
      · rintro ⟨name, sent, hsent⟩
        exact absurd hsent (hnone name sent)
      · exact fun name sent hsent => absurd hsent (hnone name sent)
    · obtain ⟨found, hlocate, hrendered⟩ := Option.map_eq_some_iff.mp hrendered
      have hlocated : Located text.toList found.1 found.2 := located_of_locate hlocate
      have hyes : Accepted executionId ∧ (locate true text.toList).isSome :=
        ⟨⟨name, hname⟩, by rw [hlocate]; rfl⟩
      refine ⟨⟨fun _ => hyes, fun _ => ⟨_, _, (hsent _ _).mpr ⟨rfl, rfl⟩⟩⟩, ?_,
        fun hno => absurd hyes hno⟩
      intro name' sent hsends
      obtain ⟨rfl, rfl⟩ := (hsent name' sent).mp hsends
      refine ⟨⟨found.1, found.2, hlocated⟩, fun front back hlocated' => ?_⟩
      obtain ⟨rfl, rfl⟩ := hlocated'.unique hlocated
      obtain ⟨safeId, hsafe, hlower, hupper, hall⟩ := exists_safeId_of_jobName hname
      refine ⟨hlocated.text_eq, safeId, ?_, hlower, hupper, hall⟩
      rw [String.toList_ofList, ← hrendered, hsafe]

/-- A manifest whose name is on its last line. -/
def sampleManifest : String := "kind: Job\nmetadata:\n  name: credit-model-training\n"

/-- Surroundings that serve it. -/
def sampleAnswers (op : Op) : op.Reply := (exec 0 op { manifest := .ok sampleManifest } {}).1

theorem serves_sampleAnswers (op : Op) : Serves sampleManifest op (sampleAnswers op) := by
  cases op <;> first | rfl | trivial

/-- The manifest of the sample is rendered and sent. -/
theorem applyTrainingJob_renders_sample :
    let c := (({} : KubernetesExecutor).applyTrainingJob true (some "abc-123")).converse
      sampleAnswers
    ∃ name sent front safeId back, Sends c.1 name sent ∧
      Located sampleManifest.toList front back ∧
        sampleManifest.toList = front ++ templateName ++ back ∧
          sent.toList = front ++ (jobNamePrefix ++ safeId) ++ back := by
  intro c
  have hserves : ∀ e ∈ c.1, Serves sampleManifest e.op e.reply := fun e he => by
    rw [reply_of_mem_converse he]
    exact serves_sampleAnswers e.op
  obtain ⟨hsends, hrendered, -⟩ :=
    applyTrainingJob_renders rfl (converses_converse sampleAnswers _) hserves
  have hmatch : HasMatch '\n' namePattern sampleManifest.toList :=
    locate_isSome_iff.mp (by decide +kernel)
  obtain ⟨name, sent, hsent⟩ := hsends.mpr ⟨⟨_, rfl⟩, hmatch⟩
  obtain ⟨⟨front, back, hlocated⟩, hsame⟩ := hrendered name sent hsent
  obtain ⟨htext, safeId, hsafe, -⟩ := hsame front back hlocated
  exact ⟨name, sent, front, safeId, back, hsent, hlocated, htext, hsafe⟩

end KubernetesExecutor

end CreditScoringMlops.ControlPlane
