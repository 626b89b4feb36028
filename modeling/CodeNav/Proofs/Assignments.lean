import CodeNav.Proofs.DeclarationLines
import CodeNav.Proofs.WholeWords

/-!
Lines that assign a variable. A line is taken for an assignment exactly when it has the form of one
(`Locator.assignmentPattern_iff`): the name, which is no member, perhaps a type, and an equal sign
that is not doubled. So a line with nothing but comparisons is taken for one only where the sign of
the comparison could be the end of a type (`Locator.assignment_line_iff`).
-/

namespace CodeNav.Locator

open Pattern

def annotationChars : CharClass :=
  .oneOf [.word, .char '.', .char '<', .char '>', .char '?', .char ',', .char ' ']

inductive Annotation : Text → Prop where
  | absent : Annotation []
  | given {gap type : Text} (hgap : Text.isBlank gap) (hne : type ≠ [])
      (htype : ∀ c ∈ type, annotationChars.holds c) : Annotation (":" ++ gap ++ type)

/-- The name begins behind this text: neither a word goes on there nor the name of a member. -/
structure IsLead (front : Text) : Prop where
  single : '\n' ∉ front
  apart : front.getLast?.any isWord = false
  no_dot : front.getLast? ≠ some '.'

/-- What stands behind an equal sign that is not doubled, up to the end of the line. -/
structure IsValue (t : Text) : Prop where
  single : '\n' ∉ t
  no_sign : t.head? ≠ some '='

/-- The line assigns a value to the name. -/
inductive AssignmentForm (name : Text) : Text → Prop where
  | mk {front gap typed gap' value : Text} (hfront : IsLead front) (hgap : Text.isBlank gap)
      (htype : Annotation typed) (hgap' : Text.isBlank gap') (hvalue : IsValue value) :
      AssignmentForm name (front ++ name ++ gap ++ typed ++ gap' ++ "=" ++ value)

def annotationPattern : Pattern :=
  .optional (.group (":" ++ .many .blank ++ .fewest annotationChars))

theorem readsAt_annotation_iff {b : Option Char} {w rest : Text} {kept : List (Text × Text)} :
    annotationPattern.ReadsAt b w rest kept ↔ Annotation w ∧ kept = [] := by
  rw [readsAt_iff_parses (by simp [annotationPattern, IsPlain, isPlain_append])]
  constructor
  · rintro (⟨_, type, _, _, ⟨_, gap, _, _, ⟨rfl, rfl⟩, ⟨hgap, rfl⟩, rfl, rfl⟩,
      ⟨hne, htype, rfl⟩, rfl, rfl⟩ | ⟨rfl, rfl⟩)
    · exact ⟨.given (List.all_eq_true.mpr hgap) hne htype, rfl⟩
    · exact ⟨.absent, rfl⟩
  · rintro ⟨htyped, rfl⟩
    cases htyped with
    | absent => exact .inr ⟨rfl, rfl⟩
    | @given gap type hgap hne htype =>
      have hlast : (fewest annotationChars).Parses type [] := ⟨hne, htype, rfl⟩
      exact .inl (((parses_chars ":").append (parses_of_isBlank hgap)).append hlast)

theorem any_nameChars_eq_false_iff {o : Option Char} :
    o.any (CharClass.oneOf [.word, .char '.']).holds = false ↔
      o.any isWord = false ∧ o ≠ some '.' := by
  cases o <;> simp [CharClass.holds, ClassItem.holds]

theorem not_prefix_sign_iff {c : Char} {b : Option Char} {t : Text} :
    (∀ u v k, t = u ++ v → ¬(chars [c]).ReadsAt b u v k) ↔ t.head? ≠ some c := by
  constructor
  · intro h hhead
    obtain ⟨rest, rfl⟩ := List.head?_eq_some_iff.mp hhead
    exact h [c] rest [] rfl ⟨rfl, rfl⟩
  · rintro h _ v _ rfl ⟨rfl, rfl⟩
    exact h rfl

variable {name line : Text}

theorem assignmentPattern_eq (name : Text) : assignmentPattern name =
    .many .any ++ .notAfter (.oneOf [.word, .char '.']) ++ .chars name ++ .many .blank ++
      annotationPattern ++ .many .blank ++ "=" ++ .notAhead "=" ++ .many .any := rfl

/-- A line is taken for an assignment exactly when it has the form of one. -/
theorem assignmentPattern_iff : (assignmentPattern name).matchesAll line ↔
    AssignmentForm name line := by
  rw [matchesAll_iff_readsAt, assignmentPattern_eq]
  simp only [readsAt_append_assoc, readsAt_many_append, readsAt_notAfter_append,
    readsAt_chars_append, readsAt_part_append readsAt_annotation_iff, readsAt_notAhead_append]
  constructor
  · rintro ⟨_, front, _, hfront, rfl, hapart, _, rfl, gap, _, hgap, rfl, typed, _, htype, rfl,
      gap', _, hgap', rfl, value, rfl, hsingle, hvalue, -⟩
    obtain ⟨hword, hdot⟩ := any_nameChars_eq_false_iff.mp hapart
    rw [Option.or_none] at hword hdot
    rw [List.append_nil] at hsingle
    have hform : AssignmentForm name _ := .mk ⟨holds_any_iff.mp hfront, hword, hdot⟩
      (List.all_eq_true.mpr hgap) htype (List.all_eq_true.mpr hgap')
      ⟨holds_any_iff.mp hvalue, not_prefix_sign_iff.mp hsingle⟩
    simpa using hform
  · rintro @⟨front, gap, typed, gap', value, hfront, hgap, htype, hgap', hvalue⟩
    refine ⟨[], front, _, holds_any_iff.mpr hfront.single, by simp, ?_, _, rfl, gap, _,
      List.all_eq_true.mp hgap, rfl, typed, _, htype, rfl, gap', _,
      List.all_eq_true.mp hgap', rfl, value, rfl, ?_, holds_any_iff.mpr hvalue.single, rfl⟩
    · rw [Option.or_none]
      exact any_nameChars_eq_false_iff.mpr ⟨hfront.apart, hfront.no_dot⟩
    · rw [List.append_nil]
      exact not_prefix_sign_iff.mpr hvalue.no_sign

/-- The name that a value is assigned to is a word of its own and no member. -/
theorem AssignmentForm.exists_standsAlone (h : AssignmentForm name line) :
    ∃ before after, Text.StandsAlone name line before after ∧ before.getLast? ≠ some '.' := by
  obtain @⟨front, gap, typed, gap', value, hfront, hgap, htype, hgap', -⟩ := h
  refine ⟨front, gap ++ (typed ++ (gap' ++ ("=" ++ value))), ⟨by simp, hfront.apart, ?_⟩,
    hfront.no_dot⟩
  refine head?_append_of_isBlank hgap ?_
  cases htype with
  | absent => exact head?_append_of_isBlank (w := gap') hgap' (show isWord '=' = false by decide)
  | given => exact show isWord ':' = false by decide

/-- Whether an equal sign right behind the character is part of `==`, `!=`, `<=` or `>=`. -/
def leadsComparison (c : Char) : Bool := c = '=' || c = '!' || c = '<' || c = '>'

/-- Every equal sign of the text is part of a comparison. -/
def OnlyCompares (t : Text) : Prop := ∀ before after, t = before ++ '=' :: after →
  after.head? = some '=' ∨ before.getLast?.any leadsComparison

/-- Behind the name and a colon the line compares, and what stands before the sign of the comparison
could be a type that ends with a part of the sign. -/
inductive ComparisonForm (name : Text) : Text → Prop where
  | mk {front gap gap' type value : Text} {c : Char} (hfront : IsLead front)
      (hgap : Text.isBlank gap) (hgap' : Text.isBlank gap')
      (htype : ∀ x ∈ type, annotationChars.holds x) (hc : c = '<' ∨ c = '>')
      (hvalue : IsValue value) :
      ComparisonForm name (front ++ name ++ gap ++ ":" ++ gap' ++ type ++ [c] ++ "=" ++ value)

theorem ComparisonForm.not_isBlank (h : ComparisonForm name line) :
    Text.isBlank line = false := by
  obtain ⟨-, -, -, -, -, -⟩ := h
  exact List.all_eq_false.mpr ⟨':', by simp, by decide⟩

theorem ComparisonForm.assignmentForm (h : ComparisonForm name line) :
    AssignmentForm name line := by
  obtain @⟨front, gap, gap', type, value, c, hfront, hgap, hgap', htype, hc, hvalue⟩ := h
  have hlast : annotationChars.holds c := by rcases hc with rfl | rfl <;> decide
  have hchars : ∀ x ∈ type ++ [c], annotationChars.holds x := by
    simpa [or_imp, forall_and] using ⟨htype, hlast⟩
  have htyped : Annotation (":" ++ gap' ++ (type ++ [c])) := .given hgap' (by simp) hchars
  have hnone : Text.isBlank [] := rfl
  have hform : AssignmentForm name _ := .mk hfront hgap htyped hnone hvalue
  simpa using hform

theorem leadsComparison_iff {c : Char} :
    leadsComparison c ↔ c = '=' ∨ c = '!' ∨ c = '<' ∨ c = '>' := by
  simp [leadsComparison, or_assoc]

/-- No comparison is led by a word or by a blank. -/
theorem getLast?_of_leadsComparison {u w : Text} (hw : ∀ c ∈ w, isWord c ∨ isBlank c)
    (h : (u ++ w).getLast?.any leadsComparison) : w = [] ∧ u.getLast?.any leadsComparison := by
  cases w using List.reverseRecOn with
  | nil => exact ⟨rfl, by simpa using h⟩
  | append_singleton w c =>
    have hlead : leadsComparison c := by simpa [← List.append_assoc] using h
    have hnone : ∀ x ∈ ['=', '!', '<', '>'], isWord x = false ∧ isBlank x = false := by
      rw [← List.forall_iff_forall_mem]
      decide
    obtain ⟨hword, hblank⟩ := hnone c (by simpa using leadsComparison_iff.mp hlead)
    have hshown := hw c (by simp)
    simp [hword, hblank] at hshown

/-- Where a line with nothing but comparisons has the form of an assignment, the sign of one of them
ends a type. -/
theorem AssignmentForm.comparisonForm (h : AssignmentForm name line) (hname : isWordRun name)
    (hcompares : OnlyCompares line) : ComparisonForm name line := by
  obtain @⟨front, gap, typed, gap', value, hfront, hgap, htype, hgap', hvalue⟩ := h
  have blank {w : Text} (hw : Text.isBlank w) : ∀ c ∈ w, isWord c ∨ isBlank c :=
    fun c hc => .inr (List.all_eq_true.mp hw c hc)
  rcases hcompares (front ++ name ++ gap ++ typed ++ gap') value (by simp) with hsign | hlead
  · exact absurd hsign hvalue.no_sign
  obtain ⟨rfl, hbefore⟩ := getLast?_of_leadsComparison (blank hgap') hlead
  cases htype with
  | absent =>
    rw [List.append_nil] at hbefore
    obtain ⟨rfl, hbehind⟩ := getLast?_of_leadsComparison (blank hgap) hbefore
    obtain ⟨rfl, -⟩ := getLast?_of_leadsComparison
      (fun c hc => .inl (mem_of_isWordRun hname c hc)) hbehind
    cases hname
  | @given gap' type hgap' hne htype =>
    cases type using List.reverseRecOn with
    | nil => exact absurd rfl hne
    | append_singleton type c =>
      have hc : leadsComparison c := by
        rw [← List.append_assoc, ← List.append_assoc, List.getLast?_concat] at hbefore
        exact hbefore
      have hend : c = '<' ∨ c = '>' := by
        have hholds : annotationChars.holds c := htype c (by simp)
        rcases leadsComparison_iff.mp hc with rfl | rfl | h
        · exact absurd hholds (by decide)
        · exact absurd hholds (by decide)
        · exact h
      have hholds : ∀ x ∈ type, annotationChars.holds x := fun x hx =>
        htype x (List.mem_append_left _ hx)
      have hform : ComparisonForm name _ := .mk hfront hgap hgap' hholds hend hvalue
      simpa using hform

/-- A line that assigns the name shows it as a word that is no member. A line with nothing but
comparisons is taken for an assignment exactly when the sign of one of them could end a type behind
the name; so it is the line found for the name exactly when it is the first line taken for one and
has this form. -/
theorem assignment_line_iff (hname : isWordRun name) (lines : List CodeLine) :
    (∀ n, first? lines (assignmentPattern name) = some n →
      ∃ l, lines.find? (lineMatches (assignmentPattern name)) = some l ∧ l.number = n ∧
        ∃ before after, Text.StandsAlone name l.text before after ∧ before.getLast? ≠ some '.') ∧
    (∀ l, OnlyCompares l.text →
      (lineMatches (assignmentPattern name) l ↔ ComparisonForm name l.text)) ∧
    ∀ l, OnlyCompares l.text →
      (lines.find? (lineMatches (assignmentPattern name)) = some l ↔
        ComparisonForm name l.text ∧ ∃ before after, lines = before ++ l :: after ∧
          ∀ x ∈ before, ¬lineMatches (assignmentPattern name) x) := by
  have hline (l : CodeLine) (hcompares : OnlyCompares l.text) :
      lineMatches (assignmentPattern name) l ↔ ComparisonForm name l.text := by
    rw [lineMatches_iff, assignmentPattern_iff]
    exact ⟨fun h => h.2.comparisonForm hname hcompares, fun h => ⟨h.not_isBlank, h.assignmentForm⟩⟩
  refine ⟨fun n hn => ?_, hline, fun l hcompares => ?_⟩
  · obtain ⟨l, hl, rfl⟩ := Option.map_eq_some_iff.mp hn
    have hform := assignmentPattern_iff.mp (lineMatches_iff.mp (List.find?_some hl)).2
    exact ⟨l, hl, rfl, hform.exists_standsAlone⟩
  · rw [List.find?_eq_some_iff_append, hline l hcompares]
    simp

theorem onlyCompares_of_single {u v : Text} (hu : '=' ∉ u) (hv : '=' ∉ v)
    (hlead : u.getLast?.any leadsComparison) : OnlyCompares (u ++ '=' :: v) := by
  intro before after heq
  obtain ⟨rfl, -, rfl⟩ := (List.append_cons_inj_of_notMem hu hv).mp heq
  exact .inr hlead

def limitLines : List CodeLine :=
  [⟨1, "if (limit <= 3) stop()"⟩, ⟨2, "page.limit = 3"⟩, ⟨3, "limit = page.limit"⟩]

theorem assignment_line_iff_limit :
    isWordRun "limit" ∧ OnlyCompares "if (limit <= 3) stop()" ∧
      ¬ComparisonForm "limit" "if (limit <= 3) stop()" ∧
      ∃ l, limitLines.find? (lineMatches (assignmentPattern "limit")) = some l ∧ l.number = 3 ∧
        ∃ before after, Text.StandsAlone "limit" l.text before after ∧
          before.getLast? ≠ some '.' := by
  have hname : isWordRun "limit" := by decide +kernel
  have hcompares : OnlyCompares "if (limit <= 3) stop()" :=
    onlyCompares_of_single (u := "if (limit <") (v := " 3) stop()") (by decide) (by decide) rfl
  obtain ⟨hfound, hline, -⟩ := assignment_line_iff hname limitLines
  refine ⟨hname, hcompares, fun h => ?_, hfound 3 (by decide +kernel)⟩
  have hmatch := (hline ⟨1, "if (limit <= 3) stop()"⟩ hcompares).mpr h
  revert hmatch
  decide +kernel

/-- The comparison behind the colon is taken for the assignment. -/
theorem assignment_line_behind_colon :
    OnlyCompares "return strict ? limit : count <= 3;" ∧
      first? [⟨1, "return strict ? limit : count <= 3;"⟩, ⟨2, "limit = 4;"⟩]
        (assignmentPattern "limit") = some 1 := by
  refine ⟨?_, by decide +kernel⟩
  exact onlyCompares_of_single (u := "return strict ? limit : count <") (v := " 3;") (by decide)
    (by decide) rfl

end CodeNav.Locator
