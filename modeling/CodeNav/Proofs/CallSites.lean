import CodeNav.Proofs.DeclarationLines
import CodeNav.Proofs.SamePage

/-!
Calls of methods in Java. Behind a keyword or an operator the name of a method that is called stands
as that of a declared one stands behind its type. So the line of a call is taken for a declaration
unless the keyword is one that the pattern refuses, and a click on a call leads to the declaration
exactly when all calls are refused (`Engine.javaCall_iff`).
-/

namespace CodeNav

open CodeNav.Language

/-- The keywords of a statement that a call may stand behind. None of them is a type or a
modifier. -/
def callKeywords : List Text :=
  ["return", "new", "else", "throw", "case", "assert", "do", "yield"]

/-- What a call may stand behind at the front of a line: a keyword of a statement, or an operator of
these signs. -/
inductive CallLead : Text → Prop where
  | keyword {t : Text} (h : t ∈ callKeywords) : CallLead t
  | operator {t : Text} (hne : t ≠ []) (h : ∀ c ∈ t, c = '?' ∨ c = '<' ∨ c = '>') : CallLead t

inductive CallLine (lead name : Text) : Text → Prop where
  | mk {front gap between rest : Text} (hfront : Text.isBlank front) (hgap : IsGap gap)
      (hbetween : Text.isBlank between) (hrest : '\n' ∉ rest) :
      CallLine lead name (front ++ lead ++ gap ++ name ++ between ++ "(" ++ rest)

theorem isWordRun_of_keyword {w : Text}
    (h : w ∈ modifierWords ++ statementKeywords ++ callKeywords) : isWordRun w := by
  revert w
  decide

theorem isBlank_of_holds_javaTypeChars {c : Char} (h : javaTypeChars.holds c) :
    isBlank c = false := by
  simp only [javaTypeChars, CharClass.holds, List.any_cons, List.any_nil, ClassItem.holds,
    Bool.or_false, Bool.or_eq_true, decide_eq_true_eq] at h
  rcases h with h | rfl | rfl | rfl | rfl | rfl | rfl
  · exact isBlank_of_isWord h
  all_goals decide

namespace CallLead

variable {lead : Text}

theorem ne_nil (h : CallLead lead) : lead ≠ [] := by
  cases h with
  | keyword h =>
    rintro rfl
    exact absurd h (by decide)
  | operator hne _ => exact hne

/-- A lead is made of characters that a type may have. -/
theorem holds (h : CallLead lead) : ∀ c ∈ lead, javaTypeChars.holds c := by
  intro c hc
  cases h with
  | keyword h =>
    have hword := mem_of_isWordRun (isWordRun_of_keyword (List.mem_append_right _ h)) c hc
    simp [javaTypeChars, CharClass.holds, ClassItem.holds, hword]
  | operator _ h => rcases h c hc with rfl | rfl | rfl <;> decide

theorem not_isBlank (h : CallLead lead) : ∀ c ∈ lead, isBlank c = false := fun c hc =>
  isBlank_of_holds_javaTypeChars (h.holds c hc)

/-- No word begins an operator. -/
theorem not_isPrefix_operator {w : Text} (h : ∀ c ∈ lead, c = '?' ∨ c = '<' ∨ c = '>')
    (hw : isWordRun w) : ¬w <+: lead := by
  intro hpre
  obtain ⟨c, hc⟩ := List.exists_mem_of_ne_nil w (ne_nil_of_isWordRun hw)
  have hword := mem_of_isWordRun hw c hc
  rcases h c (hpre.subset hc) with rfl | rfl | rfl <;> exact absurd hword (by decide)

theorem not_mem_modifierWords (h : CallLead lead) : lead ∉ modifierWords := by
  cases h with
  | keyword h =>
    revert lead
    decide
  | operator _ h =>
    intro hmem
    have hword : isWordRun lead := isWordRun_of_keyword (by simp [hmem])
    exact not_isPrefix_operator h hword List.prefix_rfl

/-- A lead that is none of the refused keywords does not begin with one either. -/
theorem not_isPrefix (h : CallLead lead) (hnot : lead ∉ statementKeywords) :
    ∀ w ∈ statementKeywords, ¬w <+: lead := by
  cases h with
  | keyword h =>
    have hkeywords : ∀ t ∈ callKeywords, t ∉ statementKeywords →
        ∀ w ∈ statementKeywords, ¬w <+: t := by decide
    exact hkeywords lead h hnot
  | operator _ h => exact fun w hw => not_isPrefix_operator h (isWordRun_of_keyword (by simp [hw]))

end CallLead

/-- A word ends where the first blank stands. -/
theorem eq_of_append_blank {u v r s : Text} {b c : Char} (hu : ∀ x ∈ u, isBlank x = false)
    (hv : ∀ x ∈ v, isBlank x = false) (hb : isBlank b) (hc : isBlank c)
    (h : u ++ b :: r = v ++ c :: s) : u = v :=
  (Text.eq_of_span_cons (p := fun x => !isBlank x) (by simpa using hu) (by simpa using hv)
    (by simp [hb]) (by simp [hc]) h).1

/-- Between the place and the lead stand blanks only, and behind the lead stands one. -/
def BeforeLead (lead rest : Text) : Prop :=
  ∃ front b r, (∀ c ∈ front, isBlank c) ∧ isBlank b ∧ rest = front ++ (lead ++ b :: r)

namespace BeforeLead

variable {lead rest : Text}

/-- A word that stands here with a blank behind it is the lead. -/
theorem eq_lead {t s : Text} {c : Char} (h : BeforeLead lead (t ++ c :: s))
    (hlead : ∀ x ∈ lead, isBlank x = false) (ht : ∀ x ∈ t, isBlank x = false) (hne : t ≠ [])
    (hc : isBlank c) : t = lead := by
  obtain ⟨front, b, r, hfront, hb, heq⟩ := h
  cases front with
  | nil => exact eq_of_append_blank ht hlead hc hb heq
  | cons x front =>
    have hx : isBlank x := hfront x List.mem_cons_self
    exact absurd (eq_of_append_blank ht (v := []) (by simp) hc hx heq) hne

/-- What is shown first is the lead. -/
theorem exists_of_head? {c : Char} (h : BeforeLead lead rest) (hhead : rest.head? = some c)
    (hc : isBlank c = false) : ∃ b r, isBlank b ∧ rest = lead ++ b :: r := by
  obtain ⟨front, b, r, hfront, hb, rfl⟩ := h
  cases front with
  | nil => exact ⟨b, r, hb, rfl⟩
  | cons x front =>
    obtain rfl := Option.some.inj hhead
    exact absurd (hfront x List.mem_cons_self) (by simp [hc])

/-- Passing blanks does not pass the lead. -/
theorem of_append {w : Text} (h : BeforeLead lead (w ++ rest)) (hw : ∀ c ∈ w, isBlank c)
    (hlead : ∀ x ∈ lead, isBlank x = false) (hne : lead ≠ []) : BeforeLead lead rest := by
  obtain ⟨front, b, r, hfront, hb, heq⟩ := h
  rcases List.append_eq_append_iff.mp heq with ⟨front', rfl, rfl⟩ | ⟨u, rfl, hu⟩
  · exact ⟨front', b, r, fun c hc => hfront c (List.mem_append_right _ hc), hb, rfl⟩
  · -- The blanks would go on into the lead.
    cases u with
    | nil => exact ⟨[], b, r, by simp, hb, by simpa using hu.symm⟩
    | cons x u =>
      obtain ⟨d, lead', rfl⟩ := List.exists_cons_of_ne_nil hne
      obtain ⟨rfl, -⟩ := List.cons.inj hu
      have hd := hw d (by simp)
      rw [hlead d List.mem_cons_self] at hd
      cases hd

end BeforeLead

namespace Pattern

variable {lead : Text} {q e : Place}

theorem Passes.beforeLead_of_blanks (h : (many .blank).Passes q e) (hq : BeforeLead lead q.rest)
    (hlead : CallLead lead) : BeforeLead lead e.rest := by
  obtain ⟨w, rest, hw, hr, rfl⟩ := run_iff.mp h
  rw [hr] at hq
  exact hq.of_append hw hlead.not_isBlank hlead.ne_nil

/-- No modifier stands at the lead. -/
theorem Passes.eq_of_javaModifiers (h : javaModifiers.Passes q e) (hq : BeforeLead lead q.rest)
    (hlead : CallLead lead) : e = q := by
  have hrounds : Rounds (group (words modifierWords ++ several .blank)).Passes q e := h
  rcases hrounds.cases_head with h | ⟨m, ⟨⟨n, ⟨t, ht, hchars⟩, hblank⟩, -⟩, -⟩
  · exact h.symm
  · obtain ⟨rest, hr, rfl⟩ := Place.after?_eq_some_iff.mp hchars
    obtain ⟨w, rest', hne, hw, hr', -⟩ := run_one_iff.mp hblank
    obtain ⟨c, w, rfl⟩ := List.exists_cons_of_ne_nil hne
    obtain rfl : rest = c :: (w ++ rest') := hr'
    have hword : isWordRun t := isWordRun_of_keyword (by simp [ht])
    rw [hr] at hq
    obtain rfl := hq.eq_lead hlead.not_isBlank (fun x hx => isBlank_of_isWord
      (mem_of_isWordRun hword x hx)) (ne_nil_of_isWordRun hword) (hw c List.mem_cons_self)
    exact absurd ht hlead.not_mem_modifierWords

/-- No type stands at a keyword that is refused. -/
theorem not_passes_javaType (hq : BeforeLead lead q.rest) (hlead : lead ∈ statementKeywords) :
    ¬javaType.Passes q e := by
  rintro ⟨m, ⟨n, ⟨rfl, hnot⟩, htype⟩, -⟩
  obtain ⟨w, rest, hne, hw, hr, -⟩ := run_one_iff.mp htype
  obtain ⟨c, w, rfl⟩ := List.exists_cons_of_ne_nil hne
  obtain ⟨b, r, hb, hlead'⟩ := hq.exists_of_head? (c := c) (by rw [hr]; rfl)
    (isBlank_of_holds_javaTypeChars (hw c List.mem_cons_self))
  have hlast : ∀ t ∈ statementKeywords, t.getLast?.any isWord := by decide
  have hedge : (n.behind lead (b :: r) []).isWordEdge := by
    have hword : isWord b = false := by
      by_contra hword
      rw [isBlank_of_isWord (by simpa using hword)] at hb
      cases hb
    have hprevious : (lead.getLast?.or n.previous).any isWord := by
      have hany := hlast lead hlead
      cases hend : lead.getLast? with
      | none => rw [hend] at hany; cases hany
      | some x => rw [hend] at hany; exact hany
    simp [Place.isWordEdge, Place.behind, hprevious, hword]
  refine hnot (n.behind lead (b :: r) []) ⟨_, ⟨lead, hlead, ?_⟩, rfl, hedge⟩
  exact Place.after?_eq_some_iff.mpr ⟨b :: r, hlead', rfl⟩

/-- No parameters of types stand at such a keyword either. -/
theorem Passes.eq_of_typeParameters {p₁ p₂ p₃ : Pattern}
    (h : (optional (group ("<" ++ p₁ ++ p₂ ++ p₃))).Passes q e) (hq : BeforeLead lead q.rest)
    (hlead : lead ∈ statementKeywords) : e = q := by
  refine h.resolve_left ?_
  rintro ⟨_, ⟨_, ⟨m, hsign, -⟩, -⟩, -⟩
  obtain ⟨rest, hr, -⟩ := Place.after?_eq_some_iff.mp hsign
  obtain ⟨b, r, -, heq⟩ := hq.exists_of_head? (c := '<') (by rw [hr]; rfl) (by decide)
  have hhead : lead.head? = some '<' := by
    have hne : lead ≠ [] := by
      rintro rfl
      exact absurd hlead (by decide)
    rw [← List.head?_append_of_ne_nil lead hne, ← heq, hr]
    rfl
  have hheads : ∀ t ∈ statementKeywords, t.head? ≠ some '<' := by decide
  exact hheads lead hlead hhead

end Pattern

theorem callLead_of_mem_statementKeywords {lead : Text} (h : lead ∈ statementKeywords) :
    CallLead lead := by
  have hsub : ∀ t ∈ statementKeywords, t ∈ callKeywords := by decide
  exact .keyword (hsub lead h)

section

variable {lead name line : Text}

theorem CallLine.beforeLead (h : CallLine lead name line) : BeforeLead lead line := by
  obtain ⟨hfront, hgap, -, -⟩ := h
  obtain ⟨b, gap, rfl⟩ := List.exists_cons_of_ne_nil hgap.ne_nil
  have hblank := List.all_eq_true.mp hgap.isBlank
  exact ⟨_, b, _, List.all_eq_true.mp hfront, hblank b List.mem_cons_self, by simp; rfl⟩

theorem CallLine.not_isBlank (h : CallLine lead name line) : Text.isBlank line = false := by
  obtain ⟨-, -, -, -⟩ := h
  refine List.all_eq_false.mpr ⟨'(', by simp, by decide⟩

/-- Behind a keyword that is refused nothing is taken for a declared method. -/
theorem not_methodPattern_of_refused (hlead : lead ∈ statementKeywords)
    (h : CallLine lead name line) : ¬(methodPattern .java name).matchesAll line := by
  intro hmatch
  have hcall := callLead_of_mem_statementKeywords hlead
  obtain ⟨e, hpass, -⟩ := Pattern.matchesAll_iff.mp hmatch
  -- Only the front of the pattern, up to the type, counts.
  obtain ⟨_, ⟨_, ⟨_, ⟨_, ⟨_, ⟨q₃, ⟨q₂, ⟨q₁, hblank, hmodifiers⟩, hparameters⟩, htype⟩, -⟩, -⟩, -⟩,
    -⟩, -⟩ := hpass
  have hq₁ : BeforeLead lead q₁.rest := hblank.beforeLead_of_blanks h.beforeLead hcall
  obtain rfl := hmodifiers.eq_of_javaModifiers hq₁ hcall
  obtain rfl := hparameters.eq_of_typeParameters hq₁ hlead
  exact Pattern.not_passes_javaType hq₁ hlead htype

/-- Any other lead is a type to the pattern. -/
theorem CallLead.passes_javaType (hlead : CallLead lead) (hnot : lead ∉ statementKeywords)
    {q : Pattern.Place} {b : Char} {r : Text} (hb : isBlank b) (hr : q.rest = lead ++ b :: r) :
    javaType.Passes q (q.behind lead (b :: r) []) := by
  have hahead : ∀ m, ¬(.words statementKeywords ++ .wordEdge : Pattern).Passes q m := by
    rintro m ⟨n, ⟨w, hw, hword⟩, -⟩
    obtain ⟨rest, hr', -⟩ := Pattern.Place.after?_eq_some_iff.mp hword
    have hpre : w <+: lead ++ b :: r := ⟨rest, by rw [← hr', hr]⟩
    rcases List.prefix_or_prefix_of_prefix hpre (List.prefix_append lead _) with h | ⟨u, rfl⟩
    · exact hlead.not_isPrefix hnot w hw h
    · -- The keyword would have the blank in it.
      cases u with
      | nil => exact hlead.not_isPrefix hnot _ hw (by simp)
      | cons x u =>
        obtain ⟨rfl, -⟩ : x = b ∧ _ :=
          List.cons_prefix_cons.mp ((List.prefix_append_right_inj lead).mp hpre)
        have hword : isWordRun (lead ++ x :: u) := isWordRun_of_keyword (by simp [hw])
        have hx := isBlank_of_isWord (mem_of_isWordRun hword x (by simp))
        rw [hb] at hx
        cases hx
  refine ⟨_, ⟨q, ⟨rfl, hahead⟩, ?_⟩, .refl⟩
  exact Pattern.run_one_iff.mpr ⟨lead, b :: r, hlead.ne_nil, hlead.holds, hr, rfl⟩

/-- So the line of a call behind it is taken for a declaration. -/
theorem methodPattern_of_not_refused (hlead : CallLead lead) (hnot : lead ∉ statementKeywords)
    (h : CallLine lead name line) : (methodPattern .java name).matchesAll line := by
  obtain @⟨front, gap, between, rest, hfront, hgap, hbetween, hrest⟩ := h
  obtain ⟨b, gap, rfl⟩ := List.exists_cons_of_ne_nil hgap.ne_nil
  have hb : isBlank b := List.all_eq_true.mp hgap.isBlank b List.mem_cons_self
  have hany : ∀ c ∈ rest, CharClass.any.holds c := Pattern.holds_any_iff.mpr hrest
  -- The places between the parts of the line, from its start on.
  let call := name ++ (between ++ ("(" ++ rest))
  let start := Pattern.Place.start (front ++ (lead ++ (b :: gap ++ call)))
  let atLead := start.behind front (lead ++ (b :: gap ++ call)) []
  let atGap := atLead.behind lead (b :: gap ++ call) []
  let atName := atGap.behind (b :: gap) call []
  let behindName := atName.behind name (between ++ ("(" ++ rest)) []
  let atSign := behindName.behind between ("(" ++ rest) []
  have hfront : (Pattern.many .blank).Passes start atLead :=
    (parses_of_isBlank hfront).passes rfl trivial
  have htype : javaType.Passes atLead atGap := hlead.passes_javaType hnot hb rfl
  have hgap : (Pattern.several .blank).Passes atGap atName :=
    hgap.parses.passes rfl trivial
  have hname : (Pattern.chars name).Passes atName behindName :=
    (Pattern.parses_chars name).passes rfl trivial
  have hbetween : (Pattern.many .blank).Passes behindName atSign :=
    (parses_of_isBlank hbetween).passes rfl trivial
  have hsign : (Pattern.chars "(").Passes atSign (atSign.behind "(" rest []) :=
    (Pattern.parses_chars "(").passes rfl trivial
  have hrest : (Pattern.many .any).Passes (atSign.behind "(" rest [])
      ((atSign.behind "(" rest []).behind rest [] []) :=
    Pattern.Parses.passes ⟨hany, rfl⟩ (by simp) trivial
  have hline : front ++ lead ++ b :: gap ++ name ++ between ++ "(" ++ rest =
      front ++ (lead ++ (b :: gap ++ call)) := by simp [call]
  rw [hline]
  exact Pattern.matchesAll_iff.mpr ⟨_, ⟨_, ⟨_, ⟨_, ⟨_, ⟨_, ⟨_, ⟨_, ⟨_, hfront, .refl⟩, .inr rfl⟩,
    htype⟩, hgap⟩, hname⟩, hbetween⟩, hsign⟩, hrest⟩, rfl⟩

/-- The line of a call is taken for a declaration exactly when the keyword is not refused. -/
theorem methodPattern_callLine_iff (hlead : CallLead lead) (h : CallLine lead name line) :
    (methodPattern .java name).matchesAll line ↔ lead ∉ statementKeywords :=
  ⟨fun hmatch hmem => not_methodPattern_of_refused hmem h hmatch,
    fun hnot => methodPattern_of_not_refused hlead hnot h⟩

end

/-- Every call on one of the lines stands behind a keyword that is refused. -/
def RefusesCalls (name : Text) (lines : List CodeLine) : Prop :=
  ∀ l ∈ lines, ∀ lead, CallLead lead → CallLine lead name l.text → lead ∈ statementKeywords

namespace Locator

variable {before after : List CodeLine} {l x : CodeLine} {p : Pattern}

theorem all_eq_singleton (hl : lineMatches p l)
    (hothers : ∀ x ∈ before ++ after, ¬lineMatches p x) :
    all (before ++ l :: after) p = [l.number] := by
  have hnone {xs : List CodeLine} (hxs : ∀ x ∈ xs, ¬lineMatches p x) :
      xs.filter (lineMatches p) = [] := List.filter_eq_nil_iff.mpr hxs
  rw [List.forall_mem_append] at hothers
  unfold all
  rw [List.filter_append, List.filter_cons_of_pos hl, hnone hothers.1, hnone hothers.2]
  rfl

theorem two_le_length_all (hl : lineMatches p l) (hx : x ∈ before ++ after)
    (hmatch : lineMatches p x) : 2 ≤ (all (before ++ l :: after) p).length := by
  have hmem : x ∈ (before ++ after).filter (lineMatches p) := List.mem_filter.mpr ⟨hx, hmatch⟩
  have hpos := List.length_pos_of_mem hmem
  rw [List.filter_append, List.length_append] at hpos
  unfold all
  rw [List.length_map, List.filter_append, List.filter_cons_of_pos hl, List.length_append,
    List.length_cons]
  omega

end Locator

namespace Engine

/-- A click in a Java document on the call of a method. One line declares the method, and any other
line that the method's pattern matches begins with a call of it. -/
structure OnCall (e : Engine) (req : Request) (name : Text) (before : List CodeLine)
    (declaration : CodeLine) (after : List CodeLine) : Prop where
  java : e.language = .java
  call : e.classify req = .internalCall name
  lines : e.document.lines = before ++ declaration :: after
  declares : Locator.lineMatches (methodPattern .java name) declaration
  others : ∀ l ∈ before ++ after, Locator.lineMatches (methodPattern .java name) l →
    ∃ lead, CallLead lead ∧ CallLine lead name l.text

structure OnMethod (e : Engine) (req : Request) (name : Text) (before : List CodeLine)
    (declaration : CodeLine) (after : List CodeLine) : Prop where
  call : e.classify req = .internalCall name
  lines : e.document.lines = before ++ declaration :: after
  declares : Locator.lineMatches (e.language.methodPattern name) declaration

variable {e : Engine} {req : Request} {name : Text} {before after : List CodeLine}
  {declaration : CodeLine}

theorem OnMethod.resolve (h : e.OnMethod req name before declaration after) : e.resolve req =
    { e.resolveInternalCall req name with snapshot := some e.document.snapshot } := by
  rw [Engine.resolve, h.call]
  rfl

/-- The only line that is taken for a declaration is the answer. -/
theorem OnMethod.resolve_of_single (h : e.OnMethod req name before declaration after)
    (hothers : ∀ l ∈ before ++ after, ¬Locator.lineMatches (e.language.methodPattern name) l) :
    (e.resolve req).status = .resolved ∧
      (e.resolve req).target = ⟨some (Url.withLine e.document.url declaration.number), false⟩ := by
  rw [h.resolve, resolveInternalCall, h.lines, Locator.all_eq_singleton h.declares hothers]
  exact ⟨rfl, rfl⟩

/-- With a second such line the call is ambiguous. -/
theorem OnMethod.resolve_of_second (h : e.OnMethod req name before declaration after)
    {l : CodeLine} (hl : l ∈ before ++ after)
    (hmatch : Locator.lineMatches (e.language.methodPattern name) l) :
    (e.resolve req).status = .ambiguousDefinition ∧ (e.resolve req).target = .nowhere := by
  have hlength := Locator.two_le_length_all h.declares hl hmatch
  rw [h.resolve, resolveInternalCall, h.lines]
  rcases hall : Locator.all (before ++ declaration :: after) (e.language.methodPattern name) with
    _ | ⟨n, _ | ⟨m, rest⟩⟩
  · simp [hall] at hlength
  · simp [hall] at hlength
  · exact ⟨rfl, rfl⟩

theorem OnCall.onMethod (h : e.OnCall req name before declaration after) :
    e.OnMethod req name before declaration after where
  call := h.call
  lines := h.lines
  declares := by
    rw [h.java]
    exact h.declares

/-- Where all calls are refused, the only line that is left is the declaration. -/
theorem OnCall.resolve_of_refused (h : e.OnCall req name before declaration after)
    (hrefused : RefusesCalls name (before ++ after)) : (e.resolve req).status = .resolved ∧
      (e.resolve req).target = ⟨some (Url.withLine e.document.url declaration.number), false⟩ := by
  refine h.onMethod.resolve_of_single fun l hl hmatch => ?_
  rw [h.java] at hmatch
  obtain ⟨lead, hlead, hline⟩ := h.others l hl hmatch
  exact not_methodPattern_of_refused (hrefused l hl lead hlead hline) hline
    (Locator.lineMatches_iff.mp hmatch).2

/-- One call that is not refused is a second declaration. -/
theorem OnCall.resolve_of_not_refused (h : e.OnCall req name before declaration after)
    (hnot : ¬RefusesCalls name (before ++ after)) :
    (e.resolve req).status = .ambiguousDefinition ∧ (e.resolve req).target = .nowhere := by
  unfold RefusesCalls at hnot
  push Not at hnot
  obtain ⟨l, hl, lead, hlead, hline, hlead'⟩ := hnot
  refine h.onMethod.resolve_of_second hl ?_
  rw [h.java]
  exact Locator.lineMatches_iff.mpr
    ⟨hline.not_isBlank, methodPattern_of_not_refused hlead hlead' hline⟩

/-- The line of a call is taken for a declaration exactly when the keyword is not refused. So a
click on a call finds the declaration when all other calls are refused, and is ambiguous
otherwise. -/
theorem javaCall_iff (name : Text) :
    (∀ {lead line : Text}, CallLead lead → CallLine lead name line →
      ((methodPattern .java name).matchesAll line ↔ lead ∉ statementKeywords)) ∧
    ∀ {e : Engine} {req : Request} {before after : List CodeLine} {declaration : CodeLine},
      e.OnCall req name before declaration after →
        ((e.resolve req).status = .resolved ∧ (e.resolve req).target =
            ⟨some (Url.withLine e.document.url declaration.number), false⟩ ↔
          RefusesCalls name (before ++ after)) ∧
        ((e.resolve req).status = .ambiguousDefinition ↔
          ¬RefusesCalls name (before ++ after)) := by
  refine ⟨methodPattern_callLine_iff, fun {e req before after declaration} h => ?_⟩
  by_cases hrefused : RefusesCalls name (before ++ after)
  · have hresolve := h.resolve_of_refused hrefused
    exact ⟨iff_of_true hresolve hrefused, by simp [hresolve.1, hrefused]⟩
  · have hstatus := (h.resolve_of_not_refused hrefused).1
    exact ⟨by simp [hstatus, hrefused], iff_of_true hstatus hrefused⟩

def callEngine (call : Text) : Engine where
  document := .ofText ("int run(int n)\n" ++ call) "https://github.com/o/r/blob/main/Main.java"
    "now"
  language := .java
  features := []

theorem onCall_callEngine {lead call : Text} (hlead : CallLead lead)
    (hline : CallLine lead "run" call)
    (hcall : (callEngine call).classify req = .internalCall "run")
    (hlines : (callEngine call).document.lines = [⟨1, "int run(int n)"⟩, ⟨2, call⟩]) :
    (callEngine call).OnCall req "run" [] ⟨1, "int run(int n)"⟩ [⟨2, call⟩] where
  java := rfl
  call := hcall
  lines := hlines
  declares := by decide
  others := by
    rintro l hl -
    obtain rfl := List.mem_singleton.mp hl
    exact ⟨lead, hlead, hline⟩

def returnClick : Request :=
  ⟨"run", ⟨["    ", "return", " "], "run", ["(", "n", " ", "-", " ", "1", ")", ";"], none, some 2⟩,
    none⟩

theorem javaCall_iff_return :
    let call := "    return run(n - 1);".toList
    CallLead "return" ∧ CallLine "return" "run" call ∧
      (callEngine call).OnCall returnClick "run" [] ⟨1, "int run(int n)"⟩ [⟨2, call⟩] ∧
      (methodPattern .java "run").matchesAll call = false ∧
      ((callEngine call).resolve returnClick).status = .resolved ∧
      ((callEngine call).resolve returnClick).target =
        ⟨some "https://github.com/o/r/blob/main/Main.java#L1".toList, false⟩ := by
  intro call
  have hlead : CallLead "return" := .keyword (by decide)
  have hline : CallLine "return" "run" call :=
    @CallLine.mk "return" "run" "    " " " "" "n - 1);" rfl ⟨by decide, rfl⟩ rfl (by decide)
  have hcall : (callEngine call).OnCall returnClick "run" _ _ _ :=
    onCall_callEngine hlead hline (by decide +kernel) (by decide +kernel)
  obtain ⟨hmatch, hclick⟩ := javaCall_iff "run"
  have hnot : (methodPattern .java "run").matchesAll call = false := by
    rw [Bool.eq_false_iff]
    exact fun h => (hmatch hlead hline).mp h (by decide)
  have hrefused : RefusesCalls "run" ([] ++ [⟨2, call⟩]) := by
    intro l hl lead' hlead' hline'
    obtain rfl := List.mem_singleton.mp hl
    by_contra hother
    exact Bool.false_ne_true (hnot.symm.trans ((hmatch hlead' hline').mpr hother))
  obtain ⟨hstatus, htarget⟩ := (hclick hcall).1.mpr hrefused
  exact ⟨hlead, hline, hcall, hnot, hstatus, htarget⟩

def assertClick : Request :=
  ⟨"run", ⟨["    ", "assert", " "], "run", ["(", "1", ")", ";"], none, some 2⟩, none⟩

/-- A call in an assertion is taken for a second declaration. -/
theorem javaCall_of_assert :
    let call := "    assert run(1);".toList
    CallLead "assert" ∧ CallLine "assert" "run" call ∧
      (methodPattern .java "run").matchesAll call ∧
      (callEngine call).OnCall assertClick "run" [] ⟨1, "int run(int n)"⟩ [⟨2, call⟩] ∧
      ((callEngine call).resolve assertClick).status = .ambiguousDefinition := by
  intro call
  have hlead : CallLead "assert" := .keyword (by decide)
  have hline : CallLine "assert" "run" call :=
    @CallLine.mk "assert" "run" "    " " " "" "1);" rfl ⟨by decide, rfl⟩ rfl (by decide)
  have hcall : (callEngine call).OnCall assertClick "run" _ _ _ :=
    onCall_callEngine hlead hline (by decide +kernel) (by decide +kernel)
  exact ⟨hlead, hline, by decide +kernel, hcall, by decide +kernel⟩

end Engine

end CodeNav
