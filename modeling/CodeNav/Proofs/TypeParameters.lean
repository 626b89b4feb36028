import CodeNav.Proofs.MethodLines

/-!
Methods with type parameters. A line declares a method exactly when it has the form of a declaration
(`Language.methodPattern_iff`), in which the list of type parameters ends at its first closing
bracket. So a list with a bracket in it, such as that of a bounded parameter, hides its method
(`Engine.overload_iff`).
-/

namespace CodeNav

open Pattern CodeNav.Language
open Text (append_cons_eq_append_iff eq_of_span)

/-- Every bracket that opens is closed behind, and every bracket that closes was opened before. -/
inductive IsBalanced : Text → Prop where
  | nil : IsBalanced []
  | plain {c : Char} {t : Text} (hopen : c ≠ '<') (hclose : c ≠ '>') (ht : IsBalanced t) :
      IsBalanced (c :: t)
  | nested {t u : Text} (ht : IsBalanced t) (hu : IsBalanced u) :
      IsBalanced ('<' :: (t ++ '>' :: u))

theorem isBalanced_append {w t : Text} (hw : ∀ c ∈ w, c ≠ '<' ∧ c ≠ '>') (ht : IsBalanced t) :
    IsBalanced (w ++ t) := by
  induction w with
  | nil => exact ht
  | cons c w ih =>
    obtain ⟨hc, hw⟩ := List.forall_mem_cons.mp hw
    exact .plain hc.1 hc.2 (ih hw)

/-- Behind every bracket that opens stands one that closes. -/
theorem IsBalanced.mem_close {t : Text} (h : IsBalanced t) : ∀ {u v : Text}, t = u ++ '<' :: v →
    '>' ∈ v := by
  induction h with
  | nil => simp
  | plain hopen _ _ ih =>
    intro u v heq
    cases u with
    | nil => exact absurd (List.cons.inj heq).1 hopen
    | cons x u => exact ih (List.cons.inj heq).2
  | @nested t w _ _ iht ihw =>
    intro u v heq
    cases u with
    | nil => simp [← (List.cons.inj heq).2]
    | cons x u =>
      rcases append_cons_eq_append_iff.mp (List.cons.inj heq).2 with ⟨u', rfl, hw⟩ | ⟨v', rfl, hv⟩
      · exact ihw hw
      · cases v' with
        | nil => cases hv
        | cons y v' =>
          obtain ⟨rfl, rfl⟩ := List.cons.inj hv
          simp

structure IsParameters (t : Text) : Prop where
  ne_nil : t ≠ []
  single : '\n' ∉ t
  isBalanced : IsBalanced t

def spaced (words : List Text) : Text := words.flatMap (· ++ " ")

/-- What a declaration begins with: words and the keyword of functions in Kotlin, modifiers in
Java. -/
inductive GenericHead : Language → Text → Prop where
  | kotlin {indent : Text} {words : List Text} (hindent : Text.isBlank indent)
      (hsingle : '\n' ∉ indent) (hwords : ∀ w ∈ words, isWordRun w) :
      GenericHead .kotlin (indent ++ spaced words ++ "fun ")
  | java {indent : Text} {words : List Text} (hindent : Text.isBlank indent)
      (hsingle : '\n' ∉ indent) (hwords : ∀ w ∈ words, w ∈ modifierWords) :
      GenericHead .java (indent ++ spaced words)

/-- What stands between the list of type parameters and the name: a space, and in Java a word for
the type of the result. -/
inductive GenericResult : Language → Text → Prop where
  | kotlin : GenericResult .kotlin " "
  | java {type : Text} (htype : isWordRun type) (hnot : type ∉ statementKeywords) :
      GenericResult .java (" " ++ type ++ " ")

structure GenericMethod (l : Language) (name : Text) where
  head : Text
  params : Text
  result : Text
  rest : Text
  isWordRun_name : isWordRun name
  genericHead : GenericHead l head
  isParameters : IsParameters params
  genericResult : GenericResult l result
  single_rest : '\n' ∉ rest

theorem mem_spaced {words : List Text} {c : Char} (h : c ∈ spaced words) :
    c = ' ' ∨ ∃ w ∈ words, c ∈ w := by
  obtain ⟨w, hw, hc⟩ := List.mem_flatMap.mp h
  rcases List.mem_append.mp hc with hc | hc
  · exact .inr ⟨w, hw, hc⟩
  · exact .inl (List.mem_singleton.mp hc)

/-- A character that is neither blank nor part of a word stands nowhere between spaced words. -/
theorem not_mem_spaced {words : List Text} {c : Char} (hwords : ∀ w ∈ words, isWordRun w)
    (hword : isWord c = false) (hspace : c ≠ ' ') : c ∉ spaced words := by
  intro h
  rcases mem_spaced h with hc | ⟨w, hw, hc⟩
  · exact hspace hc
  · simp [mem_of_isWordRun (hwords w hw) c hc] at hword

theorem getLast?_append_spaced {t : Text} (ht : t.getLast?.any isWord = false)
    (words : List Text) : (t ++ spaced words).getLast?.any isWord = false := by
  cases words using List.reverseRecOn with
  | nil => simpa [spaced] using ht
  | append_singleton words w =>
    have hspace : isWord ' ' = false := by decide
    simp [spaced, ← List.append_assoc, hspace]

theorem matchesAll_javaModifiers {words : List Text} (hwords : ∀ w ∈ words, w ∈ modifierWords) :
    javaModifiers.matchesAll (spaced words) := by
  have hread (b : Option Char) : Repeats (group (Pattern.words modifierWords ++
      several .blank)).ReadsAt b (spaced words) [] [] := by
    induction words generalizing b with
    | nil => exact .nil
    | cons w words ih =>
      obtain ⟨hw, hwords⟩ := List.forall_mem_cons.mp hwords
      have hspace : (several .blank).ReadsAt (w.getLast?.or b) " " (spaced words ++ []) [] :=
        ⟨by simp, List.all_eq_true.mp rfl, rfl⟩
      exact .cons (u := w ++ " ") (by simp) ⟨w, " ", [], [], ⟨hw, rfl⟩, hspace, rfl, rfl⟩
        (ih hwords _)
  exact matchesAll_iff_readsAt.mpr ⟨[], hread none⟩

namespace GenericHead

variable {l : Language} {head : Text}

theorem methodFront (h : GenericHead l head) : MethodFront l head := by
  cases h with
  | @kotlin indent words hindent hsingle hwords =>
    have hfeed : '\n' ∉ spaced words := not_mem_spaced hwords (by decide) (by decide)
    have hlast : (indent ++ spaced words).getLast?.any isWord = false :=
      getLast?_append_spaced (by simpa using getLast?_append_of_isBlank (t := []) hindent rfl) words
    have hfront : MethodFront .kotlin (indent ++ spaced words ++ "fun" ++ " ") :=
      .kotlin (by simp [hsingle, hfeed]) hlast ⟨by simp, rfl⟩
    rwa [List.append_assoc (indent ++ spaced words)] at hfront
  | java hindent _ hwords => exact .java hindent (matchesAll_javaModifiers hwords)

/-- What such a line begins with is made of words and spaces behind the indentation. -/
theorem not_mem (h : GenericHead l head) {c : Char} (hc : isWord c = false) (hspace : c ≠ ' ')
    (hindent : ∀ indent, Text.isBlank indent → '\n' ∉ indent → c ∉ indent) : c ∉ head := by
  cases h with
  | kotlin hblank hsingle hwords =>
    have hfun : c ∉ "fun ".toList := by
      have hkeyword : isWordRun "fun" := by decide
      have hrun := not_mem_of_not_isWord hc hkeyword
      simpa [hspace] using hrun
    simp only [List.mem_append, not_or]
    exact ⟨⟨hindent _ hblank hsingle, not_mem_spaced hwords hc hspace⟩, hfun⟩
  | @java indent words hblank hsingle hwords =>
    have hruns : ∀ w ∈ words, isWordRun w := fun w hw =>
      isWordRun_of_keyword (by simp [hwords w hw])
    simp only [List.mem_append, not_or]
    exact ⟨hindent _ hblank hsingle, not_mem_spaced hruns hc hspace⟩

theorem single (h : GenericHead l head) : '\n' ∉ head :=
  h.not_mem (by decide) (by decide) fun _ _ hsingle => hsingle

/-- No bracket stands before the list. -/
theorem not_mem_open (h : GenericHead l head) : '<' ∉ head :=
  h.not_mem (by decide) (by decide) fun _ hblank _ => not_mem_of_isBlank (by decide) hblank

end GenericHead

namespace GenericResult

variable {l : Language} {result : Text}

theorem exists_methodLead (h : GenericResult l result) :
    ∃ lead, result = ' ' :: lead ∧ MethodLead l lead := by
  cases h with
  | kotlin => exact ⟨[], rfl, .none⟩
  | java htype hnot =>
    have hgap : IsGap " " := ⟨by simp, rfl⟩
    exact ⟨_, rfl, .result (isType_of_isWordRun htype hnot) hgap⟩

theorem eq_of_kotlin (h : GenericResult .kotlin result) : result = " " := by
  cases h
  rfl

theorem exists_of_java (h : GenericResult .java result) :
    ∃ type, isWordRun type ∧ result = " " ++ type ++ " " := by
  cases h with
  | java htype => exact ⟨_, htype, rfl⟩

theorem single (h : GenericResult l result) : '\n' ∉ result := by
  have hfeed : isWord '\n' = false := by decide
  cases h with
  | kotlin => decide
  | java htype => simp [not_mem_of_not_isWord hfeed htype]

end GenericResult

namespace GenericMethod

variable {l : Language} {name : Text}

def opened (m : GenericMethod l name) : Text := m.head ++ "<" ++ m.params

def closed (m : GenericMethod l name) : Text := m.result ++ name ++ "(" ++ m.rest

def line (m : GenericMethod l name) : Text := m.opened ++ ">" ++ m.closed

/-- The method is declared to a reader that takes the first closing bracket for the end of the list:
there is no other one in it, or one of the texts around it declares the method as well. -/
def IsSeen (m : GenericMethod l name) : Prop :=
  '>' ∉ m.params ∨ (l.methodPattern name).matchesAll m.opened ∨
    l = .kotlin ∧ (l.methodPattern name).matchesAll m.rest

variable {m : GenericMethod l name}

theorem single_closed (m : GenericMethod l name) : '\n' ∉ m.closed := by
  have hfeed : isWord '\n' = false := by decide
  simp [closed, not_mem_of_not_isWord hfeed m.isWordRun_name, m.genericResult.single,
    m.single_rest]

theorem methodForm_of_flat (h : '>' ∉ m.params) : MethodForm l name m.line := by
  obtain ⟨lead, hresult, hlead⟩ := m.genericResult.exists_methodLead
  have hnone : Text.isBlank [] := rfl
  have hform : MethodForm l name _ := .mk m.genericHead.methodFront
    (matchesAll_typeList l m.isParameters.ne_nil h) hlead hnone m.single_rest
  simpa [line, opened, closed, hresult] using hform

/-- A declaration that is read before the list is closed is one of the line. -/
theorem methodForm_of_opened (h : MethodForm l name m.opened) : MethodForm l name m.line := by
  have hfeed : '\n' ∉ ">" ++ m.closed := by simp [m.single_closed]
  rw [line, List.append_assoc]
  exact h.append hfeed

/-- In Kotlin so is one in the rest of the line. -/
theorem methodForm_of_rest {m : GenericMethod .kotlin name} (h : MethodForm .kotlin name m.rest) :
    MethodForm .kotlin name m.line := by
  have hsign : isWord '(' = false := by decide
  have hname : '\n' ∉ name := not_mem_of_not_isWord (by decide) m.isWordRun_name
  have hfeed : '\n' ∉ m.opened ++ ">" ++ m.result ++ name := by
    simp [opened, m.genericHead.single, m.isParameters.single, m.genericResult.single, hname]
  have hform := h.behind hfeed hsign (by decide)
  simpa [line, closed] using hform

/-- No list of type parameters ends at the last bracket of a list with brackets in it. -/
theorem not_close_in_list (hparams : '>' ∈ m.params) {front list u v : Text}
    (hlist : l.typeList.matchesAll list) (hopened : m.opened = front ++ u)
    (hclose : list = u ++ '>' :: v) : False := by
  rcases exists_of_typeList hlist with rfl | ⟨params, gap, hflat, hgap, rfl⟩
  · simp at hclose
  have hsign : '>' ∉ '<' :: params := by simp [hflat]
  have hblank : '>' ∉ gap := not_mem_of_isBlank (by decide) hgap
  obtain ⟨rfl, -⟩ := (List.append_cons_inj_of_notMem hsign hblank).mp hclose
  have hbrackets : front ++ '<' :: params = m.head ++ '<' :: m.params := by
    rw [← hopened]
    simp [opened]
  -- The list that is read begins with the bracket of the list or inside of it.
  rcases append_cons_eq_append_iff.mp hbrackets with ⟨w, hhead, -⟩ | ⟨w, -, hw⟩
  · exact m.genericHead.not_mem_open (hhead ▸ by simp)
  · cases w with
    | nil => exact hflat ((List.cons.inj hw).2 ▸ hparams)
    | cons x w => exact hflat (m.isParameters.isBalanced.mem_close (List.cons.inj hw).2)

/-- Behind a bracket in a type no other type follows as that of the result. -/
theorem not_result_behind {tail gap gap' rest type y : Text} (htail : TypeTail tail)
    (hgap : IsGap gap) (hname : isWordRun name) (hgap' : Text.isBlank gap')
    (htype : isWordRun type) :
    tail ++ (gap ++ (name ++ (gap' ++ '(' :: rest))) ≠ ' ' :: (type ++ ' ' :: (name ++ y)) := by
  have hsign : isWord '(' = false := by decide
  have hspace : isWord ' ' = false := by decide
  intro heq
  cases tail with
  | cons c tail =>
    obtain ⟨rfl, hbehind⟩ := List.cons.inj heq
    obtain ⟨g, v, hg, rfl⟩ := htail.comma_behind (by decide)
    exact append_ne_of_isWordRun hg (by decide) htype
      ((List.append_assoc g (',' :: v) _).symm.trans hbehind)
  | nil =>
    obtain ⟨b, g, rfl⟩ := List.exists_cons_of_ne_nil hgap.ne_nil
    have heq := (List.cons.inj heq).2
    cases g with
    | cons c g =>
      have hc : isBlank c := List.all_eq_true.mp hgap.isBlank c (by simp)
      exact append_ne_of_isWordRun (g := []) rfl (isWord_of_isBlank hc) htype heq
    | nil =>
      obtain ⟨rfl, hrest⟩ :=
        eq_of_span (s := ' ' :: (name ++ y)) (mem_of_isWordRun hname) (mem_of_isWordRun htype)
          (head?_append_of_isBlank (r := '(' :: rest) hgap' hsign) hspace heq
      cases gap' with
      | nil => exact absurd (List.cons.inj hrest).1 (by decide)
      | cons c g =>
        rw [Text.isBlank, List.all_cons, Bool.and_eq_true] at hgap'
        exact append_ne_of_isWordRun hgap'.2 hsign hname (List.cons.inj hrest).2

theorem not_mem_javaModifiers {t : Text} (h : javaModifiers.matchesAll t) : '>' ∉ t := by
  intro hmem
  rcases reads_of_matchesAll h '>' hmem with ⟨w, hw, hc⟩ | hblank
  · revert w
    decide
  · exact absurd hblank (show ¬isBlank '>' by decide)

theorem not_close_in_front {u v : Text} (h : MethodFront .java (u ++ '>' :: v)) : False := by
  generalize hfront : u ++ '>' :: v = front at h
  have hmem : '>' ∈ u ++ '>' :: v := by simp
  rw [hfront] at hmem
  cases h with
  | java hbefore hmodifiers =>
    rcases List.mem_append.mp hmem with hmem | hmem
    · exact not_mem_of_isBlank (by decide) hbefore hmem
    · exact not_mem_javaModifiers hmodifiers hmem

/-- The keyword of functions does not stand in the space and the name behind the list. -/
theorem not_keyword_behind {v gap x rest : Text} (hname : isWordRun name) (hgap : IsGap gap)
    (h : v ++ ("fun" ++ (gap ++ x)) = (' ' :: name) ++ '(' :: rest) :
    ∃ v', v = (' ' :: name) ++ '(' :: v' ∧ rest = v' ++ ("fun" ++ (gap ++ x)) := by
  rcases append_cons_eq_append_iff.mp h.symm with hsign | ⟨w, hv, hw⟩
  · exact hsign
  exfalso
  obtain ⟨c, gap, rfl⟩ := List.exists_cons_of_ne_nil hgap.ne_nil
  have hc : isBlank c := List.all_eq_true.mp hgap.isBlank c List.mem_cons_self
  rcases append_cons_eq_append_iff.mp hw with ⟨w', rfl, -⟩ | ⟨w', hkeyword, hsign⟩
  · -- The blank behind the keyword would be part of the name.
    cases v with
    | nil => exact absurd (List.cons.inj hv).1 (by decide)
    | cons y v =>
      have hmem : c ∈ name := (List.cons.inj hv).2 ▸ by simp
      rw [isBlank_of_isWord (mem_of_isWordRun hname c hmem)] at hc
      cases hc
  · cases w' with
    | nil =>
      obtain rfl := (List.cons.inj hsign).1
      exact absurd hc (by decide)
    | cons y w' =>
      obtain rfl := (List.cons.inj hsign).1
      have hmem : '(' ∈ "fun".toList := hkeyword ▸ by simp
      exact absurd hmem (by decide)

/-- A declaration that begins behind the closing bracket stands in the rest of the line. -/
theorem methodForm_rest_of_front {m : GenericMethod .kotlin name} {list lead gap rest u : Text}
    (hfront : MethodFront .kotlin (m.opened ++ '>' :: u))
    (hlist : (typeList .kotlin).matchesAll list) (hlead : MethodLead .kotlin lead)
    (hgap : Text.isBlank gap) (hrest : '\n' ∉ rest)
    (hclosed : m.closed = u ++ (list ++ (lead ++ (name ++ (gap ++ '(' :: rest))))) :
    MethodForm .kotlin name m.rest := by
  generalize hbracket : m.opened ++ '>' :: u = front at hfront
  obtain @⟨before, b, hbefore, hedge, hb⟩ := hfront
  rw [List.append_assoc] at hbracket
  rcases append_cons_eq_append_iff.mp hbracket with ⟨v, rfl, rfl⟩ | ⟨v, -, hkeyword⟩
  · have hparts : v ++ ("fun" ++ (b ++ (list ++ (lead ++ (name ++ (gap ++ '(' :: rest)))))) =
        (' ' :: name) ++ '(' :: m.rest := by
      simpa [closed, m.genericResult.eq_of_kotlin] using hclosed.symm
    obtain ⟨v', rfl, hbehind⟩ := not_keyword_behind m.isWordRun_name hb hparts
    have hlast : v'.getLast?.any isWord = false := by
      cases hend : v'.getLast? with
      | none => rfl
      | some x => simpa [List.getLast?_append, List.getLast?_cons, hend] using hedge
    have hsingle : '\n' ∉ v' := fun hmem => hbefore (by simp [hmem])
    have hform : MethodForm .kotlin name _ :=
      .mk (.kotlin hsingle hlast hb) hlist hlead hgap hrest
    rw [hbehind]
    simpa using hform
  · have hmem : '>' ∈ "fun" ++ b := hkeyword ▸ by simp
    rcases List.mem_append.mp hmem with hmem | hmem
    · exact absurd hmem (by decide)
    · exact absurd hmem (not_mem_of_isBlank (by decide) hb.isBlank)

/-- No type before the name goes on behind the closing bracket. -/
theorem not_close_in_lead {lead gap rest u v : Text} (hlead : MethodLead l lead)
    (hgap : Text.isBlank gap) (hclose : lead = u ++ '>' :: v)
    (hclosed : m.closed = v ++ (name ++ (gap ++ '(' :: rest))) : False := by
  have hsign : isWord '>' = false := by decide
  cases hlead with
  | none => simp at hclose
  | receiver htype =>
    have hmem : '>' ∈ u ++ '>' :: v := by simp
    rw [← hclose] at hmem
    rcases List.mem_append.mp hmem with hmem | hmem
    · rcases htype.mem _ hmem with hword | hdot
      · simp [hsign] at hword
      · exact absurd hdot (by decide)
    · exact absurd hmem (by decide)
  | @result type gap' htype hgap' =>
    rcases append_cons_eq_append_iff.mp hclose.symm with ⟨tail, rfl, rfl⟩ | ⟨w, -, hw⟩
    · have htail := htype.typeTail.behind (by decide) (by decide) rfl
      obtain ⟨result, hresult, heq⟩ := m.genericResult.exists_of_java
      have hbehind : tail ++ (gap' ++ (name ++ (gap ++ '(' :: rest))) =
          ' ' :: (result ++ ' ' :: (name ++ '(' :: m.rest)) := by
        simpa [closed, heq] using hclosed.symm
      exact not_result_behind htail hgap' m.isWordRun_name hgap hresult hbehind
    · have hmem : '>' ∈ gap' := hw ▸ by simp
      exact not_mem_of_isBlank (by decide) hgap'.isBlank hmem

theorem isSeen_of_methodForm (h : MethodForm l name m.line) : m.IsSeen := by
  by_cases hparams : '>' ∈ m.params
  case neg => exact .inl hparams
  generalize hline : m.line = line at h
  obtain @⟨front, list, lead, gap, rest, hfront, hlist, hlead, hgap, hrest⟩ := h
  have hparts : m.opened ++ '>' :: m.closed =
      (front ++ (list ++ (lead ++ (name ++ gap ++ "(")))) ++ rest := by
    simpa [GenericMethod.line] using hline
  rcases append_cons_eq_append_iff.mp hparts with ⟨u, hclose, hclosed⟩ | ⟨u, hopened, -⟩
  · -- The closing bracket of the list is part of what is read.
    rcases append_cons_eq_append_iff.mp hclose.symm with ⟨v, rfl, rfl⟩ | ⟨v, hopened, hbehind⟩
    · cases l with
      | kotlin =>
        have hform := methodForm_rest_of_front hfront hlist hlead hgap hrest
          (by simpa using hclosed)
        exact .inr (.inr ⟨rfl, (methodPattern_iff .kotlin).mpr hform⟩)
      | java => exact (not_close_in_front hfront).elim
    rcases append_cons_eq_append_iff.mp hbehind.symm with ⟨w, rfl, rfl⟩ | ⟨w, -, hleading⟩
    · exact (not_close_in_list hparams hlist hopened rfl).elim
    rcases append_cons_eq_append_iff.mp hleading.symm with ⟨x, rfl, rfl⟩ | ⟨x, -, hnaming⟩
    · exact (not_close_in_lead hlead hgap rfl (by simpa using hclosed)).elim
    · have hmem : '>' ∈ name ++ gap ++ "(" := hnaming ▸ by simp
      have hname : '>' ∉ name := not_mem_of_not_isWord (by decide) m.isWordRun_name
      have hblank : '>' ∉ gap := not_mem_of_isBlank (by decide) hgap
      simp [hname, hblank] at hmem
  · -- The declaration is read before the list is closed.
    have hu : '\n' ∉ u := by
      have hfeed : '\n' ∉ m.opened := by simp [opened, m.genericHead.single, m.isParameters.single]
      rw [hopened] at hfeed
      exact fun hmem => hfeed (List.mem_append_right _ hmem)
    have hform : MethodForm l name _ := .mk hfront hlist hlead hgap hu
    refine .inr (.inl ((methodPattern_iff l).mpr ?_))
    rw [hopened]
    simpa using hform

/-- The line is taken for a declaration exactly when the method is seen. -/
theorem matchesAll_line_iff (m : GenericMethod l name) :
    (l.methodPattern name).matchesAll m.line ↔ m.IsSeen := by
  rw [methodPattern_iff]
  refine ⟨isSeen_of_methodForm, ?_⟩
  rintro (hflat | hopened | ⟨rfl, hrest⟩)
  · exact methodForm_of_flat hflat
  · exact methodForm_of_opened ((methodPattern_iff l).mp hopened)
  · exact methodForm_of_rest ((methodPattern_iff .kotlin).mp hrest)

theorem not_isBlank_line (m : GenericMethod l name) : Text.isBlank m.line = false :=
  List.all_eq_false.mpr ⟨'<', by simp [line, opened], by decide⟩

end GenericMethod

namespace Engine

/-- A line that declares the method with a list of type parameters is taken for a declaration
exactly when the method is seen: then there is no closing bracket in the list, or another
declaration on the line. So next to the line that declares a method, an overload makes a call
ambiguous exactly when it is seen or when one more line is taken for a declaration; else the click
leads to the line that declares the method. -/
theorem overload_iff {l : Language} {name : Text} (m : GenericMethod l name) :
    ((l.methodPattern name).matchesAll m.line ↔ m.IsSeen) ∧
    ∀ {e : Engine} {req : Request} {before after : List CodeLine} {declaration overload : CodeLine},
      e.language = l → e.OnMethod req name before declaration after → overload ∈ before ++ after →
      overload.text = m.line →
        let another := ∃ x ∈ before ++ after, x ≠ overload ∧
          Locator.lineMatches (l.methodPattern name) x
        ((e.resolve req).status = .ambiguousDefinition ∧ (e.resolve req).target = .nowhere ↔
          m.IsSeen ∨ another) ∧
        ((e.resolve req).status = .resolved ∧ (e.resolve req).target =
            ⟨some (Url.withLine e.document.url declaration.number), false⟩ ↔
          ¬m.IsSeen ∧ ¬another) := by
  refine ⟨m.matchesAll_line_iff, ?_⟩
  rintro e req before after declaration overload rfl h hmem htext another
  have hoverload : Locator.lineMatches (e.language.methodPattern name) overload ↔ m.IsSeen := by
    rw [Locator.lineMatches_iff, htext, m.matchesAll_line_iff]
    simp [m.not_isBlank_line]
  by_cases hsecond : m.IsSeen ∨ another
  · have hambiguous : (e.resolve req).status = .ambiguousDefinition ∧
        (e.resolve req).target = .nowhere := by
      rcases hsecond with hseen | ⟨x, hx, -, hmatch⟩
      · exact h.resolve_of_second hmem (hoverload.mpr hseen)
      · exact h.resolve_of_second hx hmatch
    refine ⟨iff_of_true hambiguous hsecond, ?_⟩
    simp [hambiguous.1, ← not_or, hsecond]
  · have hresolved := h.resolve_of_single fun x hx hmatch => hsecond <| by
      by_cases hsame : x = overload
      · exact .inl (hoverload.mp (hsame ▸ hmatch))
      · exact .inr ⟨x, hx, hsame, hmatch⟩
    refine ⟨?_, iff_of_true hresolved (not_or.mp hsecond)⟩
    simp [hresolved.1, hsecond]

def bestEngine (params : Text) : Engine where
  document := .ofText ("fun <" ++ params ++
    "> best(a: T, b: T): T = a\n\nfun best(a: Int): Int = a\n\nval top = best(3)")
    "https://github.com/o/r/blob/main/Main.kt" "now"
  language := .kotlin
  features := []

def bestMethod (params : Text) (h : IsParameters params) : GenericMethod .kotlin "best" where
  head := "fun "
  params := params
  result := " "
  rest := "a: T, b: T): T = a"
  isWordRun_name := by decide
  genericHead := @GenericHead.kotlin "" [] rfl (by decide) (by simp)
  isParameters := h
  genericResult := .kotlin
  single_rest := by decide

def onBest : Request :=
  ⟨"best", ⟨["val", " ", "top", " ", "=", " "], "best", ["(", "3", ")"], none, some 5⟩, none⟩

theorem overload_iff_best :
    (methodPattern .kotlin "best").matchesAll "fun <T> best(a: T, b: T): T = a" ∧
      ((bestEngine "T").resolve onBest).status = .ambiguousDefinition ∧
      ((bestEngine "T").resolve onBest).target = .nowhere := by
  have hparams : IsParameters "T" := ⟨by simp, by decide, .plain (by decide) (by decide) .nil⟩
  obtain ⟨hline, hclick⟩ := overload_iff (bestMethod "T" hparams)
  have hflat : '>' ∉ "T".toList := by decide
  have hseen : (bestMethod "T" hparams).IsSeen := .inl hflat
  have hmethod : (bestEngine "T").OnMethod onBest "best"
      [⟨1, "fun <T> best(a: T, b: T): T = a"⟩, ⟨2, ""⟩] ⟨3, "fun best(a: Int): Int = a"⟩
      [⟨4, ""⟩, ⟨5, "val top = best(3)"⟩] :=
    ⟨by decide +kernel, by decide +kernel, by decide +kernel⟩
  have hambiguous := (hclick rfl hmethod List.mem_cons_self rfl).1.mpr (.inl hseen)
  exact ⟨hline.mpr hseen, hambiguous⟩

/-- The brackets of a bounded parameter hide the overload, in either language. -/
theorem overload_of_bounded_parameter :
    IsParameters "T : Comparable<T>" ∧
      (methodPattern .kotlin "best").matchesAll
        "fun <T : Comparable<T>> best(a: T, b: T): T = a" = false ∧
      (methodPattern .java "best").matchesAll
        "static <T extends Comparable<T>> T best(T a, T b)" = false ∧
      ((bestEngine "T : Comparable<T>").resolve onBest).status = .resolved ∧
      ((bestEngine "T : Comparable<T>").resolve onBest).target =
        ⟨some "https://github.com/o/r/blob/main/Main.kt#L3".toList, false⟩ := by
  have hword : ∀ c ∈ "T : Comparable".toList, c ≠ '<' ∧ c ≠ '>' := by
    rw [← List.forall_iff_forall_mem]
    decide
  have hbound : IsBalanced ("T : Comparable" ++ '<' :: ("T" ++ '>' :: [])) :=
    isBalanced_append hword (.nested (.plain (by decide) (by decide) .nil) .nil)
  exact ⟨⟨by simp, by decide, hbound⟩, by decide +kernel, by decide +kernel, by decide +kernel,
    by decide +kernel⟩

end Engine

end CodeNav
