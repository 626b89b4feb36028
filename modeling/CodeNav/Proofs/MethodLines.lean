import CodeNav.Proofs.CallSites
import CodeNav.Proofs.WholeWords

/-!
Lines that declare a method. A line declares a method exactly when it has the form of a declaration
(`Language.methodPattern_iff`): behind the keyword or the modifiers there may be a list of type
parameters, which ends at its first closing bracket, and then a receiver or the type of the result.
-/

namespace CodeNav.Language

open Pattern
open Text (append_cons_eq_append_iff)

def KeywordFree (t : Text) : Prop := ∀ k ∈ statementKeywords, ∀ v, t = k ++ v → v.head?.any isWord

theorem notAhead_keyword_iff {b : Option Char} {t : Text} :
    (∀ u v k, t = u ++ v → ¬(.words statementKeywords ++ .wordEdge : Pattern).ReadsAt b u v k) ↔
      KeywordFree t := by
  have hlast : ∀ k ∈ statementKeywords, ∀ o : Option Char, (k.getLast?.or o).any isWord := by
    intro k hk o
    have hword := getLast?_of_isWordRun (isWordRun_of_keyword (w := k) (by simp [hk]))
    cases hend : k.getLast? with
    | none => simp [hend] at hword
    | some x => simpa [hend] using hword
  constructor
  · intro h k hk v ht
    by_contra hnot
    refine h k v [] ht (readsAt_words_append.mpr ⟨k, [], hk, by simp, ⟨rfl, rfl⟩, ?_⟩)
    simpa [hlast k hk] using hnot
  · rintro h u v k ht hread
    obtain ⟨w, _, hw, rfl, ⟨rfl, -⟩, hedge⟩ := readsAt_words_append.mp hread
    rw [List.append_nil] at ht
    simp [hlast w hw, h w hw v ht] at hedge

/-- Whether a keyword begins a text shows up to the first character that is no part of a word. -/
theorem keywordFree_append_cons {t r : Text} {b : Char} (hword : isWord b = false) :
    KeywordFree (t ++ b :: r) ↔ KeywordFree t := by
  constructor
  · intro h k hk v ht
    have hhead := h k hk (v ++ b :: r) (by simp [ht])
    cases v with
    | nil => simp [hword] at hhead
    | cons x v => exact hhead
  · intro h k hk v ht
    rcases append_cons_eq_append_iff.mp ht with ⟨k', rfl, -⟩ | ⟨v', rfl, rfl⟩
    · have hmem := mem_of_isWordRun (isWordRun_of_keyword (w := t ++ b :: k') (by simp [hk])) b
      simp [hword] at hmem
    · have hhead := h k hk v' rfl
      cases v' with
      | nil => cases hhead
      | cons x v' => exact hhead

def javaArguments : Pattern :=
  .repeated (.group (.many .blank ++ "," ++ .many .blank ++ .several javaTypeChars))

/-- The text is a type and begins with no keyword. -/
inductive IsType : Text → Prop where
  | mk {t arguments : Text} (hne : t ≠ []) (ht : ∀ c ∈ t, javaTypeChars.holds c)
      (harguments : javaArguments.matchesAll arguments) (hfree : KeywordFree (t ++ arguments)) :
      IsType (t ++ arguments)

/-- What can stand behind a character of a type: more characters, and other arguments behind
commas. -/
inductive TypeTail : Text → Prop where
  | nil : TypeTail []
  | char {c : Char} {t : Text} (hc : javaTypeChars.holds c) (ht : TypeTail t) : TypeTail (c :: t)
  | comma {gap gap' t : Text} (hgap : Text.isBlank gap) (hgap' : Text.isBlank gap')
      (ht : TypeTail t) : TypeTail (gap ++ ',' :: (gap' ++ t))

theorem typeTail_append {w t : Text} (hw : ∀ c ∈ w, javaTypeChars.holds c) (ht : TypeTail t) :
    TypeTail (w ++ t) := by
  induction w with
  | nil => exact ht
  | cons c w ih =>
    obtain ⟨hc, hw⟩ := List.forall_mem_cons.mp hw
    exact .char hc (ih hw)

theorem typeTail_of_javaArguments {t : Text} (h : javaArguments.matchesAll t) : TypeTail t := by
  obtain ⟨kept, hread⟩ := matchesAll_iff_readsAt.mp h
  have hrounds : Repeats (group (many .blank ++ "," ++ many .blank ++
    several javaTypeChars)).ReadsAt none t [] kept := hread
  clear hread h
  generalize (none : Option Char) = b, ([] : Text) = rest at hrounds
  induction hrounds with
  | nil => exact .nil
  | cons _ hu _ ih =>
    obtain ⟨_, chars, _, _, ⟨_, gap', _, _, ⟨gap, _, _, _, ⟨hgap, -⟩, ⟨rfl, -⟩, rfl, -⟩, ⟨hgap', -⟩,
      rfl, -⟩, ⟨-, hchars, -⟩, rfl, -⟩ := hu
    have htail : TypeTail (gap ++ ',' :: (gap' ++ (chars ++ _))) :=
      .comma (List.all_eq_true.mpr hgap) (List.all_eq_true.mpr hgap') (typeTail_append hchars ih)
    simpa using htail

theorem IsType.typeTail {t : Text} (h : IsType t) : TypeTail t := by
  obtain ⟨-, ht, harguments, -⟩ := h
  exact typeTail_append ht (typeTail_of_javaArguments harguments)

/-- What stands behind a character of the type can stand there. -/
theorem TypeTail.behind {t : Text} (h : TypeTail t) {c : Char} (hblank : isBlank c = false)
    (hcomma : c ≠ ',') : ∀ {u v : Text}, t = u ++ c :: v → TypeTail v := by
  induction h with
  | nil => simp
  | @char d t _ ht ih =>
    intro u v heq
    cases u with
    | nil =>
      obtain ⟨-, rfl⟩ := List.cons.inj heq
      exact ht
    | cons x u => exact ih (List.cons.inj heq).2
  | @comma gap gap' t hgap hgap' _ ih =>
    intro u v heq
    rcases append_cons_eq_append_iff.mp heq.symm with ⟨w, rfl, -⟩ | ⟨w, rfl, hw⟩
    · exact absurd (by simp) (not_mem_of_isBlank hblank hgap)
    cases w with
    | nil => exact absurd (List.cons.inj hw).1.symm hcomma
    | cons x w =>
      rcases append_cons_eq_append_iff.mp (List.cons.inj hw).2.symm with ⟨w', rfl, -⟩ | ⟨w', -, ht⟩
      · exact absurd (by simp) (not_mem_of_isBlank hblank hgap')
      · exact ih ht

/-- Behind a blank in a type stands a comma. -/
theorem TypeTail.comma_behind {b : Char} {t : Text} (h : TypeTail (b :: t)) (hb : isBlank b) :
    ∃ gap v, Text.isBlank gap ∧ t = gap ++ ',' :: v := by
  generalize ht : b :: t = w at h
  cases h with
  | nil => cases ht
  | char hc _ =>
    obtain ⟨rfl, -⟩ := List.cons.inj ht
    rw [isBlank_of_holds_javaTypeChars hc] at hb
    cases hb
  | @comma gap gap' v hgap _ _ =>
    cases gap with
    | nil =>
      obtain ⟨rfl, -⟩ := List.cons.inj ht
      exact absurd hb (by decide)
    | cons x gap =>
      rw [Text.isBlank, List.all_cons, Bool.and_eq_true] at hgap
      exact ⟨gap, _, hgap.2, (List.cons.inj ht).2⟩

theorem keywordFree_of_isWordRun {t : Text} (ht : isWordRun t) (hnot : t ∉ statementKeywords) :
    KeywordFree t := by
  rintro k hk v rfl
  cases v with
  | nil => exact absurd (by simpa using hk) hnot
  | cons x v => exact mem_of_isWordRun ht x (by simp)

theorem isType_of_isWordRun {t : Text} (ht : isWordRun t) (hnot : t ∉ statementKeywords) :
    IsType t := by
  have hholds : ∀ c ∈ t, javaTypeChars.holds c := fun c hc => by
    simp [javaTypeChars, CharClass.holds, ClassItem.holds, mem_of_isWordRun ht c hc]
  have hnil : javaArguments.matchesAll [] := matchesAll_iff_readsAt.mpr ⟨[], Repeats.nil⟩
  have htype : IsType (t ++ []) :=
    .mk (ne_nil_of_isWordRun ht) hholds hnil (by simpa using keywordFree_of_isWordRun ht hnot)
  simpa using htype

/-- The list of type parameters, if there is one. It ends at the first closing bracket. -/
def typeList (l : Language) : Pattern :=
  .optional (.group ("<" ++ .several (.noneOf [.char '>']) ++ ">" ++
    match l with
    | kotlin => .many .blank
    | java => .several .blank))

/-- What stands before the list of type parameters: the keyword of functions in Kotlin, modifiers in
Java. -/
inductive MethodFront : Language → Text → Prop where
  | kotlin {before gap : Text} (hbefore : '\n' ∉ before)
      (hedge : before.getLast?.any isWord = false) (hgap : IsGap gap) :
      MethodFront kotlin (before ++ "fun" ++ gap)
  | java {before modifiers : Text} (hbefore : Text.isBlank before)
      (hmodifiers : javaModifiers.matchesAll modifiers) : MethodFront java (before ++ modifiers)

/-- What stands between the list of type parameters and the name: the type that a function extends
in Kotlin, the type of the result in Java. -/
inductive MethodLead : Language → Text → Prop where
  | none : MethodLead kotlin []
  | receiver {type : Text} (htype : IsDotted type) : MethodLead kotlin (type ++ ".")
  | result {type gap : Text} (htype : IsType type) (hgap : IsGap gap) :
      MethodLead java (type ++ gap)

inductive MethodForm (l : Language) (name : Text) : Text → Prop where
  | mk {front list lead gap rest : Text} (hfront : MethodFront l front)
      (hlist : l.typeList.matchesAll list) (hlead : MethodLead l lead) (hgap : Text.isBlank gap)
      (hrest : '\n' ∉ rest) :
      MethodForm l name (front ++ list ++ lead ++ name ++ gap ++ "(" ++ rest)

theorem isSilent_typeList (l : Language) : l.typeList.IsSilent := by
  cases l <;> simp [typeList, IsSilent, isSilent_append]

theorem isSilent_javaModifiers : javaModifiers.IsSilent := by
  simp [javaModifiers, IsSilent, isSilent_append]

theorem isSilent_javaArguments : javaArguments.IsSilent := by
  simp [javaArguments, IsSilent, isSilent_append]

def kotlinReceiver : Pattern := .optional (.group (.several (.oneOf [.word, .char '.']) ++ "."))

theorem isSilent_kotlinReceiver : kotlinReceiver.IsSilent := by
  simp [kotlinReceiver, IsSilent, isSilent_append]

theorem matchesAll_receiver_iff {t : Text} : kotlinReceiver.matchesAll t ↔ MethodLead kotlin t := by
  rw [matchesAll_iff_parses (by simp [kotlinReceiver, IsPlain, isPlain_append])]
  constructor
  · rintro ⟨_, ⟨type, _, _, _, htype, ⟨rfl, -⟩, rfl, -⟩ | ⟨rfl, -⟩⟩
    · exact .receiver (parses_dotted_iff.mp htype).1
    · exact .none
  · intro h
    cases h with
    | none => exact ⟨_, parses_optional_nil _⟩
    | receiver htype => exact ⟨_, .inl (htype.parses.append (parses_chars "."))⟩

variable {name line : Text}

theorem kotlin_methodPattern_eq (name : Text) : methodPattern .kotlin name =
    .many .any ++ .wordEdge ++ "fun" ++ .several .blank ++ typeList .kotlin ++
      kotlinReceiver ++ .chars name ++ .many .blank ++ "(" ++ .many .any := rfl

theorem java_methodPattern_eq (name : Text) : methodPattern .java name =
    .many .blank ++ javaModifiers ++ typeList .java ++
      (notJavaKeyword ++ .several javaTypeChars ++ javaArguments) ++
      .several .blank ++ .chars name ++ .many .blank ++ "(" ++ .many .any := rfl

/-- A list without brackets in it is read as a whole. -/
theorem matchesAll_typeList (l : Language) {params : Text} (hne : params ≠ [])
    (hflat : '>' ∉ params) : l.typeList.matchesAll ("<" ++ params ++ ">" ++ " ") := by
  have hholds : ∀ c ∈ params, (CharClass.noneOf [.char '>']).holds c := by
    intro c hc
    have hsign : c ≠ '>' := fun heq => hflat (heq ▸ hc)
    simpa [CharClass.holds, ClassItem.holds] using hsign
  have hparams : (several (.noneOf [.char '>'])).Parses params [] := ⟨hne, hholds, rfl⟩
  have hlist := ((parses_chars "<").append hparams).append (parses_chars ">")
  have hgap : IsGap " " := ⟨by simp, rfl⟩
  have hplain : l.typeList.IsPlain := by cases l <;> simp [typeList, IsPlain, isPlain_append]
  refine (matchesAll_iff_parses hplain).mpr ⟨[], ?_⟩
  cases l with
  | kotlin => exact .inl (hlist.append (parses_of_isBlank hgap.isBlank))
  | java => exact .inl (hlist.append hgap.parses)

/-- The list ends at its first closing bracket. -/
theorem exists_of_typeList {l : Language} {t : Text} (h : l.typeList.matchesAll t) :
    t = [] ∨ ∃ params gap, '>' ∉ params ∧ Text.isBlank gap ∧ t = '<' :: (params ++ '>' :: gap) := by
  have hplain : l.typeList.IsPlain := by cases l <;> simp [typeList, IsPlain, isPlain_append]
  obtain ⟨_, ⟨_, gap, _, _, ⟨_, _, _, _, ⟨_, params, _, _, ⟨rfl, -⟩, ⟨-, hparams, -⟩, rfl, -⟩,
    ⟨rfl, -⟩, rfl, -⟩, hgap, rfl, -⟩ | ⟨rfl, -⟩⟩ := (matchesAll_iff_parses hplain).mp h
  · have hflat : '>' ∉ params := fun hmem => absurd (hparams '>' hmem) (by decide)
    have hblank : Text.isBlank gap := by
      cases l with
      | kotlin => exact (parses_many_blank.mp hgap).1
      | java => exact (parses_several_blank.mp hgap).1.isBlank
    exact .inr ⟨params, gap, hflat, hblank, by simp⟩
  · exact .inl rfl

theorem isGap_iff {t : Text} : IsGap t ↔ t ≠ [] ∧ ∀ c ∈ t, CharClass.blank.holds c :=
  ⟨fun h => ⟨h.ne_nil, List.all_eq_true.mp h.isBlank⟩, fun h => ⟨h.1, List.all_eq_true.mpr h.2⟩⟩

theorem kotlin_methodPattern_iff : (methodPattern .kotlin name).matchesAll line ↔
    MethodForm .kotlin name line := by
  have hfun : isWord 'f' := by decide
  rw [matchesAll_iff_readsAt, kotlin_methodPattern_eq]
  simp only [readsAt_append_assoc, readsAt_many_append, readsAt_wordEdge_append,
    readsAt_chars_append, readsAt_several_append, readsAt_silent_append (isSilent_typeList _),
    readsAt_silent_append isSilent_kotlinReceiver]
  constructor
  · rintro ⟨_, before, _, hbefore, rfl, hedge, _, rfl, gap, _, hgap, rfl, list, _, hlist, rfl, lead,
      _, hlead, rfl, _, rfl, gap', _, hgap', rfl, rest, rfl, hrest, -⟩
    have hapart : before.getLast?.any isWord = false := by simpa [hfun] using hedge
    have hform : MethodForm .kotlin name _ :=
      .mk (.kotlin (holds_any_iff.mp hbefore) hapart (isGap_iff.mpr hgap)) hlist
        (matchesAll_receiver_iff.mp hlead) (List.all_eq_true.mpr hgap') (holds_any_iff.mp hrest)
    simpa using hform
  · rintro @⟨_, list, lead, gap', rest, hfront, hlist, hlead, hgap', hrest⟩
    obtain @⟨before, gap, hbefore, hapart, hgap⟩ := hfront
    refine ⟨[], before, _, holds_any_iff.mpr hbefore, by simp, ?_, _, rfl, gap, _,
      isGap_iff.mp hgap, rfl, list, _, hlist, rfl, lead, _, matchesAll_receiver_iff.mpr hlead, rfl,
      _, rfl, gap', _, List.all_eq_true.mp hgap', rfl, rest, rfl, holds_any_iff.mpr hrest, rfl⟩
    simp [hapart, hfun]

theorem java_methodPattern_iff : (methodPattern .java name).matchesAll line ↔
    MethodForm .java name line := by
  rw [matchesAll_iff_readsAt, java_methodPattern_eq]
  simp only [readsAt_append_assoc, readsAt_many_append, notJavaKeyword, readsAt_notAhead_append,
    readsAt_chars_append, readsAt_several_append, readsAt_silent_append (isSilent_typeList _),
    readsAt_silent_append isSilent_javaModifiers, readsAt_silent_append isSilent_javaArguments,
    notAhead_keyword_iff]
  constructor
  · rintro ⟨_, before, _, hbefore, rfl, modifiers, _, hmodifiers, rfl, list, _, hlist, rfl, hfree,
      type, _, ⟨hne, htype⟩, rfl, arguments, _, harguments, rfl, gap, _, hgap, rfl, _, rfl, gap', _,
      hgap', rfl, rest, rfl, hrest, -⟩
    obtain ⟨b, g, rfl⟩ := List.exists_cons_of_ne_nil hgap.1
    have hfree : KeywordFree (type ++ arguments) :=
      (keywordFree_append_cons (isWord_of_isBlank (hgap.2 b List.mem_cons_self))).mp
        (by simpa using hfree)
    have hform : MethodForm .java name _ :=
      .mk (.java (List.all_eq_true.mpr hbefore) hmodifiers) hlist
        (.result (.mk hne htype harguments hfree) (isGap_iff.mpr hgap)) (List.all_eq_true.mpr hgap')
        (holds_any_iff.mp hrest)
    simpa using hform
  · rintro @⟨_, list, _, gap', rest, hfront, hlist, hlead, hgap', hrest⟩
    cases hfront with
    | @java before modifiers hbefore hmodifiers =>
      cases hlead with
      | @result _ gap htype hgap =>
        obtain @⟨type, arguments, hne, htype, harguments, hfree⟩ := htype
        obtain ⟨b, g, rfl⟩ := List.exists_cons_of_ne_nil hgap.ne_nil
        have hb := isWord_of_isBlank (List.all_eq_true.mp hgap.isBlank b List.mem_cons_self)
        refine ⟨[], before, _, List.all_eq_true.mp hbefore, by simp, modifiers, _, hmodifiers, rfl,
          list, _, hlist, rfl, ?_, type, _, ⟨hne, htype⟩, rfl, arguments, _, harguments, rfl,
          b :: g, _, isGap_iff.mp hgap, rfl, _, rfl, gap', _, List.all_eq_true.mp hgap', rfl, rest,
          rfl, holds_any_iff.mpr hrest, rfl⟩
        have hahead :=
          (keywordFree_append_cons (r := g ++ (name ++ (gap' ++ ("(" ++ rest)))) hb).mpr hfree
        simpa using hahead

/-- A line declares a method exactly when it has the form of a declaration. -/
theorem methodPattern_iff (l : Language) : (l.methodPattern name).matchesAll line ↔
    MethodForm l name line := by
  cases l with
  | kotlin => exact kotlin_methodPattern_iff
  | java => exact java_methodPattern_iff

variable {l : Language} {name t u : Text}

/-- What stands behind a declaration does not matter. -/
theorem MethodForm.append (h : MethodForm l name t) (hu : '\n' ∉ u) :
    MethodForm l name (t ++ u) := by
  obtain @⟨front, list, lead, gap, rest, hfront, hlist, hlead, hgap, hrest⟩ := h
  have hbehind : '\n' ∉ rest ++ u := by simp [hrest, hu]
  have hform : MethodForm l name _ := .mk hfront hlist hlead hgap hbehind
  simpa using hform

/-- In Kotlin what stands before it does not matter either, if no word goes on from there. -/
theorem MethodForm.behind (h : MethodForm kotlin name t) {c : Char} (hu : '\n' ∉ u)
    (hc : isWord c = false) (hfeed : c ≠ '\n') : MethodForm kotlin name (u ++ c :: t) := by
  obtain @⟨_, list, lead, gap, rest, hfront, hlist, hlead, hgap, hrest⟩ := h
  obtain @⟨before, gap', hbefore, hedge, hgap'⟩ := hfront
  have hlast : (u ++ c :: before).getLast?.any isWord = false := by
    rw [List.getLast?_append, List.getLast?_cons]
    cases hend : before.getLast? with
    | none => simpa using hc
    | some x => simpa [hend] using hedge
  have hsingle : '\n' ∉ u ++ c :: before := by simp [hu, hbefore, hfeed.symm]
  have hform : MethodForm kotlin name _ :=
    .mk (.kotlin hsingle hlast hgap') hlist hlead hgap hrest
  simpa using hform

end CodeNav.Language
