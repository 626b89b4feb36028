import CodeNav.Proofs.Coherence
import CodeNav.Proofs.LineSearch
import CodeNav.Proofs.SamePage

/-!
What binds a variable, read from a page and from one line of it. The patterns of a language are
tried on the whole text in order, so a line alone tells another type when the match that counts
stands elsewhere. When that match lies on the line, the line alone tells the same type
(`Binding.declaredType?_line`), and so does the line that a click on the variable leads to
(`Engine.resolve_variable_same_type`).
-/

namespace CodeNav

theorem shown_of_isWordRun {name : Text} (h : isWordRun name) :
    name.head?.any (!isBlank ·) := by
  cases name with
  | nil => cases h
  | cons c r =>
    have hword := mem_of_isWordRun h c List.mem_cons_self
    simp [isBlank_of_isWord hword]

theorem Language.bareName_of_isWordRun {name : Text} (h : isWordRun name) : bareName name = name :=
  bareName_eq_self (mem_of_isWordRun h)

namespace Pattern

@[simp] theorem isLocal_append (p r : Pattern) : (p ++ r).IsLocal ↔ p.IsLocal ∧ r.IsLocal := Iff.rfl

@[simp] theorem isTest_append (p r : Pattern) : (p ++ r).isTest = (p.isTest && r.isTest) := rfl

@[simp] theorem startsShown_append (p r : Pattern) :
    (p ++ r).StartsShown ↔ p.StartsShown ∨ p.isTest ∧ r.StartsShown := Iff.rfl

end Pattern

namespace Language

/-- What ends a line is no part of a dotted name. -/
theorem holds_nameChars_of_isLineEnd {c : Char} (h : isLineEnd c) :
    (CharClass.oneOf [.word, .char '.']).holds c = false := by
  have hdot : c ≠ '.' := by
    rintro rfl
    cases h
  simp [CharClass.holds, ClassItem.holds, isWord_of_isLineEnd h, hdot]

theorem isLocal_dottedName : dottedName.IsLocal := trivial

theorem startsShown_dottedName : dottedName.StartsShown := by
  intro c hc
  by_cases hdot : c = '.'
  · rw [hdot]
    decide
  · have hword : isWord c := by simpa [CharClass.holds, ClassItem.holds, hdot] using hc
    exact isBlank_of_isWord hword

theorem isLocal_notJavaKeyword : notJavaKeyword.IsLocal := by
  refine ⟨⟨trivial, trivial⟩, ?_⟩
  rintro c hend (⟨t, ht, hc⟩ | hedge)
  · have hwords : (["return", "new", "else", "throw", "case"] : List Text).all (·.all isWord) := by
      decide
    have hword := List.all_eq_true.mp (List.all_eq_true.mp hwords t ht) c hc
    rw [isWord_of_isLineEnd hend] at hword
    cases hword
  · exact hedge

/-- The patterns of a binding but the last of them look no further than the characters they pass. -/
theorem isLocal_of_mem_dropLast (l : Language) (name : Text) :
    ∀ p ∈ (l.bindingPatterns name).dropLast, p.IsLocal := by
  intro p hp
  cases l with
  | kotlin =>
    rcases List.mem_cons.mp hp with rfl | hp
    · simp [Pattern.IsLocal, isLocal_dottedName]
    · rw [List.mem_singleton.mp hp]
      simp [Pattern.IsLocal, isLocal_dottedName]
  | java =>
    rw [List.mem_singleton.mp hp]
    simp [Pattern.IsLocal, isLocal_dottedName]

theorem frontShown_kotlin {name : Text} (hname : isWordRun name) :
    ∀ p ∈ kotlin.bindingPatterns name, p.FrontShown := by
  have hkeyword : isBlank 'v' = false := by decide
  intro p hp
  simp only [bindingPatterns, List.mem_cons, List.not_mem_nil, or_false] at hp
  rcases hp with rfl | rfl | rfl
  · apply Pattern.FrontShown.shown
    · simp [Pattern.IsLocal, isLocal_dottedName]
    · simp [Pattern.StartsShown, Pattern.isTest, hkeyword]
  · apply Pattern.FrontShown.shown
    · simp [Pattern.IsLocal, isLocal_dottedName]
    · simp [Pattern.StartsShown, Pattern.isTest, hkeyword]
  · -- A bare assignment stands at the front of its line.
    apply Pattern.FrontShown.indented
      (.chars name ++ .many .blank ++ "=" ++ .many .blank ++ dottedName)
    · simp [Pattern.IsLocal, isLocal_dottedName]
    · simp [Pattern.StartsShown, shown_of_isWordRun hname]
    · exact fun k q => rfl

theorem frontShown_java {name : Text} (hname : isWordRun name) :
    ∀ p ∈ java.bindingPatterns name, p.FrontShown := by
  intro p hp
  simp only [bindingPatterns, List.mem_cons, List.not_mem_nil, or_false] at hp
  rcases hp with rfl | rfl
  · apply Pattern.FrontShown.shown
    · simp [Pattern.IsLocal, isLocal_dottedName]
    · simp [Pattern.StartsShown, Pattern.isTest, shown_of_isWordRun hname]
  · apply Pattern.FrontShown.shown
    · simp only [Pattern.isLocal_append, Pattern.IsLocal, isLocal_dottedName,
        isLocal_notJavaKeyword, and_true]
      exact fun c hc => holds_nameChars_of_isLineEnd hc
    · simp [Pattern.StartsShown, Pattern.isTest, notJavaKeyword, startsShown_dottedName]

theorem frontShown_of_mem (l : Language) {name : Text} (hname : isWordRun name) :
    ∀ p ∈ l.bindingPatterns name, p.FrontShown :=
  match l with
  | kotlin => frontShown_kotlin hname
  | java => frontShown_java hname

end Language

namespace Binding

def match? (l : Language) (name text : Text) : Option Pattern.Place :=
  (l.bindingPatterns name).findSome? (·.search? text)

theorem assignedFrom?_eq (l : Language) (name text : Text) :
    assignedFrom? l name text = (match? l name text).map fun m => (m.text? "type").getD [] :=
  (List.map_findSome? ..).symm

/-- Where every pattern keeps the same texts up to `f`, the variable is bound to the same, up to
`f`. -/
theorem assignedFrom?_map {l : Language} {name t t' : Text} {f : Text → Text} (hf : f [] = [])
    (h : ∀ p ∈ l.bindingPatterns name, (p.search? t').map (·.captured) =
      (p.search? t).map fun m => m.captured.map (Prod.map id f)) :
    assignedFrom? l name t' = (assignedFrom? l name t).map f := by
  have hlookup : ∀ kept : List (Text × Text),
      ((kept.map (Prod.map id f)).lookup "type".toList).getD [] =
        f ((kept.lookup "type".toList).getD []) := by
    intro kept
    induction kept with
    | nil => exact hf.symm
    | cons x kept ih =>
      rw [List.map_cons, Prod.map, List.lookup_cons, List.lookup_cons]
      dsimp only [id]
      cases "type".toList == x.1 with
      | true => rfl
      | false => exact ih
  unfold assignedFrom?
  generalize l.bindingPatterns name = ps at h
  induction ps with
  | nil => rfl
  | cons p ps ih =>
    have hrest := ih fun x hx => h x (List.mem_cons_of_mem p hx)
    have hfirst := h p List.mem_cons_self
    rw [List.findSome?_cons, List.findSome?_cons]
    cases hm : p.search? t with
    | none =>
      rw [hm, Option.map_none, Option.map_eq_none_iff] at hfirst
      rw [hfirst]
      exact hrest
    | some m =>
      rw [hm, Option.map_some] at hfirst
      obtain ⟨m', hm', hcaptured⟩ := Option.map_eq_some_iff.mp hfirst
      rw [hm']
      unfold Pattern.Place.text?
      dsimp only [Option.map_some]
      rw [hcaptured, hlookup]

/-- Of patterns that are tried in order, the first that is found, found on the line. -/
theorem findSome?_line {before line after : Text} {ps : List Pattern}
    (hline : Text.LineBetween before line after) (hlocal : ∀ p ∈ ps.dropLast, p.IsLocal)
    (hfound : ∀ p ∈ ps, p.FoundOnLine before line after) {m : Pattern.Place}
    (hm : ps.findSome? (·.search? (before ++ line ++ after)) = some m)
    (hlies : m.LiesOn before line after) :
    ∃ m', ps.findSome? (·.search? line) = some m' ∧ m'.captured = m.captured := by
  induction ps with
  | nil => cases hm
  | cons p ps ih =>
    rw [List.findSome?_cons] at hm ⊢
    cases hp : p.search? (before ++ line ++ after) with
    | some x =>
      rw [hp] at hm
      obtain rfl := Option.some.inj hm
      obtain ⟨m', hm', hcaptured⟩ := hfound p List.mem_cons_self x hp hlies
      exact ⟨m', by rw [hm'], hcaptured⟩
    | none =>
      rw [hp] at hm
      cases ps with
      | nil => cases hm
      | cons r ps =>
        rw [List.dropLast_cons_cons] at hlocal
        rw [Pattern.search?_line_eq_none (hlocal p List.mem_cons_self) hline hp]
        exact ih (fun x hx => hlocal x (List.mem_cons_of_mem p hx))
          (fun x hx => hfound x (List.mem_cons_of_mem p hx)) hm

/-- The line that the match lies on tells the same type as the whole text. -/
theorem declaredType?_line {l : Language} {name before line after : Text} {m : Pattern.Place}
    (hname : isWordRun name) (hline : Text.LineBetween before line after)
    (hm : match? l name (before ++ line ++ after) = some m) (hlies : m.LiesOn before line after) :
    declaredType? l name line = declaredType? l name (before ++ line ++ after) := by
  have hfound : ∀ p ∈ l.bindingPatterns name, p.FoundOnLine before line after :=
    fun p hp => (l.frontShown_of_mem hname p hp).foundOnLine hline
  obtain ⟨m', hm', hcaptured⟩ :=
    findSome?_line hline (l.isLocal_of_mem_dropLast name) hfound hm hlies
  have hline : match? l name line = some m' := hm'
  have htype : m'.text? "type" = m.text? "type" := by
    unfold Pattern.Place.text?
    rw [hcaptured]
  unfold declaredType?
  rw [Language.bareName_of_isWordRun hname, assignedFrom?_eq, assignedFrom?_eq, hline, hm,
    Option.map_some, Option.map_some, htype]

end Binding

theorem Classifier.isWordRun_of_classify {l : Language} {features : List ResourceFeature}
    {r : Request} {d : Document} {name : Text}
    (h : classify l features r d = .variableUse name) : isWordRun name := by
  have hrule := rule_classify l features r d
  rw [h] at hrule
  cases hrule with
  | variableUse hvariable =>
    exact ((Bool.and_eq_true _ _).mp ((Bool.and_eq_true _ _).mp hvariable).1).2

namespace Engine

/-- A click on a variable that opens in place leads to a line of the page. Where the match that
tells the type of the variable lies on that line, the line alone tells the type that a click on a
method of the variable follows. On the page of a text each line stands between the lines before it
and those after it. -/
theorem resolve_variable_same_type (e : Engine) (req : Request) {name url : Text}
    (hreference : (e.resolve req).reference = .variableUse name)
    (htarget : (e.resolve req).target = ⟨some url, false⟩) :
    ∃ p l, e.Pins (.variableUse name) p l ∧ url = Url.withLine e.document.url l.number ∧
      (∀ text address snapshot, e.document = .ofText text address snapshot →
        ∃ before after, text = before ++ l.text ++ after ∧ Text.LineBetween before l.text after ∧
          l.number = 1 + before.lines.length) ∧
      ∀ before after m, e.document.text = before ++ l.text ++ after →
        Text.LineBetween before l.text after →
        Binding.match? e.language name e.document.text = some m →
        m.LiesOn before l.text after →
        Binding.declaredType? e.language name l.text =
            Binding.declaredType? e.language name e.document.text ∧
          ∀ method, e.classOf? (.externalCall name method) =
            Binding.declaredType? e.language name l.text := by
  obtain ⟨p, l, hpins, hurl⟩ := (e.resolve_leads req).pins htarget
  have hclass : e.classify req = .variableUse name :=
    (e.resolveReference_reference req (e.classify req)).symm.trans hreference
  rw [hclass] at hpins
  refine ⟨p, l, hpins, hurl, ?_, ?_⟩
  · intro text address snapshot hdocument
    have hmem := hpins.mem.1
    rw [hdocument] at hmem
    obtain ⟨pre, post, hlines, hnumber⟩ := CodeLine.exists_of_mem_numberedFrom hmem
    obtain ⟨before, after, htext, hline, hbefore⟩ := Text.lineOf_of_lines_eq hlines
    exact ⟨before, after, htext, hline, hbefore ▸ hnumber⟩
  · intro before after m htext hline hm hlies
    rw [htext] at hm
    have hsame :=
      Binding.declaredType?_line (Classifier.isWordRun_of_classify hclass) hline hm hlies
    rw [← htext] at hsame
    exact ⟨hsame, fun method => hsame.symm⟩

def assigningEngine : Engine where
  document := .ofText "start()\n\n  job = Foo()\njob.run()\n"
    "https://github.com/o/r/blob/main/Main.kt" "now"
  language := .kotlin
  features := ResourceFeature.builtIn.map (·.2)

def onJob : Request := ⟨"job", ⟨[], "job", [".run", "(", ")"], none, none⟩, none⟩

theorem pins_onJob {p : Pattern} {l : CodeLine}
    (h : assigningEngine.Pins (.variableUse "job") p l) : l = ⟨3, "  job = Foo()".toList⟩ := by
  cases h with
  | assignment h =>
    have hfind : assigningEngine.document.lines.find?
        (Locator.lineMatches (Locator.assignmentPattern "job")) =
          some ⟨3, "  job = Foo()".toList⟩ := by decide
    exact Option.some.inj (h.symm.trans hfind)
  | declaration h =>
    have hfind : assigningEngine.document.lines.find?
        (Locator.lineMatches (assigningEngine.language.declarationPattern "job")) = none := by
      decide
    cases h.symm.trans hfind
  | declaredClass hr h =>
    obtain rfl := Option.some.inj hr
    have hfind : assigningEngine.document.lines.find? (Locator.lineMatches
        (assigningEngine.language.classPattern (Language.bareName "job"))) = none := by
      decide
    cases h.symm.trans hfind

/-- The match starts with the line feed of the empty line. -/
theorem resolve_variable_same_type_assigned :
    (assigningEngine.resolve onJob).target =
        ⟨some "https://github.com/o/r/blob/main/Main.kt#L3".toList, false⟩ ∧
      Binding.declaredType? .kotlin "job" "  job = Foo()" = some "Foo".toList ∧
      ∀ method, assigningEngine.classOf? (.externalCall "job" method) = some "Foo".toList := by
  have hreference : (assigningEngine.resolve onJob).reference = .variableUse "job" := by
    decide +kernel
  have htarget : (assigningEngine.resolve onJob).target =
      ⟨some "https://github.com/o/r/blob/main/Main.kt#L3".toList, false⟩ := by decide +kernel
  have htype : Binding.declaredType? .kotlin "job" "  job = Foo()" = some "Foo".toList := by
    decide +kernel
  have hmatch : Binding.match? .kotlin "job" assigningEngine.document.text =
      some ⟨some 'o', "()\njob.run()\n".toList, 12, [("type".toList, "Foo".toList)]⟩ := by
    decide +kernel
  obtain ⟨p, l, hpins, -, -, hsame⟩ :=
    resolve_variable_same_type assigningEngine onJob hreference htarget
  obtain rfl := pins_onJob hpins
  have hline : Text.LineBetween "start()\n\n" "  job = Foo()" "\njob.run()\n" := by
    decide +kernel
  have hlies : Pattern.Place.LiesOn
      ⟨some 'o', "()\njob.run()\n".toList, 12, [("type".toList, "Foo".toList)]⟩
      "start()\n\n" "  job = Foo()" "\njob.run()\n" :=
    ⟨"  job = Foo".toList, "()".toList, rfl, rfl, by decide +kernel⟩
  obtain ⟨-, hclass⟩ := hsame "start()\n\n" "\njob.run()\n" _ (by decide +kernel) hline hmatch hlies
  exact ⟨htarget, htype, fun method => (hclass method).trans htype⟩

/-- A page that gives a variable a value and, further down, another one of the same name a type. -/
def rebindingEngine : Engine :=
  { assigningEngine with
    document := .ofText "val job = Foo()\njob.run()\nval job: Bar = make()"
      "https://github.com/o/r/blob/main/Main.kt" "now" }

/-- A page that declares a variable over two lines. -/
def wrappingEngine : Engine where
  document := .ofText "Map<String,\n    List<Item>> job = load();\njob.clear();"
    "https://github.com/o/r/blob/main/Main.java" "now"
  language := .java
  features := ResourceFeature.builtIn.map (·.2)

/-- The line that a click on the variable leads to tells another type than the text does: the match
that counts stands on another line, or it starts on one. -/
theorem resolve_variable_other_type :
    ((rebindingEngine.resolve onJob).reference = .variableUse "job" ∧
      (rebindingEngine.resolve onJob).target =
        ⟨some "https://github.com/o/r/blob/main/Main.kt#L1".toList, false⟩ ∧
      rebindingEngine.document.line? 1 = some ⟨1, "val job = Foo()".toList⟩ ∧
      Binding.declaredType? .kotlin "job" rebindingEngine.document.text = some "Bar".toList ∧
      Binding.declaredType? .kotlin "job" "val job = Foo()" = some "Foo".toList) ∧
    ((wrappingEngine.resolve onJob).reference = .variableUse "job" ∧
      (wrappingEngine.resolve onJob).target =
        ⟨some "https://github.com/o/r/blob/main/Main.java#L2".toList, false⟩ ∧
      wrappingEngine.document.line? 2 = some ⟨2, "    List<Item>> job = load();".toList⟩ ∧
      Binding.declaredType? .java "job" wrappingEngine.document.text = some "Map".toList ∧
      Binding.declaredType? .java "job" "    List<Item>> job = load();" = some "List".toList) := by
  refine ⟨⟨?_, ?_, ?_, ?_, ?_⟩, ?_, ?_, ?_, ?_, ?_⟩
  all_goals decide +kernel

end Engine

end CodeNav
