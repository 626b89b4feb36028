import CodeNav.Proofs.ImportLines
import CodeNav.Proofs.Lookup
import CodeNav.Proofs.Parts

namespace CodeNav

namespace ImportRules

variable {r : ImportRules} {symbol name : Text} {d : Document} {c : TokenContext}

def declaredLine? (r : ImportRules) (symbol : Text) (d : Document) : Option Int :=
  let name := Language.bareName symbol
  if name.isEmpty then none else Locator.anchor? d.lines (r.language.classPattern name)

theorem classTarget_of_declared {line : Int} (h : r.declaredLine? symbol d = some line) :
    r.classTarget symbol d c = (⟨some (Url.withLine d.url line), false⟩, .resolved) := by
  unfold declaredLine? at h
  unfold classTarget
  dsimp only at h ⊢
  rw [h]

theorem classTarget_of_unknown (hhere : r.declaredLine? symbol d = none)
    (hname : r.fullName? (Language.bareName symbol) d c = none) :
    r.classTarget symbol d c = (.nowhere true, .unresolvedImport) := by
  unfold declaredLine? at hhere
  unfold classTarget
  dsimp only at hhere ⊢
  rw [hhere, hname]

theorem classTarget_of_denied (hhere : r.declaredLine? symbol d = none)
    (hname : r.fullName? (Language.bareName symbol) d c = some name) (hdenied : r.isDenied name) :
    r.classTarget symbol d c = (.nowhere true, .deniedImport) := by
  unfold declaredLine? at hhere
  unfold classTarget
  dsimp only at hhere ⊢
  rw [hhere, hname]
  exact if_pos hdenied

theorem classTarget_of_allowed (hhere : r.declaredLine? symbol d = none)
    (hname : r.fullName? (Language.bareName symbol) d c = some name)
    (hallowed : ¬r.isDenied name) :
    r.classTarget symbol d c =
      match fileUrl? d name 1 with
      | none => (.nowhere true, .unresolvedImport)
      | some url => (⟨some url, true⟩, .resolved) := by
  unfold declaredLine? at hhere
  unfold classTarget
  dsimp only at hhere ⊢
  rw [hhere, hname]
  exact if_neg hallowed

theorem importLineTarget_of_unnamed (hname : (r.clickedName? c).filter isQualifiedName = none) :
    r.importLineTarget d c = (.nowhere, .unresolvedImport) := by
  unfold importLineTarget
  rw [hname]

theorem importLineTarget_of_allowed (hname : r.clickedName? c = some name)
    (hqualified : isQualifiedName name) (hallowed : ¬r.isDenied name) :
    r.importLineTarget d c =
      match if r.language.isOnLastSegment c then fileUrl? d name 1 else directoryUrl? d name with
      | none => (.nowhere, .unresolvedImport)
      | some url => (⟨some url, true⟩, .resolved) := by
  have hfilter : (r.clickedName? c).filter isQualifiedName = some name := by
    rw [hname, Option.filter_some, if_pos hqualified]
  unfold importLineTarget
  rw [hfilter]
  exact if_neg hallowed

theorem fileUrl?_eq_some_iff {url : Text} {line : Int} : fileUrl? d name line = some url ↔
    ∃ root extension, SourceRoot d.package (Url.stripAnchor d.url) root ∧
      Url.extension? (Url.stripAnchor d.url) = some extension ∧
      url = root ++ "/" ++ Text.swap '.' '/' name ++ "." ++ extension ++ "#L" ++
        Text.ofInt line := by
  simp only [fileUrl?, directoryUrl?, Option.bind_eq_bind, Option.bind_eq_some_iff,
    Option.map_eq_some_iff, Option.pure_def, Option.some.injEq, sourceRoot?_eq_some_iff]
  constructor
  · rintro ⟨_, ⟨root, hroot, rfl⟩, extension, hext, rfl⟩
    exact ⟨root, extension, hroot, hext, rfl⟩
  · rintro ⟨root, extension, hroot, hext, rfl⟩
    exact ⟨_, ⟨root, hroot, rfl⟩, extension, hext, rfl⟩

theorem fileUrl?_eq_none_iff {line : Int} : fileUrl? d name line = none ↔
    (∀ root, ¬SourceRoot d.package (Url.stripAnchor d.url) root) ∨
      Url.extension? (Url.stripAnchor d.url) = none := by
  simp only [fileUrl?, directoryUrl?, Option.bind_eq_bind, ← sourceRoot?_eq_none_iff]
  cases sourceRoot? d <;> cases Url.extension? (Url.stripAnchor d.url) <;> simp

def IsDeclared (l : Language) (symbol : Text) (d : Document) : Prop :=
  ∃ line ∈ d.text.lines, Locator.showsMatch (l.classPattern symbol) line

/-- The answers to a click on a class. The declaration in the document is looked for by the symbol
as it is, the full name by the symbol without blanks around it. -/
inductive ClassAnswer (r : ImportRules) (d : Document) (symbol : Text) (c : TokenContext) :
    Target → Status → Prop where
  | here {before : List Text} {line : Text}
      (hline : d.text.FirstLine (Locator.showsMatch (r.language.classPattern symbol)) before line) :
      ClassAnswer r d symbol c
        ⟨some (Url.stripAnchor d.url ++ "#L" ++ Text.ofInt (before.length + 1)), false⟩ .resolved
  | unknown (hhere : ¬IsDeclared r.language symbol d)
      (hname : ∀ name, ¬FullName r.language d symbol.trim c.lineText name) :
      ClassAnswer r d symbol c (.nowhere true) .unresolvedImport
  | denied {name : Text} (hhere : ¬IsDeclared r.language symbol d)
      (hname : FullName r.language d symbol.trim c.lineText name) (hdenied : r.isDenied name) :
      ClassAnswer r d symbol c (.nowhere true) .deniedImport
  /-- The file that lies under the source root as the full name says. -/
  | elsewhere {name root extension : Text} (hhere : ¬IsDeclared r.language symbol d)
      (hname : FullName r.language d symbol.trim c.lineText name) (hallowed : ¬r.isDenied name)
      (hroot : SourceRoot d.package (Url.stripAnchor d.url) root)
      (hextension : Url.extension? (Url.stripAnchor d.url) = some extension) :
      ClassAnswer r d symbol c
        ⟨some (root ++ "/" ++ Text.swap '.' '/' name ++ "." ++ extension ++ "#L1"), true⟩ .resolved
  /-- The address does not say where the source root is, or what files are called. -/
  | unplaced {name : Text} (hhere : ¬IsDeclared r.language symbol d)
      (hname : FullName r.language d symbol.trim c.lineText name) (hallowed : ¬r.isDenied name)
      (hplace : (∀ root, ¬SourceRoot d.package (Url.stripAnchor d.url) root) ∨
        Url.extension? (Url.stripAnchor d.url) = none) :
      ClassAnswer r d symbol c (.nowhere true) .unresolvedImport

section OfText

variable {text url snapshot : Text}

theorem declaredLine?_ofText {n : Int} (hsymbol : Language.bareName symbol ≠ []) :
    r.declaredLine? symbol (.ofText text url snapshot) = some n ↔ ∃ before line,
      text.FirstLine (Locator.showsMatch (r.language.classPattern (Language.bareName symbol)))
        before line ∧ n = before.length + 1 := by
  unfold declaredLine?
  dsimp only
  rw [if_neg (mt List.isEmpty_iff.mp hsymbol)]
  exact Locator.anchor?_ofText

theorem declaredLine?_ofText_eq_none_iff (hsymbol : Language.bareName symbol ≠ []) :
    r.declaredLine? symbol (.ofText text url snapshot) = none ↔
      ¬IsDeclared r.language (Language.bareName symbol) (.ofText text url snapshot) := by
  unfold declaredLine? IsDeclared
  dsimp only
  rw [if_neg (mt List.isEmpty_iff.mp hsymbol)]
  exact Locator.anchor?_ofText_eq_none_iff.trans (by simp [Document.ofText])

theorem fullName?_bareName_eq_some_iff :
    r.fullName? (Language.bareName symbol) d c = some name ↔
      FullName r.language d (Language.bareName symbol).trim c.lineText name := by
  rw [fullName?_eq_some_iff, Language.bareName_bareName]

theorem fullName?_bareName_eq_none_iff :
    r.fullName? (Language.bareName symbol) d c = none ↔
      ∀ name, ¬FullName r.language d (Language.bareName symbol).trim c.lineText name := by
  rw [fullName?_eq_none_iff, Language.bareName_bareName]

theorem classAnswer_classTarget (r : ImportRules) (text url snapshot : Text) (c : TokenContext)
    (hsymbol : Language.bareName symbol ≠ []) :
    ClassAnswer r (.ofText text url snapshot) (Language.bareName symbol) c
      (r.classTarget symbol (.ofText text url snapshot) c).1
      (r.classTarget symbol (.ofText text url snapshot) c).2 := by
  cases hhere : r.declaredLine? symbol (.ofText text url snapshot) with
  | some n =>
    obtain ⟨before, line, hline, rfl⟩ := (declaredLine?_ofText hsymbol).mp hhere
    rw [classTarget_of_declared hhere]
    exact .here hline
  | none =>
    have hnot := (declaredLine?_ofText_eq_none_iff hsymbol).mp hhere
    cases hname : r.fullName? (Language.bareName symbol) (.ofText text url snapshot) c with
    | none =>
      rw [classTarget_of_unknown hhere hname]
      exact .unknown hnot (fullName?_bareName_eq_none_iff.mp hname)
    | some name =>
      have hfull := fullName?_bareName_eq_some_iff.mp hname
      by_cases hdenied : r.isDenied name
      · rw [classTarget_of_denied hhere hname hdenied]
        exact .denied hnot hfull hdenied
      · rw [classTarget_of_allowed hhere hname hdenied]
        cases hfile : fileUrl? (.ofText text url snapshot) name 1 with
        | none => exact .unplaced hnot hfull hdenied (fileUrl?_eq_none_iff.mp hfile)
        | some address =>
          obtain ⟨root, extension, hroot, hext, rfl⟩ := fileUrl?_eq_some_iff.mp hfile
          rw [List.append_assoc _ "#L".toList]
          exact .elsewhere hnot hfull hdenied hroot hext

/-- The answers listed are all the answers, and each is given where its conditions hold. -/
theorem classTarget_eq_iff (r : ImportRules) (c : TokenContext)
    (hsymbol : Language.bareName symbol ≠ []) {t : Target} {s : Status} :
    r.classTarget symbol (.ofText text url snapshot) c = (t, s) ↔
      ClassAnswer r (.ofText text url snapshot) (Language.bareName symbol) c t s := by
  constructor
  · intro h
    have hanswer := classAnswer_classTarget r text url snapshot c hsymbol
    rwa [h] at hanswer
  · intro h
    cases h with
    | here hline =>
      exact classTarget_of_declared ((declaredLine?_ofText hsymbol).mpr ⟨_, _, hline, rfl⟩)
    | unknown hhere hname =>
      exact classTarget_of_unknown ((declaredLine?_ofText_eq_none_iff hsymbol).mpr hhere)
        (fullName?_bareName_eq_none_iff.mpr hname)
    | denied hhere hname hdenied =>
      exact classTarget_of_denied ((declaredLine?_ofText_eq_none_iff hsymbol).mpr hhere)
        (fullName?_bareName_eq_some_iff.mpr hname) hdenied
    | elsewhere hhere hname hallowed hroot hext =>
      rw [classTarget_of_allowed ((declaredLine?_ofText_eq_none_iff hsymbol).mpr hhere)
        (fullName?_bareName_eq_some_iff.mpr hname) hallowed,
        fileUrl?_eq_some_iff.mpr ⟨_, _, hroot, hext, rfl⟩, List.append_assoc _ "#L".toList]
      rfl
    | unplaced hhere hname hallowed hplace =>
      rw [classTarget_of_allowed ((declaredLine?_ofText_eq_none_iff hsymbol).mpr hhere)
        (fullName?_bareName_eq_some_iff.mpr hname) hallowed, fileUrl?_eq_none_iff.mpr hplace]

end OfText

def homePage : Document :=
  .ofText "package p\n\nimport a.Home\n" "https://github.com/o/r/blob/main/src/p/Main.kt" "now"

def anyClick : TokenContext := ⟨[], "x", [], none, none⟩

theorem classTarget_eq_iff_home :
    Language.bareName "Home?" ≠ [] ∧ ClassAnswer ⟨.kotlin, []⟩ homePage "Home" anyClick
      ⟨some "https://github.com/o/r/blob/main/src/a/Home.kt#L1".toList, true⟩ .resolved := by
  have hsymbol : Language.bareName "Home?" ≠ [] := by decide
  exact ⟨hsymbol, (classTarget_eq_iff ⟨.kotlin, []⟩ anyClick hsymbol).mp (by decide +kernel)⟩

/-- A blank that stood before a nullability mark still belongs to the symbol that declarations are
looked for by, but no longer to the one that imports are. So the import of a class answers for
"Home ?", although it does not declare "Home ", and the class of the own package does not. -/
theorem classTarget_of_blank_before_mark :
    Language.bareName "Home ?" = "Home ".toList ∧
      ¬IsDeclared .kotlin "Home " homePage ∧
      FullName .kotlin homePage "Home " anyClick.lineText "p.Home " ∧
      fileUrl? homePage "p.Home " 1 =
        some "https://github.com/o/r/blob/main/src/p/Home .kt#L1".toList ∧
      isDenied ⟨.kotlin, []⟩ "p.Home " = false ∧
      classTarget ⟨.kotlin, []⟩ "Home ?" homePage anyClick =
        (⟨some "https://github.com/o/r/blob/main/src/a/Home.kt#L1".toList, true⟩, .resolved) := by
  refine ⟨by decide, ?_, ?_, by decide +kernel, by decide, by decide +kernel⟩
  · unfold IsDeclared
    decide +kernel
  · have hpackage : homePage.package = "p".toList := by decide +kernel
    have hfull : FullName .kotlin homePage "Home " anyClick.lineText
        (homePage.package ++ "." ++ "Home ") :=
      .sibling (by decide +kernel) (by decide) (by decide +kernel)
    rwa [hpackage] at hfull

end ImportRules

theorem mem_of_isQualifiedName {name : Text} (h : isQualifiedName name) :
    ∀ c ∈ name, isWord c ∨ c = '.' := by
  intro c hc
  refine (Text.mem_parts hc).symm.imp_left ?_
  rintro ⟨p, hp, hcp⟩
  exact mem_of_isWordRun (List.all_eq_true.mp h p hp) c hcp

theorem isQualifiedName_append_iff {a b : Text} :
    isQualifiedName (a ++ '.' :: b) ↔ isQualifiedName a ∧ isQualifiedName b := by
  unfold isQualifiedName
  rw [Text.parts_append, List.all_append, Bool.and_eq_true]

namespace ImportRules

theorem mem_of_getLast?_parts {name s : Text} (hname : isQualifiedName name)
    (hs : (Text.parts '.' name).getLast? = some s) : ∀ c ∈ s, isWord c := by
  exact mem_of_isWordRun (List.all_eq_true.mp hname s (List.mem_of_getLast? hs))

/-- A click on a class that an import declares, and one on the end of that import, lead to the same
place, or for the same reason to none. -/
theorem importLineTarget_agrees (r : ImportRules) (d : Document) {before after : List Text}
    {line s : Text} {i : ImportStatement} (hline : d.text.lines = before ++ line :: after)
    (hi : ImportStatement.ofLine? line = some i) (hname : isQualifiedName i.name)
    (hparts : 2 ≤ (Text.parts '.' i.name).length)
    (hs : (Text.parts '.' i.name).getLast? = some s ∨ i.alias? = some s)
    (hhere : ∀ l ∈ d.lines, ¬Locator.showsMatch (r.language.classPattern s) l.text)
    (hfirst : ∀ x ∈ before, ¬importsSymbol s x) (c : TokenContext) {onLine : TokenContext}
    (honLine : onLine.lineText = line) (hlast : r.language.isOnLastSegment onLine) :
    (r.importLineTarget d onLine).1.url = (r.classTarget s d c).1.url ∧
      (r.importLineTarget d onLine).2 = (r.classTarget s d c).2 := by
  -- The symbol is a word, so it is looked up as it is.
  have hword : Language.bareName s = s := by
    apply Language.bareName_eq_self
    rcases hs with hs | hs
    · exact mem_of_getLast?_parts hname hs
    · exact ImportStatement.mem_alias hi hs
  have hdeclares : i.declares s := by
    rcases hs with hs | hs
    · have hsuffix := Text.suffix_of_getLast?_parts hs hparts
      simp [ImportStatement.declares, hsuffix]
    · simp [ImportStatement.declares, hs]
  have himport : ImportedAs d.text (Language.bareName (Language.bareName s)) i.name := by
    rw [hword, hword]
    refine ⟨before, line, i, ⟨⟨after, hline⟩, ?_, hfirst⟩, hi, rfl⟩
    simp [importsSymbol, hi, hdeclares]
  have hdeclared : r.declaredLine? s d = none := by
    unfold declaredLine?
    rw [hword]
    dsimp only
    split
    · rfl
    · exact Locator.anchor?_eq_none_of_forall hhere
  have hfull := fullName?_of_imported (r := r) (c := c) himport
  have hclicked : r.clickedName? onLine = some i.name := by
    unfold clickedName?
    rw [if_pos hlast, honLine, importName?, hi, Option.map_some]
  by_cases hdenied : r.isDenied i.name
  · rw [classTarget_of_denied hdeclared hfull hdenied,
      importLineTarget_of_denied hclicked hname hdenied]
    exact ⟨rfl, rfl⟩
  · rw [classTarget_of_allowed hdeclared hfull hdenied,
      importLineTarget_of_allowed hclicked hname hdenied, if_pos hlast]
    cases fileUrl? d i.name 1 with
    | none => exact ⟨rfl, rfl⟩
    | some url => exact ⟨rfl, rfl⟩

def startPage : Document :=
  .ofText "import x.Main\nimport a.b.Home as Start\n\nval first = Start()"
    "https://github.com/o/r/blob/main/src/Main.kt" "now"

def onHome : TokenContext :=
  ⟨["import", " ", "a", ".b"], ".Home", [" ", "as", " ", "Start"], none, none⟩

theorem importLineTarget_agrees_start :
    let atImport := importLineTarget ⟨.kotlin, []⟩ startPage onHome
    let atUse := classTarget ⟨.kotlin, []⟩ "Start" startPage anyClick
    let home := "https://github.com/o/r/blob/main/src/a/b/Home.kt#L1".toList
    startPage.text.lines = ["import x.Main".toList] ++ "import a.b.Home as Start".toList ::
        ["".toList, "val first = Start()".toList] ∧
      (∀ l ∈ startPage.lines, ¬Locator.showsMatch (Language.kotlin.classPattern "Start") l.text) ∧
      onHome.lineText = "import a.b.Home as Start".toList ∧ Language.kotlin.isOnLastSegment onHome ∧
      atImport.1.url = some home ∧ atUse.1.url = some home ∧
      atImport.2 = .resolved ∧ atUse.2 = .resolved := by
  intro atImport atUse home
  have hlines : startPage.text.lines = ["import x.Main".toList] ++
      "import a.b.Home as Start".toList :: ["".toList, "val first = Start()".toList] := by
    decide +kernel
  have hi : ImportStatement.ofLine? "import a.b.Home as Start" =
      some ⟨"a.b.Home", some "Start"⟩ := by decide +kernel
  have hhere : ∀ l ∈ startPage.lines,
      ¬Locator.showsMatch (Language.kotlin.classPattern "Start") l.text := by decide +kernel
  have honLine : onHome.lineText = "import a.b.Home as Start".toList := by decide
  have hlast : Language.kotlin.isOnLastSegment onHome := by decide +kernel
  have hurl : atImport.1.url = some home := by decide +kernel
  have hstatus : atImport.2 = .resolved := by decide +kernel
  obtain ⟨hsameUrl, hsameStatus⟩ := importLineTarget_agrees ⟨.kotlin, []⟩ startPage hlines hi
    (by decide +kernel) (by decide +kernel) (.inr rfl) hhere (by decide +kernel) anyClick honLine
    hlast
  exact ⟨hlines, hhere, honLine, hlast, hurl, hsameUrl.symm.trans hurl, hstatus,
    hsameStatus.symm.trans hstatus⟩

end ImportRules

end CodeNav
