import CodeNav.Proofs.Declarations

/-!
The names that links are built from. The link to a class is built from a qualified name exactly
when the symbol is one and the import that declares it is of one
(`ImportRules.classTarget_isQualifiedName`). Nothing else keeps out a sign of punctuation: an
asterisk is declared by every import of all names of a package.
-/

namespace CodeNav

theorem isQualifiedName_of_isWordRun {t : Text} (h : isWordRun t) : isQualifiedName t := by
  rw [isQualifiedName, Text.parts_of_not_mem (not_mem_of_not_isWord (by decide) h)]
  simpa using h

theorem ImportStatement.isWordRun_alias {line a : Text} {i : ImportStatement}
    (h : ofLine? line = some i) (ha : i.alias? = some a) : isWordRun a := by
  cases ofLine?_eq_some_iff.mp h with
  | mk _ _ _ _ hrename _ =>
    cases hrename with
    | absent => cases ha
    | given _ _ hsymbol =>
      obtain rfl := Option.some.inj ha
      exact hsymbol

/-- Whatever a qualified import declares is a qualified name. -/
theorem ImportStatement.isQualifiedName_of_declares {line symbol : Text} {i : ImportStatement}
    (h : ofLine? line = some i) (hdeclares : i.declares symbol) (hname : isQualifiedName i.name) :
    isQualifiedName symbol := by
  rcases (Bool.or_eq_true _ _).mp hdeclares with halias | hsuffix
  · exact isQualifiedName_of_isWordRun (isWordRun_alias h (of_decide_eq_true halias))
  · obtain ⟨front, hfront⟩ := List.isSuffixOf_iff_suffix.mp hsuffix
    rw [← hfront] at hname
    exact (isQualifiedName_append_iff.mp hname).2

theorem ImportedAs.unique {t symbol name name' : Text} (h : ImportedAs t symbol name)
    (h' : ImportedAs t symbol name') : name = name' := by
  rw [← Imports.head?_matching_eq_some_iff] at h h'
  exact Option.some.inj (h.symm.trans h')

theorem ImportedAs.isQualifiedName_symbol {t symbol name : Text} (h : ImportedAs t symbol name)
    (hname : isQualifiedName name) : isQualifiedName symbol := by
  obtain ⟨_, line, i, hfirst, hi, rfl⟩ := h
  have hdeclares : i.declares symbol := by
    have himports := hfirst.holds
    rw [importsSymbol, hi] at himports
    exact himports
  exact ImportStatement.isQualifiedName_of_declares hi hdeclares hname

variable {l : Language} {d : Document} {symbol lineText name : Text}

/-- In a package with a qualified name, or in none, the full name of a symbol is qualified exactly
when the symbol is, and so is the name of the import that declares it, if there is one. -/
theorem FullName.isQualifiedName_iff (hpackage : d.package = [] ∨ isQualifiedName d.package)
    (h : FullName l d symbol lineText name) : isQualifiedName name ↔
      isQualifiedName symbol ∧ ∀ name, ImportedAs d.text symbol name → isQualifiedName name := by
  have hvacuous (hnone : ∀ line ∈ d.text.lines, ¬importsSymbol symbol line) :
      ∀ name, ImportedAs d.text symbol name → isQualifiedName name := by
    rintro name ⟨_, line, _, hfirst, -⟩
    obtain ⟨after, hlines⟩ := hfirst.stands
    exact absurd hfirst.holds (hnone line (by simp [hlines]))
  cases h with
  | imported h =>
    constructor
    · exact fun hname => ⟨h.isQualifiedName_symbol hname, fun _ h' => h.unique h' ▸ hname⟩
    · exact fun hname => hname.2 _ h
  | sibling hnone _ hne =>
    have hqualified := hpackage.resolve_left hne
    rw [List.append_assoc, and_iff_left (hvacuous hnone)]
    exact isQualifiedName_append_iff.trans (and_iff_right hqualified)
  | unpackaged hnone | ownLine hnone => exact (and_iff_left (hvacuous hnone)).symm

namespace ImportRules

variable {r : ImportRules} {c : TokenContext} {url : Text}

/-- A link to another file is that of the full name of the symbol. -/
theorem fullName?_of_newTab (h : (r.classTarget symbol d c).1 = ⟨some url, true⟩) :
    ∃ name, r.fullName? (Language.bareName symbol) d c = some name ∧
      fileUrl? d name 1 = some url := by
  cases hhere : r.declaredLine? symbol d with
  | some line =>
    rw [classTarget_of_declared hhere] at h
    cases h
  | none =>
    cases hname : r.fullName? (Language.bareName symbol) d c with
    | none =>
      rw [classTarget_of_unknown hhere hname] at h
      cases h
    | some name =>
      by_cases hdenied : r.isDenied name
      · rw [classTarget_of_denied hhere hname hdenied] at h
        cases h
      · rw [classTarget_of_allowed hhere hname hdenied] at h
        cases hurl : fileUrl? d name 1 with
        | none =>
          rw [hurl] at h
          cases h
        | some found =>
          rw [hurl] at h
          cases h
          exact ⟨name, rfl, hurl⟩

/-- The link from a symbol to another file is built from a qualified name exactly when the symbol is
one, without the blanks and the marks around it, and the import that declares it, if there is one,
is of one. -/
theorem classTarget_isQualifiedName (hpackage : d.package = [] ∨ isQualifiedName d.package)
    (h : (r.classTarget symbol d c).1 = ⟨some url, true⟩) :
    ∃ name, r.fullName? (Language.bareName symbol) d c = some name ∧
      fileUrl? d name 1 = some url ∧
      (isQualifiedName name ↔ isQualifiedName (Language.bareName symbol).trim ∧
        ∀ name, ImportedAs d.text (Language.bareName symbol).trim name → isQualifiedName name) := by
  obtain ⟨name, hname, hurl⟩ := fullName?_of_newTab h
  exact ⟨name, hname, hurl, (fullName?_bareName_eq_some_iff.mp hname).isQualifiedName_iff hpackage⟩

theorem classTarget_isQualifiedName_home :
    isQualifiedName homePage.package ∧
      (classTarget ⟨.kotlin, []⟩ "Home?" homePage anyClick).1 =
        ⟨some "https://github.com/o/r/blob/main/src/a/Home.kt#L1".toList, true⟩ ∧
      ∃ name, fullName? ⟨.kotlin, []⟩ (Language.bareName "Home?") homePage anyClick = some name ∧
        isQualifiedName name := by
  have hpackage : isQualifiedName homePage.package := by decide +kernel
  have hlink : (classTarget ⟨.kotlin, []⟩ "Home?" homePage anyClick).1 =
      ⟨some "https://github.com/o/r/blob/main/src/a/Home.kt#L1".toList, true⟩ := by decide +kernel
  have himport : ImportedAs homePage.text (Language.bareName "Home?").trim "a.Home" :=
    Imports.head?_matching_eq_some_iff.mp (by decide +kernel)
  obtain ⟨name, hname, -, hiff⟩ := classTarget_isQualifiedName (.inr hpackage) hlink
  have hall : ∀ name, ImportedAs homePage.text (Language.bareName "Home?").trim name →
      isQualifiedName name := fun _ h => h.unique himport ▸ (by decide +kernel)
  exact ⟨hpackage, hlink, name, hname, hiff.mpr ⟨by decide +kernel, hall⟩⟩

def areaPage : Document :=
  .ofText "package p\n\nimport a.b.*\n\nval area = width * height\n"
    "https://github.com/o/r/blob/main/src/p/Main.kt" "now"

/-- The sign of multiplication is linked to a file. -/
theorem classTarget_asterisk :
    isQualifiedName areaPage.package ∧
      fullName? ⟨.kotlin, []⟩ (Language.bareName "*") areaPage anyClick = some "a.b.*".toList ∧
      ¬isQualifiedName "a.b.*" ∧
      classTarget ⟨.kotlin, []⟩ "*" areaPage anyClick =
        (⟨some "https://github.com/o/r/blob/main/src/a/b/*.kt#L1".toList, true⟩, .resolved) := by
  refine ⟨?_, ?_, ?_, ?_⟩
  all_goals decide +kernel

end ImportRules

end CodeNav
