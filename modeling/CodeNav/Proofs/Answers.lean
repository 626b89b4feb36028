import CodeNav.Proofs.ClassTargets

namespace CodeNav.Engine

def classOf? (e : Engine) : Reference → Option Text
  | .internalCall name | .variableUse name | .symbol name => some name
  | .externalCall receiver _ => Binding.declaredType? e.language receiver e.document.text
  | .resource _ _ | .importLine | .primitive _ | .unclassified => none

/-- The ways to a target. -/
inductive Leads (e : Engine) (req : Request) : Reference → Target → Prop where
  /-- Nothing is found, or nothing is looked for. -/
  | nowhere (r : Reference) (newTab : Bool) : Leads e req r (.nowhere newTab)
  | method {name : Text} {line : Int}
      (h : Locator.all e.document.lines (e.language.methodPattern name) = [line]) :
      Leads e req (.internalCall name) ⟨some (Url.withLine e.document.url line), false⟩
  | onVariable {name : Text} {line : Int} (h : e.variableLine? name = some line) :
      Leads e req (.variableUse name) ⟨some (Url.withLine e.document.url line), false⟩
  | declared {r : Reference} {symbol : Text} {line : Int} (hr : e.classOf? r = some symbol)
      (h : e.imports.declaredLine? symbol e.document = some line) :
      Leads e req r ⟨some (Url.withLine e.document.url line), false⟩
  | file {r : Reference} {symbol name url : Text} (hr : e.classOf? r = some symbol)
      (hname : e.imports.fullName? (Language.bareName symbol) e.document req.context = some name)
      (h : ImportRules.fileUrl? e.document name 1 = some url) : Leads e req r ⟨some url, true⟩
  /-- The file that a whole import stands for. -/
  | imported {name url : Text} (hname : isQualifiedName name)
      (h : ImportRules.fileUrl? e.document name 1 = some url) :
      Leads e req .importLine ⟨some url, true⟩
  /-- The directory that a part of an import stands for. -/
  | directory {name url : Text} (hname : isQualifiedName name)
      (h : ImportRules.directoryUrl? e.document name = some url) :
      Leads e req .importLine ⟨some url, true⟩
  | resource {f : ResourceFeature} {subkind shown name : Text}
      (hf : e.feature? subkind = some f) (hname : f.name? req.token = some name) :
      Leads e req (.resource subkind shown)
        ⟨some (resourceUrl e.document.url e.settings.rootSegment (f.path name)), true⟩

variable {e : Engine} {req : Request}

theorem onClass_leads {r : Reference} {symbol : Text} (hr : e.classOf? r = some symbol) :
    e.Leads req r (e.onClass r symbol req.context).target := by
  cases hhere : e.imports.declaredLine? symbol e.document with
  | some line =>
    simp only [onClass, ImportRules.classTarget_of_declared hhere]
    exact .declared hr hhere
  | none =>
    cases hname : e.imports.fullName? (Language.bareName symbol) e.document req.context with
    | none =>
      simp only [onClass, ImportRules.classTarget_of_unknown hhere hname]
      exact .nowhere r true
    | some name =>
      by_cases hdenied : e.imports.isDenied name
      · simp only [onClass, ImportRules.classTarget_of_denied hhere hname hdenied]
        exact .nowhere r true
      · simp only [onClass, ImportRules.classTarget_of_allowed hhere hname hdenied]
        cases hurl : ImportRules.fileUrl? e.document name 1 with
        | none => exact .nowhere r true
        | some url => exact .file hr hname hurl

theorem importLine_leads : e.Leads req .importLine (e.resolveReference req .importLine).target := by
  cases hname : (e.imports.clickedName? req.context).filter isQualifiedName with
  | none =>
    simp only [resolveReference, ImportRules.importLineTarget_of_unnamed hname]
    exact .nowhere _ _
  | some name =>
    obtain ⟨hclicked, hqualified⟩ := Option.filter_eq_some_iff.mp hname
    by_cases hdenied : e.imports.isDenied name
    · simp only [resolveReference,
        ImportRules.importLineTarget_of_denied hclicked hqualified hdenied]
      exact .nowhere _ _
    · simp only [resolveReference,
        ImportRules.importLineTarget_of_allowed hclicked hqualified hdenied]
      by_cases hlast : e.imports.language.isOnLastSegment req.context
      · rw [if_pos hlast]
        cases hurl : ImportRules.fileUrl? e.document name 1 with
        | none => exact .nowhere _ _
        | some url => exact .imported hqualified hurl
      · rw [if_neg hlast]
        cases hurl : ImportRules.directoryUrl? e.document name with
        | none => exact .nowhere _ _
        | some url => exact .directory hqualified hurl

theorem resolveResource_leads (subkind shown : Text) : e.Leads req (.resource subkind shown)
    (e.resolveResource req subkind shown).target := by
  cases hf : e.feature? subkind with
  | none =>
    simp only [resolveResource, hf]
    exact .nowhere _ true
  | some f =>
    have htarget : (e.resolveResource req subkind shown).target =
        f.target req.token e.document.url e.settings.rootSegment := by
      simp only [resolveResource, hf]
      split <;> rfl
    rw [htarget, ResourceFeature.target]
    cases hname : f.name? req.token with
    | none => exact .nowhere _ true
    | some name => exact .resource hf hname

theorem resolveInternalCall_leads (name : Text) :
    e.Leads req (.internalCall name) (e.resolveInternalCall req name).target := by
  simp only [resolveInternalCall]
  split
  · next line hline => exact .method hline
  · exact .nowhere _ _
  · split
    · exact onClass_leads rfl
    · exact .nowhere _ _

theorem resolveVariable_leads (name : Text) :
    e.Leads req (.variableUse name) (e.resolveVariable req name).target := by
  simp only [resolveVariable]
  split
  · next line hline => exact .onVariable hline
  · split
    · exact onClass_leads rfl
    · exact .nowhere _ _

theorem resolveExternalCall_leads (receiver method : Text) : e.Leads req
    (.externalCall receiver method) (e.resolveExternalCall req receiver method).target := by
  simp only [resolveExternalCall]
  split
  · exact .nowhere _ _
  · next type htype => exact onClass_leads htype

/-- Whatever a click is taken for, its target comes about in one of the ways listed. -/
theorem resolve_leads (e : Engine) (req : Request) :
    e.Leads req (e.classify req) (e.resolve req).target := by
  show e.Leads req (e.classify req) (e.resolveReference req (e.classify req)).target
  cases e.classify req with
  | resource subkind name => exact resolveResource_leads subkind name
  | importLine => exact importLine_leads
  | internalCall name => exact resolveInternalCall_leads name
  | variableUse name => exact resolveVariable_leads name
  | externalCall receiver method => exact resolveExternalCall_leads receiver method
  | symbol name => exact onClass_leads rfl
  | primitive name => exact .nowhere _ _
  | unclassified => exact .nowhere _ _

end CodeNav.Engine
