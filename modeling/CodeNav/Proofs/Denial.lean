import CodeNav.Proofs.ClassTargets

/-!
Denied prefixes are a filter. An answer is looked for under one full name at most, and it is the
same under every list of prefixes that leaves this name alone (`Engine.guarded_resolve`). Where the
name is denied the answer leads nowhere, and no other name is tried. So with more prefixes denied
an answer stays as it is, or its name starts with a new prefix and the answer leads nowhere.
-/

namespace CodeNav

namespace ImportRules

variable {r : ImportRules} {fewer more : List Text} {name : Text}

def denying (r : ImportRules) (denied : List Text) : ImportRules := { r with denied }

theorem isDenied_iff : r.isDenied name ↔
    (∃ p, (p ∈ alwaysDenied ∨ p ∈ r.denied) ∧ p <+: name) ∨ isDataBinding name := by
  simp only [isDenied, Bool.or_eq_true, List.any_eq_true, List.mem_append,
    List.isPrefixOf_iff_prefix]

theorem isDenied_denying_mono (h : fewer ⊆ more) (hdenied : (r.denying fewer).isDenied name) :
    (r.denying more).isDenied name := by
  rw [isDenied_iff] at hdenied ⊢
  refine hdenied.imp_left fun ⟨p, hp, hname⟩ => ⟨p, hp.imp_right fun hp => ?_, hname⟩
  exact h hp

/-- A name that only the longer list denies starts with a prefix that only it holds. -/
theorem new_of_isDenied_denying (hfewer : ¬(r.denying fewer).isDenied name)
    (hmore : (r.denying more).isDenied name) : ∃ p ∈ more, p ∉ fewer ∧ p <+: name := by
  rw [isDenied_iff, not_or] at hfewer
  rcases isDenied_iff.mp hmore with ⟨p, hp, hname⟩ | hbinding
  · have hp : p ∈ more := hp.resolve_left fun hp => hfewer.1 ⟨p, .inl hp, hname⟩
    exact ⟨p, hp, fun hp => hfewer.1 ⟨p, .inr hp, hname⟩, hname⟩
  · exact absurd hbinding hfewer.2

/-- The full name that a class is looked for under, where the document does not declare it. -/
def soughtName? (r : ImportRules) (symbol : Text) (d : Document) (c : TokenContext) : Option Text :=
  if (r.declaredLine? symbol d).isSome then none
  else r.fullName? (Language.bareName symbol) d c

/-- The answer for a name that is not denied, whose address may be missing. -/
def addressAnswer (newTab : Bool) : Option Text → Target × Status
  | none => (.nowhere newTab, .unresolvedImport)
  | some url => (⟨some url, true⟩, .resolved)

theorem addressAnswer_not_denied (newTab : Bool) (url? : Option Text) :
    (addressAnswer newTab url?).2 ≠ .deniedImport := by
  cases url? <;> simp [addressAnswer]

/-- Rules that differ in what they deny look for a class under the same name. -/
theorem classTarget_denying (r : ImportRules) (symbol : Text) (d : Document) (c : TokenContext) :
    ∃ free : Target × Status, free.2 ≠ .deniedImport ∧ ∀ p,
      (r.denying p).classTarget symbol d c =
        if (r.soughtName? symbol d c).any (r.denying p).isDenied then
          (.nowhere true, .deniedImport)
        else free := by
  unfold soughtName?
  cases hhere : r.declaredLine? symbol d with
  | some line =>
    exact ⟨(⟨some (Url.withLine d.url line), false⟩, .resolved), by simp,
      fun p => classTarget_of_declared (r := r.denying p) hhere⟩
  | none =>
    cases hname : r.fullName? (Language.bareName symbol) d c with
    | none =>
      exact ⟨(.nowhere true, .unresolvedImport), by simp,
        fun p => classTarget_of_unknown (r := r.denying p) hhere hname⟩
    | some name =>
      refine ⟨addressAnswer true (fileUrl? d name 1), addressAnswer_not_denied _ _, fun p => ?_⟩
      by_cases hdenied : (r.denying p).isDenied name
      · rw [classTarget_of_denied (r := r.denying p) hhere hname hdenied]
        exact (if_pos hdenied).symm
      · rw [classTarget_of_allowed (r := r.denying p) hhere hname hdenied]
        exact (if_neg hdenied).symm

/-- The answer to a click on an import line that stands for a name. -/
theorem importLineTarget_eq {d : Document} {c : TokenContext} (hname : r.clickedName? c = some name)
    (hqualified : isQualifiedName name) : r.importLineTarget d c =
      if r.isDenied name then (.nowhere, .deniedImport)
      else addressAnswer false
        (if r.language.isOnLastSegment c then fileUrl? d name 1 else directoryUrl? d name) := by
  by_cases hdenied : r.isDenied name
  · rw [importLineTarget_of_denied hname hqualified hdenied, if_pos hdenied]
  · rw [importLineTarget_of_allowed hname hqualified hdenied, if_neg hdenied]
    rfl

/-- What an import line was clicked for does not depend on what is denied. -/
theorem importLineTarget_denying (r : ImportRules) (d : Document) (c : TokenContext) :
    ∃ free : Target × Status, free.2 ≠ .deniedImport ∧ ∀ p,
      (r.denying p).importLineTarget d c =
        if ((r.clickedName? c).filter isQualifiedName).any (r.denying p).isDenied then
          (.nowhere, .deniedImport)
        else free := by
  cases hname : (r.clickedName? c).filter isQualifiedName with
  | none =>
    exact ⟨(.nowhere, .unresolvedImport), by simp,
      fun p => importLineTarget_of_unnamed (r := r.denying p) hname⟩
  | some name =>
    obtain ⟨hclicked, hqualified⟩ := Option.filter_eq_some_iff.mp hname
    refine ⟨addressAnswer false
      (if r.language.isOnLastSegment c then fileUrl? d name 1 else directoryUrl? d name),
      addressAnswer_not_denied _ _, fun p => ?_⟩
    have hclicked : (r.denying p).clickedName? c = some name := hclicked
    exact importLineTarget_eq hclicked hqualified

end ImportRules

namespace Engine

def denying (e : Engine) (denied : List Text) : Engine :=
  { e with settings := { e.settings with deniedPrefixes := denied } }

@[simp]
theorem denying_document (e : Engine) (p : List Text) : (e.denying p).document = e.document := rfl

@[simp]
theorem denying_language (e : Engine) (p : List Text) : (e.denying p).language = e.language := rfl

@[simp]
theorem denying_variableLine? (e : Engine) (p : List Text) (name : Text) :
    (e.denying p).variableLine? name = e.variableLine? name := rfl

/-- The full name that the answer for a reference is looked for under, where the document itself
does not answer for it. -/
def nameOf? (e : Engine) (req : Request) : Reference → Option Text
  | .importLine => (e.imports.clickedName? req.context).filter isQualifiedName
  | .internalCall method =>
    match Locator.all e.document.lines (e.language.methodPattern method) with
    | [] =>
      if method.isCapitalized then e.imports.soughtName? method e.document req.context else none
    | _ :: _ => none
  | .variableUse name =>
    match e.variableLine? name with
    | none =>
      if name.isCapitalized then e.imports.soughtName? name e.document req.context else none
    | some _ => none
  | .externalCall receiver _ =>
    (Binding.declaredType? e.language receiver e.document.text).bind fun type =>
      e.imports.soughtName? type e.document req.context
  | .symbol name => e.imports.soughtName? name e.document req.context
  | .resource _ _ | .primitive _ | .unclassified => none

def soughtName? (e : Engine) (req : Request) : Option Text := e.nameOf? req (e.classify req)

end Engine

structure Resolution.Denied (r : Resolution) : Prop where
  url : r.target.url = none
  status : r.status = .deniedImport
  refinement : r.refinement = none

namespace Engine

/-- There is one answer for a denied name and one for a name that is not, whatever the prefixes. -/
def Guarded (e : Engine) (name? : Option Text) (answer : Engine → Resolution) : Prop :=
  ∃ blocked free : Resolution, blocked.Denied ∧ free.status ≠ .deniedImport ∧
    ∀ p, answer (e.denying p) =
      if name?.any (e.imports.denying p).isDenied then blocked else free

namespace Guarded

variable {e : Engine} {name? : Option Text} {f g : Engine → Resolution}

/-- An answer that what is denied has no part in. -/
theorem of_const {free : Resolution} (hfree : free.status ≠ .deniedImport)
    (h : ∀ p, f (e.denying p) = free) : e.Guarded none f :=
  ⟨⟨.nowhere, .unclassified, .deniedImport, none, none, none⟩, free, ⟨rfl, rfl, rfl⟩, hfree, h⟩

/-- An answer that takes its target and status from the import rules. -/
theorem of_target {t : ImportRules → Target × Status} {newTab : Bool}
    (ht : ∃ free : Target × Status, free.2 ≠ .deniedImport ∧ ∀ p,
      t (e.imports.denying p) = if name?.any (e.imports.denying p).isDenied then
        (.nowhere newTab, .deniedImport) else free)
    (ref : Reference) (h : ∀ p, f (e.denying p) =
      ⟨(t (e.imports.denying p)).1, ref, (t (e.imports.denying p)).2, none, none, none⟩) :
    e.Guarded name? f := by
  obtain ⟨free, hfree, ht⟩ := ht
  refine ⟨⟨.nowhere newTab, ref, .deniedImport, none, none, none⟩,
    ⟨free.1, ref, free.2, none, none, none⟩, ⟨rfl, rfl, rfl⟩, hfree, fun p => ?_⟩
  rw [h, ht]
  split <;> rfl

theorem congr (hf : e.Guarded name? f) (h : ∀ p, g (e.denying p) = f (e.denying p)) :
    e.Guarded name? g := by
  obtain ⟨blocked, free, hblocked, hfree, hf⟩ := hf
  exact ⟨blocked, free, hblocked, hfree, fun p => (h p).trans (hf p)⟩

/-- A step behind the answer that keeps its status and finds nothing where it leads nowhere. -/
theorem map (hf : e.Guarded name? f) {k : Resolution → Resolution}
    (hdenied : ∀ r, r.Denied → (k r).Denied) (hstatus : ∀ r, (k r).status = r.status)
    (h : ∀ p, g (e.denying p) = k (f (e.denying p))) : e.Guarded name? g := by
  obtain ⟨blocked, free, hblocked, hfree, hf⟩ := hf
  refine ⟨k blocked, k free, hdenied blocked hblocked, by rwa [hstatus], fun p => ?_⟩
  rw [h, hf, apply_ite k]

end Guarded

theorem unresolved_not_denied (r : Reference) : (unresolved r).status ≠ .deniedImport := by
  simp [unresolved]

theorem onLine_not_denied (e : Engine) (r : Reference) (line : Int) :
    (e.onLine r line).status ≠ .deniedImport := by
  simp [onLine]

theorem guarded_onClass (e : Engine) (r : Reference) (name : Text) (c : TokenContext) :
    e.Guarded (e.imports.soughtName? name e.document c) fun e => e.onClass r name c :=
  .of_target (t := fun rules => rules.classTarget name e.document c)
    (e.imports.classTarget_denying name e.document c) r fun _ => rfl

theorem guarded_importLine (e : Engine) (req : Request) :
    e.Guarded (e.nameOf? req .importLine) fun e => e.resolveReference req .importLine :=
  .of_target (t := fun rules => rules.importLineTarget e.document req.context)
    (e.imports.importLineTarget_denying e.document req.context) .importLine fun _ => rfl

/-- A name that the document says nothing about is taken for a class if it is capitalized. -/
theorem guarded_capitalized (e : Engine) (r : Reference) (name : Text) (c : TokenContext) :
    e.Guarded (if name.isCapitalized then e.imports.soughtName? name e.document c else none)
      fun e => if name.isCapitalized then e.onClass r name c else unresolved r := by
  by_cases hcap : name.isCapitalized
  · simp only [hcap, if_true]
    exact e.guarded_onClass r name c
  · simp only [hcap]
    exact .of_const (unresolved_not_denied r) fun p => rfl

theorem guarded_resolveInternalCall (e : Engine) (req : Request) (method : Text) :
    e.Guarded (e.nameOf? req (.internalCall method)) fun e => e.resolveInternalCall req method := by
  simp only [nameOf?]
  cases hlines : Locator.all e.document.lines (e.language.methodPattern method) with
  | nil =>
    refine (e.guarded_capitalized (.internalCall method) method req.context).congr fun p => ?_
    simp only [resolveInternalCall, denying_document, denying_language, hlines]
  | cons line lines =>
    cases lines with
    | nil =>
      refine .of_const (e.onLine_not_denied (.internalCall method) line) fun p => ?_
      simp only [resolveInternalCall, denying_document, denying_language, hlines]
      rfl
    | cons =>
      have hfree : (⟨.nowhere, .internalCall method, .ambiguousDefinition,
        some multipleDefinitions, none, none⟩ : Resolution).status ≠ .deniedImport := by simp
      refine .of_const hfree fun p => ?_
      simp only [resolveInternalCall, denying_document, denying_language, hlines]

theorem guarded_resolveVariable (e : Engine) (req : Request) (name : Text) :
    e.Guarded (e.nameOf? req (.variableUse name)) fun e => e.resolveVariable req name := by
  simp only [nameOf?]
  cases hline : e.variableLine? name with
  | none =>
    refine (e.guarded_capitalized (.variableUse name) name req.context).congr fun p => ?_
    simp only [resolveVariable, denying_variableLine?, hline]
  | some line =>
    refine .of_const (e.onLine_not_denied (.variableUse name) line) fun p => ?_
    simp only [resolveVariable, denying_variableLine?, hline]
    rfl

theorem guarded_resolveExternalCall (e : Engine) (req : Request) (receiver method : Text) :
    e.Guarded (e.nameOf? req (.externalCall receiver method)) fun e =>
      e.resolveExternalCall req receiver method := by
  simp only [nameOf?]
  cases htype : Binding.declaredType? e.language receiver e.document.text with
  | none =>
    refine .of_const (unresolved_not_denied (.externalCall receiver method)) fun p => ?_
    simp only [resolveExternalCall, denying_document, denying_language, htype]
  | some type =>
    -- The method is looked for in the file of the class; without an address nothing is fetched.
    let follow (a : Resolution) : Resolution :=
      { a with refinement :=
          if e.settings.followMethods then
            a.target.url.map fun url => ⟨url, e.language.methodPattern method⟩
          else none }
    have hfollow (p : List Text) : (e.denying p).resolveExternalCall req receiver method =
        follow ((e.denying p).onClass (.externalCall receiver method) type req.context) := by
      simp only [resolveExternalCall, denying_document, denying_language, htype]
      rfl
    refine (e.guarded_onClass _ type req.context).map (k := follow) (fun r hr => ?_)
      (fun _ => rfl) hfollow
    exact ⟨hr.url, hr.status, by simp [follow, hr.url]⟩

theorem resolveResource_not_denied (e : Engine) (req : Request) (subkind name : Text) :
    (e.resolveResource req subkind name).status ≠ .deniedImport := by
  simp only [resolveResource]
  split
  · simp
  · split <;> simp

theorem guarded_resolveReference (e : Engine) (req : Request) (r : Reference) :
    e.Guarded (e.nameOf? req r) fun e => e.resolveReference req r := by
  cases r with
  | resource subkind name =>
    exact .of_const (e.resolveResource_not_denied req subkind name) fun p => rfl
  | primitive name =>
    have hfree : (e.resolveReference req (.primitive name)).status ≠ .deniedImport := by
      simp [resolveReference]
    exact .of_const hfree fun p => rfl
  | unclassified =>
    have hfree : (e.resolveReference req .unclassified).status ≠ .deniedImport := by
      simp [resolveReference]
    exact .of_const hfree fun p => rfl
  | importLine => exact e.guarded_importLine req
  | symbol name => exact e.guarded_onClass (.symbol name) name req.context
  | externalCall receiver method => exact e.guarded_resolveExternalCall req receiver method
  | internalCall method => exact e.guarded_resolveInternalCall req method
  | variableUse name => exact e.guarded_resolveVariable req name

theorem guarded_resolve (e : Engine) (req : Request) :
    e.Guarded (e.soughtName? req) fun e => e.resolve req :=
  (e.guarded_resolveReference req (e.classify req)).map
    (k := fun r => { r with snapshot := some e.document.snapshot })
    (fun _ hr => ⟨hr.url, hr.status, hr.refinement⟩) (fun _ => rfl) (fun _ => rfl)

/-- A request is denied exactly if the name that its answer is looked for under is. -/
theorem resolve_status_eq_deniedImport_iff (e : Engine) (req : Request) :
    (e.resolve req).status = .deniedImport ↔
      ∃ name, e.soughtName? req = some name ∧ e.imports.isDenied name := by
  obtain ⟨blocked, free, hblocked, hfree, h⟩ := e.guarded_resolve req
  have h : e.resolve req =
      if (e.soughtName? req).any e.imports.isDenied then blocked else free :=
    h e.settings.deniedPrefixes
  rw [h, ← Option.any_eq_true]
  by_cases hname : (e.soughtName? req).any e.imports.isDenied
  · simp [hname, hblocked.status]
  · simp [hname, hfree]

theorem resolve_eq_or_denied (e : Engine) (req : Request) {fewer more : List Text}
    (h : fewer ⊆ more) : (e.denying more).resolve req = (e.denying fewer).resolve req ∨
      ((e.denying more).resolve req).Denied ∧ ∃ name, e.soughtName? req = some name ∧
        ∃ p ∈ more, p ∉ fewer ∧ p <+: name := by
  obtain ⟨blocked, free, hblocked, hfree, hanswer⟩ := e.guarded_resolve req
  dsimp only at hanswer
  rw [hanswer, hanswer]
  cases e.soughtName? req with
  | none => exact .inl rfl
  | some name =>
    simp only [Option.any_some]
    by_cases hfewer : (e.imports.denying fewer).isDenied name
    · have hmore := ImportRules.isDenied_denying_mono h hfewer
      simp only [hfewer, hmore, if_true, true_or]
    · by_cases hmore : (e.imports.denying more).isDenied name
      · simp only [hmore, if_true]
        exact .inr ⟨hblocked, name, rfl, ImportRules.new_of_isDenied_denying hfewer hmore⟩
      · simp only [hfewer, hmore, true_or]

/-- With more prefixes denied an answer stays as it is, unless the name it is looked for under
starts with one of the new prefixes. Then it leads nowhere. Under any prefixes a request is denied
exactly if this name is. -/
theorem resolve_denying (e : Engine) (req : Request) {fewer more : List Text} (h : fewer ⊆ more) :
    ((e.denying more).resolve req = (e.denying fewer).resolve req ∨
      (((e.denying more).resolve req).status = .deniedImport ∧
        ((e.denying more).resolve req).target.url = none ∧
        ((e.denying more).resolve req).refinement = none ∧
        ∃ name, (e.denying fewer).soughtName? req = some name ∧
          ∃ p ∈ more, p ∉ fewer ∧ p <+: name)) ∧
      ∀ denied, ((e.denying denied).resolve req).status = .deniedImport ↔
        ∃ name, (e.denying denied).soughtName? req = some name ∧
          (e.denying denied).imports.isDenied name := by
  refine ⟨?_, fun denied => (e.denying denied).resolve_status_eq_deniedImport_iff req⟩
  refine (e.resolve_eq_or_denied req h).imp_right fun ⟨hdenied, hname⟩ => ?_
  exact ⟨hdenied.status, hdenied.url, hdenied.refinement, hname⟩

def vendorPage : Engine :=
  ⟨.ofText "package p\n\nimport com.vendor.Widget\n\nval w = Widget\n"
    "https://github.com/o/r/blob/main/src/p/Main.kt" "now", .kotlin, [], {}⟩

def onWidget : Request :=
  ⟨"Widget", ⟨["val", " ", "w", " ", "=", " "], "Widget", [], none, none⟩, none⟩

theorem resolve_denying_widget :
    let sought := (vendorPage.denying []).resolve onWidget
    let denied := (vendorPage.denying ["com.vendor."]).resolve onWidget
    ([] : List Text) ⊆ ["com.vendor."] ∧
      sought.status = .resolved ∧
      sought.target.url = some "https://github.com/o/r/blob/main/src/com/vendor/Widget.kt#L1" ∧
      denied.status = .deniedImport ∧ denied.target.url = none ∧ denied.refinement = none ∧
      (vendorPage.denying []).soughtName? onWidget = some "com.vendor.Widget" := by
  intro sought denied
  obtain ⟨hchange, hstatus⟩ := vendorPage.resolve_denying onWidget
    (List.nil_subset ["com.vendor.".toList])
  have hsought : sought.status = .resolved := by decide +kernel
  have hdenied : denied.status = .deniedImport :=
    (hstatus ["com.vendor."]).mpr ⟨"com.vendor.Widget", by decide +kernel, by decide +kernel⟩
  refine ⟨List.nil_subset _, hsought, by decide +kernel, hdenied, ?_, ?_, by decide +kernel⟩
  all_goals
    rcases hchange with hsame | ⟨-, hurl, hrefinement, -⟩
    · exact nomatch hsought.symm.trans ((congrArg Resolution.status hsame).symm.trans hdenied)
    · assumption

end Engine

end CodeNav
