import CodeNav.Engine

namespace CodeNav

/-- The parts of an answer fit together, where files may be fetched as `follows` says. -/
structure Resolution.Coherent (follows : Bool) (r : Resolution) : Prop where
  clickable_iff : r.target.url.isSome ↔ r.status = .resolved
  primitive_iff : r.status = .primitive ↔ ∃ name, r.reference = .primitive name
  unclassified_iff : r.status = .unclassified ↔ r.reference = .unclassified
  diagnostic_iff : r.diagnostic.isSome ↔ r.status = .ambiguousDefinition
  internalCall_of_ambiguous : r.status = .ambiguousDefinition → ∃ m, r.reference = .internalCall m
  alive : r.status ≠ .deadLink
  refinement : r.refinement.isSome → r.status = .resolved ∧ follows = true

/-- A second step fetches the file that the link leads to. -/
def Resolution.StaysInFile (r : Resolution) : Prop :=
  ∀ x, r.refinement = some x → r.target.url = some x.fetchUrl

/-- All second steps of a kind fetch the files of their targets. -/
def ResourceFeature.StaysInFile (f : ResourceFeature) : Prop :=
  ∀ token t x, f.refinement? token t = some x → t.url = some x.fetchUrl

theorem ResourceFeature.staysInFile_ofFiles (subkind directory extension : Text) :
    (ofFiles subkind directory extension).StaysInFile :=
  fun _ _ _ h => nomatch h

theorem ResourceFeature.staysInFile_string : string.StaysInFile := by
  intro token t x h
  obtain ⟨name, -, h⟩ := Option.bind_eq_some_iff.mp h
  obtain ⟨url, hurl, h⟩ := Option.bind_eq_some_iff.mp h
  obtain rfl := Option.some.inj h
  exact hurl

theorem ResourceFeature.staysInFile_builtIn {p : Text × ResourceFeature} (hp : p ∈ builtIn) :
    p.2.StaysInFile := by
  simp only [builtIn, List.mem_cons, List.not_mem_nil, or_false] at hp
  rcases hp with rfl | rfl | rfl
  · exact staysInFile_ofFiles "layout" "res/layout" "xml"
  · exact staysInFile_ofFiles "menu" "res/menu" "xml"
  · exact staysInFile_string

def Reference.IsLookedUp (r : Reference) : Prop := (∀ name, r ≠ .primitive name) ∧ r ≠ .unclassified

/-- How looking something up ends: with an address, or without one and a status that says why. -/
inductive Resolution.LookedUp : Target → Status → Prop where
  | found (url : Text) (newTab : Bool) : LookedUp ⟨some url, newTab⟩ .resolved
  | unresolvedImport (newTab : Bool) : LookedUp (.nowhere newTab) .unresolvedImport
  | deniedImport (newTab : Bool) : LookedUp (.nowhere newTab) .deniedImport
  | unresolvedDefinition (newTab : Bool) : LookedUp (.nowhere newTab) .unresolvedDefinition

namespace Resolution

theorem LookedUp.coherent {t : Target} {s : Status} (h : LookedUp t s) {ref : Reference}
    (href : ref.IsLookedUp) {follows : Bool} {f : Option Refinement}
    (hf : f.isSome → follows = true ∧ t.url.isSome) :
    Coherent follows { target := t, reference := ref, status := s, refinement := f } := by
  have hprim : ¬∃ name, ref = .primitive name := fun ⟨name, hname⟩ => href.1 name hname
  have hresolved : f.isSome → s = .resolved := by
    intro hsome
    have hurl := (hf hsome).2
    cases h with
    | found => rfl
    | _ => cases hurl
  refine ⟨?_, ?_, ?_, ?_, ?_, ?_, fun hsome => ⟨hresolved hsome, (hf hsome).1⟩⟩
  all_goals cases h <;> simp [Target.nowhere, hprim, href.2]

theorem Coherent.withSnapshot {follows : Bool} {r : Resolution} (h : r.Coherent follows)
    (s : Option Text) : Coherent follows { r with snapshot := s } :=
  ⟨h.clickable_iff, h.primitive_iff, h.unclassified_iff, h.diagnostic_iff,
    h.internalCall_of_ambiguous, h.alive, h.refinement⟩

end Resolution

namespace ImportRules

open Resolution (LookedUp)

theorem classTarget_lookedUp (r : ImportRules) (symbol : Text) (d : Document) (c : TokenContext) :
    LookedUp (r.classTarget symbol d c).1 (r.classTarget symbol d c).2 := by
  unfold classTarget
  dsimp only
  split
  · exact .found _ _
  · split
    · exact .unresolvedImport _
    · split
      · exact .deniedImport _
      · split
        · exact .unresolvedImport _
        · exact .found _ _

theorem importLineTarget_lookedUp (r : ImportRules) (d : Document) (c : TokenContext) :
    LookedUp (r.importLineTarget d c).1 (r.importLineTarget d c).2 := by
  unfold importLineTarget
  split
  · exact .unresolvedImport _
  · split
    · exact .deniedImport _
    · dsimp only
      split
      · exact .unresolvedImport _
      · exact .found _ _

end ImportRules

namespace Classifier

theorem externalCall?_eq_some {req : Request} {r : Reference} (h : externalCall? req = some r) :
    ∃ method token receiver, calledOn? req = some (method, some token) ∧
      receiver? token = some receiver ∧ r = .externalCall receiver method := by
  unfold externalCall? at h
  obtain ⟨-, -, h⟩ := Option.bind_eq_some_iff.mp h
  obtain ⟨⟨method, on⟩, hcalled, h⟩ := Option.bind_eq_some_iff.mp h
  obtain ⟨token, hon, h⟩ := Option.bind_eq_some_iff.mp h
  obtain ⟨receiver, hreceiver, h⟩ := Option.bind_eq_some_iff.mp h
  have hr : r = .externalCall receiver method := (Option.some.inj h).symm
  obtain rfl : on = some token := hon
  exact ⟨method, token, receiver, hcalled, hreceiver, hr⟩

/-- What a click can be taken for, and what the rule that takes it for that has found. -/
inductive Rule (l : Language) (features : List ResourceFeature) (req : Request) : Reference → Prop
  where
  | primitive (h : l.isPrimitive req.token.trim) :
      Rule l features req (.primitive (Text.erase '?' req.token.trim))
  | resource {f : ResourceFeature} (h : feature? features req = some f) :
      Rule l features req (.resource f.subkind ((f.name? req.token.trim).getD []))
  | menu (h : req.context.previous = some menuMarker) :
      Rule l features req (.resource "menu" ((resourceName? req.token.trim "menu").getD []))
  | importLine (h : isImportLine req.context.lineText) : Rule l features req .importLine
  | internalCall (h : isInternalCall req) : Rule l features req (.internalCall req.token.trim)
  | variableUse (h : isVariable req) : Rule l features req (.variableUse req.token.trim)
  | externalCall {receiver method : Text} (himport : isImportLine req.context.lineText = false)
      (h : externalCall? req = some (.externalCall receiver method)) :
      Rule l features req (.externalCall receiver method)
  | symbol : Rule l features req (.symbol req.token.trim)
  | unclassified : Rule l features req .unclassified

theorem rule_classify (l : Language) (features : List ResourceFeature) (req : Request)
    (d : Document) : Rule l features req (classify l features req d) := by
  unfold classify
  dsimp only
  split
  · next hprimitive => exact .primitive hprimitive
  split
  · next f hf => exact .resource hf
  split
  · next hmenu => exact .menu hmenu
  split
  · next himport => exact .importLine himport
  next himport =>
    split
    · next hcall => exact .internalCall hcall
    split
    · next hvariable => exact .variableUse hvariable
    split
    · next x hx =>
      obtain ⟨method, token, receiver, -, -, rfl⟩ := externalCall?_eq_some hx
      exact .externalCall (by simpa using himport) hx
    · split
      · exact .unclassified
      · exact .symbol

end Classifier

namespace Engine

open Resolution

theorem onLine_coherent (e : Engine) {r : Reference} (hr : r.IsLookedUp) (line : Int)
    (follows : Bool) : (e.onLine r line).Coherent follows :=
  (LookedUp.found _ _).coherent hr (fun h => by cases h)

theorem onClass_coherent (e : Engine) {r : Reference} (hr : r.IsLookedUp) (name : Text)
    (c : TokenContext) (follows : Bool) : (e.onClass r name c).Coherent follows :=
  (e.imports.classTarget_lookedUp name e.document c).coherent hr (fun h => by cases h)

theorem unresolved_coherent {r : Reference} (hr : r.IsLookedUp) (follows : Bool) :
    (unresolved r).Coherent follows :=
  (LookedUp.unresolvedDefinition _).coherent hr (fun h => by cases h)

theorem resolveResource_coherent (e : Engine) (req : Request) {subkind : Text} (name : Text)
    (hf : (e.feature? subkind).isSome) :
    (e.resolveResource req subkind name).Coherent e.settings.followMethods := by
  obtain ⟨f, hf⟩ := Option.isSome_iff_exists.mp hf
  have href : (Reference.resource subkind name).IsLookedUp := by simp [Reference.IsLookedUp]
  simp only [resolveResource, hf]
  cases ht : f.target req.token e.document.url e.settings.rootSegment with
  | mk url newTab =>
    cases url with
    | none => exact (LookedUp.unresolvedDefinition newTab).coherent href (fun h => by cases h)
    | some url =>
      refine (LookedUp.found url newTab).coherent href fun hsome => ⟨?_, rfl⟩
      by_cases hfollows : e.settings.followMethods
      · exact hfollows
      · rw [if_neg hfollows] at hsome
        cases hsome

theorem resolveInternalCall_coherent (e : Engine) (req : Request) (method : Text)
    (follows : Bool) : (e.resolveInternalCall req method).Coherent follows := by
  have href : (Reference.internalCall method).IsLookedUp := by simp [Reference.IsLookedUp]
  unfold resolveInternalCall
  dsimp only
  split
  · exact e.onLine_coherent href _ follows
  · constructor <;> simp [Target.nowhere]
  · split
    · exact e.onClass_coherent href method req.context follows
    · exact unresolved_coherent href follows

theorem resolveVariable_coherent (e : Engine) (req : Request) (name : Text) (follows : Bool) :
    (e.resolveVariable req name).Coherent follows := by
  have href : (Reference.variableUse name).IsLookedUp := by simp [Reference.IsLookedUp]
  unfold resolveVariable
  dsimp only
  split
  · exact e.onLine_coherent href _ follows
  · split
    · exact e.onClass_coherent href name req.context follows
    · exact unresolved_coherent href follows

theorem resolveExternalCall_coherent (e : Engine) (req : Request) (receiver method : Text) :
    (e.resolveExternalCall req receiver method).Coherent e.settings.followMethods := by
  have href : (Reference.externalCall receiver method).IsLookedUp := by simp [Reference.IsLookedUp]
  unfold resolveExternalCall
  dsimp only
  split
  · exact unresolved_coherent href _
  · next type _ =>
    have hlooked := e.imports.classTarget_lookedUp type e.document req.context
    refine hlooked.coherent href fun hsome => ?_
    by_cases hfollows : e.settings.followMethods
    · rw [if_pos hfollows, Option.isSome_map] at hsome
      exact ⟨hfollows, hsome⟩
    · rw [if_neg hfollows] at hsome
      cases hsome

theorem feature?_isSome_of_mem {e : Engine} {f : ResourceFeature} (hf : f ∈ e.features) :
    (e.feature? f.subkind).isSome := by
  have hfind : (e.features.reverse.find? (·.subkind = f.subkind)).isSome :=
    List.find?_isSome.mpr ⟨f, List.mem_reverse.mpr hf, by simp⟩
  obtain ⟨g, hg⟩ := Option.isSome_iff_exists.mp hfind
  simp [feature?, hg]

theorem mem_features_of_feature? {e : Engine} {subkind : Text} {f : ResourceFeature}
    (hf : e.feature? subkind = some f) : f ∈ e.features ∧ f.subkind = subkind ∨ f = .menu := by
  unfold feature? at hf
  split at hf
  · next g hfind =>
    obtain rfl := Option.some.inj hf
    have hkind := List.find?_some hfind
    exact .inl ⟨List.mem_reverse.mp (List.mem_of_find?_eq_some hfind), of_decide_eq_true hkind⟩
  · split at hf
    · exact .inr (Option.some.inj hf).symm
    · cases hf

theorem feature?_menu_isSome (e : Engine) : (e.feature? "menu").isSome := by
  unfold feature?
  split <;> simp

/-- The kind of a resource that a token is taken for is always at hand. -/
theorem feature?_isSome_of_classify {e : Engine} {req : Request} {subkind name : Text}
    (h : e.classify req = .resource subkind name) : (e.feature? subkind).isSome := by
  have hrule := Classifier.rule_classify e.language e.features req e.document
  rw [show Classifier.classify e.language e.features req e.document = _ from h] at hrule
  cases hrule with
  | resource hf => exact feature?_isSome_of_mem (List.mem_of_find?_eq_some hf)
  | menu => exact e.feature?_menu_isSome

theorem resolveReference_coherent (e : Engine) (req : Request) {r : Reference}
    (hr : ∀ s n, r = .resource s n → (e.feature? s).isSome) :
    (e.resolveReference req r).Coherent e.settings.followMethods := by
  cases r with
  | resource subkind name => exact e.resolveResource_coherent req name (hr _ _ rfl)
  | importLine =>
    exact (e.imports.importLineTarget_lookedUp e.document req.context).coherent
      (by simp [Reference.IsLookedUp]) (fun h => by cases h)
  | internalCall method => exact e.resolveInternalCall_coherent req method _
  | variableUse name => exact e.resolveVariable_coherent req name _
  | externalCall receiver method => exact e.resolveExternalCall_coherent req receiver method
  | symbol name => exact e.onClass_coherent (by simp [Reference.IsLookedUp]) name req.context _
  | primitive name => constructor <;> simp [resolveReference, Target.nowhere]
  | unclassified => constructor <;> simp [resolveReference, Target.nowhere]

theorem resolveReference_reference (e : Engine) (req : Request) (r : Reference) :
    (e.resolveReference req r).reference = r := by
  cases r with
  | resource subkind name =>
    simp only [resolveReference, resolveResource]
    split
    · rfl
    · split <;> rfl
  | internalCall method =>
    simp only [resolveReference, resolveInternalCall]
    split
    · rfl
    · rfl
    · split <;> rfl
  | variableUse name =>
    simp only [resolveReference, resolveVariable]
    split
    · rfl
    · split <;> rfl
  | externalCall receiver method =>
    simp only [resolveReference, resolveExternalCall]
    split <;> rfl
  | importLine | primitive name | symbol name | unclassified => rfl

theorem coherent_resolve (e : Engine) (req : Request) :
    (e.resolve req).Coherent e.settings.followMethods :=
  (e.resolveReference_coherent req fun _ _ h => feature?_isSome_of_classify h).withSnapshot _

/-- A second step fetches the file of the target, or a kind in use has asked for it. -/
theorem resolveReference_refinement (e : Engine) (req : Request) {r : Reference} {x : Refinement}
    (h : (e.resolveReference req r).refinement = some x) :
    (e.resolveReference req r).target.url = some x.fetchUrl ∨
      ∃ f ∈ e.features, (∃ name, r = .resource f.subkind name) ∧
        f.refinement? req.token (e.resolveReference req r).target = some x := by
  cases r with
  | resource subkind name =>
    simp only [resolveReference, resolveResource] at h ⊢
    cases hf : e.feature? subkind with
    | none => simp [hf] at h
    | some f =>
      simp only [hf] at h ⊢
      by_cases hclick : (f.target req.token e.document.url e.settings.rootSegment).isClickable
      · simp only [hclick, if_true] at h ⊢
        split at h
        · rcases mem_features_of_feature? hf with ⟨hmem, rfl⟩ | rfl
          · exact .inr ⟨f, hmem, ⟨name, rfl⟩, h⟩
          -- The menu kind that is not in use has no second steps.
          · cases h
        · cases h
      · simp [hclick] at h
  | externalCall receiver method =>
    simp only [resolveReference, resolveExternalCall] at h ⊢
    cases htype : Binding.declaredType? e.language receiver e.document.text with
    | none => simp [htype, unresolved] at h
    | some type =>
      simp only [htype] at h ⊢
      split at h
      · obtain ⟨url, hurl, rfl⟩ := Option.map_eq_some_iff.mp h
        exact .inl hurl
      · cases h
  | internalCall method =>
    simp only [resolveReference, resolveInternalCall] at h
    split at h
    · cases h
    · cases h
    · split at h <;> cases h
  | variableUse name =>
    simp only [resolveReference, resolveVariable] at h
    split at h
    · cases h
    · split at h <;> cases h
  | importLine | symbol | primitive | unclassified => cases h

theorem resolve_refinement (e : Engine) (req : Request) (x : Refinement)
    (h : (e.resolve req).refinement = some x) :
    (e.resolve req).target.url = some x.fetchUrl ∨
      ∃ f ∈ e.features, (∃ name, (e.resolve req).reference = .resource f.subkind name) ∧
        f.refinement? req.token (e.resolve req).target = some x := by
  rcases e.resolveReference_refinement req h with hurl | ⟨f, hf, ⟨name, hkind⟩, hstep⟩
  · exact .inl hurl
  · have hreference : (e.resolve req).reference = e.classify req :=
      e.resolveReference_reference req (e.classify req)
    exact .inr ⟨f, hf, ⟨name, hreference.trans hkind⟩, hstep⟩

theorem resolve_staysInFile (e : Engine) (he : ∀ f ∈ e.features, f.StaysInFile) (req : Request) :
    (e.resolve req).StaysInFile := by
  intro x hx
  rcases e.resolve_refinement req x hx with hurl | ⟨f, hf, -, hstep⟩
  · exact hurl
  · exact he f hf _ _ _ hstep

end Engine

namespace Resolution

/-- Refining moves the target of an answer and keeps the rest. -/
structure Moved (r m : Resolution) : Prop where
  status : m.status = r.status
  reference : m.reference = r.reference
  diagnostic : m.diagnostic = r.diagnostic
  refinement : m.refinement = r.refinement
  clickable_iff : m.target.url.isSome ↔ r.target.url.isSome

theorem refine_moved (r : Resolution) (t : Text) : r.Moved (r.refine t) := by
  unfold refine
  split
  · next f url _ hurl =>
    split
    · exact ⟨rfl, rfl, rfl, rfl, by simp [hurl]⟩
    · exact ⟨rfl, rfl, rfl, rfl, Iff.rfl⟩
  · exact ⟨rfl, rfl, rfl, rfl, Iff.rfl⟩

end Resolution

namespace Engine

/-- Every answer of every engine is coherent, the kind of a resource that a token is taken for is
at hand, and refining an answer with any text moves no more than its target. A second step that does
not fetch the file of the target is the one that a kind in use asks for, so there is none when all
of them stay in their files. -/
theorem resolve_coherent (e : Engine) :
    (∀ req, (e.resolve req).Coherent e.settings.followMethods) ∧
      (∀ req x, (e.resolve req).refinement = some x →
        (e.resolve req).target.url = some x.fetchUrl ∨
          ∃ f ∈ e.features, (∃ name, (e.resolve req).reference = .resource f.subkind name) ∧
            f.refinement? req.token (e.resolve req).target = some x) ∧
      ((∀ f ∈ e.features, f.StaysInFile) → ∀ req, (e.resolve req).StaysInFile) ∧
      (∀ req s n, e.classify req = .resource s n → (e.feature? s).isSome) ∧
      ∀ (r : Resolution) (t : Text), r.Moved (r.refine t) := by
  exact ⟨e.coherent_resolve, e.resolve_refinement, e.resolve_staysInFile,
    fun req s n h => feature?_isSome_of_classify h, Resolution.refine_moved⟩

/-- A page that names a string and a color, with these kinds of resources in use. -/
def valuesEngine (features : List ResourceFeature) : Engine where
  document := .ofText "val title = R.string.title\nval sky = R.color.sky"
    "https://github.com/o/r/blob/dev/app/src/main/java/Main.kt" "now"
  language := .kotlin
  features := features

def titleClick : Request :=
  ⟨".title", ⟨["val", " ", "title", " ", "=", " ", "R", ".string"], ".title", [], none, none⟩, none⟩

def skyClick : Request :=
  ⟨".sky", ⟨["val", " ", "sky", " ", "=", " ", "R", ".color"], ".sky", [], none, none⟩, none⟩

theorem resolve_coherent_string : ∃ x,
    ((valuesEngine [.string]).resolve titleClick).refinement = some x ∧
      ((valuesEngine [.string]).resolve titleClick).status = .resolved ∧
      ((valuesEngine [.string]).resolve titleClick).target.url = some x.fetchUrl := by
  have hkinds : ∀ f ∈ (valuesEngine [.string]).features, f.StaysInFile :=
    List.forall_mem_singleton.mpr ResourceFeature.staysInFile_string
  have hstep : ((valuesEngine [.string]).resolve titleClick).refinement.isSome := by
    decide +kernel
  obtain ⟨hcoherent, -, hstays, -, -⟩ := resolve_coherent (valuesEngine [.string])
  obtain ⟨x, hx⟩ := Option.isSome_iff_exists.mp hstep
  exact ⟨x, hx, ((hcoherent titleClick).refinement hstep).1, hstays hkinds titleClick x hx⟩

/-- A kind from outside that looks for the entry in the plain view of the file. -/
def colorKind : ResourceFeature where
  subkind := "color"
  path _ := "res/values/colors.xml"
  refinement? _ target := target.url.map fun url => ⟨url ++ "?plain=1", .many .any⟩

/-- The second step of a kind is passed on as it is, also where it fetches another address than the
one that is linked. -/
theorem resolve_fetches_elsewhere : ∃ x,
    ((valuesEngine [colorKind]).resolve skyClick).refinement = some x ∧
      ((valuesEngine [colorKind]).resolve skyClick).target.url =
        some "https://github.com/o/r/blob/dev/app/src/main/res/values/colors.xml" ∧
      x.fetchUrl =
        "https://github.com/o/r/blob/dev/app/src/main/res/values/colors.xml?plain=1".toList := by
  have hstep : ((valuesEngine [colorKind]).resolve skyClick).refinement.map (·.fetchUrl) =
      some "https://github.com/o/r/blob/dev/app/src/main/res/values/colors.xml?plain=1".toList := by
    decide +kernel
  obtain ⟨x, hx, hfetch⟩ := Option.map_eq_some_iff.mp hstep
  exact ⟨x, hx, by decide +kernel, hfetch⟩

end Engine

end CodeNav
