import CodeNav.Proofs.Answers
import CodeNav.Proofs.Receivers

namespace CodeNav

def CodeLine.lowered (k : Nat) (l : CodeLine) : CodeLine := { l with number := l.number + k }

/-- A page that shows the lines of another one `k` lines further down, behind blank lines. -/
structure Document.Lowered (k : Nat) (d d' : Document) : Prop where
  url : d'.url = d.url
  imports : d'.imports = d.imports
  lines : ∃ blanks, (∀ l ∈ blanks, Text.isBlank l.text) ∧
    d'.lines = blanks ++ d.lines.map (·.lowered k)
  numbered : ∀ l ∈ d.lines, 0 < l.number
  declaredType : ∀ l name, isWordRun name →
    Binding.declaredType? l name d'.text = Binding.declaredType? l name d.text

namespace Document.Lowered

variable {k : Nat} {d d' : Document}

theorem lineMatches_of_isBlank (p : Pattern) {l : CodeLine} (h : Text.isBlank l.text) :
    Locator.lineMatches p l = false := by
  simp [Locator.lineMatches, h]

theorem first? (h : d.Lowered k d') (p : Pattern) :
    Locator.first? d'.lines p = (Locator.first? d.lines p).map (· + (k : Int)) := by
  obtain ⟨blanks, hblanks, hlines⟩ := h.lines
  have hnone : blanks.find? (Locator.lineMatches p) = none :=
    List.find?_eq_none.mpr fun l hl => by simp [lineMatches_of_isBlank p (hblanks l hl)]
  have hsame : Locator.lineMatches p ∘ CodeLine.lowered k = Locator.lineMatches p := rfl
  unfold Locator.first?
  rw [hlines, List.find?_append, hnone, Option.none_or, List.find?_map, hsame, Option.map_map,
    Option.map_map]
  rfl

theorem all (h : d.Lowered k d') (p : Pattern) :
    Locator.all d'.lines p = (Locator.all d.lines p).map (· + (k : Int)) := by
  obtain ⟨blanks, hblanks, hlines⟩ := h.lines
  have hnone : blanks.filter (Locator.lineMatches p) = [] :=
    List.filter_eq_nil_iff.mpr fun l hl => by simp [lineMatches_of_isBlank p (hblanks l hl)]
  have hsame : Locator.lineMatches p ∘ CodeLine.lowered k = Locator.lineMatches p := rfl
  unfold Locator.all
  rw [hlines, List.filter_append, hnone, List.nil_append, List.filter_map, hsame, List.map_map,
    List.map_map]
  rfl

/-- An anchor can name every line of a page whose lines are numbered from one on. -/
theorem anchor?_eq_first? {lines : List CodeLine} (h : ∀ l ∈ lines, 0 < l.number) (p : Pattern) :
    Locator.anchor? lines p = Locator.first? lines p := by
  unfold Locator.anchor?
  cases hfirst : Locator.first? lines p with
  | none => rfl
  | some n =>
    obtain ⟨l, hl, rfl⟩ := Option.map_eq_some_iff.mp hfirst
    simp [h l (List.mem_of_find?_eq_some hl)]

theorem anchor? (h : d.Lowered k d') (p : Pattern) :
    Locator.anchor? d'.lines p = (Locator.anchor? d.lines p).map (· + (k : Int)) := by
  have hfirst : (Locator.first? d'.lines p).filter (0 < ·) = Locator.first? d'.lines p := by
    rw [h.first?]
    cases hold : Locator.first? d.lines p with
    | none => rfl
    | some n =>
      obtain ⟨l, hl, rfl⟩ := Option.map_eq_some_iff.mp hold
      have hpos := h.numbered l (List.mem_of_find?_eq_some hl)
      have hlow : 0 < l.number + (k : Int) := by omega
      simp [hlow]
  rw [anchor?_eq_first? h.numbered, ← h.first?]
  exact hfirst

theorem declaredLine? (h : d.Lowered k d') (r : ImportRules) (symbol : Text) :
    r.declaredLine? symbol d' = (r.declaredLine? symbol d).map (· + (k : Int)) := by
  unfold ImportRules.declaredLine?
  dsimp only
  split
  · rfl
  · exact h.anchor? _

theorem fullName? (h : d.Lowered k d') (r : ImportRules) (symbol : Text) (c : TokenContext) :
    r.fullName? symbol d' c = r.fullName? symbol d c := by
  unfold ImportRules.fullName? package
  rw [h.imports]

theorem directoryUrl? (h : d.Lowered k d') (name : Text) :
    ImportRules.directoryUrl? d' name = ImportRules.directoryUrl? d name := by
  unfold ImportRules.directoryUrl? ImportRules.sourceRoot? package
  rw [h.imports, h.url]

theorem fileUrl? (h : d.Lowered k d') (name : Text) (line : Int) :
    ImportRules.fileUrl? d' name line = ImportRules.fileUrl? d name line := by
  simp only [ImportRules.fileUrl?, h.directoryUrl?, h.url]

end Document.Lowered

/-- The address of a line of the page, and that of the line `k` lines further down. What opens in a
new tab is no line of the page and stays the same. -/
inductive Url.Lowered (page : Text) (k : Nat) : (newTab : Bool) → Text → Text → Prop where
  | elsewhere (url : Text) : Lowered page k true url url
  | line (n : Int) : Lowered page k false (withLine page n) (withLine page (n + k))

structure Target.Lowered (page : Text) (k : Nat) (t t' : Target) : Prop where
  newTab : t'.newTab = t.newTab
  url : Option.Rel (Url.Lowered page k t.newTab) t.url t'.url

structure Refinement.Lowered (page : Text) (k : Nat) (newTab : Bool) (f f' : Refinement) :
    Prop where
  pattern : f'.pattern = f.pattern
  fetchUrl : Url.Lowered page k newTab f.fetchUrl f'.fetchUrl

/-- Two answers that differ at most in that the second names lines of the page `k` lines further
down. -/
structure Resolution.Lowered (page : Text) (k : Nat) (r r' : Resolution) : Prop where
  target : r.target.Lowered page k r'.target
  reference : r'.reference = r.reference
  status : r'.status = r.status
  diagnostic : r'.diagnostic = r.diagnostic
  refinement : Option.Rel (Refinement.Lowered page k r.target.newTab) r.refinement r'.refinement

section Answers

variable {page : Text} {k : Nat}

theorem Target.Lowered.nowhere (page : Text) (k : Nat) (newTab : Bool) :
    (Target.nowhere newTab).Lowered page k (.nowhere newTab) := ⟨rfl, .none⟩

theorem Target.Lowered.elsewhere (page : Text) (k : Nat) (url : Option Text) :
    Target.Lowered page k ⟨url, true⟩ ⟨url, true⟩ := by
  refine ⟨rfl, ?_⟩
  cases url with
  | none => exact .none
  | some url => exact .some (.elsewhere url)

theorem Target.Lowered.line (page : Text) (k : Nat) (n : Int) :
    Target.Lowered page k ⟨some (Url.withLine page n), false⟩
      ⟨some (Url.withLine page (n + k)), false⟩ := ⟨rfl, .some (.line n)⟩

/-- What opens in a new tab is answered alike. -/
theorem Resolution.Lowered.elsewhere {r : Resolution} (h : r.target.newTab) :
    r.Lowered page k r := by
  obtain ⟨⟨url, newTab⟩, reference, status, diagnostic, refinement, snapshot⟩ := r
  obtain rfl : newTab = true := h
  refine ⟨.elsewhere page k url, rfl, rfl, rfl, ?_⟩
  cases refinement with
  | none => exact .none
  | some f => exact .some ⟨rfl, .elsewhere _⟩

theorem Url.Lowered.eq_of_zero {newTab : Bool} {u u' : Text} (h : Url.Lowered page 0 newTab u u') :
    u' = u := by
  cases h with
  | elsewhere => rfl
  | line n => rw [Int.natCast_zero, Int.add_zero]

/-- Where nothing is lowered the answers are the same. -/
theorem Resolution.Lowered.eq_of_zero {r r' : Resolution} (h : r.Lowered page 0 r') :
    r' = { r with snapshot := r'.snapshot } := by
  obtain ⟨⟨url, newTab⟩, reference, status, diagnostic, refinement, snapshot⟩ := r
  obtain ⟨⟨url', newTab'⟩, reference', status', diagnostic', refinement', snapshot'⟩ := r'
  obtain ⟨⟨hnewTab, hurl⟩, hreference, hstatus, hdiagnostic, hrefinement⟩ := h
  have hsame : url' = url := by
    cases hurl with
    | none => rfl
    | some hurl => exact congrArg some hurl.eq_of_zero
  have hsecond : refinement' = refinement := by
    cases hrefinement with
    | none => rfl
    | @some f f' hf =>
      obtain ⟨fetchUrl, pattern⟩ := f
      obtain ⟨fetchUrl', pattern'⟩ := f'
      obtain ⟨hpattern, hfetch⟩ := hf
      have hfetch := hfetch.eq_of_zero
      dsimp only at hpattern hfetch
      rw [hpattern, hfetch]
  dsimp only at hnewTab hreference hstatus hdiagnostic ⊢
  rw [hnewTab, hsame, hreference, hstatus, hdiagnostic, hsecond]

end Answers

namespace Engine

def showing (e : Engine) (d : Document) : Engine := { e with document := d }

/-- Pages with one address get engines that differ in nothing but the page. -/
theorem open?_showing {d d' : Document} (h : d'.url = d.url) (xs : List Extension) (s : Settings) :
    open? xs s d' = (open? xs s d).map (Option.map (·.showing d')) := by
  unfold open?
  rw [h]
  cases Language.ofUrl? d.url with
  | none => rfl
  | some l =>
    dsimp only
    cases Catalog.features xs s.enabled <;> rfl

variable {e : Engine} {k : Nat} {d : Document}

theorem classTarget_lowered (h : e.document.Lowered k d) (r : ImportRules) (symbol : Text)
    (c : TokenContext) :
    (r.classTarget symbol e.document c).1.Lowered e.document.url k (r.classTarget symbol d c).1 ∧
      (r.classTarget symbol d c).2 = (r.classTarget symbol e.document c).2 := by
  have hdeclared := h.declaredLine? r symbol
  have hfull := h.fullName? r (Language.bareName symbol) c
  cases hhere : r.declaredLine? symbol e.document with
  | some line =>
    rw [hhere, Option.map_some] at hdeclared
    rw [ImportRules.classTarget_of_declared hhere, ImportRules.classTarget_of_declared hdeclared,
      h.url]
    exact ⟨.line _ k line, rfl⟩
  | none =>
    rw [hhere, Option.map_none] at hdeclared
    cases hname : r.fullName? (Language.bareName symbol) e.document c with
    | none =>
      rw [hname] at hfull
      rw [ImportRules.classTarget_of_unknown hhere hname,
        ImportRules.classTarget_of_unknown hdeclared hfull]
      exact ⟨.nowhere _ k true, rfl⟩
    | some name =>
      rw [hname] at hfull
      by_cases hdenied : r.isDenied name
      · rw [ImportRules.classTarget_of_denied hhere hname hdenied,
          ImportRules.classTarget_of_denied hdeclared hfull hdenied]
        exact ⟨.nowhere _ k true, rfl⟩
      · rw [ImportRules.classTarget_of_allowed hhere hname hdenied,
          ImportRules.classTarget_of_allowed hdeclared hfull hdenied, h.fileUrl?]
        cases ImportRules.fileUrl? e.document name 1 with
        | none => exact ⟨.nowhere _ k true, rfl⟩
        | some url => exact ⟨.elsewhere _ k (some url), rfl⟩

theorem onClass_lowered (h : e.document.Lowered k d) (r : Reference) (symbol : Text)
    (c : TokenContext) : (e.onClass r symbol c).Lowered e.document.url k
      ((e.showing d).onClass r symbol c) := by
  obtain ⟨htarget, hstatus⟩ := classTarget_lowered h e.imports symbol c
  exact ⟨htarget, rfl, hstatus, rfl, .none⟩

theorem onLine_lowered (h : e.document.Lowered k d) (r : Reference) (line : Int) :
    (e.onLine r line).Lowered e.document.url k ((e.showing d).onLine r (line + k)) := by
  have hline : (e.showing d).onLine r (line + k) = e.onLine r (line + k) := by
    unfold onLine
    rw [show (e.showing d).document.url = e.document.url from h.url]
  rw [hline]
  exact ⟨.line _ k line, rfl, rfl, rfl, .none⟩

theorem unresolved_lowered (page : Text) (k : Nat) (r : Reference) :
    (unresolved r).Lowered page k (unresolved r) := ⟨.nowhere page k false, rfl, rfl, rfl, .none⟩

/-- A resource depends on the address of the page alone, and opens in a new tab. -/
theorem resolveResource_lowered (h : e.document.Lowered k d) (req : Request)
    (subkind name : Text) : (e.resolveResource req subkind name).Lowered e.document.url k
      ((e.showing d).resolveResource req subkind name) := by
  have hsame : (e.showing d).resolveResource req subkind name =
      e.resolveResource req subkind name := by
    unfold resolveResource
    rw [show (e.showing d).document.url = e.document.url from h.url]
    rfl
  rw [hsame]
  apply Resolution.Lowered.elsewhere
  unfold resolveResource
  cases hf : e.feature? subkind with
  | none => rfl
  | some f =>
    have hnew : (f.target req.token e.document.url e.settings.rootSegment).newTab := by
      unfold ResourceFeature.target
      split <;> rfl
    dsimp only
    split <;> exact hnew

theorem importLine_lowered (h : e.document.Lowered k d) (req : Request) :
    (e.resolveReference req .importLine).Lowered e.document.url k
      ((e.showing d).resolveReference req .importLine) := by
  have hsame : e.imports.importLineTarget d req.context =
      e.imports.importLineTarget e.document req.context := by
    simp only [ImportRules.importLineTarget, h.fileUrl?, h.directoryUrl?]
  have htarget : (e.imports.importLineTarget e.document req.context).1.Lowered e.document.url k
      (e.imports.importLineTarget e.document req.context).1 := by
    unfold ImportRules.importLineTarget
    split
    · exact .nowhere _ k false
    · split
      · exact .nowhere _ k false
      · dsimp only
        split
        · exact .nowhere _ k false
        · next url _ => exact .elsewhere _ k (some url)
  have hfirst : ((e.showing d).resolveReference req .importLine).target =
      (e.imports.importLineTarget e.document req.context).1 := congrArg Prod.fst hsame
  refine ⟨?_, rfl, congrArg Prod.snd hsame, rfl, .none⟩
  rw [hfirst]
  exact htarget

theorem resolveInternalCall_lowered (h : e.document.Lowered k d) (req : Request) (method : Text) :
    (e.resolveInternalCall req method).Lowered e.document.url k
      ((e.showing d).resolveInternalCall req method) := by
  have hlines :
      Locator.all (e.showing d).document.lines ((e.showing d).language.methodPattern method) =
        (Locator.all e.document.lines (e.language.methodPattern method)).map (· + (k : Int)) :=
    h.all _
  unfold resolveInternalCall
  rw [hlines]
  cases Locator.all e.document.lines (e.language.methodPattern method) with
  | nil =>
    dsimp only [List.map_nil]
    split
    · exact onClass_lowered h _ method req.context
    · exact unresolved_lowered _ k _
  | cons line more =>
    cases more with
    | nil => exact onLine_lowered h _ line
    | cons other more => exact ⟨.nowhere _ k false, rfl, rfl, rfl, .none⟩

theorem resolveVariable_lowered (h : e.document.Lowered k d) (req : Request) (name : Text) :
    (e.resolveVariable req name).Lowered e.document.url k
      ((e.showing d).resolveVariable req name) := by
  have hline : (e.showing d).variableLine? name =
      (e.variableLine? name).map (· + (k : Int)) := by
    unfold variableLine?
    rw [Option.map_or]
    exact congrArg₂ Option.or (h.anchor? _) (h.anchor? _)
  unfold resolveVariable
  rw [hline]
  cases e.variableLine? name with
  | some line => exact onLine_lowered h _ line
  | none =>
    dsimp only [Option.map_none]
    split
    · exact onClass_lowered h _ name req.context
    · exact unresolved_lowered _ k _

/-- The second step of a call starts from the target, so it is lowered with it. -/
theorem resolveExternalCall_lowered (h : e.document.Lowered k d) (req : Request)
    {receiver : Text} (hreceiver : isWordRun receiver) (method : Text) :
    (e.resolveExternalCall req receiver method).Lowered e.document.url k
      ((e.showing d).resolveExternalCall req receiver method) := by
  have htype : Binding.declaredType? (e.showing d).language receiver (e.showing d).document.text =
      Binding.declaredType? e.language receiver e.document.text :=
    h.declaredType e.language receiver hreceiver
  unfold resolveExternalCall
  rw [htype]
  cases Binding.declaredType? e.language receiver e.document.text with
  | none => exact unresolved_lowered _ k _
  | some type =>
    have hclass := onClass_lowered h (.externalCall receiver method) type req.context
    have hurl := hclass.target.url
    refine ⟨hclass.target, rfl, hclass.status, rfl, ?_⟩
    dsimp only
    rw [show (e.showing d).settings.followMethods = e.settings.followMethods from rfl]
    split
    · revert hurl
      generalize (e.onClass (.externalCall receiver method) type req.context).target.url = u
      generalize ((e.showing d).onClass (.externalCall receiver method) type req.context).target.url
        = u'
      intro hurl
      cases hurl with
      | none => exact .none
      | some hurl => exact .some ⟨rfl, hurl⟩
    · exact .none

theorem isWordRun_of_classify {req : Request} {receiver method : Text}
    (h : e.classify req = .externalCall receiver method) : isWordRun receiver := by
  obtain ⟨-, hcall⟩ := Classifier.of_classify_eq_externalCall h
  obtain ⟨_, _, _, -, hreceiver, hsame⟩ := Classifier.externalCall?_eq_some hcall
  obtain ⟨rfl, -⟩ := Reference.externalCall.inj hsame
  exact (Classifier.receiver?_eq_some hreceiver).1

/-- Every click is answered on a lowered page as on the page itself, apart from the numbers of the
lines on the page. -/
theorem resolve_lowered (h : e.document.Lowered k d) (req : Request) :
    (e.resolve req).Lowered e.document.url k ((e.showing d).resolve req) := by
  have hclassify : (e.showing d).classify req = e.classify req := by
    show Classifier.classify e.language e.features req d = _
    unfold classify Classifier.classify
    rw [h.imports]
  have hreference : (e.resolveReference req (e.classify req)).Lowered e.document.url k
      ((e.showing d).resolveReference req (e.classify req)) := by
    cases hclass : e.classify req with
    | resource subkind name => exact resolveResource_lowered h req subkind name
    | importLine => exact importLine_lowered h req
    | internalCall method => exact resolveInternalCall_lowered h req method
    | variableUse name => exact resolveVariable_lowered h req name
    | externalCall receiver method =>
      exact resolveExternalCall_lowered h req (isWordRun_of_classify hclass) method
    | symbol name => exact onClass_lowered h _ name req.context
    | primitive name => exact .elsewhere rfl
    | unclassified => exact .elsewhere rfl
  unfold resolve
  rw [hclassify]
  exact ⟨hreference.target, hreference.reference, hreference.status, hreference.diagnostic,
    hreference.refinement⟩

end Engine

end CodeNav
