import CodeNav.Engine
import CodeNav.Proofs.Matching
import CodeNav.Proofs.TokenForms
import Mathlib.Data.List.DropRight

namespace CodeNav

/-- An import line is made of blanks, words, dots, asterisks and semicolons. -/
theorem mem_of_isImportLine {line : Text} (h : isImportLine line) :
    ∀ c ∈ line, isBlank c ∨ isWord c ∨ c = '.' ∨ c = '*' ∨ c = ';' := by
  have hmatch : ImportStatement.pattern.matchesAll line := by
    unfold isImportLine ImportStatement.ofLine? at h
    unfold Pattern.matchesAll
    cases hm : ImportStatement.pattern.fullMatch? line with
    | none => simp [hm] at h
    | some m => rfl
  intro c hc
  -- Only the words and the classes of the pattern are left; how they are put together is not.
  have hreads := Pattern.reads_of_matchesAll hmatch c hc
  have himport := List.all_eq_true.mp (show "import".toList.all isWord by decide) c
  have hstatic := List.all_eq_true.mp (show "static".toList.all isWord by decide) c
  have has := List.all_eq_true.mp (show "as".toList.all isWord by decide) c
  have hstar : c ∈ ".*".toList → c = '.' ∨ c = '*' := by simp
  have hsemicolon : c ∈ ";".toList → c = ';' := by simp
  simp only [ImportStatement.pattern, Pattern.reads_append, Pattern.reads, CharClass.holds,
    List.any_cons, List.any_nil, ClassItem.holds, Bool.or_false, Bool.or_eq_true,
    decide_eq_true_eq] at hreads
  grind

theorem no_quote_of_isImportLine {line : Text} (h : isImportLine line) :
    '"' ∉ line ∧ '\x27' ∉ line := by
  constructor
  · intro hmem
    have hchar := mem_of_isImportLine h _ hmem
    revert hchar
    decide
  · intro hmem
    have hchar := mem_of_isImportLine h _ hmem
    revert hchar
    decide

theorem Text.infix_of_wordAfter? {start t : Text} (h : (Text.wordAfter? start t).isSome) :
    start <:+: t := by
  induction t with
  | nil => cases h
  | cons c r ih =>
    unfold wordAfter? at h
    split at h
    · next hstart =>
      have hpre := ((Bool.and_eq_true _ _).mp hstart).1
      exact (List.isPrefixOf_iff_prefix.mp hpre).isInfix
    · exact (ih h).trans (List.suffix_cons c r).isInfix

/-- A token with one dot at most has no room for a marker and a name after it, so only what stands
before it can make it a resource. -/
theorem ResourceFeature.recognizes_iff {token : Text} (h : token.count '.' ≤ 1)
    (f : ResourceFeature) (c : TokenContext) :
    f.recognizes token c ↔ c.previous = some f.marker := by
  have hnone : (Text.wordAfter? (f.marker ++ ".") token).isSome = false := by
    cases hsome : (Text.wordAfter? (f.marker ++ ".") token).isSome with
    | false => rfl
    | true =>
      have hle := (Text.infix_of_wordAfter? hsome).sublist.count_le '.'
      have hdots : 2 ≤ (f.marker ++ ".").count '.' := by
        simp [marker, List.count_append]
      omega
  rw [recognizes, hnone, Bool.or_false, decide_eq_true_eq]

theorem Text.trim_trim (t : Text) : t.trim.trim = t.trim := by
  have htrim : ∀ u : Text, u.trim = (u.dropWhile CodeNav.isBlank).rdropWhile CodeNav.isBlank :=
    fun _ => rfl
  have hfront : t.trim.dropWhile CodeNav.isBlank = t.trim := by
    rw [htrim, List.dropWhile_eq_self_iff]
    intro hpos
    have hpre := List.rdropWhile_prefix CodeNav.isBlank (t.dropWhile CodeNav.isBlank)
    rw [hpre.getElem hpos]
    exact List.dropWhile_get_zero_not _ _ (hpos.trans_le hpre.length_le)
  rw [htrim t.trim, hfront, htrim, List.rdropWhile_idempotent]

theorem Language.isPrimitive_trim (l : Language) (token : Text) :
    l.isPrimitive token.trim = l.isPrimitive token := by
  unfold isPrimitive bareName
  rw [Text.trim_trim]

/-- A token that is not primitive belongs to the first kind that recognizes it. -/
theorem Classifier.classify_of_feature? {l : Language} {features : List ResourceFeature}
    {r : Request} {f : ResourceFeature} (hprimitive : l.isPrimitive r.token = false)
    (hfind : feature? features r = some f) (d : Document) :
    classify l features r d = .resource f.subkind ((f.name? r.token.trim).getD []) := by
  unfold classify
  dsimp only
  rw [Language.isPrimitive_trim, hprimitive, if_neg Bool.false_ne_true, hfind]

structure Request.OnImportLine (r : Request) (line : Text) : Prop where
  isImport : isImportLine line
  siblings : r.context.siblings = Token.ofLine line
  token : r.token = r.context.token

namespace Request.OnImportLine

variable {r : Request} {line : Text}

theorem lineText (h : r.OnImportLine line) : r.context.lineText = line := by
  unfold TokenContext.lineText
  rw [h.siblings, Token.flatten_ofLine]

theorem count_dot (h : r.OnImportLine line) : r.token.count '.' ≤ 1 := by
  apply Token.count_dot_of_mem_ofLine (no_quote_of_isImportLine h.isImport)
  rw [h.token, ← h.siblings]
  exact List.mem_append_right _ List.mem_cons_self

theorem feature? (h : r.OnImportLine line) (features : List ResourceFeature) :
    Classifier.feature? features r =
      features.find? fun f => decide (r.context.previous = some f.marker) := by
  unfold Classifier.feature?
  congr 1
  funext f
  rw [Bool.eq_iff_iff, f.recognizes_iff h.count_dot, decide_eq_true_eq]

theorem classify (h : r.OnImportLine line) {l : Language} (hprim : l.isPrimitive r.token = false)
    (features : List ResourceFeature) (d : Document) :
    Classifier.classify l features r d =
      match features.find? fun f => decide (r.context.previous = some f.marker) with
      | some f => .resource f.subkind ((f.name? r.token.trim).getD [])
      | none =>
        if r.context.previous = some Classifier.menuMarker then
          .resource "menu" ((resourceName? r.token.trim "menu").getD [])
        else .importLine := by
  unfold Classifier.classify
  dsimp only
  rw [Language.isPrimitive_trim, hprim, h.feature?, h.lineText, if_pos h.isImport]
  rfl

end Request.OnImportLine

theorem ImportRules.importLineTarget_of_denied {rules : ImportRules} {c : TokenContext}
    {name : Text} (hname : rules.clickedName? c = some name) (hqualified : isQualifiedName name)
    (hdenied : rules.isDenied name) (d : Document) :
    rules.importLineTarget d c = (.nowhere, .deniedImport) := by
  have hfilter : (rules.clickedName? c).filter isQualifiedName = some name := by
    rw [hname, Option.filter_some, if_pos hqualified]
  unfold importLineTarget
  rw [hfilter]
  dsimp only
  rw [if_pos hdenied]

namespace Engine

theorem resolve_of_classify {e : Engine} {r : Request} (h : e.classify r = .importLine) :
    ((e.resolve r).target, (e.resolve r).status) =
      e.imports.importLineTarget e.document r.context := by
  unfold resolve
  rw [h]
  rfl

/-- A click on a token of an import line leads where the import does, or nowhere when the name it
stands for is denied. Only what stands right after the marker of a kind of resource is a resource of
that kind. -/
theorem importLine_click {e : Engine} {r : Request} {line : Text}
    (hfeatures : e.features = ResourceFeature.builtIn.map (·.2)) (h : r.OnImportLine line)
    (hprim : e.language.isPrimitive r.token = false) :
    ((∀ kind ∈ (["layout", "menu", "string"] : List Text),
        r.context.previous ≠ some ('.' :: kind)) →
      e.classify r = .importLine ∧
      ((e.resolve r).target, (e.resolve r).status) =
        e.imports.importLineTarget e.document r.context ∧
      ∀ name, e.imports.clickedName? r.context = some name → isQualifiedName name →
        e.imports.isDenied name →
          (e.resolve r).target = .nowhere ∧ (e.resolve r).status = .deniedImport) ∧
    ∀ kind ∈ (["layout", "menu", "string"] : List Text), r.context.previous = some ('.' :: kind) →
      e.classify r = .resource kind ((resourceName? r.token.trim kind).getD []) := by
  have hclass := h.classify hprim (ResourceFeature.builtIn.map (·.2)) e.document
  rw [← hfeatures] at hclass
  constructor
  · intro hmark
    have hsubkind : ∀ f ∈ ResourceFeature.builtIn.map (·.2),
        f.subkind ∈ (["layout", "menu", "string"] : List Text) := by decide
    have hfind :
        (e.features.find? fun f => decide (r.context.previous = some f.marker)) = none := by
      rw [List.find?_eq_none, hfeatures]
      intro f hf
      rw [decide_eq_true_eq]
      exact hmark f.subkind (hsubkind f hf)
    have himport : e.classify r = .importLine := by
      unfold classify
      rw [hclass, hfind]
      exact if_neg (hmark "menu".toList (by simp))
    refine ⟨himport, resolve_of_classify himport, fun name hname hqualified hdenied => ?_⟩
    have hanswer := resolve_of_classify himport
    rw [ImportRules.importLineTarget_of_denied hname hqualified hdenied] at hanswer
    exact Prod.mk.inj hanswer
  · intro kind hkind hprevious
    unfold classify
    rw [hclass, hprevious, hfeatures]
    simp only [List.mem_cons, List.not_mem_nil, or_false] at hkind
    -- No two kinds have the same marker, so the order they are tried in does not count.
    rcases hkind with rfl | rfl | rfl <;> rfl

/-- A page that imports a class of one of the platform's packages, and a click on the class. -/
def viewLine (package : Text) : Text := "import android." ++ package ++ ".View"

def viewEngine (package : Text) : Engine where
  document := .ofText (viewLine package) "https://github.com/o/r/blob/main/Main.kt" "now"
  language := .kotlin
  features := ResourceFeature.builtIn.map (·.2)

def viewClick (package : Text) : Request :=
  ⟨".View", ⟨["import", " ", "android", '.' :: package], ".View", [], none, none⟩, none⟩

theorem importLine_click_view :
    (viewEngine "view").features = ResourceFeature.builtIn.map (·.2) ∧
      (viewClick "view").OnImportLine (viewLine "view") ∧
      (viewEngine "view").language.isPrimitive (viewClick "view").token = false ∧
      (viewEngine "view").classify (viewClick "view") = .importLine ∧
      ((viewEngine "view").resolve (viewClick "view")).status = .deniedImport := by
  have h : (viewClick "view").OnImportLine (viewLine "view") :=
    ⟨by decide +kernel, by decide +kernel, rfl⟩
  have hprim : (viewEngine "view").language.isPrimitive (viewClick "view").token = false := by
    decide
  have hclick := (importLine_click rfl h hprim).1 (by decide)
  have hdenied := hclick.2.2 "android.view.View" (by decide +kernel) (by decide +kernel)
    (by decide +kernel)
  exact ⟨rfl, h, hprim, hclick.1, hdenied.2⟩

/-- In a package named like a kind of resource the class is taken for a resource, and the link that
the import itself may not have is given. -/
theorem importLine_click_layout :
    (viewClick "layout").OnImportLine (viewLine "layout") ∧
      Text.isBlank (viewClick "layout").token = false ∧
      (viewEngine "layout").language.isPrimitive (viewClick "layout").token = false ∧
      (viewEngine "layout").classify (viewClick "layout") = .resource "layout" "View" ∧
      (viewEngine "layout").imports.importLineTarget (viewEngine "layout").document
        (viewClick "layout").context = (.nowhere, .deniedImport) ∧
      ((viewEngine "layout").resolve (viewClick "layout")).status = .resolved := by
  refine ⟨⟨?_, ?_, rfl⟩, ?_, ?_, ?_, ?_, ?_⟩
  all_goals decide +kernel

end Engine

end CodeNav
