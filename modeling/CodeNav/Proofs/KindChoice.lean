import CodeNav.Proofs.ImportLines
import CodeNav.Proofs.SamePage

/-!
Which kind of resource answers a click. The first kind that recognizes the token gives the reference
its subkind, and the last kind with this subkind gives the file; they are one where no later kind
repeats the subkind. Both read the same name off the token, unless the subkind and the token begin
with a blank (`Engine.resolve_recognized`).
-/

namespace CodeNav

namespace Text

variable {b start t : Text}

theorem isBlank_drop (hb : isBlank b) (n : Nat) : isBlank (b.drop n) :=
  List.all_eq_true.mpr fun c hc => List.all_eq_true.mp hb c (List.mem_of_mem_drop hc)

theorem any_isWord_head?_of_isBlank (hb : isBlank b) : b.head?.any isWord = false := by
  have hhead := head?_append_of_isBlank (r := []) hb rfl
  rwa [List.append_nil] at hhead

theorem any_isWord_drop_append (hb : isBlank b) (n : Nat) :
    ((t ++ b).drop n).head?.any isWord = (t.drop n).head?.any isWord := by
  rw [List.drop_append]
  cases t.drop n with
  | nil => exact any_isWord_head?_of_isBlank (isBlank_drop hb _)
  | cons c r => rfl

theorem takeWhile_drop_append (hb : isBlank b) (n : Nat) :
    ((t ++ b).drop n).takeWhile isWord = (t.drop n).takeWhile isWord := by
  rw [List.drop_append]
  exact takeWhile_append_of_head (any_isWord_head?_of_isBlank (isBlank_drop hb _))

theorem isPrefixOf_append_of_drop (h : (t.drop start.length).head?.any isWord) :
    start.isPrefixOf (t ++ b) = start.isPrefixOf t := by
  have hlength : start.length ≤ t.length := by
    by_contra hlong
    rw [List.drop_eq_nil_of_le (by omega)] at h
    cases h
  rw [Bool.eq_iff_iff, List.isPrefixOf_iff_prefix, List.isPrefixOf_iff_prefix]
  exact ⟨fun h => List.prefix_of_prefix_length_le h (List.prefix_append _ _) hlength,
    fun h => h.trans (List.prefix_append _ _)⟩

/-- Blanks behind a text offer no word. -/
theorem wordAfter?_append_of_isBlank (hb : isBlank b) :
    wordAfter? start (t ++ b) = wordAfter? start t := by
  induction t with
  | nil =>
    induction b with
    | nil => rfl
    | cons c b ih =>
      have hword := any_isWord_head?_of_isBlank (isBlank_drop hb start.length)
      change wordAfter? start (c :: b) = none
      rw [wordAfter?, hword, Bool.and_false, if_neg Bool.false_ne_true]
      exact ih (isBlank_drop hb 1)
  | cons c t ih =>
    rw [List.cons_append, wordAfter?, wordAfter?, ← List.cons_append, any_isWord_drop_append hb,
      takeWhile_drop_append hb, ih]
    cases hword : ((c :: t).drop start.length).head?.any isWord with
    | false => simp
    | true => rw [isPrefixOf_append_of_drop hword]

/-- Blanks in front of a text offer nothing that does not begin with a blank. -/
theorem wordAfter?_of_isBlank_append (hb : isBlank b) {c : Char} {s : Text}
    (hc : CodeNav.isBlank c = false) : wordAfter? (c :: s) (b ++ t) = wordAfter? (c :: s) t := by
  induction b with
  | nil => rfl
  | cons d b ih =>
    obtain ⟨hd, hb⟩ := (Bool.and_eq_true _ _).mp hb
    have hne : (c == d) = false := by
      rw [beq_eq_false_iff_ne]
      rintro rfl
      rw [hc] at hd
      cases hd
    rw [List.cons_append, wordAfter?, List.isPrefixOf_cons_cons, hne, Bool.false_and,
      Bool.false_and, if_neg Bool.false_ne_true]
    exact ih hb

/-- A text is what is left of it without the blanks at its ends, between these blanks. -/
theorem exists_trim (t : Text) : ∃ front back, isBlank front ∧ isBlank back ∧
    t = front ++ (t.trim ++ back) ∧ (t.head?.any CodeNav.isBlank = false → front = []) := by
  refine ⟨t.takeWhile CodeNav.isBlank, (t.dropWhile CodeNav.isBlank).rtakeWhile CodeNav.isBlank,
    List.all_takeWhile, ?_, ?_, ?_⟩
  · exact List.all_eq_true.mpr fun c hc => List.mem_rtakeWhile_imp hc
  · have htrim : t.trim = (t.dropWhile CodeNav.isBlank).rdropWhile CodeNav.isBlank := rfl
    rw [htrim, List.rdropWhile_append_rtakeWhile, List.takeWhile_append_dropWhile]
  · intro hhead
    cases t with
    | nil => rfl
    | cons c r => exact List.takeWhile_cons_of_neg (by simpa using hhead)

theorem bareWord?_trim (t : Text) : bareWord? t.trim = bareWord? t := by
  unfold bareWord?
  rw [trim_trim]

theorem ne_nil_of_wordAfter? {name : Text} (h : wordAfter? start t = some name) : name ≠ [] := by
  induction t with
  | nil => cases h
  | cons c t ih =>
    unfold wordAfter? at h
    split at h
    · next hstart =>
      obtain rfl := Option.some.inj h
      have hword := ((Bool.and_eq_true _ _).mp hstart).2
      cases hdrop : (c :: t).drop start.length with
      | nil => simp [hdrop] at hword
      | cons d r =>
        rw [hdrop] at hword
        rw [List.takeWhile_cons_of_pos (by exact hword)]
        exact List.cons_ne_nil _ _
    · exact ih h

theorem ne_nil_of_bareWord? {name : Text} (h : bareWord? t = some name) : name ≠ [] := by
  unfold bareWord? at h
  dsimp only at h
  split at h
  · next hname =>
    obtain rfl := Option.some.inj h
    simpa using ((Bool.and_eq_true _ _).mp hname).1
  · cases h

end Text

theorem ne_nil_of_resourceName? {token subkind name : Text}
    (h : resourceName? token subkind = some name) : name ≠ [] := by
  rcases Option.or_eq_some_iff.mp h with h | ⟨-, h⟩
  · exact Text.ne_nil_of_wordAfter? h
  · exact Text.ne_nil_of_bareWord? h

/-- Blanks around a token do not change the name in it, unless the subkind may begin in them. -/
theorem resourceName?_trim {token subkind : Text}
    (h : subkind.head?.any isBlank = false ∨ token.head?.any isBlank = false) :
    resourceName? token.trim subkind = resourceName? token subkind := by
  obtain ⟨front, back, hfront, hback, htoken, hnil⟩ := Text.exists_trim token
  have hskip (u : Text) : Text.wordAfter? (subkind ++ ".") (front ++ u) =
      Text.wordAfter? (subkind ++ ".") u := by
    rcases h with hsubkind | hhead
    · obtain ⟨c, s, hstart, hc⟩ : ∃ c s, subkind ++ ".".toList = c :: s ∧ isBlank c = false := by
        cases subkind with
        | nil => exact ⟨'.', [], rfl, by decide⟩
        | cons c s => exact ⟨c, s ++ ".", rfl, by simpa using hsubkind⟩
      rw [hstart]
      exact Text.wordAfter?_of_isBlank_append hfront hc
    · rw [hnil hhead, List.nil_append]
  have hword : Text.wordAfter? (subkind ++ ".") token.trim =
      Text.wordAfter? (subkind ++ ".") token := by
    calc Text.wordAfter? (subkind ++ ".") token.trim
        = Text.wordAfter? (subkind ++ ".") (token.trim ++ back) :=
          (Text.wordAfter?_append_of_isBlank hback).symm
      _ = Text.wordAfter? (subkind ++ ".") (front ++ (token.trim ++ back)) := (hskip _).symm
      _ = Text.wordAfter? (subkind ++ ".") token := by rw [← htoken]
  rw [resourceName?, resourceName?, hword, Text.bareWord?_trim]

namespace Engine

variable {e : Engine} {req : Request} {f g : ResourceFeature}

/-- The last kind with a subkind answers for it. -/
theorem exists_feature? (hf : f ∈ e.features) :
    ∃ g before after, e.feature? f.subkind = some g ∧ e.features = before ++ g :: after ∧
      g.subkind = f.subkind ∧ ∀ x ∈ after, x.subkind ≠ f.subkind := by
  cases hfind : e.features.reverse.find? (·.subkind = f.subkind) with
  | none =>
    have hnone := List.find?_eq_none.mp hfind f (List.mem_reverse.mpr hf)
    exact absurd (by simp) hnone
  | some g =>
    obtain ⟨hkind, as, bs, hsplit, hfirst⟩ := List.find?_eq_some_iff_append.mp hfind
    refine ⟨g, bs.reverse, as.reverse, by rw [feature?, hfind], ?_, by simpa using hkind, ?_⟩
    · rw [← List.reverse_reverse e.features, hsplit]
      simp
    · intro x hx
      simpa using hfirst x (List.mem_reverse.mp hx)

theorem feature?_of_last {before after : List ResourceFeature}
    (hsplit : e.features = before ++ f :: after) (hlast : ∀ x ∈ after, x.subkind ≠ f.subkind) :
    e.feature? f.subkind = some f := by
  have hfind : e.features.reverse.find? (·.subkind = f.subkind) = some f := by
    refine List.find?_eq_some_iff_append.mpr ⟨by simp, after.reverse, before.reverse, ?_, ?_⟩
    · rw [hsplit]
      simp
    · intro x hx
      simpa using hlast x (List.mem_reverse.mp hx)
  rw [feature?, hfind]

/-- What a kind answers for the name in a token: its file and, where files are followed, its second
step. There is no answer exactly when there is no name. -/
structure AnsweredBy (e : Engine) (g : ResourceFeature) (token name : Text) (r : Resolution) :
    Prop where
  file : name ≠ [] → r.status = .resolved ∧ r.target =
    ⟨some (resourceUrl e.document.url e.settings.rootSegment (g.path name)), true⟩
  refinement : name ≠ [] → r.refinement =
    if e.settings.followMethods then g.refinement? token r.target else none
  nameless_iff : name = [] ↔ r.status = .unresolvedDefinition ∧ r.target.url = none

theorem AnsweredBy.withSnapshot {token name : Text} {r : Resolution}
    (h : AnsweredBy e g token name r) (s : Option Text) :
    AnsweredBy e g token name { r with snapshot := s } :=
  ⟨h.file, h.refinement, h.nameless_iff⟩

/-- The kind that answers reads the name off the token as it was clicked. -/
theorem answeredBy_resolveResource (hg : e.feature? f.subkind = some g)
    (hkind : g.subkind = f.subkind) (shown : Text) :
    AnsweredBy e g req.token ((f.name? req.token).getD [])
      (e.resolveResource req f.subkind shown) := by
  have hname : g.name? req.token = f.name? req.token := by
    rw [ResourceFeature.name?, hkind]
    rfl
  rw [resolveResource, hg]
  dsimp only
  rw [ResourceFeature.target, hname]
  cases hfound : f.name? req.token with
  | none => exact ⟨absurd rfl, absurd rfl, by simp [Target.nowhere, Target.isClickable]⟩
  | some name =>
    have hne : name ≠ [] := ne_nil_of_resourceName? hfound
    exact ⟨fun _ => ⟨rfl, rfl⟩, fun _ => rfl, by simp [hne, Target.isClickable]⟩

/-- A token that a kind recognizes belongs to the first such kind, and the last one with its subkind
answers for the name. This is the name that the reference shows, unless both the subkind and the
token begin with a blank. -/
theorem resolve_recognized {before after : List ResourceFeature}
    (hprimitive : e.language.isPrimitive req.token = false)
    (hfeatures : e.features = before ++ f :: after) (hmatch : f.recognizes req.token req.context)
    (hfirst : ∀ x ∈ before, ¬x.recognizes req.token req.context) :
    ∃ g front rest, e.features = front ++ g :: rest ∧ g.subkind = f.subkind ∧
      (∀ x ∈ rest, x.subkind ≠ f.subkind) ∧ ((∀ x ∈ after, x.subkind ≠ f.subkind) → g = f) ∧
      ∃ shown name, (e.resolve req).reference = .resource f.subkind shown ∧
        AnsweredBy e g req.token name (e.resolve req) ∧
        (f.subkind.head?.any isBlank = false ∨ req.token.head?.any isBlank = false →
          shown = name) := by
  have hmem : f ∈ e.features := by
    rw [hfeatures]
    exact List.mem_append_right _ List.mem_cons_self
  have hfind : Classifier.feature? e.features req = some f :=
    List.find?_eq_some_iff_append.mpr
      ⟨hmatch, before, after, hfeatures, fun x hx => by simpa using hfirst x hx⟩
  obtain ⟨g, front, rest, hg, hsplit, hkind, hlast⟩ := exists_feature? hmem
  have hclassify : e.classify req = .resource f.subkind ((f.name? req.token.trim).getD []) :=
    Classifier.classify_of_feature? hprimitive hfind e.document
  have hanswer : e.resolve req =
      { e.resolveResource req f.subkind ((f.name? req.token.trim).getD []) with
        snapshot := some e.document.snapshot } := by
    rw [resolve, hclassify]
    rfl
  refine ⟨g, front, rest, hsplit, hkind, hlast, ?_, (f.name? req.token.trim).getD [],
    (f.name? req.token).getD [], ?_, ?_, ?_⟩
  · intro hnone
    exact Option.some.inj (hg.symm.trans (feature?_of_last hfeatures hnone))
  · have hreference : (e.resolve req).reference = e.classify req :=
      e.resolveReference_reference req (e.classify req)
    exact hreference.trans hclassify
  · rw [hanswer]
    exact (answeredBy_resolveResource hg hkind _).withSnapshot _
  · intro hblank
    rw [ResourceFeature.name?, ResourceFeature.name?, resourceName?_trim hblank]

def kindsEngine (features : List ResourceFeature) : Engine where
  document := .ofText "val page = R.layout.home"
    "https://github.com/o/r/blob/dev/app/src/main/java/Main.kt" "now"
  language := .kotlin
  features := features

def homeClick : Request :=
  ⟨".home", ⟨["val", " ", "page", " ", "=", " ", "R", ".layout"], ".home", [], none, none⟩, none⟩

theorem resolve_recognized_layout :
    homeClick.context.siblings = Token.ofLine "val page = R.layout.home" ∧
      Language.kotlin.isPrimitive homeClick.token = false ∧
      ResourceFeature.layout.recognizes homeClick.token homeClick.context ∧
      ((kindsEngine [.string, .layout, .menu]).resolve homeClick).reference =
        .resource "layout" "home" ∧
      ((kindsEngine [.string, .layout, .menu]).resolve homeClick).target =
        ⟨some "https://github.com/o/r/blob/dev/app/src/main/res/layout/home.xml", true⟩ := by
  have hprimitive : Language.kotlin.isPrimitive homeClick.token = false := by decide +kernel
  have hmatch : ResourceFeature.layout.recognizes homeClick.token homeClick.context := by
    decide +kernel
  have hfirst : ∀ x ∈ [ResourceFeature.string],
      ¬x.recognizes homeClick.token homeClick.context := by decide +kernel
  have hfeatures : (kindsEngine [.string, .layout, .menu]).features =
      [.string] ++ .layout :: [.menu] := rfl
  obtain ⟨g, -, -, -, -, -, hg, shown, name, hreference, hanswer, hsame⟩ :=
    resolve_recognized hprimitive hfeatures hmatch hfirst
  obtain rfl : g = .layout := hg (by decide)
  obtain rfl : shown = name := hsame (.inl (by decide))
  have hshown : ((kindsEngine [.string, .layout, .menu]).resolve homeClick).reference =
      .resource "layout" "home" := by decide +kernel
  obtain ⟨-, rfl⟩ := Reference.resource.inj (hshown.symm.trans hreference)
  have hurl : resourceUrl (kindsEngine [.string, .layout, .menu]).document.url
      (kindsEngine [.string, .layout, .menu]).settings.rootSegment
      (ResourceFeature.layout.path "home") =
        "https://github.com/o/r/blob/dev/app/src/main/res/layout/home.xml" := by decide +kernel
  have htarget := (hanswer.file (by decide)).2
  rw [hurl] at htarget
  exact ⟨by decide +kernel, hprimitive, hmatch, hshown, htarget⟩

def blankKind : ResourceFeature := .ofFiles " x" "res" "xml"

def blankClick : Request := ⟨" x.home", ⟨[". x"], " x.home", [], none, none⟩, none⟩

/-- The last kind answers for the first one where both have one subkind, and the reference shows no
name where the subkind begins in the blanks in front of the token. -/
theorem resolve_layout_of_same_subkind :
    (ResourceFeature.layout.recognizes homeClick.token homeClick.context ∧
      Language.kotlin.isPrimitive homeClick.token = false ∧
      ((kindsEngine [.layout, .ofFiles "layout" "res/other" "xml"]).resolve
        homeClick).target.url =
          some "https://github.com/o/r/blob/dev/app/src/main/res/other/home.xml" ∧
      resourceUrl "https://github.com/o/r/blob/dev/app/src/main/java/Main.kt" "main"
        (ResourceFeature.layout.path "home") =
          "https://github.com/o/r/blob/dev/app/src/main/res/layout/home.xml") ∧
    blankKind.recognizes blankClick.token blankClick.context ∧
      Language.kotlin.isPrimitive blankClick.token = false ∧
      ((kindsEngine [blankKind]).resolve blankClick).reference = .resource " x" "" ∧
      ((kindsEngine [blankKind]).resolve blankClick).status = .resolved ∧
      ((kindsEngine [blankKind]).resolve blankClick).target.url =
        some "https://github.com/o/r/blob/dev/app/src/main/res/home.xml" := by
  decide +kernel

end Engine

end CodeNav
