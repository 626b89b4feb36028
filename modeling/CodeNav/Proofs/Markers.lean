import CodeNav.Proofs.EnabledKinds
import CodeNav.Proofs.ImportLines
import CodeNav.Proofs.Lookup

namespace CodeNav

namespace Catalog

/-- The kinds in use have been checked against each other. -/
theorem firstOverlap?_of_features {extensions : List Extension} {enabled : Option (List Text)}
    {fs : List ResourceFeature} (h : features extensions enabled = .ok fs) :
    firstOverlap? (fs.map (·.marker)) = none := by
  rw [features_eq] at h
  obtain ⟨found, -, hcheck⟩ := bind_eq_ok h
  obtain ⟨hnone, rfl⟩ := check_eq_ok hcheck
  exact hnone

/-- No two kinds in use share a marker. -/
theorem nodup_markers {extensions : List Extension} {enabled : Option (List Text)}
    {fs : List ResourceFeature} (h : features extensions enabled = .ok fs) :
    (fs.map (·.marker)).Nodup := by
  refine (firstOverlap?_eq_none_iff.mp (firstOverlap?_of_features h)).imp ?_
  rintro a _ hoverlap rfl
  simp [overlap] at hoverlap

end Catalog

/-- With a key of its own an entry is found by whatever tells the key. -/
theorem find?_of_nodup_map {α κ : Type} {key : α → κ} {p : α → Bool} {l : List α} {a : α}
    (hn : (l.map key).Nodup) (ha : a ∈ l) (hp : ∀ b ∈ l, p b ↔ key b = key a) :
    l.find? p = some a := by
  cases hfind : l.find? p with
  | none => exact absurd ((hp a ha).mpr rfl) (List.find?_eq_none.mp hfind a ha)
  | some b =>
    have hb := List.mem_of_find?_eq_some hfind
    have hkey := (hp b hb).mp (List.find?_some hfind)
    rw [List.inj_on_of_nodup_map hn hb ha hkey]

section
variable {name : Text} (hname : isWordRun name)
include hname

theorem count_dot_accessor : ('.' :: name).count '.' = 1 := by
  have hnone : '.' ∉ name := not_mem_of_not_isWord (by decide) hname
  rw [List.count_cons_self, List.count_eq_zero.mpr hnone]

theorem trim_accessor : Text.trim ('.' :: name) = '.' :: name := by
  refine Text.trim_eq_self fun c hc => ?_
  rcases List.mem_cons.mp hc with rfl | hc
  · decide
  · exact isBlank_of_isWord (mem_of_isWordRun hname c hc)

theorem isPrimitive_accessor (l : Language) : l.isPrimitive ('.' :: name) = false := by
  have hbare : Language.bareName ('.' :: name) = '.' :: Text.erase '?' name := by
    unfold Language.bareName
    rw [trim_accessor hname]
    rfl
  have hprimitives : ∀ l : Language, ∀ p ∈ l.primitives, p.head? ≠ some '.' := by
    intro l
    cases l <;> decide
  unfold Language.isPrimitive
  rw [hbare, Bool.eq_false_iff]
  intro hmem
  exact hprimitives l _ (List.contains_iff_mem.mp hmem) rfl

theorem bareWord?_accessor : Text.bareWord? ('.' :: name) = some name := by
  have hskip : Url.skip ".".toList ('.' :: name) = name := by simp [Url.skip, Url.after?]
  unfold Text.bareWord?
  dsimp only
  rw [trim_accessor hname, hskip, takeWhile_of_isWordRun hname, List.drop_length]
  simp [ne_nil_of_isWordRun hname]

/-- The words behind a dot are the name, also where the dot is all that the kind puts before it. -/
theorem resourceName?_accessor (subkind : Text) :
    resourceName? ('.' :: name) subkind = some name := by
  have hdot : '.' ∉ name := not_mem_of_not_isWord (by decide) hname
  unfold resourceName?
  cases subkind with
  | nil =>
    have hfront : Text.wordAfter? ".".toList ('.' :: name) = some name := by
      unfold Text.wordAfter?
      rw [if_pos (by simpa using head?_of_isWordRun hname)]
      exact congrArg some (takeWhile_of_isWordRun hname)
    exact Option.or_eq_some_iff.mpr (.inl hfront)
  | cons c s =>
    -- The dot behind the kind cannot be the first one, and there is no other.
    have hnone : Text.wordAfter? (c :: s ++ ".") ('.' :: name) = none := by
      rw [← Option.not_isSome_iff_eq_none]
      intro hsome
      rcases List.infix_cons_iff.mp (Text.infix_of_wordAfter? hsome) with hpre | hinner
      · exact hdot ((List.cons_prefix_cons.mp hpre).2.subset (by simp))
      · exact hdot (hinner.subset (by simp))
    rw [hnone, Option.none_or, bareWord?_accessor hname]

end

namespace Engine

variable {e : Engine} {fs : List ResourceFeature} {f : ResourceFeature} {name : Text}
  {req : Request}

/-- Of kinds with markers of their own, the one whose marker stands before the token is
recognized. -/
theorem classify_behind_marker (hn : (e.features.map (·.marker)).Nodup) (hf : f ∈ e.features)
    (hname : isWordRun name) (htoken : req.token = '.' :: name)
    (hprevious : req.context.previous = some f.marker) :
    e.classify req = .resource f.subkind name := by
  have hfind : Classifier.feature? e.features req = some f := by
    -- With one dot in the token only what stands before it can match.
    refine find?_of_nodup_map hn hf fun g _ => ?_
    have hdots : req.token.count '.' ≤ 1 := by
      rw [htoken, count_dot_accessor hname]
    rw [g.recognizes_iff hdots, hprevious, Option.some_inj, eq_comm]
  have hprimitive : e.language.isPrimitive req.token = false := by
    rw [htoken]
    exact isPrimitive_accessor hname e.language
  rw [classify, Classifier.classify_of_feature? hprimitive hfind, htoken, trim_accessor hname]
  simp only [ResourceFeature.name?, resourceName?_accessor hname, Option.getD_some]

/-- It is also the one that answers for its kind. -/
theorem feature?_of_nodup (hn : (e.features.map (·.marker)).Nodup) (hf : f ∈ e.features) :
    e.feature? f.subkind = some f := by
  have hfind : e.features.reverse.find? (·.subkind = f.subkind) = some f := by
    have hreverse : (e.features.reverse.map (·.marker)).Nodup := by
      rw [List.map_reverse]
      exact List.nodup_reverse.mpr hn
    refine find?_of_nodup_map hreverse (List.mem_reverse.mpr hf) fun g _ => ?_
    simp [ResourceFeature.marker]
  rw [feature?, hfind]

theorem resolve_resource (hn : (e.features.map (·.marker)).Nodup) (hf : f ∈ e.features)
    (hname : isWordRun name) (htoken : req.token = '.' :: name)
    (hclassify : e.classify req = .resource f.subkind name) :
    (e.resolve req).status = .resolved ∧ (e.resolve req).target =
      ⟨some (resourceUrl e.document.url e.settings.rootSegment (f.path name)), true⟩ := by
  have htarget : f.target req.token e.document.url e.settings.rootSegment =
      ⟨some (resourceUrl e.document.url e.settings.rootSegment (f.path name)), true⟩ := by
    rw [htoken, ResourceFeature.target, ResourceFeature.name?, resourceName?_accessor hname]
  have hanswer : e.resolve req =
      { e.resolveResource req f.subkind name with snapshot := some e.document.snapshot } := by
    rw [resolve, hclassify]
    rfl
  rw [hanswer, resolveResource, feature?_of_nodup hn hf]
  dsimp only
  rw [htarget]
  exact ⟨rfl, rfl⟩

/-- A name behind the marker of a kind in use leads to the file of that kind with this name, in the
order the kinds were found in or in any other. Of the document only its address counts. -/
theorem resolve_behind_marker {extensions : List Extension} {enabled : Option (List Text)}
    (hfs : Catalog.features extensions enabled = .ok fs) (he : e.features.Perm fs) (hf : f ∈ fs)
    (hname : isWordRun name) (htoken : req.token = '.' :: name)
    (hprevious : req.context.previous = some f.marker) :
    e.classify req = .resource f.subkind name ∧ (e.resolve req).status = .resolved ∧
      (e.resolve req).target =
        ⟨some (resourceUrl e.document.url e.settings.rootSegment (f.path name)), true⟩ ∧
      ∀ e' : Engine, e'.features.Perm fs → e'.document.url = e.document.url →
        e'.settings.rootSegment = e.settings.rootSegment →
        (e'.resolve req).target = (e.resolve req).target := by
  have hnodup {e' : Engine} (he' : e'.features.Perm fs) : (e'.features.map (·.marker)).Nodup :=
    (he'.map _).nodup_iff.mpr (Catalog.nodup_markers hfs)
  have hclick {e' : Engine} (he' : e'.features.Perm fs) :=
    classify_behind_marker (hnodup he') (he'.mem_iff.mpr hf) hname htoken hprevious
  have hanswer {e' : Engine} (he' : e'.features.Perm fs) :=
    resolve_resource (hnodup he') (he'.mem_iff.mpr hf) hname htoken (hclick he')
  refine ⟨hclick he, (hanswer he).1, (hanswer he).2, fun e' he' hurl hroot => ?_⟩
  rw [(hanswer he').2, (hanswer he).2, hurl, hroot]

def drawable : ResourceFeature := .ofFiles "drawable" "res/drawable" "png"

/-- A page that names a drawable; the kinds are tried the other way round. -/
def drawableEngine : Engine where
  document := .ofText "val logo = R.drawable.logo"
    "https://github.com/o/r/blob/dev/app/src/main/java/Main.kt" "now"
  language := .kotlin
  features := [drawable, .string, .menu, .layout]

def drawableClick : Request :=
  ⟨".logo", ⟨["val", " ", "logo", " ", "=", " ", "R", ".drawable"], ".logo", [], none, none⟩, none⟩

theorem resolve_behind_marker_drawable :
    Catalog.features [⟨"drawable", .ok (some drawable)⟩] none =
        .ok [.layout, .menu, .string, drawable] ∧
      drawableEngine.features.Perm [.layout, .menu, .string, drawable] ∧
      isWordRun "logo" ∧
      drawableClick.context.siblings = Token.ofLine "val logo = R.drawable.logo" ∧
      drawableClick.context.previous = some drawable.marker ∧
      drawableEngine.classify drawableClick = .resource "drawable" "logo" ∧
      (drawableEngine.resolve drawableClick).status = .resolved ∧
      (drawableEngine.resolve drawableClick).target =
        ⟨some "https://github.com/o/r/blob/dev/app/src/main/res/drawable/logo.png", true⟩ := by
  have hfs : Catalog.features [⟨"drawable", .ok (some drawable)⟩] none =
      .ok [.layout, .menu, .string, drawable] := rfl
  have hperm : drawableEngine.features.Perm [.layout, .menu, .string, drawable] :=
    (List.reverse_perm drawableEngine.features).symm
  have hname : isWordRun "logo" := by decide +kernel
  have hprevious : drawableClick.context.previous = some drawable.marker := by decide +kernel
  obtain ⟨hclassify, hstatus, htarget, -⟩ :=
    resolve_behind_marker hfs hperm (by simp) hname rfl hprevious
  have hurl : resourceUrl drawableEngine.document.url drawableEngine.settings.rootSegment
      (drawable.path "logo") =
        "https://github.com/o/r/blob/dev/app/src/main/res/drawable/logo.png" := by
    decide +kernel
  exact ⟨hfs, hperm, hname, by decide +kernel, hprevious, hclassify, hstatus, hurl ▸ htarget⟩

end Engine

end CodeNav
