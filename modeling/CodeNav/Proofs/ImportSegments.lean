import CodeNav.Proofs.Denial
import CodeNav.Proofs.ImportTokens
import CodeNav.Proofs.ResourceRoots

namespace CodeNav

namespace Language

variable {l : Language} {c : TokenContext}

/-- In front of a further dot a segment is not the last one. -/
theorem isOnLastSegment_of_dot {rest : Text} (hnext : c.nextNonBlank = some ('.' :: rest))
    (hrest : ∀ x ∈ rest, isBlank x = false) : l.isOnLastSegment c = false := by
  have htrim : Text.trim ('.' :: rest) = '.' :: rest :=
    Text.trim_eq_self (List.forall_mem_cons.mpr ⟨by decide, hrest⟩)
  unfold isOnLastSegment
  rw [hnext]
  dsimp only
  rw [htrim]
  cases l <;> simp [importTerminators]

/-- In front of a further segment, or of the dot of a wildcard, a segment is not the last one. -/
theorem isOnLastSegment_of_inner {after : List Text} {star tail : Text}
    (hafter : ∀ t ∈ after, IsSegment t) (hstar : star = [] ∨ star = ".*".toList)
    (hinner : after ≠ [] ∨ star ≠ [])
    (hfollowing : c.following = after.map ('.' :: ·) ++ Token.ofLine (star ++ tail)) :
    l.isOnLastSegment c = false := by
  cases after with
  | cons t ts =>
    have hword := (hafter t List.mem_cons_self).isWordRun
    have hnext : c.nextNonBlank = some ('.' :: t) := by
      rw [TokenContext.nextNonBlank, hfollowing, List.map_cons, List.cons_append]
      exact List.find?_cons_of_pos rfl
    exact isOnLastSegment_of_dot hnext fun x hx => isBlank_of_isWord (mem_of_isWordRun hword x hx)
  | nil =>
    obtain rfl := hstar.resolve_left (hinner.resolve_left fun h => h rfl)
    have hdot : Token.ofLine ('.' :: '*' :: tail) = ['.'] :: Token.ofLine ('*' :: tail) :=
      Token.ofLine_cons_append (r := []) rfl
    have hnext : c.nextNonBlank = some ['.'] := by
      rw [TokenContext.nextNonBlank, hfollowing]
      change (Token.ofLine ('.' :: '*' :: tail)).find? _ = _
      rw [hdot]
      exact List.find?_cons_of_pos rfl
    exact isOnLastSegment_of_dot hnext (by simp)

/-- A semicolon right behind the name, in a language that does not look for one there. -/
def OverlooksEnd (l : Language) (alias? : Option Text) (tail : Text) : Prop :=
  l = kotlin ∧ alias? = none ∧ ';' ∈ tail

/-- In front of what stands behind the name a segment is the last one, unless it ends with a
semicolon that the language overlooks. -/
theorem isOnLastSegment_iff {alias? : Option Text} {tail : Text} (htail : ImportTail alias? tail)
    (hfollowing : c.following = Token.ofLine tail) (hjava : l = java → alias? = none) :
    l.isOnLastSegment c ↔ ¬l.OverlooksEnd alias? tail := by
  have hnext : c.nextNonBlank =
      if alias?.isSome then some "as".toList else if ';' ∈ tail then some [';'] else none := by
    rw [TokenContext.nextNonBlank, hfollowing, htail.find?_shown]
  have has : Text.trim ['a', 's'] = ['a', 's'] := by decide
  have hsemicolon : Text.trim [';'] = [';'] := by decide
  unfold isOnLastSegment OverlooksEnd
  rw [hnext]
  cases alias? with
  | some a =>
    cases l with
    | java => cases hjava rfl
    | kotlin => simp [importTerminators, has]
  | none =>
    by_cases hclosed : ';' ∈ tail <;> cases l <;> simp [importTerminators, hclosed, hsemicolon]

end Language

theorem SourceRoot.isPrefix {package url base : Text} (h : SourceRoot package url base) :
    base <+: url := by
  cases h with
  | ofPackage _ hcut =>
    rw [hcut.eq, List.append_assoc]
    exact List.prefix_append _ _
  | directory _ hurl _ =>
    rw [hurl, List.append_assoc]
    exact List.prefix_append _ _
  | whole => exact List.prefix_refl _

namespace ImportRules

variable {r : ImportRules} {d : Document} {c : TokenContext} {name : Text}

/-- The address of a directory has no anchor. -/
theorem not_mem_directoryUrl? {url : Text} (hname : isQualifiedName name)
    (h : directoryUrl? d name = some url) : '#' ∉ url := by
  obtain ⟨root, hroot, rfl⟩ := Option.map_eq_some_iff.mp h
  have hbegins : root <+: Url.stripAnchor d.url := (sourceRoot?_eq_some_iff.mp hroot).isPrefix
  have hbase : '#' ∉ root := fun hmem => Url.not_mem_stripAnchor d.url (hbegins.mem hmem)
  have hpath : '#' ∉ Text.swap '.' '/' name := by
    intro hmem
    obtain ⟨x, hx, hsame⟩ := List.mem_map.mp hmem
    split at hsame
    · cases hsame
    · subst hsame
      have hword := mem_of_isQualifiedName hname _ hx
      revert hword
      decide
  simp [hbase, hpath]

/-- A click that is not on the last segment leads to the directory of the name before it. -/
theorem importLineTarget_of_inner (hlast : r.language.isOnLastSegment c = false)
    (hname : directoryPackage (c.preceding ++ [c.token]) = name)
    (hqualified : isQualifiedName name) : r.importLineTarget d c =
      if r.isDenied name then (.nowhere, .deniedImport)
      else addressAnswer false (directoryUrl? d name) := by
  have hclicked : r.clickedName? c = some name := by
    rw [clickedName?, hlast, hname]
    rfl
  rw [importLineTarget_eq hclicked hqualified, hlast]
  rfl

/-- A click that is not on the last segment leads to no line of a file, whatever its name is. -/
theorem not_mem_importLineTarget {url : Text} (hlast : r.language.isOnLastSegment c = false)
    (h : (r.importLineTarget d c).1.url = some url) : '#' ∉ url := by
  by_cases hqualified : isQualifiedName (directoryPackage (c.preceding ++ [c.token]))
  · rw [importLineTarget_of_inner hlast rfl hqualified] at h
    split at h
    · cases h
    · cases hdir : directoryUrl? d (directoryPackage (c.preceding ++ [c.token])) with
      | none =>
        rw [hdir] at h
        cases h
      | some address =>
        rw [hdir] at h
        obtain rfl := Option.some.inj h
        exact not_mem_directoryUrl? hqualified hdir
  · have hnone : (r.clickedName? c).filter isQualifiedName = none := by
      rw [clickedName?, hlast]
      simp [hqualified]
    rw [importLineTarget_of_unnamed hnone] at h
    cases h

/-- A click on a segment that further segments or a wildcard stand behind leads to the directory of
the package up to there, or to none where that package is denied or has no directory. -/
theorem inner_segment_click (r : ImportRules) (d : Document) {line s star : Text}
    {i : ImportStatement} {before after : List Text} (hline : ImportStatement.ofLine? line = some i)
    (hname : i.name = Text.join "." (before ++ s :: after) ++ star)
    (hsegments : ∀ t ∈ before ++ s :: after, IsSegment t)
    (hfirst : StartsName (before ++ s :: after)) (hstar : star = [] ∨ star = ".*".toList)
    (hinner : after ≠ [] ∨ star ≠ []) :
    (∃ lead tail, ImportLine line i lead tail) ∧ ∀ lead tail, ImportLine line i lead tail →
      ∀ column, OnEnd (lead ++ Text.join "." (before ++ [s])) s column →
        ∀ cssClass lineNumber, ∃ c,
          TokenContext.atColumn? line column cssClass lineNumber = some c ∧
          r.importLineTarget d c =
            (if r.isDenied (Text.join "." (before ++ [s])) then (.nowhere, .deniedImport)
              else addressAnswer false (directoryUrl? d (Text.join "." (before ++ [s])))) ∧
          ∀ url, directoryUrl? d (Text.join "." (before ++ [s])) = some url →
            (∃ root, url = root ++ "/" ++ Text.join "/" (before ++ [s])) ∧ '#' ∉ url := by
  have hupto : ∀ t ∈ before ++ [s], IsSegment t := by
    intro t ht
    refine hsegments t ?_
    rw [List.append_cons]
    exact List.mem_append_left after ht
  have hafter : ∀ t ∈ after, IsSegment t := fun t ht =>
    hsegments t (List.mem_append_right before (List.mem_cons_of_mem s ht))
  have hfirst : StartsName (before ++ [s]) := by cases before <;> exact hfirst
  have hqualified : isQualifiedName (Text.join "." (before ++ [s])) :=
    isQualifiedName_join (by simp) hupto
  refine ⟨exists_importLine hline, fun lead tail himport column hcolumn cssClass lineNumber => ?_⟩
  -- The tokens of the name end where the wildcard or what stands behind the name begins.
  have hrest : Token.EndsName (star ++ tail) := by
    rcases hstar with rfl | rfl
    · exact himport.tail.endsName
    · exact endsName_dot _
  obtain ⟨c, ts, hclick, hlead, hpreceding, hfollowing⟩ :=
    exists_segment_click himport.lead hsegments hrest hcolumn cssClass lineNumber
  have hdirectory :
      directoryPackage (c.preceding ++ [c.token]) = Text.join "." (before ++ [s]) := by
    rw [hpreceding, directoryPackage_segments hlead hupto hfirst]
  refine ⟨c, ?_, ?_, fun url hurl => ⟨?_, not_mem_directoryUrl? hqualified hurl⟩⟩
  · rw [himport.eq, hname, ← hclick]
    simp
  · exact importLineTarget_of_inner
      (Language.isOnLastSegment_of_inner hafter hstar hinner hfollowing) hdirectory hqualified
  · obtain ⟨root, -, rfl⟩ := Option.map_eq_some_iff.mp hurl
    exact ⟨root, by rw [swap_join hupto]⟩

def formatPage : Document :=
  .ofText "package com.app;\n\nimport static com.app.util.Text.* ;\n"
    "https://github.com/o/r/blob/main/src/com/app/Main.java" "now"

theorem inner_segment_click_util :
    "import static com.app.util.Text.* ;".toList ∈ formatPage.text.lines ∧
      (∀ t ∈ ["com".toList, "app".toList, "util".toList, "Text".toList], IsSegment t) ∧
      OnEnd "import static com.app.util" "util" 23 ∧
      ∃ c, TokenContext.atColumn? "import static com.app.util.Text.* ;" 23 none (some 3) = some c ∧
        importLineTarget ⟨.java, []⟩ formatPage c =
          (⟨some "https://github.com/o/r/blob/main/src/com/app/util", true⟩, .resolved) := by
  have hline : ImportStatement.ofLine? "import static com.app.util.Text.* ;" =
      some ⟨"com.app.util.Text.*", none⟩ := by decide
  have hsegments : ∀ t ∈ ["com".toList, "app".toList] ++ "util".toList :: ["Text".toList],
      IsSegment t := by decide
  have hlead : ImportLead ("" ++ "import" ++ " " ++ ("static" ++ " ")) :=
    .mk (by decide) ⟨by decide, by decide⟩ (.static ⟨by decide, by decide⟩)
  have htail : ImportTail none (([] : Text) ++ (" " ++ ";" ++ "")) :=
    .mk .absent (.semicolon (by decide) (by decide))
  have himport : ImportLine "import static com.app.util.Text.* ;" ⟨"com.app.util.Text.*", none⟩
      "import static " " ;" := ⟨hline, by decide, hlead, htail⟩
  have hcolumn : OnEnd "import static com.app.util" "util" 23 := ⟨by decide, by decide⟩
  obtain ⟨c, hclick, htarget, -⟩ := (inner_segment_click ⟨.java, []⟩ formatPage hline (by decide)
    hsegments ⟨by decide, by decide⟩ (.inr rfl) (.inl (by decide))).2 _ _ himport 23 hcolumn none
    (some 3)
  refine ⟨by decide, hsegments, hcolumn, c, hclick, ?_⟩
  rw [htarget]
  decide

/-- A click on the last segment of a name leads to the file of the whole name, with its extension
and its first line; behind a semicolon that the language overlooks, it leads to the directory
instead. -/
theorem last_segment_click (r : ImportRules) (d : Document) {line s : Text} {i : ImportStatement}
    {before : List Text} (hline : ImportStatement.ofLine? line = some i)
    (hname : i.name = Text.join "." (before ++ [s])) (hsegments : ∀ t ∈ before ++ [s], IsSegment t)
    (hjava : r.language = .java → i.alias? = none) :
    (∃ lead tail, ImportLine line i lead tail) ∧ ∀ lead tail, ImportLine line i lead tail →
      ∀ column, OnEnd (lead ++ i.name) s column → ∀ cssClass lineNumber, ∃ c,
        TokenContext.atColumn? line column cssClass lineNumber = some c ∧
        (¬r.language.OverlooksEnd i.alias? tail → r.importLineTarget d c =
          if r.isDenied i.name then (.nowhere, .deniedImport)
          else addressAnswer false (fileUrl? d i.name 1)) ∧
        (r.language.OverlooksEnd i.alias? tail → StartsName (before ++ [s]) →
          r.importLineTarget d c =
            if r.isDenied i.name then (.nowhere, .deniedImport)
            else addressAnswer false (directoryUrl? d i.name)) ∧
        ∀ url, fileUrl? d i.name 1 = some url →
          (∃ root extension,
            url = root ++ "/" ++ Text.join "/" (before ++ [s]) ++ "." ++ extension ++ "#L1") ∧
          (¬r.isDenied i.name → (r.importLineTarget d c = (⟨some url, true⟩, .resolved) ↔
            ¬r.language.OverlooksEnd i.alias? tail)) := by
  have hqualified : isQualifiedName i.name := by
    rw [hname]
    exact isQualifiedName_join (by simp) hsegments
  refine ⟨exists_importLine hline, fun lead tail himport column hcolumn cssClass lineNumber => ?_⟩
  rw [hname] at hcolumn
  obtain ⟨c, ts, hclick, hlead, hpreceding, hfollowing⟩ :=
    exists_segment_click himport.lead hsegments himport.tail.endsName hcolumn cssClass lineNumber
  rw [← hname, ← himport.eq] at hclick
  have hlast := Language.isOnLastSegment_iff himport.tail hfollowing hjava
  have hinner (hoverlooks : r.language.OverlooksEnd i.alias? tail) :
      r.language.isOnLastSegment c = false :=
    Bool.eq_false_iff.mpr fun h => hlast.mp h hoverlooks
  have hfile : ¬r.language.OverlooksEnd i.alias? tail → r.importLineTarget d c =
      if r.isDenied i.name then (.nowhere, .deniedImport)
      else addressAnswer false (fileUrl? d i.name 1) := by
    intro hends
    have hclicked : r.clickedName? c = some i.name := by
      rw [clickedName?, if_pos (hlast.mpr hends), TokenContext.lineText_of_atColumn? hclick,
        importName?, hline, Option.map_some]
    rw [importLineTarget_eq hclicked hqualified, if_pos (hlast.mpr hends)]
  refine ⟨c, hclick, hfile, fun hoverlooks hfirst => ?_, fun url hurl => ⟨?_, fun hallowed => ?_⟩⟩
  · refine importLineTarget_of_inner (hinner hoverlooks) ?_ hqualified
    rw [hpreceding, directoryPackage_segments hlead hsegments hfirst, hname]
  · obtain ⟨root, extension, -, -, rfl⟩ := fileUrl?_eq_some_iff.mp hurl
    have hone : Text.ofInt 1 = "1".toList := by decide
    refine ⟨root, extension, ?_⟩
    rw [hname, swap_join hsegments, hone]
    simp
  · constructor
    · -- The address of a file has an anchor, and that of a directory has none.
      intro hresolved hoverlooks
      refine not_mem_importLineTarget (hinner hoverlooks) (congrArg (·.1.url) hresolved) ?_
      obtain ⟨root, extension, -, -, rfl⟩ := fileUrl?_eq_some_iff.mp hurl
      simp
    · intro hends
      rw [hfile hends, if_neg hallowed, hurl]
      rfl

theorem last_segment_click_start :
    "import a.b.Home as Start".toList ∈ startPage.text.lines ∧
      (∀ t ∈ ["a".toList, "b".toList, "Home".toList], IsSegment t) ∧
      OnEnd "import a.b.Home" "Home" 11 ∧
      ∃ c, TokenContext.atColumn? "import a.b.Home as Start" 11 none (some 2) = some c ∧
        importLineTarget ⟨.kotlin, []⟩ startPage c =
          (⟨some "https://github.com/o/r/blob/main/src/a/b/Home.kt#L1", true⟩, .resolved) := by
  have hline : ImportStatement.ofLine? "import a.b.Home as Start" =
      some ⟨"a.b.Home", some "Start"⟩ := by decide
  have hsegments : ∀ t ∈ ["a".toList, "b".toList] ++ ["Home".toList], IsSegment t := by
    decide
  have hlead : ImportLead ("" ++ "import" ++ " " ++ ([] : Text)) :=
    .mk (by decide) ⟨by decide, by decide⟩ .absent
  have htail : ImportTail (some "Start".toList) (" " ++ "as" ++ " " ++ "Start" ++ "") :=
    .mk (.given ⟨by decide, by decide⟩ ⟨by decide, by decide⟩ (by decide))
      (.blank (by decide))
  have himport : ImportLine "import a.b.Home as Start" ⟨"a.b.Home", some "Start"⟩ "import "
      " as Start" := ⟨hline, by decide, hlead, htail⟩
  have hcolumn : OnEnd "import a.b.Home" "Home" 11 := ⟨by decide, by decide⟩
  obtain ⟨c, hclick, -, -, hfile⟩ := (last_segment_click ⟨.kotlin, []⟩ startPage hline (by decide)
    hsegments (by simp)).2 _ _ himport 11 hcolumn none (some 2)
  refine ⟨by decide, hsegments, hcolumn, c, hclick, ?_⟩
  exact ((hfile "https://github.com/o/r/blob/main/src/a/b/Home.kt#L1" (by decide)).2
    (by decide)).mpr (by simp [Language.OverlooksEnd])

def closedPage : Document :=
  .ofText "package p\n\nimport a.b.Home;\n" "https://github.com/o/r/blob/main/src/p/Main.kt" "now"

def onClosedHome : TokenContext := ⟨["import", " ", "a", ".b"], ".Home", [";"], none, some 3⟩

/-- The class is there, but the click leads to a directory of its name. -/
theorem last_segment_click_of_semicolon :
    "import a.b.Home;".toList ∈ closedPage.text.lines ∧
      ImportStatement.ofLine? "import a.b.Home;" = some ⟨"a.b.Home", none⟩ ∧
      TokenContext.atColumn? "import a.b.Home;" 11 none (some 3) = some onClosedHome ∧
      ¬isDenied ⟨.kotlin, []⟩ "a.b.Home" ∧
      fileUrl? closedPage "a.b.Home" 1 =
        some "https://github.com/o/r/blob/main/src/a/b/Home.kt#L1" ∧
      importLineTarget ⟨.kotlin, []⟩ closedPage onClosedHome =
        (⟨some "https://github.com/o/r/blob/main/src/a/b/Home", true⟩, .resolved) := by
  refine ⟨?_, ?_, ?_, ?_, ?_, ?_⟩ <;> decide +kernel

end ImportRules

end CodeNav
