import CodeNav.Proofs.DeclarationLines

namespace CodeNav

/-- The line is written to declare the import. Blanks stand between its parts as they like, and
there is one at least where two words would touch. -/
inductive ImportStatement.Writes : ImportStatement → Text → Prop where
  | named {front gap modifier name close : Text} {words : List Text} (hfront : Text.isBlank front)
      (hgap : IsGap gap) (hmodifier : Modifier modifier words)
      (hname : IsImported (isQualifiedName ·) name) (hclose : IsClose close) :
      Writes ⟨name, none⟩ (front ++ "import" ++ gap ++ modifier ++ name ++ close)
  | aliased {front gap name before after symbol close : Text} (hfront : Text.isBlank front)
      (hgap : IsGap gap) (hname : IsImported (isQualifiedName ·) name)
      (hbefore : Text.isBlank before) (happart : before = [] → ¬name.getLast?.any isWord)
      (hafter : IsGap after) (hsymbol : isWordRun symbol) (hclose : IsClose close) :
      Writes ⟨name, some symbol⟩
        (front ++ "import" ++ gap ++ name ++ before ++ "as" ++ after ++ symbol ++ close)

inductive Declaration where
  | package (name : Text)
  | imported (i : ImportStatement)
  | nothing

namespace Declaration

def package? : Declaration → Option Text
  | package name => some name
  | imported _ | nothing => none

def import? : Declaration → Option ImportStatement
  | imported i => some i
  | package _ | nothing => none

inductive Writes : Declaration → Text → Prop where
  | package {name line : Text} (h : PackageForm line name) (hname : isQualifiedName name) :
      Writes (.package name) line
  | imported {i : ImportStatement} {line : Text} (h : i.Writes line) : Writes (.imported i) line
  | nothing {line : Text} (hpackage : ¬packagePattern.matchesAll line)
      (himport : ¬ImportStatement.pattern.matchesAll line) : Writes .nothing line

end Declaration

theorem isDotted_of_isQualifiedName {name : Text} (h : isQualifiedName name) : IsDotted name := by
  exact ⟨by rintro rfl; exact absurd h (by decide), mem_of_isQualifiedName h⟩

theorem isImported_dotted {name : Text} (h : IsImported (isQualifiedName ·) name) :
    IsImported IsDotted name := by
  cases h with
  | single h => exact .single (isDotted_of_isQualifiedName h)
  | all h => exact .all (isDotted_of_isQualifiedName h)

theorem getLast?_of_isQualifiedName {name : Text} (h : isQualifiedName name) :
    name.getLast?.any isWord := by
  have hdotted := isDotted_of_isQualifiedName h
  obtain ⟨a, c, rfl⟩ := (List.eq_nil_or_concat' name).resolve_left hdotted.ne_nil
  rw [List.getLast?_concat, Option.any_some]
  rcases hdotted.mem c (by simp) with hc | rfl
  · exact hc
  · -- Behind a dot at the end there would be an empty segment.
    exact absurd (isQualifiedName_append_iff.mp h).2 (by decide)

/-- A name that ends in no word character ends in the asterisk. -/
theorem suffix_of_isImported {name : Text} (h : IsImported (isQualifiedName ·) name)
    (hlast : ¬name.getLast?.any isWord) : "*".toList <:+ name := by
  cases h with
  | single h => exact absurd (getLast?_of_isQualifiedName h) hlast
  | @all t _ => exact ⟨t ++ ".", by simp⟩

/-- A written import has the form of one, unless `as` stands right behind the asterisk. -/
theorem ImportStatement.Writes.importForm {i : ImportStatement} {line : Text} (h : i.Writes line)
    (hapart : ¬"*as".toList <:+: line) : ImportForm line i := by
  cases h with
  | named hfront hgap hmodifier hname hclose =>
    have hform := ImportForm.mk hfront hgap hmodifier (isImported_dotted hname) .absent hclose
    rwa [List.append_nil] at hform
  | @aliased front gap name before after symbol close hfront hgap hname hbefore htouch hafter
      hsymbol hclose =>
    have hne : before ≠ [] := by
      rintro rfl
      obtain ⟨stem, rfl⟩ := suffix_of_isImported hname (htouch rfl)
      exact hapart ⟨front ++ "import" ++ gap ++ stem, after ++ symbol ++ close, by simp⟩
    have hform := ImportForm.mk hfront hgap .absent (isImported_dotted hname)
      (.given ⟨hne, hbefore⟩ hafter hsymbol) hclose
    simpa using hform

theorem packageName?_of_writes {d : Declaration} {line : Text} (h : d.Writes line)
    (hapart : ∀ i, d = .imported i → ¬"*as".toList <:+: line) :
    packageName? line = d.package? := by
  cases h with
  | package hform _ => exact packageName?_eq_some_iff.mpr hform
  | @imported i _ hwrites =>
    refine Option.eq_none_iff_forall_ne_some.mpr fun name hname => ?_
    have hform := packageName?_eq_some_iff.mp hname
    exact not_importForm_of_packageForm hform i (hwrites.importForm (hapart i rfl))
  | nothing hpackage _ =>
    unfold packageName?
    rw [Option.not_isSome_iff_eq_none.mp hpackage]
    rfl

theorem ofLine?_of_writes {d : Declaration} {line : Text} (h : d.Writes line)
    (hapart : ∀ i, d = .imported i → ¬"*as".toList <:+: line) :
    ImportStatement.ofLine? line = d.import? := by
  cases h with
  | package hform _ =>
    refine Option.eq_none_iff_forall_ne_some.mpr fun i hi => ?_
    exact not_importForm_of_packageForm hform i (ImportStatement.ofLine?_eq_some_iff.mp hi)
  | @imported i _ hwrites =>
    exact ImportStatement.ofLine?_eq_some_iff.mpr (hwrites.importForm (hapart i rfl))
  | nothing _ himport =>
    unfold ImportStatement.ofLine?
    rw [Option.not_isSome_iff_eq_none.mp himport]
    rfl

theorem Text.lines_append_feed {l : Text} (h : ∀ c ∈ l, isLineEnd c = false) (t : Text) :
    lines (l ++ '\n' :: t) = l :: lines t := by
  induction l with
  | nil => exact lines_feed t
  | cons c l ih =>
    obtain ⟨hc, hl⟩ := List.forall_mem_cons.mp h
    rw [List.cons_append, lines_cons hc, ih hl]
    rfl

theorem Text.lines_single {l : Text} (h : ∀ c ∈ l, isLineEnd c = false) (hne : l ≠ []) :
    lines l = [l] := by
  induction l with
  | nil => exact absurd rfl hne
  | cons c l ih =>
    obtain ⟨hc, hl⟩ := List.forall_mem_cons.mp h
    rw [lines_cons hc]
    by_cases hnil : l = []
    · rw [hnil]
      rfl
    · rw [ih hl hnil]
      rfl

/-- Lines that are joined are the lines of the text, up to an empty one at the end. -/
theorem Text.eq_lines_join {ls : List Text} (h : ∀ l ∈ ls, ∀ c ∈ l, isLineEnd c = false) :
    ∃ k, ls = lines (join "\n" ls) ++ List.replicate k [] := by
  induction ls with
  | nil => exact ⟨0, rfl⟩
  | cons l ls ih =>
    obtain ⟨hl, hls⟩ := List.forall_mem_cons.mp h
    cases ls with
    | nil =>
      by_cases hne : l = []
      · exact ⟨1, by rw [hne]; rfl⟩
      · refine ⟨0, ?_⟩
        simp [join, lines_single hl hne]
    | cons m ls =>
      obtain ⟨k, hk⟩ := ih hls
      refine ⟨k, ?_⟩
      have hjoin : join "\n" (l :: m :: ls) = l ++ '\n' :: join "\n" (m :: ls) := by
        simp [join, List.intercalate_cons_cons]
      rw [hjoin, lines_append_feed hl, List.cons_append, ← hk]

/-- Joined lines declare what each of them declares. -/
theorem Imports.ofText_join_lines {ls : List Text} (h : ∀ l ∈ ls, ∀ c ∈ l, isLineEnd c = false) :
    ofText (Text.join "\n" ls) =
      ⟨(ls.findSome? packageName?).getD [], ls.filterMap ImportStatement.ofLine?⟩ := by
  have hpackage : packageName? [] = none := by decide
  have himport : ImportStatement.ofLine? [] = none := by decide
  obtain ⟨k, hk⟩ := Text.eq_lines_join h
  have hnone : (List.replicate k []).findSome? packageName? = none := by
    simp [hpackage]
  have hnil : (List.replicate k []).filterMap ImportStatement.ofLine? = [] := by
    simp [himport]
  conv_rhs => rw [hk]
  rw [List.findSome?_append, List.filterMap_append, hnone, hnil, Option.or_none, List.append_nil]
  rfl

/-- A file that is written line by line is read back: its package is the first that a line declares,
and its imports are those that the lines declare, in order. Keywords may be names everywhere, and
only `as` right behind the asterisk is left out. -/
theorem Imports.ofText_join {ls : List (Text × Declaration)}
    (hwrites : ∀ l ∈ ls, l.2.Writes l.1) (hsingle : ∀ l ∈ ls, ∀ c ∈ l.1, isLineEnd c = false)
    (hapart : ∀ l ∈ ls, ∀ i, l.2 = .imported i → ¬"*as".toList <:+: l.1) :
    ofText (Text.join "\n" (ls.map (·.1))) =
        ⟨(ls.findSome? (·.2.package?)).getD [], ls.filterMap (·.2.import?)⟩ ∧
      ∀ line i, (line, .imported i) ∈ ls → importName? line = some i.name := by
  constructor
  · have hread : ls.map (packageName? ·.1) = ls.map (·.2.package?) :=
      List.map_congr_left fun l hl => packageName?_of_writes (hwrites l hl) (hapart l hl)
    have hpackage : ls.findSome? (packageName? ·.1) = ls.findSome? (·.2.package?) := by
      have hfirst := congrArg (List.findSome? id) hread
      rwa [List.findSome?_map, List.findSome?_map] at hfirst
    have himport : ls.filterMap (ImportStatement.ofLine? ·.1) = ls.filterMap (·.2.import?) :=
      List.filterMap_congr fun l hl => ofLine?_of_writes (hwrites l hl) (hapart l hl)
    rw [ofText_join_lines (by simpa using hsingle), List.findSome?_map, List.filterMap_map]
    exact congrArg₂ _ (congrArg (·.getD []) hpackage) himport
  · intro line i hl
    have hi := ofLine?_of_writes (hwrites _ hl) (hapart _ hl)
    rw [importName?, hi]
    rfl

def keywordFile : List (Text × Declaration) := [
  ("\tpackage static.as ;", .package "static.as"),
  ("import static static", .imported ⟨"static", none⟩),
  ("// import a.b", .nothing),
  ("import as.import.* as as;", .imported ⟨"as.import.*", some "as"⟩),
  ("package later", .package "later")]

theorem Imports.ofText_join_keywords :
    (∀ l ∈ keywordFile, l.2.Writes l.1) ∧ (∀ l ∈ keywordFile, ∀ c ∈ l.1, isLineEnd c = false) ∧
      (∀ l ∈ keywordFile, ∀ i, l.2 = .imported i → ¬"*as".toList <:+: l.1) ∧
      ofText (Text.join "\n" (keywordFile.map (·.1))) =
        ⟨"static.as", [⟨"static", none⟩, ⟨"as.import.*", some "as"⟩]⟩ ∧
      importName? "import as.import.* as as;" = some "as.import.*".toList := by
  have hgap : IsGap " " := ⟨by decide, by decide +kernel⟩
  have hblank : Text.isBlank "" := rfl
  have hpackage :
      PackageForm ("\t" ++ "package" ++ " " ++ "static.as" ++ (" " ++ ";" ++ "")) "static.as" :=
    .mk (by decide +kernel) hgap (isDotted_of_isQualifiedName (by decide +kernel))
      (.semicolon hgap.isBlank hblank)
  have hlater : PackageForm ("" ++ "package" ++ " " ++ "later" ++ "") "later" :=
    .mk hblank hgap (isDotted_of_isQualifiedName (by decide +kernel)) (.blank hblank)
  have hstatic : ImportStatement.Writes ⟨"static", none⟩
      ("" ++ "import" ++ " " ++ ("static" ++ " ") ++ "static" ++ "") :=
    .named hblank hgap (.static hgap) (.single (by decide +kernel)) (.blank hblank)
  have hall : ImportStatement.Writes ⟨"as.import" ++ ".*", some "as"⟩
      ("" ++ "import" ++ " " ++ ("as.import" ++ ".*") ++ " " ++ "as" ++ " " ++ "as" ++
        ("" ++ ";" ++ "")) :=
    .aliased hblank hgap (.all (by decide +kernel)) hgap.isBlank (by simp) hgap (by decide +kernel)
      (.semicolon hblank hblank)
  have hwrites : ∀ l ∈ keywordFile, l.2.Writes l.1 := by
    simp only [keywordFile, List.forall_mem_cons, List.not_mem_nil, false_imp_iff, implies_true,
      and_true]
    exact ⟨.package hpackage (by decide +kernel), .imported hstatic,
      .nothing (by decide +kernel) (by decide +kernel), .imported hall,
      .package hlater (by decide +kernel)⟩
  have hends : keywordFile.all fun l => l.1.all (!isLineEnd ·) := by decide +kernel
  have hsingle : ∀ l ∈ keywordFile, ∀ c ∈ l.1, isLineEnd c = false := by simpa using hends
  have hapart : ∀ l ∈ keywordFile, ¬"*as".toList <:+: l.1 := by decide +kernel
  obtain ⟨hread, hname⟩ := ofText_join hwrites hsingle fun l hl _ _ => hapart l hl
  exact ⟨hwrites, hsingle, fun l hl _ _ => hapart l hl, hread,
    hname "import as.import.* as as;" ⟨"as.import.*", some "as"⟩ (by simp [keywordFile])⟩

/-- With `as` right behind the asterisk, where no two words touch, the line is no import. -/
theorem Imports.ofText_alias_behind_asterisk :
    (Declaration.imported ⟨"a.*", some "b"⟩).Writes "import a.*as b" ∧
      (∀ c ∈ "import a.*as b".toList, isLineEnd c = false) ∧
      ofText (Text.join "\n" ["import a.*as b"]) = ⟨[], []⟩ ∧
      importName? "import a.*as b" = none := by
  have hgap : IsGap " " := ⟨by decide, by decide +kernel⟩
  have hblank : Text.isBlank "" := rfl
  have hwrites : ImportStatement.Writes ⟨"a" ++ ".*", some "b"⟩
      ("" ++ "import" ++ " " ++ ("a" ++ ".*") ++ "" ++ "as" ++ " " ++ "b" ++ "") :=
    .aliased hblank hgap (.all (by decide +kernel)) hblank (fun _ => by decide +kernel) hgap
      (by decide +kernel) (.blank hblank)
  have hsingle : ∀ c ∈ "import a.*as b".toList, isLineEnd c = false := by
    rw [← List.forall_iff_forall_mem]
    decide
  exact ⟨.imported hwrites, hsingle, by decide +kernel, by decide +kernel⟩

end CodeNav
