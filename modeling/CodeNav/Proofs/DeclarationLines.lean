import CodeNav.Proofs.ClassTargets
import CodeNav.Proofs.Locality
import CodeNav.Proofs.PlainPatterns

/-!
Lines that declare a package or an import. A line declares an import exactly when it has the form of
one (`ImportStatement.ofLine?_eq_some_iff`), and no line has it in two ways, although `static`, `as`
and the keywords themselves may be names: the words between blanks and semicolons are already of a
different number in each case (`ImportForm.unique`). The same holds of packages.
-/

namespace CodeNav

namespace Text

def isSeparator (c : Char) : Bool := CodeNav.isBlank c || c == ';'

/-- The parts of a line between blanks and semicolons. -/
def chunks (t : Text) : List Text := (t.splitOnP isSeparator).filter fun p => !p.isEmpty

theorem chunks_append_cons {c : Char} (hc : isSeparator c) (a b : Text) :
    chunks (a ++ c :: b) = chunks a ++ chunks b := by
  rw [chunks, List.splitOnP_append_cons a b hc, List.filter_append]
  rfl

theorem chunks_skip {g : Text} (hg : ∀ c ∈ g, isSeparator c) (t : Text) :
    chunks (g ++ t) = chunks t := by
  induction g with
  | nil => rfl
  | cons c g ih =>
    obtain ⟨hc, hg⟩ := List.forall_mem_cons.mp hg
    rw [List.cons_append, ← ih hg]
    exact chunks_append_cons hc [] (g ++ t)

structure IsPart (w : Text) : Prop where
  ne_nil : w ≠ []
  mem : ∀ c ∈ w, isSeparator c = false

theorem chunks_of_isPart {w : Text} (hw : IsPart w) : chunks w = [w] := by
  rw [chunks, List.splitOnP_eq_singleton hw.mem]
  simp [hw.ne_nil]

theorem chunks_part_skip {w g : Text} (hw : IsPart w) (hne : g ≠ []) (hg : ∀ c ∈ g, isSeparator c)
    (t : Text) : chunks (w ++ (g ++ t)) = w :: chunks t := by
  cases g with
  | nil => exact absurd rfl hne
  | cons c g =>
    obtain ⟨hc, hg⟩ := List.forall_mem_cons.mp hg
    rw [List.cons_append, chunks_append_cons hc, chunks_of_isPart hw, chunks_skip hg]
    rfl

theorem chunks_part_close {w g : Text} (hw : IsPart w) (hg : ∀ c ∈ g, isSeparator c) :
    chunks (w ++ g) = [w] := by
  by_cases hne : g = []
  · rw [hne, List.append_nil, chunks_of_isPart hw]
  · have hskip := chunks_part_skip hw hne hg []
    rwa [List.append_nil] at hskip

end Text

open Text (chunks isSeparator IsPart)

theorem isSeparator_of_isBlank {t : Text} (h : Text.isBlank t) : ∀ c ∈ t, isSeparator c := by
  intro c hc
  rw [isSeparator, List.all_eq_true.mp h c hc, Bool.true_or]

theorem isSeparator_of_isWord {c : Char} (h : isWord c) : isSeparator c = false := by
  have hsemicolon : c ≠ ';' := by
    rintro rfl
    revert h
    decide
  simp [isSeparator, isBlank_of_isWord h, hsemicolon]

/-- Blanks that keep two words apart. -/
structure IsGap (t : Text) : Prop where
  ne_nil : t ≠ []
  isBlank : Text.isBlank t

/-- What ends a declaration: blanks, and a semicolon among them or none. -/
inductive IsClose : Text → Prop where
  | blank {a : Text} (ha : Text.isBlank a) : IsClose a
  | semicolon {a b : Text} (ha : Text.isBlank a) (hb : Text.isBlank b) : IsClose (a ++ ";" ++ b)

structure IsDotted (t : Text) : Prop where
  ne_nil : t ≠ []
  mem : ∀ c ∈ t, isWord c ∨ c = '.'

/-- What an import names: a name `P`, and the sign for all names below it or not. -/
inductive IsImported (P : Text → Prop) : Text → Prop where
  | single {t : Text} (h : P t) : IsImported P t
  | all {t : Text} (h : P t) : IsImported P (t ++ ".*")

/-- What may stand before the name of an import, and its word. -/
inductive Modifier : Text → List Text → Prop where
  | absent : Modifier [] []
  | static {gap : Text} (h : IsGap gap) : Modifier ("static" ++ gap) ["static"]

/-- What may stand behind the name of an import, and the alias that it gives. -/
inductive Renaming : Text → Option Text → Prop where
  | absent : Renaming [] none
  | given {before after symbol : Text} (hbefore : IsGap before) (hafter : IsGap after)
      (hsymbol : isWordRun symbol) :
      Renaming (before ++ "as" ++ after ++ symbol) (some symbol)

inductive ImportForm : Text → ImportStatement → Prop where
  | mk {front gap modifier name rename close : Text} {words : List Text} {alias? : Option Text}
      (hfront : Text.isBlank front) (hgap : IsGap gap) (hmodifier : Modifier modifier words)
      (hname : IsImported IsDotted name) (hrename : Renaming rename alias?)
      (hclose : IsClose close) :
      ImportForm (front ++ "import" ++ gap ++ modifier ++ name ++ rename ++ close) ⟨name, alias?⟩

inductive PackageForm : Text → Text → Prop where
  | mk {front gap name close : Text} (hfront : Text.isBlank front) (hgap : IsGap gap)
      (hname : IsDotted name) (hclose : IsClose close) :
      PackageForm (front ++ "package" ++ gap ++ name ++ close) name

open Pattern

theorem parses_many_blank {w : Text} {kept : List (Text × Text)} :
    (many .blank).Parses w kept ↔ Text.isBlank w ∧ kept = [] := by
  simp [Parses, Text.isBlank, CharClass.holds]

theorem parses_several_blank {w : Text} {kept : List (Text × Text)} :
    (several .blank).Parses w kept ↔ IsGap w ∧ kept = [] := by
  constructor
  · rintro ⟨hne, hw, rfl⟩
    exact ⟨⟨hne, List.all_eq_true.mpr hw⟩, rfl⟩
  · rintro ⟨⟨hne, hw⟩, rfl⟩
    exact ⟨hne, List.all_eq_true.mp hw, rfl⟩

theorem parses_of_isBlank {w : Text} (h : Text.isBlank w) : (many .blank).Parses w [] :=
  parses_many_blank.mpr ⟨h, rfl⟩

theorem IsGap.parses {w : Text} (h : IsGap w) : (several .blank).Parses w [] :=
  parses_several_blank.mpr ⟨h, rfl⟩

/-- The front of a declaration: its keyword between blanks. -/
theorem parses_keyword (keyword : String) {front gap : Text} (hfront : Text.isBlank front)
    (hgap : IsGap gap) : (many .blank ++ (keyword : Pattern) ++ several .blank).Parses
      (front ++ keyword ++ gap) [] :=
  ((parses_of_isBlank hfront).append (parses_chars keyword)).append hgap.parses

theorem exists_of_parses_keyword {keyword : String} {w : Text} {kept : List (Text × Text)}
    (h : (many .blank ++ (keyword : Pattern) ++ several .blank).Parses w kept) :
    ∃ front gap, Text.isBlank front ∧ IsGap gap ∧ w = front ++ keyword ++ gap ∧ kept = [] := by
  simp only [parses_append, parses_many_blank, parses_several_blank] at h
  obtain ⟨_, gap, _, _, ⟨front, _, _, _, ⟨hfront, rfl⟩, ⟨rfl, rfl⟩, rfl, rfl⟩, ⟨hgap, rfl⟩, rfl,
    rfl⟩ := h
  exact ⟨front, gap, hfront, hgap, rfl, rfl⟩

/-- The end of a declaration. -/
theorem parses_close_iff {p : Pattern} {w : Text} {kept : List (Text × Text)} :
    (p ++ many .blank ++ optional ";" ++ many .blank).Parses w kept ↔
      ∃ u close, p.Parses u kept ∧ IsClose close ∧ w = u ++ close := by
  constructor
  · intro h
    simp only [parses_append, parses_many_blank] at h
    obtain ⟨_, b, _, _, ⟨_, s, _, _, ⟨u, a, _, _, hu, ⟨ha, rfl⟩, rfl, rfl⟩, hs, rfl, rfl⟩,
      ⟨hb, rfl⟩, rfl, rfl⟩ := h
    rcases hs with ⟨rfl, rfl⟩ | ⟨rfl, rfl⟩
    · exact ⟨u, a ++ ";" ++ b, hu, .semicolon ha hb, by simp⟩
    · -- Without the semicolon the blanks on its two sides are one run.
      have hab : Text.isBlank (a ++ b) := by
        rw [Text.isBlank, List.all_append, Bool.and_eq_true]
        exact ⟨ha, hb⟩
      exact ⟨u, a ++ b, hu, .blank hab, by simp⟩
  · rintro ⟨u, close, hu, hclose, rfl⟩
    cases hclose with
    | blank hclose =>
      have hnil : (many .blank).Parses [] [] := parses_of_isBlank rfl
      have hparse :=
        ((hu.append (parses_of_isBlank hclose)).append (parses_optional_nil ";")).append hnil
      simpa using hparse
    | semicolon ha hb =>
      have hparse := ((hu.append (parses_of_isBlank ha)).append
        (parses_chars ";").optional).append (parses_of_isBlank hb)
      simpa using hparse

theorem parses_dotted_iff {w : Text} {kept : List (Text × Text)} :
    (several (.oneOf [.word, .char '.'])).Parses w kept ↔ IsDotted w ∧ kept = [] := by
  have hholds : ∀ c, CharClass.holds (.oneOf [.word, .char '.']) c ↔ isWord c ∨ c = '.' := by
    simp [CharClass.holds, ClassItem.holds]
  constructor
  · rintro ⟨hne, hw, rfl⟩
    exact ⟨⟨hne, fun c hc => (hholds c).mp (hw c hc)⟩, rfl⟩
  · rintro ⟨⟨hne, hw⟩, rfl⟩
    exact ⟨hne, fun c hc => (hholds c).mpr (hw c hc), rfl⟩

theorem IsDotted.parses {w : Text} (h : IsDotted w) :
    (several (.oneOf [.word, .char '.'])).Parses w [] :=
  parses_dotted_iff.mpr ⟨h, rfl⟩

theorem parses_imported_iff {w : Text} {kept : List (Text × Text)} :
    (several (.oneOf [.word, .char '.']) ++ optional (group ".*")).Parses w kept ↔
      IsImported IsDotted w ∧ kept = [] := by
  constructor
  · intro h
    simp only [parses_append, parses_dotted_iff] at h
    obtain ⟨t, s, _, _, ⟨ht, rfl⟩, hs, rfl, rfl⟩ := h
    rcases hs with ⟨rfl, rfl⟩ | ⟨rfl, rfl⟩
    · exact ⟨.all ht, rfl⟩
    · exact ⟨by simpa using IsImported.single ht, rfl⟩
  · rintro ⟨himported, rfl⟩
    cases himported with
    | single ht => simpa using ht.parses.append (parses_optional_nil (group ".*"))
    | all ht => exact ht.parses.append (parses_chars ".*").optional

theorem parses_modifier_iff {w : Text} {kept : List (Text × Text)} :
    (optional (group ("static" ++ several .blank))).Parses w kept ↔
      (∃ words, Modifier w words) ∧ kept = [] := by
  constructor
  · rintro (⟨_, gap, _, _, ⟨rfl, rfl⟩, hgap, rfl, rfl⟩ | ⟨rfl, rfl⟩)
    · obtain ⟨hblank, rfl⟩ := parses_several_blank.mp hgap
      exact ⟨⟨_, .static hblank⟩, rfl⟩
    · exact ⟨⟨_, .absent⟩, rfl⟩
  · rintro ⟨⟨_, hmodifier⟩, rfl⟩
    cases hmodifier with
    | absent => exact parses_optional_nil _
    | static hgap => exact .inl ((parses_chars "static").append hgap.parses)

def keptAlias (alias? : Option Text) : List (Text × Text) := alias?.toList.map fun a => ("alias", a)

theorem parses_renaming_iff {w : Text} {kept : List (Text × Text)} :
    (optional (group (several .blank ++ "as" ++ several .blank ++
        capture "alias" (several .word)))).Parses w kept ↔
      ∃ alias?, Renaming w alias? ∧ kept = keptAlias alias? := by
  constructor
  · rintro (⟨_, symbol, _, _, ⟨_, after, _, _, ⟨before, _, _, _, hbefore, ⟨rfl, rfl⟩, rfl, rfl⟩,
      hafter, rfl, rfl⟩, ⟨_, ⟨hne, hw, rfl⟩, rfl⟩, rfl, rfl⟩ | ⟨rfl, rfl⟩)
    · obtain ⟨hb, rfl⟩ := parses_several_blank.mp hbefore
      obtain ⟨ha, rfl⟩ := parses_several_blank.mp hafter
      have hsymbol : isWordRun symbol := by
        simpa [isWordRun, hne, CharClass.holds] using hw
      exact ⟨some symbol, .given hb ha hsymbol, rfl⟩
    · exact ⟨none, .absent, rfl⟩
  · rintro ⟨_, hrename, rfl⟩
    cases hrename with
    | absent => exact parses_optional_nil _
    | @given before after symbol hbefore hafter hsymbol =>
      have hword : (several .word).Parses symbol [] :=
        ⟨ne_nil_of_isWordRun hsymbol, mem_of_isWordRun hsymbol, rfl⟩
      exact .inl (((hbefore.parses.append (parses_chars "as")).append hafter.parses).append
        (hword.capture "alias"))

/-- An import line falls into the parts of its form, and keeps the name and the alias. -/
theorem parses_import_iff {line : Text} {kept : List (Text × Text)} :
    ImportStatement.pattern.Parses line kept ↔ ∃ i, ImportForm line i ∧
      kept = keptAlias i.alias? ++ [("name".toList, i.name)] := by
  refine parses_close_iff.trans ?_
  constructor
  · rintro ⟨_, close, ⟨_, rename, _, _, ⟨_, name, _, _, ⟨w, modifier, _, _, hw, hmodifier, rfl,
      rfl⟩, ⟨_, hname, rfl⟩, rfl, rfl⟩, hrename, rfl, rfl⟩, hclose, rfl⟩
    obtain ⟨front, gap, hfront, hgap, rfl, rfl⟩ := exists_of_parses_keyword hw
    obtain ⟨⟨words, hmod⟩, rfl⟩ := parses_modifier_iff.mp hmodifier
    obtain ⟨himported, rfl⟩ := parses_imported_iff.mp hname
    obtain ⟨alias?, hren, rfl⟩ := parses_renaming_iff.mp hrename
    exact ⟨_, .mk hfront hgap hmod himported hren hclose, rfl⟩
  · rintro ⟨_, hform, rfl⟩
    cases hform with
    | mk hfront hgap hmodifier hname hrename hclose =>
      have hkeyword := parses_keyword "import" hfront hgap
      have hmodifier := parses_modifier_iff.mpr ⟨⟨_, hmodifier⟩, rfl⟩
      have hname := (parses_imported_iff.mpr ⟨hname, rfl⟩).capture "name"
      have hrename := parses_renaming_iff.mpr ⟨_, hrename, rfl⟩
      exact ⟨_, _, ((hkeyword.append hmodifier).append hname).append hrename, hclose, rfl⟩

theorem parses_package_iff {line : Text} {kept : List (Text × Text)} :
    packagePattern.Parses line kept ↔
      ∃ name, PackageForm line name ∧ kept = [("name".toList, name)] := by
  refine parses_close_iff.trans ?_
  constructor
  · rintro ⟨_, close, ⟨w, name, _, _, hw, ⟨_, hname, rfl⟩, rfl, rfl⟩, hclose, rfl⟩
    obtain ⟨front, gap, hfront, hgap, rfl, rfl⟩ := exists_of_parses_keyword hw
    obtain ⟨hdotted, rfl⟩ := parses_dotted_iff.mp hname
    exact ⟨name, .mk hfront hgap hdotted hclose, rfl⟩
  · rintro ⟨name, hform, rfl⟩
    cases hform with
    | mk hfront hgap hname hclose =>
      have hkeyword := parses_keyword "package" hfront hgap
      exact ⟨_, _, hkeyword.append (hname.parses.capture "name"), hclose, rfl⟩

theorem IsGap.mem {g : Text} (h : IsGap g) : ∀ c ∈ g, isSeparator c :=
  isSeparator_of_isBlank h.isBlank

theorem IsClose.mem {t : Text} (h : IsClose t) : ∀ c ∈ t, isSeparator c := by
  cases h with
  | blank ha => exact isSeparator_of_isBlank ha
  | semicolon ha hb =>
    intro c hc
    rcases List.mem_append.mp hc with hc | hc
    · rcases List.mem_append.mp hc with hc | hc
      · exact isSeparator_of_isBlank ha c hc
      · obtain rfl := List.mem_singleton.mp hc
        rfl
    · exact isSeparator_of_isBlank hb c hc

theorem isPart_of_isWordRun {t : Text} (h : isWordRun t) : IsPart t :=
  ⟨ne_nil_of_isWordRun h, fun c hc => isSeparator_of_isWord (mem_of_isWordRun h c hc)⟩

theorem IsDotted.isPart {t : Text} (h : IsDotted t) : IsPart t := by
  refine ⟨h.ne_nil, fun c hc => ?_⟩
  rcases h.mem c hc with hc | rfl
  · exact isSeparator_of_isWord hc
  · decide

theorem isPart_of_isImported {t : Text} (h : IsImported IsDotted t) : IsPart t := by
  cases h with
  | single h => exact h.isPart
  | all h =>
    have hstar : ∀ c ∈ ".*".toList, isSeparator c = false := by
      rw [← List.forall_iff_forall_mem]
      decide
    refine ⟨by simp, fun c hc => ?_⟩
    exact (List.mem_append.mp hc).elim (h.isPart.mem c) (hstar c)

def aliasWords : Option Text → List Text
  | none => []
  | some symbol => ["as".toList, symbol]

/-- The parts of an import line are its words, and the word before the name can only be `static`. -/
theorem chunks_of_importForm {line : Text} {i : ImportStatement} (h : ImportForm line i) :
    ∃ words, (words = [] ∨ words = ["static".toList]) ∧
      chunks line = "import".toList :: (words ++ i.name :: aliasWords i.alias?) := by
  obtain @⟨front, gap, modifier, name, rename, close, words, alias?, hfront, hgap, hmodifier, hname,
    hrename, hclose⟩ := h
  have hkeyword : isWordRun "import".toList := by decide
  have hstatic : isWordRun "static".toList := by decide
  have has : isWordRun "as".toList := by decide
  -- A close has no part of its own, and every part before it is closed by a gap.
  have hnamed : chunks (name ++ (rename ++ close)) = name :: aliasWords alias? := by
    cases hrename with
    | absent => exact Text.chunks_part_close (isPart_of_isImported hname) hclose.mem
    | @given before after symbol hbefore hafter hsymbol =>
      calc chunks (name ++ (before ++ "as" ++ after ++ symbol ++ close))
          = chunks (name ++ (before ++ ("as" ++ (after ++ (symbol ++ close))))) := by simp
        _ = [name, "as".toList, symbol] := by
          rw [Text.chunks_part_skip (isPart_of_isImported hname) hbefore.ne_nil hbefore.mem,
            Text.chunks_part_skip (isPart_of_isWordRun has) hafter.ne_nil hafter.mem,
            Text.chunks_part_close (isPart_of_isWordRun hsymbol) hclose.mem]
  have hline : chunks (front ++ "import" ++ gap ++ modifier ++ name ++ rename ++ close) =
      "import".toList :: chunks (modifier ++ (name ++ (rename ++ close))) := by
    simp only [List.append_assoc]
    rw [Text.chunks_skip (isSeparator_of_isBlank hfront),
      Text.chunks_part_skip (isPart_of_isWordRun hkeyword) hgap.ne_nil hgap.mem]
  cases hmodifier with
  | absent =>
    refine ⟨[], .inl rfl, ?_⟩
    rw [hline, List.nil_append, hnamed]
    rfl
  | @static between hbetween =>
    refine ⟨["static".toList], .inr rfl, ?_⟩
    rw [hline, List.append_assoc, Text.chunks_part_skip (isPart_of_isWordRun hstatic)
      hbetween.ne_nil hbetween.mem, hnamed]
    rfl

theorem chunks_of_packageForm {line name : Text} (h : PackageForm line name) :
    chunks line = ["package".toList, name] := by
  obtain @⟨front, gap, _, close, hfront, hgap, hname, hclose⟩ := h
  have hkeyword : isWordRun "package".toList := by decide
  simp only [List.append_assoc]
  rw [Text.chunks_skip (isSeparator_of_isBlank hfront),
    Text.chunks_part_skip (isPart_of_isWordRun hkeyword) hgap.ne_nil hgap.mem,
    Text.chunks_part_close hname.isPart hclose.mem]

/-- No line declares two imports: with the modifier or without, and with an alias or without, the
words of an import are of a different number each. -/
theorem ImportForm.unique {line : Text} {i j : ImportStatement} (hi : ImportForm line i)
    (hj : ImportForm line j) : i = j := by
  obtain ⟨words, hwords, hchunks⟩ := chunks_of_importForm hi
  obtain ⟨words', hwords', hchunks'⟩ := chunks_of_importForm hj
  obtain ⟨name, alias?⟩ := i
  obtain ⟨name', alias?'⟩ := j
  rw [hchunks] at hchunks'
  -- Two words without modifier and alias, three with the one, four with the other, five with both.
  rcases hwords with rfl | rfl <;> rcases hwords' with rfl | rfl <;> cases alias? <;>
    cases alias?' <;> simp_all [aliasWords]

theorem PackageForm.unique {line name name' : Text} (h : PackageForm line name)
    (h' : PackageForm line name') : name = name' := by
  have hchunks := (chunks_of_packageForm h).symm.trans (chunks_of_packageForm h')
  simpa using hchunks

theorem not_importForm_of_packageForm {line name : Text} (h : PackageForm line name)
    (i : ImportStatement) : ¬ImportForm line i := by
  intro hi
  obtain ⟨words, -, hchunks⟩ := chunks_of_importForm hi
  rw [chunks_of_packageForm h] at hchunks
  exact absurd (List.cons.inj hchunks).1 (by decide)

theorem isPlain_importPattern : ImportStatement.pattern.IsPlain := by
  simp [ImportStatement.pattern, isPlain_append, IsPlain]

theorem isPlain_packagePattern : packagePattern.IsPlain := by
  simp [packagePattern, isPlain_append, IsPlain]

theorem importForm_of_ofLine? {line : Text} {i : ImportStatement}
    (h : ImportStatement.ofLine? line = some i) : ImportForm line i := by
  unfold ImportStatement.ofLine? at h
  split at h
  · next m hm =>
    obtain ⟨⟨name, alias?⟩, hform, hcaptured⟩ :=
      parses_import_iff.mp (parses_of_fullMatch? isPlain_importPattern hm)
    have hname : (m.text? "name").getD [] = name := by
      rw [Place.text?, hcaptured]
      cases alias? <;> rfl
    have halias : m.text? "alias" = alias? := by
      rw [Place.text?, hcaptured]
      cases alias? <;> rfl
    rw [hname, halias] at h
    exact Option.some.inj h ▸ hform
  · cases h

/-- A line declares the import that it has the form of. -/
theorem ImportStatement.ofLine?_eq_some_iff {line : Text} {i : ImportStatement} :
    ImportStatement.ofLine? line = some i ↔ ImportForm line i := by
  refine ⟨importForm_of_ofLine?, fun h => ?_⟩
  have hmatch : ImportStatement.pattern.matchesAll line :=
    (matchesAll_iff_parses isPlain_importPattern).mpr ⟨_, parses_import_iff.mpr ⟨i, h, rfl⟩⟩
  obtain ⟨m, hm⟩ := Option.isSome_iff_exists.mp hmatch
  obtain ⟨j, hj⟩ : ∃ j, ofLine? line = some j := by
    unfold ofLine?
    rw [hm]
    exact ⟨_, rfl⟩
  rw [hj, (importForm_of_ofLine? hj).unique h]

theorem packageForm_of_fullMatch? {line : Text} {m : Place}
    (h : packagePattern.fullMatch? line = some m) :
    ∃ name, PackageForm line name ∧ m.text? "name" = some name := by
  obtain ⟨name, hform, hcaptured⟩ :=
    parses_package_iff.mp (parses_of_fullMatch? isPlain_packagePattern h)
  exact ⟨name, hform, by simp [Place.text?, hcaptured]⟩

/-- A line declares the package that it has the form of. -/
theorem packageName?_eq_some_iff {line name : Text} :
    packageName? line = some name ↔ PackageForm line name := by
  unfold packageName?
  constructor
  · intro h
    split at h
    · next m hm =>
      obtain ⟨n, hform, hn⟩ := packageForm_of_fullMatch? hm
      obtain rfl := Option.some.inj (hn.symm.trans h)
      exact hform
    · cases h
  · intro h
    have hmatch : packagePattern.matchesAll line :=
      (matchesAll_iff_parses isPlain_packagePattern).mpr
        ⟨_, parses_package_iff.mpr ⟨name, h, rfl⟩⟩
    obtain ⟨m, hm⟩ := Option.isSome_iff_exists.mp hmatch
    obtain ⟨n, hform, hn⟩ := packageForm_of_fullMatch? hm
    rw [hm, h.unique hform]
    exact hn

end CodeNav
