import CodeNav.Definition
import CodeNav.Proofs.Cuts
import CodeNav.Proofs.Matching
import Mathlib.Data.List.DropRight

namespace CodeNav

/-- Of the lines of a text, `line` is the first that `p` holds of; `before` are those before it. -/
structure Text.FirstLine (p : Text → Bool) (t : Text) (before : List Text) (line : Text) :
    Prop where
  stands : ∃ after, t.lines = before ++ line :: after
  holds : p line
  first : ∀ x ∈ before, ¬p x

theorem Text.find?_lines_eq_some_iff {p : Text → Bool} {t line : Text} :
    t.lines.find? p = some line ↔ ∃ before, FirstLine p t before line := by
  rw [List.find?_eq_some_iff_append]
  constructor
  · rintro ⟨hp, before, after, hlines, hfirst⟩
    exact ⟨before, ⟨after, hlines⟩, hp, fun x hx => by simpa using hfirst x hx⟩
  · rintro ⟨before, ⟨after, hlines⟩, hp, hfirst⟩
    exact ⟨hp, before, after, hlines, fun x hx => by simpa using hfirst x hx⟩

namespace Locator

def showsMatch (p : Pattern) (line : Text) : Bool := !Text.isBlank line && p.matchesAll line

theorem first?_numberedFrom_cons (p : Pattern) (k : Int) (t : Text) (ts : List Text) :
    first? (CodeLine.numberedFrom k (t :: ts)) p =
      if showsMatch p t then some k else first? (CodeLine.numberedFrom (k + 1) ts) p := by
  have hline : lineMatches p ⟨k, t⟩ = showsMatch p t := rfl
  unfold first?
  rw [CodeLine.numberedFrom, List.find?_cons, hline]
  cases showsMatch p t <;> rfl

theorem first?_numberedFrom_eq_some_iff {p : Pattern} {k n : Int} {ts : List Text} :
    first? (CodeLine.numberedFrom k ts) p = some n ↔
      ∃ before line after, ts = before ++ line :: after ∧ showsMatch p line ∧
        (∀ x ∈ before, ¬showsMatch p x) ∧ n = k + before.length := by
  induction ts generalizing k with
  | nil => simp [CodeLine.numberedFrom, first?]
  | cons t ts ih =>
    rw [first?_numberedFrom_cons]
    constructor
    · intro h
      split at h
      · next ht => exact ⟨[], t, ts, rfl, ht, by simp, by simpa using (Option.some.inj h).symm⟩
      · next ht =>
        obtain ⟨before, line, after, rfl, hline, hfirst, rfl⟩ := ih.mp h
        refine ⟨t :: before, line, after, rfl, hline, ?_, ?_⟩
        · simpa [ht] using hfirst
        · simp only [List.length_cons]
          omega
    · rintro ⟨before, line, after, hts, hline, hfirst, rfl⟩
      cases before with
      | nil =>
        obtain ⟨rfl, rfl⟩ := List.cons.inj hts
        simp [hline]
      | cons x before =>
        obtain ⟨rfl, rfl⟩ := List.cons.inj hts
        rw [if_neg (hfirst t List.mem_cons_self)]
        refine ih.mpr ⟨before, line, after, rfl, hline,
          fun y hy => hfirst y (List.mem_cons_of_mem _ hy), ?_⟩
        simp only [List.length_cons]
        omega

/-- The anchor of a pattern in a text is the number of its first matching line. -/
theorem anchor?_ofText {p : Pattern} {t : Text} {n : Int} :
    anchor? (CodeLine.ofText t) p = some n ↔
      ∃ before line, t.FirstLine (showsMatch p) before line ∧ n = before.length + 1 := by
  unfold anchor? CodeLine.ofText
  rw [Option.filter_eq_some_iff, first?_numberedFrom_eq_some_iff]
  constructor
  · rintro ⟨⟨before, line, after, hlines, hline, hfirst, rfl⟩, -⟩
    exact ⟨before, line, ⟨⟨after, hlines⟩, hline, hfirst⟩, by omega⟩
  · rintro ⟨before, line, ⟨⟨after, hlines⟩, hline, hfirst⟩, rfl⟩
    exact ⟨⟨before, line, after, hlines, hline, hfirst, by omega⟩, by simp⟩

theorem anchor?_ofText_eq_none_iff {p : Pattern} {t : Text} :
    anchor? (CodeLine.ofText t) p = none ↔ ∀ line ∈ t.lines, ¬showsMatch p line := by
  rw [Option.eq_none_iff_forall_ne_some]
  constructor
  · intro h line hmem hline
    obtain ⟨l, hl⟩ := Option.isSome_iff_exists.mp (List.find?_isSome.mpr ⟨line, hmem, hline⟩)
    obtain ⟨before, hfirst⟩ := Text.find?_lines_eq_some_iff.mp hl
    exact h _ (anchor?_ofText.mpr ⟨before, l, hfirst, rfl⟩)
  · intro h n hn
    obtain ⟨before, line, hfirst, -⟩ := anchor?_ofText.mp hn
    obtain ⟨after, hlines⟩ := hfirst.stands
    exact h line (by rw [hlines]; simp) hfirst.holds

theorem anchor?_eq_none_of_forall {lines : List CodeLine} {p : Pattern}
    (h : ∀ l ∈ lines, ¬showsMatch p l.text) : anchor? lines p = none := by
  have hfind : lines.find? (lineMatches p) = none := List.find?_eq_none.mpr h
  simp [anchor?, first?, hfind]

end Locator

def spanMembers : List Nat → List Nat
  | lo :: hi :: r => List.range' lo (hi - lo) ++ spanMembers r
  | _ => []

theorem mem_spanMembers {borders : List Nat} {n : Nat} (h : withinSpans borders n) :
    n ∈ spanMembers borders := by
  induction borders using spanMembers.induct with
  | case1 lo hi r ih =>
    unfold withinSpans at h
    split at h
    · cases h
    · rw [spanMembers, List.mem_append, List.mem_range']
      rcases (Bool.or_eq_true _ _).mp h with h | h
      · have hhi : n < hi := by simpa using h
        exact .inl ⟨n - lo, by omega, by omega⟩
      · exact .inr (ih h)
  | case2 borders hshort =>
    rcases borders with _ | ⟨a, _ | ⟨b, r⟩⟩
    · cases h
    · cases h
    · exact absurd rfl (hshort a b r)

theorem isBlank_of_isWord {c : Char} (h : isWord c) : isBlank c = false := by
  have hnone : ∀ n ∈ spanMembers blankSpans, withinSpans wordSpans n = false := by decide +kernel
  by_contra hblank
  rw [Bool.not_eq_false] at hblank
  have hword := hnone _ (mem_spanMembers hblank)
  rw [show withinSpans wordSpans c.toNat = true from h] at hword
  cases hword

theorem isWord_of_isBlank {c : Char} (h : isBlank c) : isWord c = false := by
  by_contra hword
  rw [isBlank_of_isWord (by simpa using hword)] at h
  cases h

theorem head?_append_of_isBlank {w r : Text} (hw : Text.isBlank w)
    (hr : r.head?.any isWord = false) : (w ++ r).head?.any isWord = false := by
  cases w with
  | nil => exact hr
  | cons c w => simp [isWord_of_isBlank (List.all_eq_true.mp hw c List.mem_cons_self)]

/-- A run of characters ends where a text starts without one of them. -/
theorem takeWhile_append_of_head {p : Char → Bool} {u r : Text} (hr : r.head?.any p = false) :
    (u ++ r).takeWhile p = u.takeWhile p := by
  rw [List.takeWhile_append]
  split
  · next hlength =>
    rw [(List.takeWhile_prefix p).eq_of_length hlength]
    cases r with
    | nil => simp
    | cons c r => simp [show p c = false from hr]
  · rfl

theorem not_mem_of_isBlank {c : Char} (hc : isBlank c = false) {t : Text} (ht : Text.isBlank t) :
    c ∉ t := fun hmem => by
  simp [List.all_eq_true.mp ht c hmem] at hc

theorem mem_of_isWordRun {t : Text} (h : isWordRun t) : ∀ c ∈ t, isWord c :=
  List.all_eq_true.mp ((Bool.and_eq_true _ _).mp h).2

theorem ne_nil_of_isWordRun {t : Text} (h : isWordRun t) : t ≠ [] := by
  simpa using ((Bool.and_eq_true _ _).mp h).1

theorem not_mem_of_not_isWord {c : Char} (hc : isWord c = false) {t : Text} (h : isWordRun t) :
    c ∉ t := by
  intro hmem
  rw [mem_of_isWordRun h c hmem] at hc
  cases hc

theorem head?_of_isWordRun {t : Text} (h : isWordRun t) : t.head?.any isWord := by
  cases t with
  | nil => exact absurd rfl (ne_nil_of_isWordRun h)
  | cons c r => exact mem_of_isWordRun h c List.mem_cons_self

theorem takeWhile_of_isWordRun {t : Text} (h : isWordRun t) : t.takeWhile isWord = t :=
  List.takeWhile_eq_self_iff.mpr (mem_of_isWordRun h)

namespace Text

theorem trim_eq_self {t : Text} (h : ∀ c ∈ t, CodeNav.isBlank c = false) : t.trim = t := by
  have hfront : t.dropWhile CodeNav.isBlank = t := by
    cases t with
    | nil => rfl
    | cons c r => simp [h c List.mem_cons_self]
  have hback : t.reverse.dropWhile CodeNav.isBlank = t.reverse := by
    cases hr : t.reverse with
    | nil => rfl
    | cons c r =>
      have hc : c ∈ t := List.mem_reverse.mp (hr ▸ List.mem_cons_self)
      simp [h c hc]
  unfold trim
  rw [hfront, hback, List.reverse_reverse]

theorem mem_of_mem_trim {c : Char} {t : Text} (h : c ∈ t.trim) : c ∈ t := by
  have h := List.mem_reverse.mp h
  have h := List.mem_reverse.mp ((List.dropWhile_sublist _).subset h)
  exact (List.dropWhile_sublist _).subset h

/-- A text without the blanks at its ends does not start with one. -/
theorem not_isBlank_of_head?_trim {c : Char} {t : Text} (h : t.trim.head? = some c) :
    CodeNav.isBlank c = false := by
  have hpre : t.trim <+: t.dropWhile CodeNav.isBlank := List.rdropWhile_prefix _ _
  have hhead : (t.dropWhile CodeNav.isBlank).head? = some c := by
    obtain ⟨rest, hrest⟩ := hpre
    rw [← hrest, List.head?_append, h]
    rfl
  have hnot := List.head?_dropWhile_not CodeNav.isBlank t
  rw [hhead] at hnot
  simpa using hnot

theorem erase_eq_self {c : Char} {t : Text} (h : c ∉ t) : erase c t = t := by
  unfold erase
  rw [List.filter_eq_self]
  intro d hd
  have hne : d ≠ c := fun hdc => h (hdc ▸ hd)
  simpa using hne

theorem not_mem_erase (c : Char) (t : Text) : c ∉ erase c t := by
  simp [erase]

end Text

namespace Language

/-- Taking the marks off may leave blanks at the ends, and these go the second time. -/
theorem bareName_bareName (t : Text) : bareName (bareName t) = (bareName t).trim :=
  Text.erase_eq_self fun h => Text.not_mem_erase '?' t.trim (Text.mem_of_mem_trim h)

theorem bareName_eq_self {t : Text} (h : ∀ c ∈ t, isWord c) : bareName t = t := by
  have htrim : t.trim = t := Text.trim_eq_self fun c hc => isBlank_of_isWord (h c hc)
  unfold bareName
  rw [htrim]
  refine Text.erase_eq_self fun hmark => ?_
  have hword := h '?' hmark
  revert hword
  decide

end Language

theorem ImportStatement.exists_fullMatch? {line : Text} {i : ImportStatement}
    (h : ofLine? line = some i) : ∃ m, pattern.fullMatch? line = some m ∧
      i.name = (m.text? "name").getD [] ∧ i.alias? = m.text? "alias" := by
  unfold ofLine? at h
  split at h
  · next m hm =>
    obtain rfl := Option.some.inj h
    exact ⟨m, hm, rfl, rfl⟩
  · cases h

theorem ImportStatement.mem_name {line : Text} {i : ImportStatement} (h : ofLine? line = some i) :
    ∀ c ∈ i.name, isWord c ∨ c = '.' ∨ c = '*' := by
  obtain ⟨m, hm, hname, -⟩ := exists_fullMatch? h
  rw [hname]
  cases hw : m.text? "name" with
  | none => simp
  | some w =>
    intro c hc
    have hkeep := Pattern.keeps_of_text? hm hw c hc
    have hkeep : (isWord c ∨ c = '.') ∨ c = '.' ∨ c = '*' := by
      simpa [pattern, Pattern.keeps, Pattern.reads, CharClass.holds, ClassItem.holds] using hkeep
    tauto

theorem ImportStatement.mem_alias {line a : Text} {i : ImportStatement}
    (h : ofLine? line = some i) (ha : i.alias? = some a) : ∀ c ∈ a, isWord c := by
  obtain ⟨m, hm, -, halias⟩ := exists_fullMatch? h
  intro c hc
  have hkeep := Pattern.keeps_of_text? hm (halias.symm.trans ha) c hc
  have hname : "name".toList ≠ "alias".toList := by decide
  simpa [pattern, Pattern.keeps, Pattern.reads, CharClass.holds, ClassItem.holds, hname] using hkeep

theorem mem_of_packageName? {line name : Text} (h : packageName? line = some name) :
    ∀ c ∈ name, isWord c ∨ c = '.' := by
  unfold packageName? at h
  split at h
  · next m hm =>
    intro c hc
    have hkeep := Pattern.keeps_of_text? hm h c hc
    simpa [packagePattern, Pattern.keeps, Pattern.reads, CharClass.holds, ClassItem.holds]
      using hkeep
  · cases h

theorem Document.mem_package (d : Document) : ∀ c ∈ d.package, isWord c ∨ c = '.' := by
  intro c hc
  unfold package imports Imports.ofText at hc
  cases hfound : d.text.lines.findSome? packageName? with
  | none => simp [hfound] at hc
  | some name =>
    obtain ⟨line, -, hline⟩ := List.exists_of_findSome?_eq_some hfound
    exact mem_of_packageName? hline c (by simpa [hfound] using hc)

def importsSymbol (symbol line : Text) : Bool :=
  (ImportStatement.ofLine? line).any (·.declares symbol)

/-- The first import of a text that declares the symbol is one of this name. -/
def ImportedAs (t symbol name : Text) : Prop :=
  ∃ before line i, t.FirstLine (importsSymbol symbol) before line ∧
    ImportStatement.ofLine? line = some i ∧ i.name = name

theorem Imports.head?_matching (t symbol : Text) :
    ((ofText t).matching symbol).head? =
      ((t.lines.find? (importsSymbol symbol)).bind ImportStatement.ofLine?).map (·.name) := by
  unfold matching ofText
  rw [List.head?_map, List.head?_filter, List.find?_filterMap]
  rfl

theorem Imports.head?_matching_eq_some_iff {t symbol name : Text} :
    ((ofText t).matching symbol).head? = some name ↔ ImportedAs t symbol name := by
  rw [head?_matching, Option.map_eq_some_iff]
  constructor
  · rintro ⟨i, hi, rfl⟩
    obtain ⟨line, hline, hi⟩ := Option.bind_eq_some_iff.mp hi
    obtain ⟨before, hfirst⟩ := Text.find?_lines_eq_some_iff.mp hline
    exact ⟨before, line, i, hfirst, hi, rfl⟩
  · rintro ⟨before, line, i, hfirst, hi, rfl⟩
    exact ⟨i, by rw [Text.find?_lines_eq_some_iff.mpr ⟨before, hfirst⟩]; exact hi, rfl⟩

theorem Imports.matching_eq_nil_iff {t symbol : Text} :
    (ofText t).matching symbol = [] ↔ ∀ line ∈ t.lines, ¬importsSymbol symbol line := by
  unfold matching ofText
  rw [List.map_eq_nil_iff, List.filter_eq_nil_iff]
  constructor
  · intro h line hmem hline
    obtain ⟨i, hi, hdecl⟩ := (Option.any_eq_true _ _).mp hline
    exact h i (List.mem_filterMap.mpr ⟨line, hmem, hi⟩) hdecl
  · intro h i hmem hdecl
    obtain ⟨line, hline, hi⟩ := List.mem_filterMap.mp hmem
    exact h line hline ((Option.any_eq_true _ _).mpr ⟨i, hi, hdecl⟩)

/-- The full name that a symbol stands for in a document, on a line with this text: that of the
first import that declares it; without one, that of a capitalized symbol in the document's own
package, and that of any other symbol itself where the line is nothing but its import. -/
inductive FullName (l : Language) (d : Document) (symbol lineText : Text) : Text → Prop where
  | imported {name : Text} (h : ImportedAs d.text symbol name) : FullName l d symbol lineText name
  | sibling (hnone : ∀ line ∈ d.text.lines, ¬importsSymbol symbol line)
      (hcap : symbol.isCapitalized) (hpackage : d.package ≠ []) :
      FullName l d symbol lineText (d.package ++ "." ++ symbol)
  | unpackaged (hnone : ∀ line ∈ d.text.lines, ¬importsSymbol symbol line)
      (hcap : symbol.isCapitalized) (hpackage : d.package = []) :
      FullName l d symbol lineText symbol
  | ownLine (hnone : ∀ line ∈ d.text.lines, ¬importsSymbol symbol line)
      (hcap : ¬symbol.isCapitalized) (hline : lineText = l.importLine symbol) :
      FullName l d symbol lineText symbol

namespace ImportRules

variable {r : ImportRules} {symbol name : Text} {d : Document} {c : TokenContext}

theorem fullName?_of_imported (h : ImportedAs d.text (Language.bareName symbol) name) :
    r.fullName? symbol d c = some name := by
  obtain ⟨ms, hms⟩ := List.head?_eq_some_iff.mp (Imports.head?_matching_eq_some_iff.mpr h)
  have hms : d.imports.matching (Language.bareName symbol) = name :: ms := hms
  unfold fullName?
  dsimp only
  rw [hms]

theorem fullName?_of_not_imported
    (h : ∀ line ∈ d.text.lines, ¬importsSymbol (Language.bareName symbol) line) :
    r.fullName? symbol d c =
      let name := Language.bareName symbol
      if name.isCapitalized then
        some (if d.package.isEmpty then name else d.package ++ "." ++ name)
      else if c.lineText = r.language.importLine name then some name else none := by
  have hnil : d.imports.matching (Language.bareName symbol) = [] :=
    Imports.matching_eq_nil_iff.mpr h
  unfold fullName?
  dsimp only
  rw [hnil]

theorem fullName?_eq_some_iff : r.fullName? symbol d c = some name ↔
    FullName r.language d (Language.bareName symbol) c.lineText name := by
  constructor
  · intro h
    cases hmatch : (Imports.ofText d.text).matching (Language.bareName symbol) with
    | cons m ms =>
      have hm : ImportedAs d.text (Language.bareName symbol) m :=
        Imports.head?_matching_eq_some_iff.mp (by rw [hmatch]; rfl)
      rw [fullName?_of_imported hm] at h
      obtain rfl := Option.some.inj h
      exact .imported hm
    | nil =>
      have hnone := Imports.matching_eq_nil_iff.mp hmatch
      rw [fullName?_of_not_imported hnone] at h
      dsimp only at h
      split at h
      · next hcap =>
        obtain rfl := Option.some.inj h
        split
        · next hp => exact .unpackaged hnone hcap (List.isEmpty_iff.mp hp)
        · next hp => exact .sibling hnone hcap (mt List.isEmpty_iff.mpr hp)
      · next hcap =>
        split at h
        · next hline =>
          obtain rfl := Option.some.inj h
          exact .ownLine hnone hcap hline
        · cases h
  · intro h
    cases h with
    | imported h => exact fullName?_of_imported h
    | sibling hnone hcap hp =>
      rw [fullName?_of_not_imported hnone]
      dsimp only
      rw [if_pos hcap, if_neg (mt List.isEmpty_iff.mp hp)]
    | unpackaged hnone hcap hp =>
      rw [fullName?_of_not_imported hnone]
      dsimp only
      rw [if_pos hcap, if_pos (List.isEmpty_iff.mpr hp)]
    | ownLine hnone hcap hline =>
      rw [fullName?_of_not_imported hnone]
      dsimp only
      rw [if_neg hcap, if_pos hline]

theorem fullName?_eq_none_iff : r.fullName? symbol d c = none ↔
    ∀ name, ¬FullName r.language d (Language.bareName symbol) c.lineText name := by
  simp only [Option.eq_none_iff_forall_ne_some, ne_eq, fullName?_eq_some_iff]

end ImportRules

/-- The part of an address that the paths of packages start from: what stands before the first
occurrence of the package's own path or, without a package, before the last slash. -/
inductive SourceRoot (package url : Text) : Text → Prop where
  | ofPackage {base rest : Text} (hpackage : package ≠ [])
      (hcut : Text.FirstBetween ("/" ++ Text.swap '.' '/' package ++ "/") url base rest) :
      SourceRoot package url base
  | directory {base file : Text} (hpackage : package = []) (hurl : url = base ++ "/" ++ file)
      (hfile : '/' ∉ file) : SourceRoot package url base
  | whole (hpackage : package = []) (hurl : '/' ∉ url) : SourceRoot package url url

namespace ImportRules

theorem sourceRoot?_eq_some_iff {d : Document} {base : Text} :
    sourceRoot? d = some base ↔ SourceRoot d.package (Url.stripAnchor d.url) base := by
  unfold sourceRoot?
  dsimp only
  by_cases hp : d.package = []
  · rw [if_pos (List.isEmpty_iff.mpr hp), Option.some_inj]
    constructor
    · rintro rfl
      rcases Text.exists_last_cut '/' (Url.stripAnchor d.url) with hurl | ⟨a, b, hurl, hb⟩
      · rw [Text.beforeLast_of_not_mem hurl]
        exact .whole hp hurl
      · rw [hurl, Text.beforeLast_append_cons hb]
        exact .directory hp (by simp) hb
    · rintro (⟨hne, -⟩ | ⟨-, hurl, hfile⟩ | ⟨-, hurl⟩)
      · exact absurd hp hne
      · rw [hurl, List.append_assoc]
        exact Text.beforeLast_append_cons hfile base
      · exact Text.beforeLast_of_not_mem hurl
  · rw [if_neg (mt List.isEmpty_iff.mp hp), Option.map_eq_some_iff]
    constructor
    · rintro ⟨⟨a, b⟩, hcut, rfl⟩
      exact .ofPackage hp (Text.cut?_eq_some_iff.mp hcut)
    · rintro (⟨-, hcut⟩ | ⟨hnil, -, -⟩ | ⟨hnil, -⟩)
      · exact ⟨_, Text.cut?_eq_some_iff.mpr hcut, rfl⟩
      all_goals exact absurd hnil hp

theorem sourceRoot?_eq_none_iff {d : Document} :
    sourceRoot? d = none ↔ ∀ base, ¬SourceRoot d.package (Url.stripAnchor d.url) base := by
  simp only [Option.eq_none_iff_forall_ne_some, ne_eq, sourceRoot?_eq_some_iff]

end ImportRules

end CodeNav
