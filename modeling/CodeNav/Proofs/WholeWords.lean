import CodeNav.Proofs.Bindings
import CodeNav.Proofs.PlainPatterns

/-!
Names as whole words. Each pattern that is built around a name asks for something before it and
something behind it that is no part of a word: a blank, a bracket, a dot or the edge of the word
itself. So whatever matches shows the name as a word of its own (`Pattern.ShowsWord`), and so does
every line that a click on the name leads to (`Engine.found_shows_word`).
-/

namespace CodeNav

namespace Text

/-- The name stands in the text between `before` and `after`, and no word character is next to
it. -/
structure StandsAlone (name t before after : Text) : Prop where
  eq : t = before ++ name ++ after
  start : before.getLast?.any isWord = false
  stop : after.head?.any isWord = false

/-- The text shows the name as a word of its own. -/
def HasWord (name t : Text) : Prop := ∃ before after, StandsAlone name t before after

end Text

theorem getLast?_append_of_isBlank {t u : Text} (hu : Text.isBlank u)
    (ht : t.getLast?.any isWord = false) : (t ++ u).getLast?.any isWord = false := by
  cases u using List.reverseRecOn with
  | nil => simpa using ht
  | append_singleton u c =>
    have hc := List.all_eq_true.mp hu c (by simp)
    simp [← List.append_assoc, isWord_of_isBlank hc]

/-- What begins with a word does not begin with blanks and a character that is no part of one. -/
theorem append_ne_of_isWordRun {g w r s : Text} {c : Char} (hg : Text.isBlank g)
    (hc : isWord c = false) (hw : isWordRun w) : g ++ c :: r ≠ w ++ s := by
  intro heq
  have hleft : (g ++ c :: r).head?.any isWord = false := head?_append_of_isBlank hg hc
  rw [heq, List.head?_append_of_ne_nil _ (ne_nil_of_isWordRun hw), head?_of_isWordRun hw] at hleft
  cases hleft

theorem getLast?_of_isWordRun {t : Text} (h : isWordRun t) : t.getLast?.any isWord := by
  rw [List.getLast?_eq_some_getLast (ne_nil_of_isWordRun h)]
  exact mem_of_isWordRun h _ (List.getLast_mem _)

namespace Pattern

variable {p r s : Pattern} {q e m : Place} {name t : Text}

theorem passes_append_assoc : ((p ++ r) ++ s).Passes q e ↔ (p ++ (r ++ s)).Passes q e := by
  constructor
  · rintro ⟨m, ⟨n, hp, hr⟩, hs⟩
    exact ⟨n, hp, m, hr, hs⟩
  · rintro ⟨n, hp, m, hr, hs⟩
    exact ⟨m, ⟨n, hp, hr⟩, hs⟩

/-- No word character stands right before the place. -/
def Place.Apart (q : Place) : Prop := q.previous.any isWord = false

/-- Behind what the pattern passes no word goes on. -/
def EndsApart (p : Pattern) : Prop := ∀ ⦃q e : Place⦄, p.Passes q e → e.Apart

/-- Where no word goes on, none goes on behind what the pattern passes. -/
def KeepsApart (p : Pattern) : Prop := ∀ ⦃q e : Place⦄, p.Passes q e → q.Apart → e.Apart

theorem Place.Spans.apart {w : Text} (h : q.Spans w e) (hq : q.Apart)
    (hw : ∀ c ∈ w, isWord c = false) : e.Apart := by
  unfold Apart
  rw [h.previous]
  cases hlast : w.getLast? with
  | none => exact hq
  | some c => simp [hw c (List.mem_of_getLast? hlast)]

theorem EndsApart.append (hr : r.EndsApart) (p : Pattern) : (p ++ r).EndsApart := by
  rintro q e ⟨m, -, hrest⟩
  exact hr hrest

theorem EndsApart.append_keeps (hp : p.EndsApart) (hr : r.KeepsApart) : (p ++ r).EndsApart := by
  rintro q e ⟨m, hpass, hrest⟩
  exact hr hrest (hp hpass)

theorem EndsApart.optional (hp : p.EndsApart) : (optional (group p)).KeepsApart := by
  rintro q e (h | rfl) hq
  · exact hp h
  · exact hq

theorem endsApart_several {c : CharClass} (hc : ∀ x, c.holds x → isWord x = false) :
    (several c).EndsApart := by
  intro q e h
  obtain ⟨w, rest, hne, hw, -, rfl⟩ := run_one_iff.mp h
  have hlast := List.getLast?_eq_some_getLast hne
  simp [Place.Apart, Place.behind, hlast, hc _ (hw _ (List.getLast_mem hne))]

theorem endsApart_chars (ht : t.getLast?.any (!isWord ·)) : (chars t).EndsApart := by
  intro q e h
  obtain ⟨rest, -, rfl⟩ := Place.after?_eq_some_iff.mp h
  obtain ⟨c, hc, hword⟩ := (Option.any_eq_true _ _).mp ht
  simpa [Place.Apart, Place.behind, hc] using hword

theorem endsApart_blanks : (several .blank).EndsApart :=
  endsApart_several fun _ => isWord_of_isBlank

theorem keepsApart_blanks : (many .blank).KeepsApart := by
  intro q e h hq
  obtain ⟨w, hspan, hw⟩ := h.spans
  exact hspan.apart hq fun c hc => isWord_of_isBlank (hw c hc)

theorem endsApart_lineStart : lineStart.EndsApart := by
  rintro _ e ⟨rfl, hstart⟩
  unfold Place.Apart
  cases hprevious : e.previous with
  | none => rfl
  | some c =>
    obtain rfl : c = '\n' := by simpa [Place.isLineStart, hprevious] using hstart
    exact isWord_of_isBlank (by decide)

theorem endsApart_notAfter {c : CharClass} (hc : ∀ x, isWord x → c.holds x) :
    (notAfter c).EndsApart := by
  rintro _ e ⟨rfl, hnot⟩
  unfold Place.Apart
  cases hprevious : e.previous with
  | none => rfl
  | some x =>
    have hx : c.holds x = false := by simpa [hprevious] using hnot
    by_contra hword
    rw [hc x (by simpa using hword)] at hx
    cases hx

/-- What the pattern passes ends with the name, which begins no later than a word, and with
blanks. -/
def EndsWithName (name : Text) (p : Pattern) : Prop := ∀ ⦃q e : Place⦄, p.Passes q e →
  ∃ before gap, q.Spans (before ++ name ++ gap) e ∧
    (before.getLast?.or q.previous).any isWord = false ∧ Text.isBlank gap

theorem EndsApart.endsWithName (hp : p.EndsApart) (name : Text) :
    (p ++ chars name).EndsWithName name := by
  rintro q e ⟨m, hpass, hname⟩
  obtain ⟨w, hspan, -⟩ := hpass.spans
  refine ⟨w, [], ?_, ?_, rfl⟩
  · rw [List.append_nil]
    exact hspan.trans (Place.spans_of_after? hname)
  · rw [← hspan.previous]
    exact hp hpass

theorem endsWithName_behind_blanks (p : Pattern) (name : Text) :
    (p ++ several .blank ++ chars name).EndsWithName name :=
  (endsApart_blanks.append p).endsWithName name

/-- At the edge of a word the word is about to begin. -/
theorem endsWithName_wordEdge (hname : isWordRun name) :
    (wordEdge ++ chars name).EndsWithName name := by
  rintro _ e ⟨q, ⟨rfl, hedge⟩, hpass⟩
  have hspan := Place.spans_of_after? hpass
  have hhead : q.rest.head?.any isWord := by
    rw [hspan.rest, List.head?_append_of_ne_nil _ (ne_nil_of_isWordRun hname)]
    exact head?_of_isWordRun hname
  exact ⟨[], [], by simpa using hspan, by simpa [Place.isWordEdge, hhead] using hedge, rfl⟩

theorem EndsWithName.blanks (hp : p.EndsWithName name) : (p ++ many .blank).EndsWithName name := by
  rintro q e ⟨m, hpass, hblank⟩
  obtain ⟨before, gap, hspan, hbefore, hgap⟩ := hp hpass
  obtain ⟨w, hspan', hw⟩ := hblank.spans
  refine ⟨before, gap ++ w, ?_, hbefore, ?_⟩
  · rw [← List.append_assoc]
    exact hspan.trans hspan'
  · unfold Text.isBlank at hgap ⊢
    rw [List.all_append, hgap]
    exact List.all_eq_true.mpr hw

/-- No word character stands right behind the place. -/
def Place.Open (q : Place) : Prop := q.rest.head?.any isWord = false

def StartsApart (p : Pattern) : Prop := ∀ ⦃q e : Place⦄, p.Passes q e → q.Open

theorem StartsApart.append (hp : p.StartsApart) (r : Pattern) : (p ++ r).StartsApart := by
  rintro q e ⟨m, hpass, -⟩
  exact hp hpass

theorem StartsApart.optional (hp : p.StartsApart) (hr : r.StartsApart) :
    (Pattern.optional (group p) ++ r).StartsApart := by
  rintro q e ⟨m, hpass | rfl, hrest⟩
  · exact hp hpass
  · exact hr hrest

theorem StartsApart.blanks (hr : r.StartsApart) : (many .blank ++ r).StartsApart := by
  rintro q e ⟨m, hblank, hrest⟩
  obtain ⟨w, hspan, hw⟩ := hblank.spans
  unfold Place.Open
  rw [hspan.rest]
  cases w with
  | nil => exact hr hrest
  | cons c w => simp [isWord_of_isBlank (hw c List.mem_cons_self)]

theorem startsApart_chars (ht : t.head?.any (!isWord ·)) : (chars t).StartsApart := by
  intro q e h
  obtain ⟨rest, hr, -⟩ := Place.after?_eq_some_iff.mp h
  cases t with
  | nil => cases ht
  | cons c t => simpa [Place.Open, hr] using ht

theorem startsApart_one {c : CharClass} (hc : ∀ x, c.holds x → isWord x = false) :
    (one c).StartsApart := by
  intro q e h
  obtain ⟨x, rest, hx, hr, -⟩ := Place.afterOne?_eq_some_iff.mp h
  simp [Place.Open, hr, hc x hx]

/-- Wherever the pattern matches in a text, the text shows the name as a word of its own. -/
def ShowsWord (name : Text) (p : Pattern) : Prop := ∀ ⦃q e : Place⦄ ⦃front : Text⦄,
  p.Passes q e → q.previous = front.getLast? → Text.HasWord name (front ++ q.rest)

/-- A word that may end where the name and its blanks do ends with the name. -/
theorem Place.Spans.hasWord {before gap front : Text} (h : q.Spans (before ++ name ++ gap) e)
    (hname : isWordRun name) (hbefore : (before.getLast?.or q.previous).any isWord = false)
    (hgap : Text.isBlank gap) (hfront : q.previous = front.getLast?)
    (hstop : e.previous.any isWord → e.Open) : Text.HasWord name (front ++ q.rest) := by
  refine ⟨front ++ before, gap ++ e.rest, by simp [h.rest], ?_, ?_⟩
  · rwa [List.getLast?_append, ← hfront]
  · cases gap with
    | nil =>
      apply hstop
      rw [h.previous, List.append_nil, List.getLast?_append]
      obtain ⟨c, hc, hword⟩ := (Option.any_eq_true _ _).mp (getLast?_of_isWordRun hname)
      simpa [hc] using hword
    | cons c gap =>
      have hc := List.all_eq_true.mp hgap c List.mem_cons_self
      simp [isWord_of_isBlank hc]

theorem EndsWithName.showsWord (hp : p.EndsWithName name) (hname : isWordRun name)
    (hr : r.StartsApart) : (p ++ r).ShowsWord name := by
  rintro q e front ⟨m, hpass, hrest⟩ hfront
  obtain ⟨before, gap, hspan, hbefore, hgap⟩ := hp hpass
  exact hspan.hasWord hname hbefore hgap hfront fun _ => hr hrest

theorem EndsWithName.showsWord_wordEdge (hp : p.EndsWithName name) (hname : isWordRun name) :
    (p ++ wordEdge).ShowsWord name := by
  rintro q e front ⟨_, hpass, rfl, hedge⟩ hfront
  obtain ⟨before, gap, hspan, hbefore, hgap⟩ := hp hpass
  refine hspan.hasWord hname hbefore hgap hfront fun hprevious => ?_
  simpa [Place.Open, Place.isWordEdge, hprevious] using hedge

theorem ShowsWord.append (hp : p.ShowsWord name) : (p ++ r).ShowsWord name := by
  rintro q e front ⟨m, hpass, -⟩ hfront
  exact hp hpass hfront

theorem ShowsWord.hasWord_of_matchesAll (hp : p.ShowsWord name) (h : p.matchesAll t) :
    Text.HasWord name t := by
  obtain ⟨e, hpass, -⟩ := matchesAll_iff.mp h
  have hword : Text.HasWord name ([] ++ t) := hp hpass rfl
  exact hword

theorem ShowsWord.hasWord_of_search? (hp : p.ShowsWord name) (h : p.search? t = some m) :
    Text.HasWord name t := by
  obtain ⟨front, rest, rfl, hrun⟩ := exists_of_searchFrom? h
  obtain ⟨e, hpass, -⟩ := p.run_decides.sound hrun
  exact hp hpass (Option.or_none ..)

end Pattern

open Pattern

section

variable {name : Text}

theorem Language.showsWord_methodPattern (l : Language) (hname : isWordRun name) :
    (l.methodPattern name).ShowsWord name := by
  have hsign : (chars "(").StartsApart := startsApart_chars (by decide)
  cases l with
  | kotlin =>
    have hclose : (chars ">").EndsApart := endsApart_chars (by decide)
    have hdot : (chars ".").EndsApart := endsApart_chars (by decide)
    refine ((EndsApart.endsWithName ?_ name).blanks.showsWord hname hsign).append
    -- Parameters of types and a receiver may stand before the name.
    refine EndsApart.append_keeps (.append_keeps (endsApart_blanks.append _) ?_)
      (hdot.append _).optional
    exact ((hclose.append _).append_keeps keepsApart_blanks).optional
  | java => exact ((endsWithName_behind_blanks _ name).blanks.showsWord hname hsign).append

theorem Language.showsWord_classPattern (l : Language) (hname : isWordRun name) :
    (l.classPattern name).ShowsWord name :=
  ((endsWithName_behind_blanks _ name).showsWord_wordEdge hname).append

theorem Language.showsWord_declarationPattern (l : Language) (hname : isWordRun name) :
    (l.declarationPattern name).ShowsWord name := by
  cases l with
  | kotlin => exact ((endsWithName_behind_blanks _ name).showsWord_wordEdge hname).append
  | java =>
    have hsign : (chars ";").StartsApart := startsApart_chars (by decide)
    exact ((endsWithName_behind_blanks _ name).blanks.showsWord hname hsign).append

theorem Locator.showsWord_assignmentPattern (hname : isWordRun name) :
    (assignmentPattern name).ShowsWord name := by
  have hsign : (chars "=").StartsApart := startsApart_chars (by decide)
  have htype : (chars ":").StartsApart := startsApart_chars (by decide)
  have hfront : (notAfter (.oneOf [.word, .char '.'])).EndsApart :=
    endsApart_notAfter fun x hx => by simp [CharClass.holds, ClassItem.holds, hx]
  have hword := ((hfront.append (many .any)).endsWithName name).blanks
  refine ShowsWord.append (ShowsWord.append fun q e front h => ?_)
  -- The sign of the type or of the assignment stands behind the name.
  exact hword.showsWord hname (((htype.append _).append _).optional hsign.blanks)
    (passes_append_assoc.mp (passes_append_assoc.mp h))

theorem Language.showsWord_bindingPatterns (l : Language) (hname : isWordRun name) :
    ∀ p ∈ l.bindingPatterns name, p.ShowsWord name := by
  have hassign : (chars "=").StartsApart := startsApart_chars (by decide)
  have htype : (chars ":").StartsApart := startsApart_chars (by decide)
  have hend : (one (.oneOf [.char '=', .char ';'])).StartsApart := startsApart_one fun x hx => by
    have hcase : x = '=' ∨ x = ';' := by simpa [CharClass.holds, ClassItem.holds] using hx
    rcases hcase with rfl | rfl <;> decide
  intro p hp
  cases l with
  | kotlin =>
    have hword := (endsWithName_behind_blanks (wordEdge ++ words ["val", "var"]) name).blanks
    simp only [bindingPatterns, List.mem_cons, List.not_mem_nil, or_false] at hp
    rcases hp with rfl | rfl | rfl
    · exact (hword.showsWord hname htype).append.append
    · exact (hword.showsWord hname hassign).append.append
    · have hfront := endsApart_lineStart.append_keeps keepsApart_blanks
      exact ((hfront.endsWithName name).blanks.showsWord hname hassign).append.append
  | java =>
    simp only [bindingPatterns, List.mem_cons, List.not_mem_nil, or_false] at hp
    rcases hp with rfl | rfl
    · have hword := (endsWithName_wordEdge hname).blanks
      exact (hword.showsWord hname hassign).append.append.append.append
    · exact (endsWithName_behind_blanks _ name).blanks.showsWord hname hend

theorem Binding.hasWord_of_assignedFrom? {l : Language} {t : Text} (hname : isWordRun name)
    (h : (assignedFrom? l name t).isSome) : Text.HasWord name t := by
  obtain ⟨p, hp, hsome⟩ := List.findSome?_isSome_iff.mp h
  rw [Option.isSome_map] at hsome
  obtain ⟨m, hm⟩ := Option.isSome_iff_exists.mp hsome
  exact (l.showsWord_bindingPatterns hname p hp).hasWord_of_search? hm

end

/-- A refined answer is the same as before, or it points at a line that matches. -/
theorem Resolution.refine_hasWord {r : Resolution} {f : Refinement} {name : Text}
    (hf : r.refinement = some f) (hp : f.pattern.ShowsWord name) (fetched : Text) :
    (r.refine fetched).target = r.target ∨
      ∃ url, ∃ l ∈ CodeLine.ofText fetched, r.target.url = some url ∧
        (r.refine fetched).target.url = some (Url.withLine url l.number) ∧
        Text.HasWord name l.text := by
  unfold refine
  rw [hf]
  cases hurl : r.target.url with
  | none => exact .inl rfl
  | some url =>
    dsimp only
    cases hline : Locator.anchor? (CodeLine.ofText fetched) f.pattern with
    | none => exact .inl rfl
    | some n =>
      obtain ⟨l, hl, rfl⟩ := Locator.exists_of_anchor? hline
      have hmatch := (Locator.lineMatches_iff.mp (List.find?_some hl)).2
      exact .inr ⟨url, l, List.mem_of_find?_eq_some hl, rfl, rfl, hp.hasWord_of_matchesAll hmatch⟩

namespace Engine

variable {e : Engine} {req : Request} {name : Text}

/-- A line of the page that a name is resolved to shows it as a word. -/
theorem Pins.hasWord {r : Reference} {p : Pattern} {l : CodeLine} (h : e.Pins r p l)
    (hr : e.classOf? r = some name) (hname : isWordRun name) : Text.HasWord name l.text := by
  obtain ⟨-, hmatch⟩ := Locator.lineMatches_iff.mp h.mem.2
  cases h with
  | method _ =>
    obtain rfl := Option.some.inj hr
    exact (e.language.showsWord_methodPattern hname).hasWord_of_matchesAll hmatch
  | assignment _ =>
    obtain rfl := Option.some.inj hr
    exact (Locator.showsWord_assignmentPattern hname).hasWord_of_matchesAll hmatch
  | declaration _ =>
    obtain rfl := Option.some.inj hr
    exact (e.language.showsWord_declarationPattern hname).hasWord_of_matchesAll hmatch
  | declaredClass hclass _ =>
    obtain rfl := Option.some.inj (hr.symm.trans hclass)
    rw [Language.bareName_of_isWordRun hname] at hmatch
    exact (e.language.showsWord_classPattern hname).hasWord_of_matchesAll hmatch

theorem refinement_of_externalCall {receiver method : Text}
    (h : (e.resolve req).reference = .externalCall receiver method) {f : Refinement}
    (hf : (e.resolve req).refinement = some f) :
    f.pattern = e.language.methodPattern method := by
  have hclass : e.classify req = .externalCall receiver method :=
    (e.resolveReference_reference req (e.classify req)).symm.trans h
  have hcall : (e.resolveExternalCall req receiver method).refinement = some f := by
    rw [resolve, hclass] at hf
    exact hf
  unfold resolveExternalCall at hcall
  dsimp only at hcall
  split at hcall
  · cases hcall
  · dsimp only at hcall
    split at hcall
    · obtain ⟨url, -, rfl⟩ := Option.map_eq_some_iff.mp hcall
      rfl
    · cases hcall

/-- What is found for a name shows it as a word of its own: a line that matches one of the patterns
around the name, a text that binds it, the line of the page that a click on it leads to, and the
line of a fetched file that the call of a method is refined to. -/
theorem found_shows_word (hname : isWordRun name) :
    (∀ (l : Language) (line : Text),
      (l.methodPattern name).matchesAll line ∨ (l.classPattern name).matchesAll line ∨
        (l.declarationPattern name).matchesAll line ∨
        (Locator.assignmentPattern name).matchesAll line → Text.HasWord name line) ∧
    (∀ (l : Language) (t : Text), (Binding.assignedFrom? l name t).isSome → Text.HasWord name t) ∧
    (∀ (e : Engine) (req : Request) (url : Text),
      e.classOf? (e.resolve req).reference = some name →
      (e.resolve req).target = ⟨some url, false⟩ → ∃ l ∈ e.document.lines,
        url = Url.withLine e.document.url l.number ∧ Text.HasWord name l.text) ∧
    ∀ (e : Engine) (req : Request) (receiver fetched : Text),
      (e.resolve req).reference = .externalCall receiver name →
      ((e.resolve req).refine fetched).target = (e.resolve req).target ∨
        ∃ url, ∃ l ∈ CodeLine.ofText fetched, (e.resolve req).target.url = some url ∧
          ((e.resolve req).refine fetched).target.url = some (Url.withLine url l.number) ∧
          Text.HasWord name l.text := by
  refine ⟨fun l line h => ?_, fun l t => Binding.hasWord_of_assignedFrom? hname, ?_, ?_⟩
  · rcases h with h | h | h | h
    · exact (l.showsWord_methodPattern hname).hasWord_of_matchesAll h
    · exact (l.showsWord_classPattern hname).hasWord_of_matchesAll h
    · exact (l.showsWord_declarationPattern hname).hasWord_of_matchesAll h
    · exact (Locator.showsWord_assignmentPattern hname).hasWord_of_matchesAll h
  · intro e req url hr htarget
    obtain ⟨p, l, hpins, hmem, -, -, hurl, -⟩ := e.resolve_in_place req htarget
    exact ⟨l, hmem, hurl, hpins.hasWord hr hname⟩
  · intro e req receiver fetched hr
    cases hf : (e.resolve req).refinement with
    | none => exact .inl (by rw [Resolution.refine, hf])
    | some f =>
      refine Resolution.refine_hasWord hf ?_ fetched
      rw [refinement_of_externalCall hr hf]
      exact e.language.showsWord_methodPattern hname

/-- A page that declares `reload` before `load`, and calls a method of the same name. -/
def loadingEngine : Engine where
  document := .ofText "val repo = Repo()\nfun reload() = load()\nfun load() = repo.load()"
    "https://github.com/o/r/blob/main/Main.kt" "now"
  language := .kotlin
  features := []

def onLoad : Request := ⟨"load", ⟨["=", " "], "load", ["(", ")"], none, some 2⟩, none⟩

def onRepoLoad : Request := ⟨".load", ⟨["repo"], ".load", ["(", ")"], none, some 3⟩, none⟩

theorem found_shows_word_load :
    isWordRun "load" ∧ Text.HasWord "load" "fun load() = repo.load()" ∧
      Text.HasWord "load" "var load = Task()" ∧
      (∃ l ∈ loadingEngine.document.lines, Text.HasWord "load" l.text ∧
        "https://github.com/o/r/blob/main/Main.kt#L3".toList =
          Url.withLine loadingEngine.document.url l.number) ∧
      ∃ l ∈ CodeLine.ofText "fun loader() = 1\n\nfun load() = 2",
        Text.HasWord "load" l.text ∧
        "https://github.com/o/r/blob/main/Repo.kt#L3".toList =
          Url.withLine "https://github.com/o/r/blob/main/Repo.kt#L1" l.number := by
  have hname : isWordRun "load" := by decide +kernel
  obtain ⟨hline, hbinding, hclick, hrefined⟩ := found_shows_word hname
  refine ⟨hname, ?_, ?_, ?_, ?_⟩
  · exact hline .kotlin _ (.inl (by decide +kernel))
  · exact hbinding .kotlin _ (by decide +kernel)
  · obtain ⟨l, hl, hurl, hword⟩ := hclick loadingEngine onLoad
      "https://github.com/o/r/blob/main/Main.kt#L3" (by decide +kernel) (by decide +kernel)
    exact ⟨l, hl, hword, hurl⟩
  · have htarget : (loadingEngine.resolve onRepoLoad).target =
        ⟨some "https://github.com/o/r/blob/main/Repo.kt#L1".toList, true⟩ := by decide +kernel
    have hmoved : ((loadingEngine.resolve onRepoLoad).refine
        "fun loader() = 1\n\nfun load() = 2").target =
        ⟨some "https://github.com/o/r/blob/main/Repo.kt#L3".toList, true⟩ := by decide +kernel
    have hfetched := hrefined loadingEngine onRepoLoad "repo"
      "fun loader() = 1\n\nfun load() = 2" (by decide +kernel)
    rw [htarget, hmoved] at hfetched
    rcases hfetched with hsame | ⟨url, l, hl, hurl, hanchor, hword⟩
    · exact absurd hsame (by decide)
    · obtain rfl := Option.some.inj hurl
      exact ⟨l, hl, hword, Option.some.inj hanchor⟩

end Engine

end CodeNav
