import CodeNav.Proofs.Answers
import CodeNav.Proofs.Coherence

namespace CodeNav

namespace Locator

variable {lines : List CodeLine} {p : Pattern} {l : CodeLine} {n : Int}

theorem lineMatches_iff : lineMatches p l ↔ Text.isBlank l.text = false ∧ p.matchesAll l.text := by
  simp [lineMatches]

theorem exists_of_anchor? (h : anchor? lines p = some n) :
    ∃ l, lines.find? (lineMatches p) = some l ∧ l.number = n := by
  have hfirst : first? lines p = some n := (Option.filter_eq_some_iff.mp h).1
  exact Option.map_eq_some_iff.mp hfirst

theorem exists_of_all_eq_singleton (h : all lines p = [n]) :
    ∃ l, lines.filter (lineMatches p) = [l] ∧ l.number = n := by
  have hmap : (lines.filter (lineMatches p)).map (·.number) = [n] := h
  obtain ⟨l, hl, hn⟩ := List.map_eq_singleton_iff.mp hmap
  exact ⟨l, hl, hn⟩

end Locator

theorem CodeLine.exists_of_mem_numberedFrom {k : Int} {ts : List Text} {l : CodeLine}
    (h : l ∈ numberedFrom k ts) :
    ∃ pre post, ts = pre ++ l.text :: post ∧ l.number = k + pre.length := by
  induction ts generalizing k with
  | nil => cases h
  | cons t ts ih =>
    rcases List.mem_cons.mp h with rfl | h
    · exact ⟨[], ts, rfl, by simp⟩
    · obtain ⟨pre, post, rfl, hnumber⟩ := ih h
      refine ⟨t :: pre, post, rfl, ?_⟩
      rw [List.length_cons]
      omega

/-- The lines of a text are numbered from one to their count. -/
theorem CodeLine.number_of_mem_ofText {t : Text} {l : CodeLine} (h : l ∈ ofText t) :
    1 ≤ l.number ∧ l.number ≤ t.lines.length := by
  obtain ⟨pre, post, hlines, hnumber⟩ := exists_of_mem_numberedFrom h
  rw [hlines, List.length_append, List.length_cons]
  omega

namespace Engine

/-- The line of the page that a reference is resolved to, and the pattern it is found by. -/
inductive Pins (e : Engine) : Reference → Pattern → CodeLine → Prop where
  | method {name : Text} {l : CodeLine}
      (h : e.document.lines.filter (Locator.lineMatches (e.language.methodPattern name)) = [l]) :
      Pins e (.internalCall name) (e.language.methodPattern name) l
  | assignment {name : Text} {l : CodeLine}
      (h : e.document.lines.find? (Locator.lineMatches (Locator.assignmentPattern name)) =
        some l) : Pins e (.variableUse name) (Locator.assignmentPattern name) l
  | declaration {name : Text} {l : CodeLine}
      (h : e.document.lines.find? (Locator.lineMatches (e.language.declarationPattern name)) =
        some l) : Pins e (.variableUse name) (e.language.declarationPattern name) l
  | declaredClass {r : Reference} {symbol : Text} {l : CodeLine} (hr : e.classOf? r = some symbol)
      (h : e.document.lines.find? (Locator.lineMatches
        (e.language.classPattern (Language.bareName symbol))) = some l) :
      Pins e r (e.language.classPattern (Language.bareName symbol)) l

variable {e : Engine} {req : Request}

/-- A line that a reference is resolved to is one of the page, and it matches. -/
theorem Pins.mem {r : Reference} {p : Pattern} {l : CodeLine} (h : e.Pins r p l) :
    l ∈ e.document.lines ∧ Locator.lineMatches p l := by
  cases h with
  | method h =>
    have hmem := h ▸ List.mem_singleton_self l
    exact List.mem_filter.mp hmem
  | assignment h | declaration h | declaredClass _ h =>
    exact ⟨List.mem_of_find?_eq_some h, List.find?_some h⟩

theorem pins_of_variableLine? {name : Text} {n : Int} (h : e.variableLine? name = some n) :
    ∃ p l, e.Pins (.variableUse name) p l ∧ l.number = n := by
  rcases Option.or_eq_some_iff.mp h with h | ⟨-, h⟩
  · obtain ⟨l, hl, hn⟩ := Locator.exists_of_anchor? h
    exact ⟨_, l, .assignment hl, hn⟩
  · obtain ⟨l, hl, hn⟩ := Locator.exists_of_anchor? h
    exact ⟨_, l, .declaration hl, hn⟩

theorem pins_of_declaredLine? {r : Reference} {symbol : Text} {n : Int}
    (hr : e.classOf? r = some symbol) (h : e.imports.declaredLine? symbol e.document = some n) :
    ∃ p l, e.Pins r p l ∧ l.number = n := by
  unfold ImportRules.declaredLine? at h
  dsimp only at h
  split at h
  · cases h
  · obtain ⟨l, hl, hn⟩ := Locator.exists_of_anchor? h
    exact ⟨_, l, .declaredClass hr hl, hn⟩

/-- A target that opens in place is the address of the page with the number of such a line. -/
theorem Leads.pins {r : Reference} {t : Target} (h : e.Leads req r t) {url : Text}
    (ht : t = ⟨some url, false⟩) :
    ∃ p l, e.Pins r p l ∧ url = Url.withLine e.document.url l.number := by
  cases h with
  | nowhere => cases ht
  | method h =>
    obtain ⟨l, hl, rfl⟩ := Locator.exists_of_all_eq_singleton h
    exact ⟨_, l, .method hl, by simpa using ht.symm⟩
  | onVariable h =>
    obtain ⟨p, l, hp, rfl⟩ := pins_of_variableLine? h
    exact ⟨p, l, hp, by simpa using ht.symm⟩
  | declared hr h =>
    obtain ⟨p, l, hp, rfl⟩ := pins_of_declaredLine? hr h
    exact ⟨p, l, hp, by simpa using ht.symm⟩
  | file | imported | directory | resource => cases ht

/-- A link that opens in place leads to a line of its own page. The line shows something and
matches, as a whole, the pattern that the reference was resolved by; of a method it is the only such
line. On the page of a text it is one of the lines of the text. -/
theorem resolve_in_place (e : Engine) (req : Request) {url : Text}
    (h : (e.resolve req).target = ⟨some url, false⟩) :
    ∃ p l, e.Pins (e.resolve req).reference p l ∧ l ∈ e.document.lines ∧
      Text.isBlank l.text = false ∧ p.matchesAll l.text ∧
      url = Url.stripAnchor e.document.url ++ "#L" ++ Text.ofInt l.number ∧
      ∀ text address snapshot, e.document = .ofText text address snapshot →
        1 ≤ l.number ∧ l.number ≤ text.lines.length := by
  obtain ⟨p, l, hpins, hurl⟩ := (e.resolve_leads req).pins h
  have hreference : (e.resolve req).reference = e.classify req :=
    e.resolveReference_reference req (e.classify req)
  obtain ⟨hmem, hmatch⟩ := hpins.mem
  obtain ⟨hshows, hall⟩ := Locator.lineMatches_iff.mp hmatch
  rw [hreference]
  refine ⟨p, l, hpins, hmem, hshows, hall, hurl, ?_⟩
  intro text address snapshot hdocument
  rw [hdocument] at hmem
  exact CodeLine.number_of_mem_ofText hmem

def comparingEngine : Engine where
  document := .ofText "if (x == y) stop()\nx = y\nx.run()"
    "https://github.com/o/r/blob/main/Main.kt#L3" "now"
  language := .kotlin
  features := ResourceFeature.builtIn.map (·.2)

def onVariable : Request := ⟨"x", ⟨[], "x", [".run", "(", ")"], none, some 3⟩, none⟩

theorem resolve_in_place_assignment :
    (comparingEngine.resolve onVariable).target =
        ⟨some "https://github.com/o/r/blob/main/Main.kt#L2".toList, false⟩ ∧
      ∃ p l, comparingEngine.Pins (comparingEngine.resolve onVariable).reference p l ∧
        Text.isBlank l.text = false ∧ p.matchesAll l.text ∧
        "https://github.com/o/r/blob/main/Main.kt#L2".toList =
          Url.stripAnchor comparingEngine.document.url ++ "#L" ++ Text.ofInt l.number := by
  have htarget : (comparingEngine.resolve onVariable).target =
      ⟨some "https://github.com/o/r/blob/main/Main.kt#L2".toList, false⟩ := by decide +kernel
  obtain ⟨p, l, hpins, -, hshows, hall, hurl, -⟩ :=
    resolve_in_place comparingEngine onVariable htarget
  exact ⟨htarget, p, l, hpins, hshows, hall, hurl⟩

end Engine

end CodeNav
