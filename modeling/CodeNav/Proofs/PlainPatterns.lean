import CodeNav.Proofs.Readings

/-!
Patterns that neither repeat another pattern nor look around. What such a pattern matches can be
said of the text alone (`Pattern.Parses`): how the text falls into parts, and which of them are
kept.
-/

namespace CodeNav.Pattern

/-- The pattern is put together from characters, classes, choices and kept parts only. -/
def IsPlain : Pattern → Prop
  | chars _ | words _ | one _ | many _ | several _ | fewest _ => True
  | seq p r => p.IsPlain ∧ r.IsPlain
  | optional p | group p | capture _ p => p.IsPlain
  | repeated _ | notAhead _ | notAfter _ | wordEdge | lineStart => False

/-- The whole text falls into parts as the pattern says; those that are kept, latest first. -/
def Parses : Pattern → Text → List (Text × Text) → Prop
  | chars t, w, kept => w = t ∧ kept = []
  | words ts, w, kept => w ∈ ts ∧ kept = []
  | one s, w, kept => (∃ c, s.holds c ∧ w = [c]) ∧ kept = []
  | many s, w, kept => (∀ c ∈ w, s.holds c) ∧ kept = []
  | several s, w, kept | fewest s, w, kept => w ≠ [] ∧ (∀ c ∈ w, s.holds c) ∧ kept = []
  | seq p r, w, kept => ∃ u v a b, p.Parses u a ∧ r.Parses v b ∧ w = u ++ v ∧ kept = b ++ a
  | optional p, w, kept => p.Parses w kept ∨ (w = [] ∧ kept = [])
  | group p, w, kept => p.Parses w kept
  | capture name p, w, kept => ∃ inner, p.Parses w inner ∧ kept = (name, w) :: inner
  | repeated _, _, _ | notAhead _, _, _ | notAfter _, _, _ => False
  | wordEdge, _, _ | lineStart, _, _ => False

theorem isPlain_append (p r : Pattern) : (p ++ r).IsPlain ↔ p.IsPlain ∧ r.IsPlain := Iff.rfl

section
variable {p r : Pattern} {u v w : Text} {a b kept : List (Text × Text)}

theorem parses_append : (p ++ r).Parses w kept ↔
    ∃ u v a b, p.Parses u a ∧ r.Parses v b ∧ w = u ++ v ∧ kept = b ++ a := Iff.rfl

theorem Parses.append (hu : p.Parses u a) (hv : r.Parses v b) :
    (p ++ r).Parses (u ++ v) (b ++ a) :=
  parses_append.mpr ⟨u, v, a, b, hu, hv, rfl, rfl⟩

theorem parses_chars (t : Text) : (chars t).Parses t [] := ⟨rfl, rfl⟩

theorem Parses.optional (h : p.Parses w kept) : (Pattern.optional p).Parses w kept := .inl h

theorem parses_optional_nil (p : Pattern) : (Pattern.optional p).Parses [] [] := .inr ⟨rfl, rfl⟩

theorem Parses.capture (name : Text) (h : p.Parses w kept) :
    (Pattern.capture name p).Parses w ((name, w) :: kept) := ⟨kept, h, rfl⟩

end

/-- A plain pattern reads the texts that it parses, whatever stands around them. -/
theorem readsAt_iff_parses {p : Pattern} (hp : p.IsPlain) {b : Option Char} {w rest : Text}
    {kept : List (Text × Text)} : p.ReadsAt b w rest kept ↔ p.Parses w kept := by
  induction p generalizing b w rest kept with
  | chars _ | words _ | one _ | many _ | several _ | fewest _ => exact Iff.rfl
  | seq p r ihp ihr => simp only [ReadsAt, Parses, ihp hp.1, ihr hp.2]
  | optional p ih => simp only [ReadsAt, Parses, ih hp]
  | group p ih => exact ih hp
  | capture name p ih => simp only [ReadsAt, Parses, ih hp]
  | repeated _ | notAhead _ | notAfter _ | wordEdge | lineStart => exact hp.elim

/-- A plain pattern passes the texts that it parses, from wherever it starts. -/
theorem passes_iff_parses {p : Pattern} (hp : p.IsPlain) {q e : Place} :
    p.Passes q e ↔
      ∃ w rest kept, p.Parses w kept ∧ q.rest = w ++ rest ∧ e = q.behind w rest kept := by
  simp only [passes_iff_readsAt, Takes, readsAt_iff_parses hp]

/-- What a plain pattern parses it passes, wherever that comes next. -/
theorem Parses.passes {p : Pattern} {q : Place} {w rest : Text} {kept : List (Text × Text)}
    (hw : p.Parses w kept) (hr : q.rest = w ++ rest) (hp : p.IsPlain) :
    p.Passes q (q.behind w rest kept) :=
  (passes_iff_parses hp).mpr ⟨w, rest, kept, hw, hr, rfl⟩

/-- What a match of a whole text keeps is what a parse of it keeps. -/
theorem parses_of_fullMatch? {p : Pattern} (hp : p.IsPlain) {t : Text} {m : Place}
    (h : p.fullMatch? t = some m) : p.Parses t m.captured := by
  obtain ⟨hpass, hnil⟩ := passes_of_fullMatch? h
  obtain ⟨w, rest, kept, hw, hr, rfl⟩ := (passes_iff_parses hp).mp hpass
  obtain rfl : rest = [] := hnil
  obtain rfl : t = w := by simpa [Place.start] using hr
  simpa [Place.behind, Place.start] using hw

/-- A plain pattern matches the texts that it parses. -/
theorem matchesAll_iff_parses {p : Pattern} (hp : p.IsPlain) {t : Text} :
    p.matchesAll t ↔ ∃ kept, p.Parses t kept := by
  simp only [matchesAll_iff_readsAt, readsAt_iff_parses hp]

end CodeNav.Pattern
