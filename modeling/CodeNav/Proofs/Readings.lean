import CodeNav.Proofs.Matching

/-!
What a pattern reads. Where a pattern passes from one place of a text to another, the text between
the two falls into parts as the pattern says (`Pattern.ReadsAt`). Of what stands around that text
only the character before it and the rest behind it count, for those parts that look around.
-/

namespace CodeNav.Pattern

namespace Place

/-- The place behind the characters `w`, where `rest` is left and `kept` was kept on the way. -/
def behind (q : Place) (w rest : Text) (kept : List (Text × Text)) : Place where
  previous := w.getLast?.or q.previous
  rest := rest
  passed := q.passed + w.length
  captured := kept ++ q.captured

theorem behind_behind (q : Place) (u v rest rest' : Text) (a b : List (Text × Text)) :
    (q.behind u rest' a).behind v rest b = q.behind (u ++ v) rest (b ++ a) := by
  simp [behind, List.getLast?_append, Option.or_assoc, Nat.add_assoc]

@[simp] theorem rest_behind (q : Place) (w rest : Text) (kept : List (Text × Text)) :
    (q.behind w rest kept).rest = rest := rfl

theorem after?_eq_some_iff {t : Text} {q e : Place} :
    q.after? t = some e ↔ ∃ rest, q.rest = t ++ rest ∧ e = q.behind t rest [] := by
  induction t generalizing q with
  | nil => simp [after?, behind, eq_comm]
  | cons c t ih =>
    unfold after?
    cases hr : q.rest with
    | nil => simp
    | cons d r =>
      by_cases hcd : c = d
      · subst hcd
        dsimp only
        rw [if_pos rfl]
        change (q.behind [c] r []).after? t = some e ↔ _
        rw [ih]
        simp [behind_behind]
      · simp [hcd, Ne.symm hcd]

theorem afterOne?_eq_some_iff {s : CharClass} {q e : Place} :
    q.afterOne? s = some e ↔
      ∃ c rest, s.holds c ∧ q.rest = c :: rest ∧ e = q.behind [c] rest [] := by
  rw [afterOne?_eq_some]
  constructor
  · rintro ⟨c, rest, hr, hc, rfl⟩
    exact ⟨c, rest, hc, hr, rfl⟩
  · rintro ⟨c, rest, hc, hr, rfl⟩
    exact ⟨c, rest, hr, hc, rfl⟩

end Place

theorem run_iff {s : CharClass} {q e : Place} :
    Run s q e ↔ ∃ w rest, (∀ c ∈ w, s.holds c) ∧ q.rest = w ++ rest ∧ e = q.behind w rest [] := by
  constructor
  · intro h
    induction h with
    | refl => exact ⟨[], q.rest, by simp, rfl, rfl⟩
    | tail _ hstep ih =>
      obtain ⟨w, rest, hw, hr, rfl⟩ := ih
      obtain ⟨c, rest', hc, hrest, rfl⟩ := Place.afterOne?_eq_some_iff.mp hstep
      obtain rfl : rest = c :: rest' := hrest
      refine ⟨w ++ [c], rest', ?_, by simp [hr], Place.behind_behind _ _ _ _ _ _ _⟩
      simpa [or_imp, forall_and] using ⟨hw, hc⟩
  · rintro ⟨w, rest, hw, hr, rfl⟩
    induction w generalizing q with
    | nil =>
      obtain rfl : q.rest = rest := hr
      exact .refl
    | cons c w ih =>
      obtain ⟨hc, hw⟩ := List.forall_mem_cons.mp hw
      have hstep : q.afterOne? s = some (q.behind [c] (w ++ rest) []) :=
        Place.afterOne?_eq_some_iff.mpr ⟨c, w ++ rest, hc, hr, rfl⟩
      have hrun := ih (q := q.behind [c] (w ++ rest) []) hw rfl
      rw [Place.behind_behind] at hrun
      exact .head hstep hrun

/-- A run that passes something begins with one character. -/
theorem run_one_iff {s : CharClass} {q e : Place} :
    (∃ m, q.afterOne? s = some m ∧ Run s m e) ↔
      ∃ w rest, w ≠ [] ∧ (∀ c ∈ w, s.holds c) ∧ q.rest = w ++ rest ∧ e = q.behind w rest [] := by
  constructor
  · rintro ⟨m, hone, hrun⟩
    obtain ⟨c, rest, hc, hr, rfl⟩ := Place.afterOne?_eq_some_iff.mp hone
    obtain ⟨w, rest', hw, hrest, rfl⟩ := run_iff.mp hrun
    obtain rfl : rest = w ++ rest' := hrest
    exact ⟨c :: w, rest', by simp, List.forall_mem_cons.mpr ⟨hc, hw⟩, hr,
      Place.behind_behind _ _ _ _ _ _ _⟩
  · rintro ⟨w, rest, hne, hw, hr, rfl⟩
    cases w with
    | nil => exact absurd rfl hne
    | cons c w =>
      obtain ⟨hc, hw⟩ := List.forall_mem_cons.mp hw
      refine ⟨q.behind [c] (w ++ rest) [],
        Place.afterOne?_eq_some_iff.mpr ⟨c, w ++ rest, hc, hr, rfl⟩,
        run_iff.mpr ⟨w, rest, hw, rfl, ?_⟩⟩
      rw [Place.behind_behind]
      rfl

/-- What a pattern reads: the character before, the text, the rest behind it and the parts that are
kept, latest first. -/
abbrev Reading := Option Char → Text → Text → List (Text × Text) → Prop

inductive Repeats (R : Reading) : Reading where
  | nil {b : Option Char} {rest : Text} : Repeats R b [] rest []
  | cons {b : Option Char} {u v rest : Text} {k l : List (Text × Text)} (hne : u ≠ [])
      (hu : R b u (v ++ rest) k) (hv : Repeats R (u.getLast?.or b) v rest l) :
      Repeats R b (u ++ v) rest (l ++ k)

/-- The text falls into parts as the pattern says. -/
def ReadsAt : Pattern → Reading
  | chars t, _, w, _, kept => w = t ∧ kept = []
  | words ts, _, w, _, kept => w ∈ ts ∧ kept = []
  | one s, _, w, _, kept => (∃ c, s.holds c ∧ w = [c]) ∧ kept = []
  | many s, _, w, _, kept => (∀ c ∈ w, s.holds c) ∧ kept = []
  | several s, _, w, _, kept | fewest s, _, w, _, kept =>
    w ≠ [] ∧ (∀ c ∈ w, s.holds c) ∧ kept = []
  | seq p r, b, w, rest, kept => ∃ u v k l, p.ReadsAt b u (v ++ rest) k ∧
      r.ReadsAt (u.getLast?.or b) v rest l ∧ w = u ++ v ∧ kept = l ++ k
  | optional p, b, w, rest, kept => p.ReadsAt b w rest kept ∨ (w = [] ∧ kept = [])
  | repeated p, b, w, rest, kept => Repeats p.ReadsAt b w rest kept
  | group p, b, w, rest, kept => p.ReadsAt b w rest kept
  | capture name p, b, w, rest, kept =>
    ∃ inner, p.ReadsAt b w rest inner ∧ kept = (name, w) :: inner
  | notAhead p, b, w, rest, kept => (w = [] ∧ kept = []) ∧
      ∀ u v k, rest = u ++ v → ¬p.ReadsAt b u v k
  | notAfter s, b, w, _, kept => (w = [] ∧ kept = []) ∧ b.any s.holds = false
  | wordEdge, b, w, rest, kept => (w = [] ∧ kept = []) ∧
      b.any isWord != rest.head?.any isWord
  | lineStart, b, w, _, kept => (w = [] ∧ kept = []) ∧ b.all (· == '\n')

theorem ReadsAt.append {p r : Pattern} {b : Option Char} {u v rest : Text}
    {k l : List (Text × Text)} (hu : p.ReadsAt b u (v ++ rest) k)
    (hv : r.ReadsAt (u.getLast?.or b) v rest l) : (p ++ r).ReadsAt b (u ++ v) rest (l ++ k) :=
  ⟨u, v, k, l, hu, hv, rfl, rfl⟩

abbrev Takes (R : Reading) (q e : Place) : Prop :=
  ∃ w rest kept, R q.previous w rest kept ∧ q.rest = w ++ rest ∧ e = q.behind w rest kept

/-- Rounds that each take a reading take such readings one after the other: the induction is on the
rounds, from the first place on. -/
theorem takes_repeats_of_rounds {P : Place → Place → Prop} {R : Reading} {q e : Place}
    (hround : ∀ {a m}, P a m → Takes R a m) (h : Rounds P q e) : Takes (Repeats R) q e := by
  induction h using Relation.ReflTransGen.head_induction_on with
  | refl => exact ⟨[], e.rest, [], .nil, rfl, rfl⟩
  | @head a m hstep _ ihrest =>
    obtain ⟨u, _, k, hu, hr, rfl⟩ := hround hstep.1
    obtain ⟨v, rest, l, hv, hr', rfl⟩ := ihrest
    obtain rfl := (Place.rest_behind ..).symm.trans hr'
    have hne : u ≠ [] := by
      rintro rfl
      exact absurd hstep.2 (Nat.lt_irrefl a.passed)
    exact ⟨u ++ v, rest, l ++ k, .cons hne hu hv, by simp [hr], Place.behind_behind ..⟩

theorem Repeats.rounds {P : Place → Place → Prop} {R : Reading} {q : Place} {w rest : Text}
    {kept : List (Text × Text)} (hround : ∀ {a m}, Takes R a m → P a m)
    (h : Repeats R q.previous w rest kept) (hr : q.rest = w ++ rest) :
    Rounds P q (q.behind w rest kept) := by
  generalize hb : q.previous = b at h
  induction h generalizing q with
  | nil =>
    obtain rfl := hr
    exact .refl
  | @cons b u v rest k l hne hu _ ihrest =>
    subst hb
    have hstep : P q (q.behind u (v ++ rest) k) := hround ⟨u, v ++ rest, k, hu, by simp [hr], rfl⟩
    have hpassed : q.passed < (q.behind u (v ++ rest) k).passed :=
      Nat.lt_add_of_pos_right (List.length_pos_iff.mpr hne)
    have hrest := ihrest (q := q.behind u (v ++ rest) k) rfl rfl
    rw [Place.behind_behind] at hrest
    exact .head ⟨hstep, hpassed⟩ hrest

/-- The text that is kept under a name is the one that was passed. -/
theorem keep_behind {q : Place} {w rest : Text} {inner : List (Text × Text)} (name : Text)
    (hr : q.rest = w ++ rest) :
    let e := q.behind w rest inner
    { e with captured := (name, q.rest.take (e.passed - q.passed)) :: e.captured } =
      q.behind w rest ((name, w) :: inner) := by
  simp [Place.behind, hr]

/-- A pattern passes the texts that it reads. -/
theorem passes_iff_readsAt {p : Pattern} {q e : Place} : p.Passes q e ↔ Takes p.ReadsAt q e := by
  induction p generalizing q e with
  | chars t =>
    refine Place.after?_eq_some_iff.trans ⟨?_, ?_⟩
    · rintro ⟨rest, hr, rfl⟩
      exact ⟨t, rest, [], ⟨rfl, rfl⟩, hr, rfl⟩
    · rintro ⟨_, rest, _, ⟨rfl, rfl⟩, hr, rfl⟩
      exact ⟨rest, hr, rfl⟩
  | words ts =>
    simp only [Passes, Place.after?_eq_some_iff, ReadsAt]
    constructor
    · rintro ⟨t, ht, rest, hr, rfl⟩
      exact ⟨t, rest, [], ⟨ht, rfl⟩, hr, rfl⟩
    · rintro ⟨t, rest, _, ⟨ht, rfl⟩, hr, rfl⟩
      exact ⟨t, ht, rest, hr, rfl⟩
  | one s =>
    refine Place.afterOne?_eq_some_iff.trans ⟨?_, ?_⟩
    · rintro ⟨c, rest, hc, hr, rfl⟩
      exact ⟨[c], rest, [], ⟨⟨c, hc, rfl⟩, rfl⟩, hr, rfl⟩
    · rintro ⟨_, rest, _, ⟨⟨c, hc, rfl⟩, rfl⟩, hr, rfl⟩
      exact ⟨c, rest, hc, hr, rfl⟩
  | many s =>
    refine run_iff.trans ⟨?_, ?_⟩
    · rintro ⟨w, rest, hw, hr, rfl⟩
      exact ⟨w, rest, [], ⟨hw, rfl⟩, hr, rfl⟩
    · rintro ⟨w, rest, _, ⟨hw, rfl⟩, hr, rfl⟩
      exact ⟨w, rest, hw, hr, rfl⟩
  | several s | fewest s =>
    refine run_one_iff.trans ⟨?_, ?_⟩
    · rintro ⟨w, rest, hne, hw, hr, rfl⟩
      exact ⟨w, rest, [], ⟨hne, hw, rfl⟩, hr, rfl⟩
    · rintro ⟨w, rest, _, ⟨hne, hw, rfl⟩, hr, rfl⟩
      exact ⟨w, rest, hne, hw, hr, rfl⟩
  | seq p r ihp ihr =>
    constructor
    · rintro ⟨m, hpass, hrest⟩
      obtain ⟨u, _, k, hu, hr, rfl⟩ := ihp.mp hpass
      obtain ⟨v, rest, l, hv, hr', rfl⟩ := ihr.mp hrest
      obtain rfl := (Place.rest_behind ..).symm.trans hr'
      exact ⟨u ++ v, rest, l ++ k, hu.append hv, by simp [hr], Place.behind_behind ..⟩
    · rintro ⟨_, rest, _, ⟨u, v, k, l, hu, hv, rfl, rfl⟩, hr, rfl⟩
      refine ⟨q.behind u (v ++ rest) k, ihp.mpr ⟨u, v ++ rest, k, hu, by simp [hr], rfl⟩,
        ihr.mpr ⟨v, rest, l, hv, rfl, ?_⟩⟩
      rw [Place.behind_behind]
  | optional p ih =>
    constructor
    · rintro (h | rfl)
      · obtain ⟨w, rest, kept, hw, hr, rfl⟩ := ih.mp h
        exact ⟨w, rest, kept, .inl hw, hr, rfl⟩
      · exact ⟨[], e.rest, [], .inr ⟨rfl, rfl⟩, rfl, rfl⟩
    · rintro ⟨w, rest, kept, hw | ⟨rfl, rfl⟩, hr, rfl⟩
      · exact .inl (ih.mpr ⟨w, rest, kept, hw, hr, rfl⟩)
      · obtain rfl : q.rest = rest := hr
        exact .inr rfl
  | repeated p ih =>
    constructor
    · exact takes_repeats_of_rounds ih.mp
    · rintro ⟨w, rest, kept, hw, hr, rfl⟩
      exact Repeats.rounds ih.mpr hw hr
  | group p ih => exact ih
  | capture name p ih =>
    constructor
    · rintro ⟨m, hm, rfl⟩
      obtain ⟨w, rest, inner, hw, hr, rfl⟩ := ih.mp hm
      exact ⟨w, rest, _, ⟨inner, hw, rfl⟩, hr, keep_behind name hr⟩
    · rintro ⟨w, rest, _, ⟨inner, hw, rfl⟩, hr, rfl⟩
      exact ⟨_, ih.mpr ⟨w, rest, inner, hw, hr, rfl⟩, (keep_behind name hr).symm⟩
  | notAhead p ih =>
    constructor
    · rintro ⟨rfl, hnot⟩
      refine ⟨[], e.rest, [], ⟨⟨rfl, rfl⟩, fun u v k hr hread => ?_⟩, rfl, rfl⟩
      exact hnot _ (ih.mpr ⟨u, v, k, hread, hr, rfl⟩)
    · rintro ⟨_, rest, _, ⟨⟨rfl, rfl⟩, hnot⟩, hr, rfl⟩
      obtain rfl : q.rest = rest := hr
      refine ⟨rfl, fun m hm => ?_⟩
      obtain ⟨u, v, k, hread, hr, -⟩ := ih.mp hm
      exact hnot u v k hr hread
  | notAfter s =>
    constructor
    · rintro ⟨rfl, htest⟩
      exact ⟨[], e.rest, [], ⟨⟨rfl, rfl⟩, by simpa using htest⟩, rfl, rfl⟩
    · rintro ⟨_, rest, _, ⟨⟨rfl, rfl⟩, htest⟩, hr, rfl⟩
      obtain rfl : q.rest = rest := hr
      exact ⟨rfl, by simpa using htest⟩
  | wordEdge | lineStart =>
    constructor
    · rintro ⟨rfl, htest⟩
      exact ⟨[], e.rest, [], ⟨⟨rfl, rfl⟩, htest⟩, rfl, rfl⟩
    · rintro ⟨_, rest, _, ⟨⟨rfl, rfl⟩, htest⟩, hr, rfl⟩
      obtain rfl : q.rest = rest := hr
      exact ⟨rfl, htest⟩

/-- A pattern matches the texts that it reads as a whole. -/
theorem matchesAll_iff_readsAt {p : Pattern} {t : Text} :
    p.matchesAll t ↔ ∃ kept, p.ReadsAt none t [] kept := by
  rw [matchesAll_iff]
  constructor
  · rintro ⟨e, hpass, hend⟩
    obtain ⟨w, rest, kept, hw, hr, rfl⟩ := passes_iff_readsAt.mp hpass
    obtain rfl : rest = [] := hend
    obtain rfl : t = w := by simpa [Place.start] using hr
    exact ⟨kept, hw⟩
  · rintro ⟨kept, hkept⟩
    exact ⟨_, passes_iff_readsAt.mpr ⟨t, [], kept, hkept, by simp [Place.start], rfl⟩, rfl⟩

/-- A run up to the end of the pattern reads what it passes. -/
theorem exists_readsAt_of_run {p : Pattern} {q m : Place} (h : p.run some q = some m) :
    Takes p.ReadsAt q m := by
  obtain ⟨e, hpass, he⟩ := p.run_decides.sound h
  obtain rfl := Option.some.inj he
  exact passes_iff_readsAt.mp hpass

theorem ReadsAt.isSome_run {p : Pattern} {q : Place} {w rest : Text} {kept : List (Text × Text)}
    (h : p.ReadsAt q.previous w rest kept) (hr : q.rest = w ++ rest) : (p.run some q).isSome :=
  p.run_decides.complete (passes_iff_readsAt.mpr ⟨w, rest, kept, h, hr, rfl⟩) rfl

theorem holds_any_iff {t : Text} : (∀ c ∈ t, CharClass.any.holds c) ↔ '\n' ∉ t := by
  constructor
  · intro h hmem
    exact absurd (h '\n' hmem) (by decide)
  · intro h c hc
    have hne : c ≠ '\n' := fun heq => h (heq ▸ hc)
    simpa [CharClass.holds] using hne

/-- The pattern neither looks around nor keeps anything. -/
def IsSilent : Pattern → Prop
  | chars _ | words _ | one _ | many _ | several _ | fewest _ => True
  | seq p r => p.IsSilent ∧ r.IsSilent
  | optional p | repeated p | group p => p.IsSilent
  | capture _ _ | notAhead _ | notAfter _ | wordEdge | lineStart => False

theorem isSilent_append (p r : Pattern) : (p ++ r).IsSilent ↔ p.IsSilent ∧ r.IsSilent := Iff.rfl

theorem ReadsAt.of_isSilent {p : Pattern} (hp : p.IsSilent) {b : Option Char} {w rest : Text}
    {kept : List (Text × Text)} (h : p.ReadsAt b w rest kept) :
    kept = [] ∧ ∀ b' rest', p.ReadsAt b' w rest' [] := by
  induction p generalizing b w rest kept with
  | chars _ | words _ | one _ | many _ => exact ⟨h.2, fun _ _ => ⟨h.1, rfl⟩⟩
  | several _ | fewest _ => exact ⟨h.2.2, fun _ _ => ⟨h.1, h.2.1, rfl⟩⟩
  | seq p r ihp ihr =>
    obtain ⟨u, v, k, l, hu, hv, rfl, rfl⟩ := h
    obtain ⟨rfl, hleft⟩ := ihp hp.1 hu
    obtain ⟨rfl, hright⟩ := ihr hp.2 hv
    exact ⟨rfl, fun b' rest' => (hleft b' _).append (hright _ rest')⟩
  | optional p ih =>
    rcases h with h | ⟨rfl, rfl⟩
    · exact ⟨(ih hp h).1, fun b' rest' => .inl ((ih hp h).2 b' rest')⟩
    · exact ⟨rfl, fun _ _ => .inr ⟨rfl, rfl⟩⟩
  | repeated p ih =>
    have hread : Repeats p.ReadsAt b w rest kept := h
    clear h
    induction hread with
    | nil => exact ⟨rfl, fun _ _ => .nil⟩
    | cons hne hu _ ihrest =>
      obtain ⟨rfl, hfirst⟩ := ih hp hu
      obtain ⟨rfl, hrest⟩ := ihrest
      exact ⟨rfl, fun b' rest' => .cons hne (hfirst b' _) (hrest _ rest')⟩
  | group p ih => exact ih hp h
  | capture _ _ | notAhead _ | notAfter _ | wordEdge | lineStart => exact hp.elim

/-- Wherever it stands, such a pattern reads the texts that it matches. -/
theorem readsAt_iff_of_isSilent {p : Pattern} (hp : p.IsSilent) {b : Option Char} {w rest : Text}
    {kept : List (Text × Text)} : p.ReadsAt b w rest kept ↔ p.matchesAll w ∧ kept = [] := by
  rw [matchesAll_iff_readsAt]
  constructor
  · intro h
    obtain ⟨rfl, hread⟩ := h.of_isSilent hp
    exact ⟨⟨[], hread none []⟩, rfl⟩
  · rintro ⟨⟨_, h⟩, rfl⟩
    exact (h.of_isSilent hp).2 b rest

section

variable {p r : Pattern} {b : Option Char} {w rest : Text} {kept : List (Text × Text)}

theorem readsAt_append_assoc {s : Pattern} :
    ((p ++ r) ++ s).ReadsAt b w rest kept ↔ (p ++ (r ++ s)).ReadsAt b w rest kept := by
  constructor
  · rintro ⟨_, x, _, m, ⟨u, v, k, l, hu, hv, rfl, rfl⟩, hx, rfl, rfl⟩
    refine ⟨u, v ++ x, k, m ++ l, by simpa using hu, ⟨v, x, l, m, hv, ?_, rfl, rfl⟩, by simp,
      by simp⟩
    simpa [List.getLast?_append, Option.or_assoc] using hx
  · rintro ⟨u, _, k, _, hu, ⟨v, x, l, m, hv, hx, rfl, rfl⟩, rfl, rfl⟩
    refine ⟨u ++ v, x, l ++ k, m, ⟨u, v, k, l, by simpa using hu, hv, rfl, rfl⟩, ?_, by simp,
      by simp⟩
    simpa [List.getLast?_append, Option.or_assoc] using hx

/-- A part that keeps nothing is read by what it can be. -/
theorem readsAt_part_append {P : Text → Prop}
    (hp : ∀ {b w rest kept}, p.ReadsAt b w rest kept ↔ P w ∧ kept = []) :
    (p ++ r).ReadsAt b w rest kept ↔
      ∃ u v, P u ∧ w = u ++ v ∧ r.ReadsAt (u.getLast?.or b) v rest kept := by
  constructor
  · rintro ⟨u, v, k, l, hu, hv, rfl, rfl⟩
    obtain ⟨hpart, rfl⟩ := hp.mp hu
    exact ⟨u, v, hpart, rfl, by simpa using hv⟩
  · rintro ⟨u, v, hu, rfl, hv⟩
    exact ⟨u, v, [], kept, hp.mpr ⟨hu, rfl⟩, hv, rfl, by simp⟩

theorem readsAt_chars_append {t : Text} : (chars t ++ r).ReadsAt b w rest kept ↔
    ∃ v, w = t ++ v ∧ r.ReadsAt (t.getLast?.or b) v rest kept := by
  rw [readsAt_part_append (P := (· = t)) Iff.rfl]
  simp

theorem readsAt_words_append {ts : List Text} : (words ts ++ r).ReadsAt b w rest kept ↔
    ∃ u v, u ∈ ts ∧ w = u ++ v ∧ r.ReadsAt (u.getLast?.or b) v rest kept :=
  readsAt_part_append Iff.rfl

theorem readsAt_many_append {s : CharClass} : (many s ++ r).ReadsAt b w rest kept ↔
    ∃ u v, (∀ c ∈ u, s.holds c) ∧ w = u ++ v ∧ r.ReadsAt (u.getLast?.or b) v rest kept :=
  readsAt_part_append Iff.rfl

theorem readsAt_several_append {s : CharClass} : (several s ++ r).ReadsAt b w rest kept ↔
    ∃ u v, (u ≠ [] ∧ ∀ c ∈ u, s.holds c) ∧ w = u ++ v ∧
      r.ReadsAt (u.getLast?.or b) v rest kept :=
  readsAt_part_append and_assoc.symm

theorem readsAt_silent_append (hp : p.IsSilent) : (p ++ r).ReadsAt b w rest kept ↔
    ∃ u v, p.matchesAll u ∧ w = u ++ v ∧ r.ReadsAt (u.getLast?.or b) v rest kept :=
  readsAt_part_append (P := fun u => p.matchesAll u) (readsAt_iff_of_isSilent hp)

/-- A part that takes nothing is read by what stands around it. -/
theorem readsAt_test_append {T : Option Char → Text → Prop}
    (hp : ∀ {b w rest kept}, p.ReadsAt b w rest kept ↔ (w = [] ∧ kept = []) ∧ T b rest) :
    (p ++ r).ReadsAt b w rest kept ↔ T b (w ++ rest) ∧ r.ReadsAt b w rest kept := by
  constructor
  · rintro ⟨u, v, k, l, hu, hv, rfl, rfl⟩
    obtain ⟨⟨rfl, rfl⟩, htest⟩ := hp.mp hu
    exact ⟨htest, by simpa using hv⟩
  · rintro ⟨htest, hw⟩
    exact ⟨[], w, [], kept, hp.mpr ⟨⟨rfl, rfl⟩, htest⟩, hw, rfl, by simp⟩

theorem readsAt_notAhead_append : (notAhead p ++ r).ReadsAt b w rest kept ↔
    (∀ u v k, w ++ rest = u ++ v → ¬p.ReadsAt b u v k) ∧ r.ReadsAt b w rest kept :=
  readsAt_test_append (T := fun b rest => ∀ u v k, rest = u ++ v → ¬p.ReadsAt b u v k) Iff.rfl

theorem readsAt_notAfter_append {s : CharClass} : (notAfter s ++ r).ReadsAt b w rest kept ↔
    b.any s.holds = false ∧ r.ReadsAt b w rest kept :=
  readsAt_test_append (T := fun b _ => b.any s.holds = false) Iff.rfl

theorem readsAt_wordEdge_append : (wordEdge ++ r).ReadsAt b w rest kept ↔
    (b.any isWord != (w ++ rest).head?.any isWord) ∧ r.ReadsAt b w rest kept :=
  readsAt_test_append (T := fun b rest => b.any isWord != rest.head?.any isWord) Iff.rfl

end

end CodeNav.Pattern
