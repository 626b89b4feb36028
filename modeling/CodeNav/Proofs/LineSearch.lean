import CodeNav.Proofs.Locality

/-!
Searching one line of a text. What a search of the whole text finds on a line, the search of that
line alone finds as well (`Pattern.FoundOnLine`). That holds of the patterns that start with a
character that shows, and of those that want nothing but blanks before it on its line.
-/

namespace CodeNav.Pattern

variable {after : Text} {shift total : Nat} {k : Continue}

/-- The character before a place that lies behind `w`. -/
theorem getLast?_cons_or (c : Char) (w : Text) (b : Option Char) :
    (c :: w).getLast?.or b = w.getLast?.or (some c) := by
  rw [List.getLast?_cons]
  cases w.getLast? <;> rfl

theorem searchFrom?_cons (p : Pattern) (b : Option Char) (c : Char) (t : Text) :
    p.searchFrom? b (c :: t) =
      match p.run some { previous := b, rest := c :: t } with
      | some e => some e
      | none => p.searchFrom? (some c) t := rfl

/-- What a search finds is a match from one of the places of the text on. -/
theorem exists_of_searchFrom? {p : Pattern} {b : Option Char} {t : Text} {m : Place}
    (h : p.searchFrom? b t = some m) : ∃ r t', t = r ++ t' ∧
      p.run some { previous := r.getLast?.or b, rest := t' } = some m := by
  induction t generalizing b with
  | nil => exact ⟨[], [], rfl, h⟩
  | cons c t ih =>
    unfold searchFrom? at h
    rcases of_firstOf_eq_some h with h | h
    · exact ⟨[], c :: t, rfl, h⟩
    · obtain ⟨r, t', rfl, hrun⟩ := ih h
      exact ⟨c :: r, t', rfl, by rwa [getLast?_cons_or]⟩

/-- What is found from behind the line lies behind it. -/
theorem Place.Beyond.of_run {p : Pattern} {q m : Place} (hq : q.Beyond after)
    (h : p.run some q = some m) : m.Beyond after :=
  p.run_beyond (continues_some : Continues after 0 0 some some) hq h

/-- A search finds a match that starts in the first part of a text, or it goes on with the rest. -/
theorem searchFrom?_append (p : Pattern) (b : Option Char) (r t : Text) :
    (∃ r₁ c r₂ m, r = r₁ ++ c :: r₂ ∧ p.searchFrom? b (r ++ t) = some m ∧
      p.run some { previous := r₁.getLast?.or b, rest := c :: r₂ ++ t } = some m) ∨
      p.searchFrom? b (r ++ t) = p.searchFrom? (r.getLast?.or b) t := by
  induction r generalizing b with
  | nil => exact .inr rfl
  | cons c r ih =>
    rw [List.cons_append, getLast?_cons_or, searchFrom?_cons]
    cases hrun : p.run some { previous := b, rest := c :: (r ++ t) } with
    | some m => exact .inl ⟨[], c, r, m, rfl, rfl, hrun⟩
    | none =>
      rcases ih (some c) with ⟨r₁, d, r₂, m, rfl, hsearch, hm⟩ | heq
      · exact .inl ⟨c :: r₁, d, r₂, m, rfl, hsearch, by rwa [getLast?_cons_or]⟩
      · exact .inr heq

/-- A search that starts with the line finds on the line alone what it finds in the text. -/
theorem searchFrom?_follows {p : Pattern} (hp : p.IsLocal)
    (hafter : ∀ c, after.head? = some c → isLineEnd c) {line : Text} {b b' : Option Char}
    (hb : b = b' ∨ b' = none ∧ ∀ c, b = some c → isLineEnd c) :
    ∃ total, Follows after 0 total (p.searchFrom? b (line ++ after)) (p.searchFrom? b' line) := by
  -- The places of the line are tried in turn, and at each of them the two runs agree.
  induction line generalizing b b' with
  | nil =>
    have hhere : Follows after 0 0 (p.run some { previous := b, rest := after })
        (p.run some { previous := b', rest := [] }) :=
      run_follows hp hafter continues_some ⟨rfl, rfl, rfl, hb, rfl⟩
    refine ⟨0, ?_⟩
    cases after with
    | nil => exact hhere
    | cons c a =>
      rw [List.nil_append, searchFrom?_cons]
      cases hrun : p.run some { previous := b, rest := c :: a } with
      | some m =>
        rw [hrun] at hhere
        exact hhere
      | none =>
        rw [hrun] at hhere
        -- What else is found starts behind the line.
        refine Follows.of_beyond (fun _ => hhere) fun m hm => ?_
        obtain ⟨r, t, rfl, hlate⟩ := exists_of_searchFrom? hm
        refine Place.Beyond.of_run ?_ hlate
        simp only [Place.Beyond, List.length_cons, List.length_append]
        omega
  | cons d r ih =>
    have hhere : Follows after 0 (r.length + 1)
        (p.run some { previous := b, rest := d :: (r ++ after) })
        (p.run some { previous := b', rest := d :: r }) :=
      run_follows hp hafter continues_some ⟨rfl, rfl, rfl, hb, Nat.zero_add _⟩
    rw [List.cons_append, searchFrom?_cons, searchFrom?_cons]
    cases hrun : p.run some { previous := b, rest := d :: (r ++ after) } with
    | some m =>
      rw [hrun] at hhere
      refine ⟨r.length + 1, fun hnot => ?_⟩
      obtain ⟨m', hm', hmirrors⟩ := hhere hnot
      exact ⟨m', by rw [hm'], hmirrors⟩
    | none =>
      rw [hrun] at hhere
      rw [show p.run some { previous := b', rest := d :: r } = none from hhere]
      exact ih (.inl rfl)

def isTest : Pattern → Bool
  | seq p r => p.isTest && r.isTest
  | notAhead _ | notAfter _ | wordEdge | lineStart => true
  | _ => false

/-- The first character that the pattern passes shows. -/
def StartsShown : Pattern → Prop
  | chars t => t.head?.any (!isBlank ·)
  | words ts => ∀ t ∈ ts, t.head?.any (!isBlank ·)
  | one s | several s | fewest s => ∀ c, s.holds c → isBlank c = false
  | seq p r => p.StartsShown ∨ p.isTest ∧ r.StartsShown
  | group p | capture _ p => p.StartsShown
  | many _ | optional _ | repeated _ | notAhead _ | notAfter _ | wordEdge | lineStart => False

theorem Passes.eq_of_isTest {p : Pattern} {q e : Place} (h : p.Passes q e) (hp : p.isTest) :
    e = q := by
  induction p generalizing q e with
  | seq p r ihp ihr =>
    obtain ⟨hp, hr⟩ := (Bool.and_eq_true _ _).mp hp
    obtain ⟨m, hpass, hrest⟩ := h
    rw [ihr hrest hr, ihp hpass hp]
  | notAhead p | notAfter s | wordEdge | lineStart => exact h.1
  | chars t | words ts | one s | many s | several s | fewest s | optional p | repeated p | group p
  | capture name p => cases hp

theorem Place.head?_of_after? {t : Text} {q e : Place} (h : q.after? t = some e)
    (ht : t.head?.any (!isBlank ·)) : q.rest.head?.any (!isBlank ·) := by
  rw [(spans_of_after? h).rest]
  cases t with
  | nil => cases ht
  | cons c t => exact ht

theorem Place.head?_of_afterOne? {s : CharClass} {q e : Place} (h : q.afterOne? s = some e)
    (hs : ∀ c, s.holds c → isBlank c = false) : q.rest.head?.any (!isBlank ·) := by
  obtain ⟨c, r, hrest, hc, -⟩ := afterOne?_eq_some.mp h
  simp [hrest, hs c hc]

theorem Passes.head?_shown {p : Pattern} {q e : Place} (h : p.Passes q e) (hp : p.StartsShown) :
    q.rest.head?.any (!isBlank ·) := by
  induction p generalizing q e with
  | chars t => exact Place.head?_of_after? h hp
  | words ts =>
    obtain ⟨t, ht, hpass⟩ := h
    exact Place.head?_of_after? hpass (hp t ht)
  | one s => exact Place.head?_of_afterOne? h hp
  | several s | fewest s =>
    obtain ⟨m, hone, -⟩ := h
    exact Place.head?_of_afterOne? hone hp
  | seq p r ihp ihr =>
    obtain ⟨m, hpass, hrest⟩ := h
    rcases hp with hp | ⟨htest, hr⟩
    · exact ihp hpass hp
    · rw [← hpass.eq_of_isTest htest]
      exact ihr hrest hr
  | group p ih => exact ih h hp
  | capture name p ih =>
    obtain ⟨m, hpass, -⟩ := h
    exact ih hpass hp
  | many s | optional p | repeated p | notAhead p | notAfter s | wordEdge | lineStart =>
    exact hp.elim

theorem head?_shown_of_run {p : Pattern} (hp : p.StartsShown) {q x : Place}
    (h : p.run k q = some x) : q.rest.head?.any (!isBlank ·) := by
  obtain ⟨e, he, -⟩ := p.run_decides.sound h
  exact he.head?_shown hp

/-- Where the rest cannot start with a character of the class, all characters of the class are
passed. -/
theorem runMany_append {s : CharClass} (hk : ∀ e, e.rest.head?.any s.holds → k e = none)
    {q : Place} {w : Text} (hw : ∀ c ∈ w, s.holds c) (r : Text) (b : Option Char) (n : Nat) :
    runMany s k q b (w ++ r) n = runMany s k q (w.getLast?.or b) r (n + w.length) := by
  induction w generalizing b n with
  | nil => rfl
  | cons c w ih =>
    have hc := hw c List.mem_cons_self
    have hhere : k (q.movedTo b (c :: (w ++ r)) n) = none := hk _ hc
    rw [List.cons_append, runMany, if_pos hc, hhere,
      ih (fun d hd => hw d (List.mem_cons_of_mem c hd)), getLast?_cons_or, List.length_cons,
      Nat.add_assoc, Nat.add_comm 1]
    split
    · next h => exact h.symm
    · next h => exact h.symm

theorem run_eq_none_of_isBlank {p : Pattern} (hp : p.StartsShown) {q : Place}
    (hq : q.rest.head?.any CharClass.blank.holds) : p.run k q = none := by
  by_contra hsome
  obtain ⟨x, hx⟩ := Option.ne_none_iff_exists'.mp hsome
  obtain ⟨c, hc, hblank⟩ := (Option.any_eq_true _ _).mp hq
  have hhead := head?_shown_of_run hp hx
  rw [hc, Option.any_some, show isBlank c = true from hblank] at hhead
  cases hhead

/-- The match lies on the line, apart from blanks at its front: it ends on the line, and what of it
stands before the line is blank. -/
def Place.LiesOn (m : Place) (before line after : Text) : Prop :=
  ∃ u v, line = u ++ v ∧ m.rest = v ++ after ∧
    Text.isBlank (before.drop (before.length + u.length - m.passed))

theorem Place.LiesOn.not_beyond {m : Place} {before line after : Text}
    (h : m.LiesOn before line after) : ¬m.Beyond after := by
  obtain ⟨u, v, -, hrest, -⟩ := h
  rw [Beyond, hrest, List.length_append]
  omega

/-- A match that starts before its line starts with blanks. -/
theorem Place.LiesOn.isBlank_front {p : Pattern} {m : Place} {b : Option Char}
    {r w line after : Text} (h : m.LiesOn (r ++ w) line after)
    (hrun : p.run some { previous := b, rest := w ++ (line ++ after) } = some m) :
    Text.isBlank w := by
  obtain ⟨u, v, rfl, hrest, hblank⟩ := h
  obtain ⟨e, he, hem⟩ := p.run_decides.sound hrun
  obtain rfl := Option.some.inj hem
  obtain ⟨x, hspan, -⟩ := he.spans
  -- The match is as long as `w` and what of the line it takes.
  have hlen := hspan.length_rest
  rw [hrest] at hlen
  simp only [List.length_append, Nat.zero_add] at hlen hblank
  have hdrop : r.length + w.length + u.length - e.passed = r.length := by omega
  rwa [hdrop, List.drop_left] at hblank

/-- What a search of the text finds on the line, the search of the line alone finds too. -/
def FoundOnLine (p : Pattern) (before line after : Text) : Prop :=
  ∀ m, p.search? (before ++ line ++ after) = some m → m.LiesOn before line after →
    ∃ m', p.search? line = some m' ∧ m'.captured = m.captured

/-- Blanks that stand before the line are passed, and the rest is found on the line. -/
theorem run_indented_follows {body : Pattern} (line : Text) (hp : body.IsLocal)
    (hshown : body.StartsShown)
    (hafter : ∀ c, after.head? = some c → isLineEnd c) {w : Text} (hw : Text.isBlank w)
    {b : Option Char} (hb : ∀ c, w.getLast?.or b = some c → isLineEnd c) :
    Follows after w.length line.length
      ((seq (many .blank) body).run some { previous := b, rest := w ++ (line ++ after) })
      ((seq (many .blank) body).run some { previous := none, rest := line }) := by
  have hrest : Continues after w.length line.length (body.run some) (body.run some) :=
    continues_run body continues_some (run_follows hp hafter continues_some)
  have hskip : (seq (many .blank) body).run some { previous := b, rest := w ++ (line ++ after) } =
      runMany .blank (body.run some) { previous := b, rest := w ++ (line ++ after) }
        (w.getLast?.or b) (line ++ after) (0 + w.length) :=
    runMany_append (fun _ he => run_eq_none_of_isBlank hshown he) (List.all_eq_true.mp hw) _ b 0
  rw [hskip]
  exact runMany_follows hrest .blank ⟨rfl, rfl, rfl, .inr ⟨rfl, hb⟩, Nat.zero_add _⟩

section Lines

variable {p : Pattern} {before line after : Text}

theorem search?_follows (hp : p.IsLocal) (hline : Text.LineBetween before line after) :
    ∃ total, Follows after 0 total (p.searchFrom? (before.getLast?.or none) (line ++ after))
      (p.search? line) := by
  refine searchFrom?_follows hp hline.stop (.inr ⟨rfl, ?_⟩)
  rw [Option.or_none]
  exact hline.start

/-- A local pattern that is not in the text is not on the line either. -/
theorem search?_line_eq_none (hp : p.IsLocal) (hline : Text.LineBetween before line after)
    (h : p.search? (before ++ line ++ after) = none) : p.search? line = none := by
  unfold search? at h
  rw [List.append_assoc] at h
  rcases p.searchFrom?_append none before (line ++ after) with ⟨_, _, _, m, -, hm, -⟩ | hgoes
  · rw [h] at hm
    cases hm
  · obtain ⟨total, hfollows⟩ := search?_follows hp hline
    rw [← hgoes, h] at hfollows
    exact hfollows

theorem foundOnLine_of_startsShown (hp : p.IsLocal) (hshown : p.StartsShown)
    (hline : Text.LineBetween before line after) : p.FoundOnLine before line after := by
  intro m hm hlies
  unfold search? at hm
  rw [List.append_assoc] at hm
  rcases p.searchFrom?_append none before (line ++ after) with
    ⟨r, c, w, m', rfl, hm', hrun⟩ | hgoes
  · -- The match would start with a character that shows, but before the line.
    obtain rfl := Option.some.inj (hm.symm.trans hm')
    have hblank := hlies.isBlank_front hrun
    have hhead := head?_shown_of_run hshown hrun
    rw [Text.isBlank, List.all_cons] at hblank
    have hc := ((Bool.and_eq_true _ _).mp hblank).1
    simp [hc] at hhead
  · obtain ⟨total, hfollows⟩ := search?_follows hp hline
    rw [← hgoes, hm] at hfollows
    obtain ⟨m', hm', hmirrors⟩ := hfollows hlies.not_beyond
    exact ⟨m', hm', hmirrors.captured.symm⟩

/-- A line start from which something on the line is found is that of the line or stands before
it. -/
theorem exists_front_of_lineStart {r t : Text} (hline : Text.LineBetween before line after)
    (htext : before ++ (line ++ after) = r ++ t) (hstart : r.getLast?.all (· == '\n'))
    (hlen : ¬t.length < after.length) : ∃ w, before = r ++ w ∧ t = w ++ (line ++ after) := by
  rcases List.append_eq_append_iff.mp htext with ⟨u, hr, hrest⟩ | ⟨w, hbefore, ht⟩
  · cases u using List.reverseRecOn with
    | nil => exact ⟨[], by simpa using hr.symm, by simpa using hrest.symm⟩
    | append_singleton u c =>
      -- No line feed stands on the line, so the start would lie behind it.
      have hfeed : c = '\n' := by simpa [hr] using hstart
      have hnot : c ∉ line := fun hmem => by
        have hend := hline.single c hmem
        rw [hfeed] at hend
        cases hend
      rcases List.append_eq_append_iff.mp hrest with ⟨a, hu, hafter⟩ | ⟨a, hl, -⟩
      · cases a using List.reverseRecOn with
        | nil =>
          rw [List.append_nil] at hu
          exact absurd (hu ▸ by simp) hnot
        | append_singleton a d =>
          rw [hafter] at hlen
          simp only [List.length_append, List.length_singleton] at hlen
          omega
      · exact absurd (hl ▸ by simp) hnot
  · exact ⟨w, hbefore, ht⟩

theorem searchFrom?_of_run {b : Option Char} {t : Text} {m : Place}
    (h : p.run some { previous := b, rest := t } = some m) : p.searchFrom? b t = some m := by
  cases t with
  | nil => exact h
  | cons c t => rw [searchFrom?_cons, h]

/-- A pattern that wants nothing but blanks before it on its line. The blanks may start on lines
before. -/
theorem foundOnLine_of_indented (body : Pattern) (hp : body.IsLocal) (hshown : body.StartsShown)
    (hrun : ∀ k q, p.run k q = if q.isLineStart then (seq (many .blank) body).run k q else none)
    (hline : Text.LineBetween before line after) : p.FoundOnLine before line after := by
  intro m hm hlies
  unfold search? at hm
  rw [List.append_assoc] at hm
  obtain ⟨r, t, htext, hmatch⟩ := exists_of_searchFrom? hm
  rw [hrun] at hmatch
  split at hmatch
  · next hstart =>
    have hlen : ¬t.length < after.length := by
      intro hbeyond
      refine hlies.not_beyond (Place.Beyond.of_run ?_ hmatch)
      exact hbeyond
    have hfeed : r.getLast?.all (· == '\n') := by simpa [Place.isLineStart] using hstart
    obtain ⟨w, rfl, rfl⟩ := exists_front_of_lineStart hline htext hfeed hlen
    have hends : ∀ c, w.getLast?.or (r.getLast?.or none) = some c → isLineEnd c := by
      rw [Option.or_none, ← List.getLast?_append]
      exact hline.start
    have hfollows := run_indented_follows line hp hshown hline.stop
      (hlies.isBlank_front hmatch) hends
    rw [hmatch] at hfollows
    obtain ⟨m', hm', hmirrors⟩ := hfollows hlies.not_beyond
    refine ⟨m', searchFrom?_of_run ?_, hmirrors.captured.symm⟩
    rw [hrun]
    exact hm'
  · cases hmatch

/-- A local pattern whose match starts with a character that shows, or with blanks from the start
of a line on and then with such a character. -/
inductive FrontShown (p : Pattern) : Prop where
  | shown (hlocal : p.IsLocal) (hshown : p.StartsShown)
  | indented (body : Pattern) (hlocal : body.IsLocal) (hshown : body.StartsShown)
      (hrun : ∀ k q, p.run k q =
        if q.isLineStart then (seq (many .blank) body).run k q else none)

theorem FrontShown.foundOnLine (hp : p.FrontShown) (hline : Text.LineBetween before line after) :
    p.FoundOnLine before line after := by
  cases hp with
  | shown hlocal hshown => exact foundOnLine_of_startsShown hlocal hshown hline
  | indented body hlocal hshown hrun => exact foundOnLine_of_indented body hlocal hshown hrun hline

end Lines

end CodeNav.Pattern
