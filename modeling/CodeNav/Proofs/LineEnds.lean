import CodeNav.Proofs.Bindings
import CodeNav.Proofs.Lowering

/-!
Line ends of two characters. A text whose line feeds each stand behind a carriage return has the
same lines (`Text.lines_withReturns`), and a pattern that cannot tell the two characters apart
matches it as it does the text itself (`Pattern.run_widened`). So no answer depends on how the lines
of a text end.
-/

namespace CodeNav

namespace Text

/-- The text with a carriage return before each line feed. -/
def withReturns (t : Text) : Text := t.flatMap fun c => if c = '\n' then ['\r', '\n'] else [c]

theorem withReturns_feed (r : Text) :
    withReturns ('\n' :: r) = '\r' :: '\n' :: withReturns r := rfl

theorem withReturns_cons {c : Char} (h : c ≠ '\n') (r : Text) :
    withReturns (c :: r) = c :: withReturns r := by
  unfold withReturns
  rw [List.flatMap_cons, if_neg h]
  rfl

theorem withReturns_append (u v : Text) :
    withReturns (u ++ v) = withReturns u ++ withReturns v := List.flatMap_append

theorem withReturns_eq_self {t : Text} (h : '\n' ∉ t) : withReturns t = t := by
  induction t with
  | nil => rfl
  | cons c r ih =>
    rw [List.mem_cons, not_or] at h
    rw [withReturns_cons (Ne.symm h.1), ih h.2]

/-- A carriage return with its line feed is one line end, as the line feed alone is. -/
theorem lines_withReturns {t : Text} (h : '\r' ∉ t) : t.withReturns.lines = t.lines := by
  induction t with
  | nil => rfl
  | cons c r ih =>
    rw [List.mem_cons, not_or] at h
    have hrest := ih h.2
    by_cases hfeed : c = '\n'
    · subst hfeed
      rw [withReturns_feed, lines, lines_feed, hrest]
    · rw [withReturns_cons hfeed]
      cases hend : isLineEnd c with
      | true =>
        have hreturn : c ≠ '\r' := Ne.symm h.1
        rw [lines_cons_of_isLineEnd hend fun hc => absurd hc hreturn,
          lines_cons_of_isLineEnd hend fun hc => absurd hc hreturn, hrest]
      | false => rw [lines_cons hend, lines_cons hend, hrest]

end Text

namespace Pattern

def widen (captured : List (Text × Text)) : List (Text × Text) :=
  captured.map (Prod.map id Text.withReturns)

/-- A place that was reached from the start of the text, and the same place where a carriage return
stands before each line feed. -/
structure Place.Widened (text : Text) (q q' : Place) : Prop where
  rest : q'.rest = q.rest.withReturns
  previous : q'.previous = q.previous
  captured : q'.captured = widen q.captured
  passed : ∃ u, text = u ++ q.rest ∧ q.passed = u.length ∧ q'.passed = u.withReturns.length

def Place.Splits (q : Place) : Prop := q.previous = some '\r' ∧ q.rest.head? = some '\n'

def Agrees (text : Text) (k k' : Continue) : Prop :=
  ∀ e e', e.Widened text e' → Option.Rel (Place.Widened text) (k e) (k' e')

/-- Nothing goes on from inside of a line end. -/
def KeepsWhole (k : Continue) : Prop := ∀ e, e.Splits → k e = none

variable {text : Text} {k k' : Continue}

theorem agrees_some : Agrees text some some := fun _ _ h => .some h

section Options

variable {R : Place → Place → Prop} {a a' b b' : Option Place}

theorem rel_bind (ha : Option.Rel R a a') (hk : ∀ e e', R e e' → Option.Rel R (k e) (k' e')) :
    Option.Rel R (a.bind k) (a'.bind k') := by
  cases ha with
  | none => exact .none
  | some h => exact hk _ _ h

theorem rel_firstOf : Option.Rel R a a' → Option.Rel R b b' →
    Option.Rel R (match a with | some e => some e | none => b)
      (match a' with | some e => some e | none => b') := by
  intro ha hb
  cases ha with
  | none => exact hb
  | some h => exact .some h

theorem rel_findSome? {f f' : Text → Option Place} (ts : List Text)
    (h : ∀ t ∈ ts, Option.Rel R (f t) (f' t)) :
    Option.Rel R (ts.findSome? f) (ts.findSome? f') := by
  induction ts with
  | nil => exact .none
  | cons t ts ih =>
    have hrest := ih fun t ht => h t (List.mem_cons_of_mem _ ht)
    have hfirst := h t List.mem_cons_self
    rw [List.findSome?_cons, List.findSome?_cons]
    generalize f t = a at hfirst
    generalize f' t = a' at hfirst
    cases hfirst with
    | none => exact hrest
    | some h => exact .some h

/-- A second try that finds nothing changes nothing. -/
theorem rel_firstOf_none : Option.Rel R a a' →
    Option.Rel R a (match a' with | some e => some e | none => none) := by
  intro ha
  cases a' <;> exact ha

end Options

namespace Place.Widened

variable {q q' : Place}

theorem step (h : q.Widened text q') {c : Char} {r : Text} (hr : q.rest = c :: r) (hc : c ≠ '\n') :
    (q.movedTo (some c) r (q.passed + 1)).Widened text
      (q'.movedTo (some c) r.withReturns (q'.passed + 1)) := by
  obtain ⟨u, htext, hpassed, hpassed'⟩ := h.passed
  refine ⟨rfl, rfl, h.captured, u ++ [c], ?_, ?_, ?_⟩
  · rw [htext, hr]
    exact (List.append_cons u c r)
  · rw [List.length_append, List.length_singleton, ← hpassed]
    rfl
  · rw [Text.withReturns_append, Text.withReturns_cons hc, List.length_append, ← hpassed']
    rfl

/-- Where one character is passed in the text, two are passed. -/
theorem stepFeed (h : q.Widened text q') {r : Text} (hr : q.rest = '\n' :: r) :
    (q.movedTo (some '\n') r (q.passed + 1)).Widened text
      (q'.movedTo (some '\n') r.withReturns (q'.passed + 1 + 1)) := by
  obtain ⟨u, htext, hpassed, hpassed'⟩ := h.passed
  refine ⟨rfl, rfl, h.captured, u ++ ['\n'], ?_, ?_, ?_⟩
  · rw [htext, hr]
    exact (List.append_cons u '\n' r)
  · rw [List.length_append, List.length_singleton, ← hpassed]
    rfl
  · rw [Text.withReturns_append, List.length_append, ← hpassed']
    rfl

theorem rest_cons (h : q.Widened text q') {c : Char} {r : Text} (hr : q.rest = c :: r)
    (hc : c ≠ '\n') : q'.rest = c :: r.withReturns := by
  rw [h.rest, hr, Text.withReturns_cons hc]

theorem rest_feed (h : q.Widened text q') {r : Text} (hr : q.rest = '\n' :: r) :
    q'.rest = '\r' :: '\n' :: r.withReturns := by
  rw [h.rest, hr, Text.withReturns_feed]

theorem rest_nil (h : q.Widened text q') (hr : q.rest = []) : q'.rest = [] := by
  rw [h.rest, hr]
  rfl

theorem after? (h : q.Widened text q') {w : Text} (hw : '\n' ∉ w ∧ '\r' ∉ w) :
    Option.Rel (Place.Widened text) (q.after? w) (q'.after? w) := by
  induction w generalizing q q' with
  | nil => exact .some h
  | cons c w ih =>
    obtain ⟨⟨hfeed, hwfeed⟩, hreturn, hwreturn⟩ := by
      simpa only [List.mem_cons, not_or] using hw
    cases hr : q.rest with
    | nil =>
      simp only [Place.after?, hr, h.rest_nil hr]
      exact .none
    | cons d r =>
      by_cases hd : d = '\n'
      · -- Neither character of the line end is wanted.
        subst hd
        simp only [Place.after?, hr, h.rest_feed hr, if_neg (Ne.symm hfeed),
          if_neg (Ne.symm hreturn)]
        exact .none
      · by_cases hc : c = d
        · simp only [Place.after?, hr, h.rest_cons hr hd, if_pos hc]
          exact ih (h.step hr hd) ⟨hwfeed, hwreturn⟩
        · simp only [Place.after?, hr, h.rest_cons hr hd, if_neg hc]
          exact .none

theorem afterOne? (h : q.Widened text q') {s : CharClass} (hfeed : s.holds '\n' = false)
    (hreturn : s.holds '\r' = false) :
    Option.Rel (Place.Widened text) (q.afterOne? s) (q'.afterOne? s) := by
  cases hr : q.rest with
  | nil =>
    simp only [Place.afterOne?, hr, h.rest_nil hr]
    exact .none
  | cons d r =>
    by_cases hd : d = '\n'
    · subst hd
      simp only [Place.afterOne?, hr, h.rest_feed hr, hfeed, hreturn, Bool.false_eq_true, if_false]
      exact .none
    · simp only [Place.afterOne?, hr, h.rest_cons hr hd]
      split
      · exact .some (h.step hr hd)
      · exact .none

/-- A line feed and a carriage return are no word characters, so no edge tells them apart. -/
theorem isWordEdge (h : q.Widened text q') : q'.isWordEdge = q.isWordEdge := by
  have hnext : q'.rest.head?.any isWord = q.rest.head?.any isWord := by
    cases hr : q.rest with
    | nil => rw [h.rest_nil hr]
    | cons d r =>
      by_cases hd : d = '\n'
      · subst hd
        have hfeed : isWord '\n' = false := isWord_of_isLineEnd rfl
        have hreturn : isWord '\r' = false := isWord_of_isLineEnd rfl
        simp [h.rest_feed hr, hfeed, hreturn]
      · rw [h.rest_cons hr hd]
        rfl
  unfold Place.isWordEdge
  rw [h.previous, hnext]

/-- What is kept between two places of the text is widened with it. -/
theorem capture {e e' : Place} (h : q.Widened text q') (he : e.Widened text e') (name : Text) :
    ({ e with captured := (name, q.rest.take (e.passed - q.passed)) :: e.captured } :
        Place).Widened text
      { e' with captured := (name, q'.rest.take (e'.passed - q'.passed)) :: e'.captured } := by
  obtain ⟨u, hu, hqpassed, hqpassed'⟩ := h.passed
  obtain ⟨v, hv, hepassed, hepassed'⟩ := he.passed
  have hkept : q'.rest.take (e'.passed - q'.passed) =
      Text.withReturns (q.rest.take (e.passed - q.passed)) := by
    rw [h.rest, hqpassed, hqpassed', hepassed, hepassed']
    rcases List.append_eq_append_iff.mp (hu.symm.trans hv) with
      ⟨w, rfl, hrest⟩ | ⟨w, rfl, -⟩
    · rw [hrest, Text.withReturns_append, Text.withReturns_append, List.length_append,
        List.length_append, Nat.add_sub_cancel_left, Nat.add_sub_cancel_left, List.take_left,
        List.take_left]
    · -- The second place does not lie behind the first one, and nothing is kept.
      rw [Text.withReturns_append, List.length_append, List.length_append,
        Nat.sub_eq_zero_of_le (Nat.le_add_right _ _), Nat.sub_eq_zero_of_le (Nat.le_add_right _ _)]
      rfl
  refine ⟨he.rest, he.previous, ?_, v, hv, hepassed, hepassed'⟩
  dsimp only
  rw [hkept, he.captured]
  rfl

end Place.Widened

/-- Both characters of a line end are passed, or none. From between them nothing goes on. -/
theorem runMany_widened (hk : Agrees text k k') {s : CharClass} (hs : s.holds '\n' = s.holds '\r')
    (hwhole : s.holds '\r' → KeepsWhole k') {q q' : Place} {b : Option Char} {r : Text} {m n : Nat}
    (h : (q.movedTo b r m).Widened text (q'.movedTo b r.withReturns n)) :
    Option.Rel (Place.Widened text) (runMany s k q b r m) (runMany s k' q' b r.withReturns n) := by
  induction r generalizing b m n with
  | nil => exact hk _ _ h
  | cons c r ih =>
    have hhere := hk _ _ h
    by_cases hc : c = '\n'
    · subst hc
      have hnext := ih (h.stepFeed rfl)
      rw [Text.withReturns_feed] at hhere ⊢
      cases hreturn : s.holds '\r' with
      | false =>
        rw [hreturn] at hs
        simp only [runMany, hs, hreturn, Bool.false_eq_true, if_false]
        exact hhere
      | true =>
        have hsplit : k' (q'.movedTo (some '\r') ('\n' :: Text.withReturns r) (n + 1)) = none :=
          hwhole hreturn _ ⟨rfl, rfl⟩
        rw [hreturn] at hs
        simp only [runMany, hs, hreturn, if_true, hsplit]
        exact rel_firstOf (rel_firstOf_none hnext) hhere
    · have hnext := ih (h.step rfl hc)
      rw [Text.withReturns_cons hc] at hhere ⊢
      unfold runMany
      split
      · exact rel_firstOf hnext hhere
      · exact hhere

/-- Where a run of characters has started from does not count for how it goes on. -/
theorem runMany_movedTo (s : CharClass) (k : Continue) (q : Place) (b₀ b : Option Char)
    (r₀ r : Text) (n₀ n : Nat) :
    runMany s k (q.movedTo b₀ r₀ n₀) b r n = runMany s k q b r n := by
  induction r generalizing b n with
  | nil => rfl
  | cons c r ih =>
    unfold runMany
    rw [ih]
    rfl

theorem run_several_widened (hk : Agrees text k k') {s : CharClass}
    (hs : s.holds '\n' = s.holds '\r') (hwhole : s.holds '\r' → KeepsWhole k') {q q' : Place}
    (h : q.Widened text q') :
    Option.Rel (Place.Widened text) ((several s).run k q) ((several s).run k' q') := by
  have hmany : ∀ {e e' : Place}, e.Widened text e' → Option.Rel (Place.Widened text)
      (runMany s k e e.previous e.rest e.passed)
      (runMany s k' e' e'.previous e'.rest e'.passed) := by
    intro e e' he
    rw [he.rest, he.previous]
    refine runMany_widened hk hs hwhole ?_
    exact ⟨rfl, rfl, he.captured, he.passed⟩
  unfold run
  cases hr : q.rest with
  | nil =>
    simp only [Place.afterOne?, hr, h.rest_nil hr]
    exact .none
  | cons d r =>
    by_cases hd : d = '\n'
    · subst hd
      cases hreturn : s.holds '\r' with
      | false => exact rel_bind (h.afterOne? (hs.trans hreturn) hreturn) fun _ _ he => hmany he
      | true =>
        have hfeed : s.holds '\n' := hs.trans hreturn
        have hone : q.afterOne? s = some (q.movedTo (some '\n') r (q.passed + 1)) :=
          Place.afterOne?_eq_some.mpr ⟨'\n', r, hr, hfeed, rfl⟩
        have hone' : q'.afterOne? s =
            some (q'.movedTo (some '\r') ('\n' :: Text.withReturns r) (q'.passed + 1)) :=
          Place.afterOne?_eq_some.mpr ⟨'\r', _, h.rest_feed hr, hreturn, rfl⟩
        -- The first step stops inside of the line end, and only the second leads on.
        have hsplit :
            k' (q'.movedTo (some '\r') ('\n' :: Text.withReturns r) (q'.passed + 1)) = none :=
          hwhole hreturn _ ⟨rfl, rfl⟩
        have hnext := runMany_widened hk hs hwhole (h.stepFeed hr)
        rw [hone, hone', Option.bind_some, Option.bind_some, runMany_movedTo, runMany_movedTo]
        dsimp only [Place.movedTo] at hsplit hnext ⊢
        simp only [runMany, hfeed, if_true, Place.movedTo, hsplit]
        exact rel_firstOf_none hnext
    · simp only [Place.afterOne?, hr, h.rest_cons hr hd]
      split
      · exact hmany (h.step hr hd)
      · exact .none

/-- A match of the pattern ends inside of no line end. -/
def EndsWhole : Pattern → Prop
  | many s | several s => s.holds '\r' = false
  | seq _ r => r.EndsWhole
  | optional p | group p | capture _ p => p.EndsWhole
  | chars _ | words _ | one _ | notAhead _ | notAfter _ | wordEdge | lineStart => True
  | fewest _ | repeated _ => False

/-- The pattern takes the two characters of a line end for one: it passes them only in runs of
characters of which both are, and does not go on between them. Of the ways to repeat it has only
those that take as many characters as possible. -/
def PairsLineEnds : Pattern → Prop
  | chars t => '\n' ∉ t ∧ '\r' ∉ t
  | words ts => ∀ t ∈ ts, '\n' ∉ t ∧ '\r' ∉ t
  | one s => s.holds '\n' = false ∧ s.holds '\r' = false
  | many s | several s => s.holds '\n' = s.holds '\r'
  | seq p r => p.PairsLineEnds ∧ r.PairsLineEnds ∧ (p.EndsWhole ∨ r.StartsShown)
  | optional p | group p | capture _ p => p.PairsLineEnds
  | notAhead p => p.PairsLineEnds ∧ p.EndsWhole
  | notAfter _ | wordEdge | lineStart => True
  | fewest _ | repeated _ => False

theorem KeepsWhole.of_startsShown {p : Pattern} (hp : p.StartsShown) : KeepsWhole (p.run k) := by
  intro e he
  apply run_eq_none_of_isBlank hp
  rw [he.2]
  decide

/-- A match that shows at its front does not start inside of a line end. -/
theorem KeepsWhole.of_frontShown {p : Pattern} (hp : p.FrontShown) : KeepsWhole (p.run k) := by
  cases hp with
  | shown hlocal hshown => exact .of_startsShown hshown
  | indented body hlocal hshown hrun =>
    intro e he
    have hstart : e.isLineStart = false := by simp [Place.isLineStart, he.1]
    rw [hrun, hstart]
    rfl

/-- A pattern that takes line ends for one character runs alike whether or not carriage returns
stand before the line feeds. -/
theorem run_widened {p : Pattern} (hp : p.PairsLineEnds) (hk : Agrees text k k')
    (hends : p.EndsWhole ∨ KeepsWhole k') {q q' : Place} (h : q.Widened text q') :
    Option.Rel (Place.Widened text) (p.run k q) (p.run k' q') := by
  induction p generalizing k k' q q' with
  | chars t => exact rel_bind (h.after? hp) hk
  | words ts => exact rel_findSome? ts fun t ht => rel_bind (h.after? (hp t ht)) hk
  | one s => exact rel_bind (h.afterOne? hp.1 hp.2) hk
  | many s =>
    have hwhole : s.holds '\r' → KeepsWhole k' := fun hs =>
      hends.resolve_left fun hnot => by
        rw [show s.holds '\r' = false from hnot] at hs
        cases hs
    unfold run
    rw [h.rest, h.previous]
    refine runMany_widened hk hp hwhole ?_
    exact ⟨rfl, rfl, h.captured, h.passed⟩
  | several s =>
    have hwhole : s.holds '\r' → KeepsWhole k' := fun hs =>
      hends.resolve_left fun hnot => by
        rw [show s.holds '\r' = false from hnot] at hs
        cases hs
    exact run_several_widened hk hp hwhole h
  | seq p r ihp ihr =>
    obtain ⟨hpairs, hrpairs, hbetween⟩ := hp
    have hrest : Agrees text (r.run k) (r.run k') := fun _ _ he => ihr hrpairs hk hends he
    exact ihp hpairs hrest (hbetween.imp_right fun hr => .of_startsShown hr) h
  | optional p ih => exact rel_firstOf (ih hp hk hends h) (hk q q' h)
  | group p ih => exact ih hp hk hends h
  | capture name p ih =>
    refine ih hp (fun e e' he => ?_) (hends.imp_right fun hk e he => ?_) h
    · exact hk _ _ (h.capture he name)
    · apply hk
      exact he
  | notAhead p ih =>
    have hahead := ih hp.1 agrees_some (.inl hp.2) h
    unfold run
    generalize p.run some q = a at hahead
    generalize p.run some q' = a' at hahead
    cases hahead with
    | none => exact hk q q' h
    | some => exact .none
  | notAfter s =>
    unfold run
    rw [h.previous]
    split
    · exact .none
    · exact hk q q' h
  | wordEdge =>
    unfold run
    rw [h.isWordEdge]
    split
    · exact hk q q' h
    · exact .none
  | lineStart =>
    unfold run Place.isLineStart
    rw [h.previous]
    split
    · exact hk q q' h
    · exact .none
  | fewest s => exact hp.elim
  | repeated p => exact hp.elim

/-- A search keeps the same, widened, as it does in the text without carriage returns. -/
theorem searchFrom?_withReturns {p : Pattern} (hp : p.PairsLineEnds) (hends : p.EndsWhole)
    (hfront : p.FrontShown) (b : Option Char) (t : Text) :
    (p.searchFrom? b t.withReturns).map (·.captured) =
      (p.searchFrom? b t).map fun m => widen m.captured := by
  have hcaptured : ∀ {text : Text} {o o' : Option Place}, Option.Rel (Place.Widened text) o o' →
      o'.map (·.captured) = o.map fun m => widen m.captured := by
    intro text o o' h
    cases h with
    | none => rfl
    | some h => exact congrArg some h.captured
  have hhere : ∀ (b : Option Char) (t : Text), Option.Rel (Place.Widened t)
      (p.run some { previous := b, rest := t })
      (p.run some { previous := b, rest := t.withReturns }) := fun b t =>
    run_widened hp agrees_some (.inl hends) ⟨rfl, rfl, rfl, [], rfl, rfl, rfl⟩
  induction t generalizing b with
  | nil => exact hcaptured (hhere b [])
  | cons c r ih =>
    have hfirst := hhere b (c :: r)
    rw [searchFrom?_cons]
    by_cases hc : c = '\n'
    · subst hc
      -- The search also tries the place inside of the line end, where nothing is found.
      have hsplit :
          p.run some { previous := some '\r', rest := '\n' :: Text.withReturns r } = none :=
        KeepsWhole.of_frontShown hfront _ ⟨rfl, rfl⟩
      rw [Text.withReturns_feed] at hfirst ⊢
      rw [searchFrom?_cons, searchFrom?_cons, hsplit]
      generalize p.run some { previous := b, rest := '\n' :: r } = a at hfirst
      generalize p.run some { previous := b, rest := '\r' :: '\n' :: Text.withReturns r } = a'
        at hfirst
      cases hfirst with
      | none => exact ih (some '\n')
      | some h => exact congrArg some h.captured
    · rw [Text.withReturns_cons hc] at hfirst ⊢
      rw [searchFrom?_cons]
      generalize p.run some { previous := b, rest := c :: r } = a at hfirst
      generalize p.run some { previous := b, rest := c :: Text.withReturns r } = a' at hfirst
      cases hfirst with
      | none => exact ih (some c)
      | some h => exact congrArg some h.captured

@[simp] theorem endsWhole_append (p r : Pattern) : (p ++ r).EndsWhole ↔ r.EndsWhole := Iff.rfl

@[simp] theorem pairsLineEnds_append (p r : Pattern) : (p ++ r).PairsLineEnds ↔
    p.PairsLineEnds ∧ r.PairsLineEnds ∧ (p.EndsWhole ∨ r.StartsShown) := Iff.rfl

end Pattern

namespace Language

theorem not_mem_of_isWordRun {name : Text} (h : isWordRun name) : '\n' ∉ name ∧ '\r' ∉ name := by
  have hends : ∀ c, isLineEnd c → c ∉ name := fun _ hc =>
    not_mem_of_not_isWord (isWord_of_isLineEnd hc) h
  exact ⟨hends '\n' rfl, hends '\r' rfl⟩

theorem pairsLineEnds_dottedName : dottedName.PairsLineEnds :=
  (holds_nameChars_of_isLineEnd rfl).trans (holds_nameChars_of_isLineEnd rfl).symm

theorem endsWhole_dottedName : dottedName.EndsWhole := holds_nameChars_of_isLineEnd rfl

theorem pairsLineEnds_notJavaKeyword : notJavaKeyword.PairsLineEnds := by
  have hwords : ∀ t ∈ (["return", "new", "else", "throw", "case"] : List Text),
      '\n' ∉ t ∧ '\r' ∉ t := by decide
  exact ⟨⟨hwords, trivial, .inl trivial⟩, trivial⟩

/-- Both characters of a line end are blank. -/
theorem holds_blank_lineEnd : CharClass.blank.holds '\n' = CharClass.blank.holds '\r' := by decide

theorem pairsLineEnds_kotlin {name : Text} (hname : isWordRun name) :
    ∀ p ∈ kotlin.bindingPatterns name, p.PairsLineEnds ∧ p.EndsWhole := by
  have hcolon : isBlank ':' = false := by decide
  have hequals : isBlank '=' = false := by decide
  intro p hp
  simp only [bindingPatterns, List.mem_cons, List.not_mem_nil, or_false] at hp
  rcases hp with rfl | rfl | rfl
  all_goals
    refine ⟨?_, endsWhole_dottedName⟩
    simp [Pattern.PairsLineEnds, Pattern.EndsWhole, Pattern.StartsShown,
      pairsLineEnds_dottedName, startsShown_dottedName, shown_of_isWordRun hname,
      not_mem_of_isWordRun hname, holds_blank_lineEnd, hcolon, hequals]

theorem pairsLineEnds_java {name : Text} (hname : isWordRun name) :
    ∀ p ∈ java.bindingPatterns name, p.PairsLineEnds ∧ p.EndsWhole := by
  have hequals : isBlank '=' = false := by decide
  have hnew : isBlank 'n' = false := by decide
  have hclose : isBlank '>' = false := by decide
  have hkeyword : notJavaKeyword.EndsWhole := trivial
  have hreturn : CharClass.blank.holds '\r' := by decide
  have harguments : (CharClass.noneOf [.char '=', .char ';', .char '(', .char ')']).holds '\n' =
      (CharClass.noneOf [.char '=', .char ';', .char '(', .char ')']).holds '\r' := by decide
  have hends : (CharClass.oneOf [.char '=', .char ';']).holds '\n' = false ∧
      (CharClass.oneOf [.char '=', .char ';']).holds '\r' = false := by decide
  have hstop : ∀ c, (CharClass.oneOf [.char '=', .char ';']).holds c → isBlank c = false := by
    intro c hc
    have hcases : c = '=' ∨ c = ';' := by simpa [CharClass.holds, ClassItem.holds] using hc
    rcases hcases with rfl | rfl <;> decide
  intro p hp
  simp only [bindingPatterns, List.mem_cons, List.not_mem_nil, or_false] at hp
  rcases hp with rfl | rfl
  · refine ⟨?_, endsWhole_dottedName⟩
    simp [Pattern.PairsLineEnds, Pattern.EndsWhole, Pattern.StartsShown,
      pairsLineEnds_dottedName, startsShown_dottedName, not_mem_of_isWordRun hname,
      holds_blank_lineEnd, hequals, hnew]
  · refine ⟨?_, trivial⟩
    simpa [Pattern.PairsLineEnds, Pattern.EndsWhole, Pattern.StartsShown,
      pairsLineEnds_notJavaKeyword, hkeyword, pairsLineEnds_dottedName, endsWhole_dottedName,
      shown_of_isWordRun hname, not_mem_of_isWordRun hname, holds_blank_lineEnd, hreturn,
      harguments, hends, hclose] using hstop

theorem pairsLineEnds_of_mem (l : Language) {name : Text} (hname : isWordRun name) :
    ∀ p ∈ l.bindingPatterns name, p.PairsLineEnds ∧ p.EndsWhole :=
  match l with
  | kotlin => pairsLineEnds_kotlin hname
  | java => pairsLineEnds_java hname

end Language

namespace Binding

theorem filter_isWordRun_withReturns (o : Option Text) :
    (o.map Text.withReturns).filter isWordRun = o.filter isWordRun := by
  cases o with
  | none => rfl
  | some t =>
    by_cases hfeed : '\n' ∈ t
    · -- Neither of the two texts is a word.
      have hword : isWordRun t = false := by
        by_contra hnot
        exact (Language.not_mem_of_isWordRun (by simpa using hnot)).1 hfeed
      have hmem : '\n' ∈ t.withReturns := List.mem_flatMap.mpr ⟨'\n', hfeed, by simp⟩
      have hword' : isWordRun t.withReturns = false := by
        by_contra hnot
        exact (Language.not_mem_of_isWordRun (by simpa using hnot)).1 hmem
      simp only [Option.map_some, Option.filter_some, hword, hword', Bool.false_eq_true, if_false]
    · rw [Option.map_some, Text.withReturns_eq_self hfeed]

/-- Line ends tell nothing about the type of a variable. -/
theorem declaredType?_withReturns (l : Language) {name : Text} (hname : isWordRun name) (t : Text) :
    declaredType? l name t.withReturns = declaredType? l name t := by
  have hassigned : assignedFrom? l name t.withReturns =
      (assignedFrom? l name t).map Text.withReturns := by
    apply assignedFrom?_map rfl
    intro p hp
    obtain ⟨hpairs, hends⟩ := l.pairsLineEnds_of_mem hname p hp
    exact Pattern.searchFrom?_withReturns hpairs hends (l.frontShown_of_mem hname p hp) none t
  unfold declaredType?
  rw [Language.bareName_of_isWordRun hname, hassigned, filter_isWordRun_withReturns]

end Binding

/-- The page of a text shows the same with other line ends. -/
theorem Document.lowered_withReturns {t : Text} (h : '\r' ∉ t) (url a b : Text) :
    (ofText t url a).Lowered 0 (ofText t.withReturns url b) := by
  have hlines := Text.lines_withReturns h
  have hzero : CodeLine.lowered 0 = id := by
    funext l
    simp [CodeLine.lowered]
  refine ⟨rfl, ?_, ⟨[], by simp, ?_⟩, ?_, ?_⟩
  · unfold imports Imports.ofText ofText
    dsimp only
    rw [hlines]
  · unfold ofText CodeLine.ofText
    dsimp only
    rw [hlines, hzero, List.map_id, List.nil_append]
  · intro l hl
    obtain ⟨before, -, -, hnumber⟩ := CodeLine.exists_of_mem_numberedFrom hl
    omega
  · exact fun l name hname => Binding.declaredType?_withReturns l hname t

/-- The line ends of a text do not count: its page gets the same engine, every click on it is
answered alike, and as a fetched file it moves an answer to the same line. -/
theorem Engine.resolve_withReturns {t : Text} (h : '\r' ∉ t) (url a b : Text) :
    (∀ xs s, open? xs s (.ofText t.withReturns url b) =
        (open? xs s (.ofText t url a)).map
          (Option.map (·.showing (.ofText t.withReturns url b)))) ∧
      (∀ (e : Engine) (req : Request), (e.showing (.ofText t.withReturns url b)).resolve req =
          { (e.showing (.ofText t url a)).resolve req with snapshot := some b }) ∧
      ∀ r : Resolution, r.refine t.withReturns = r.refine t := by
  refine ⟨open?_showing rfl, ?_, ?_⟩
  · intro e req
    have hpage : (e.showing (.ofText t url a)).document.Lowered 0 (.ofText t.withReturns url b) :=
      Document.lowered_withReturns h url a b
    exact (resolve_lowered hpage req).eq_of_zero
  · intro r
    unfold Resolution.refine CodeLine.ofText
    rw [Text.lines_withReturns h]

def onRun : Request := ⟨".run", ⟨["job"], ".run", ["(", ")"], none, none⟩, none⟩

/-- The assignment that tells the type starts inside of an empty line. -/
theorem Engine.resolve_withReturns_run :
    '\r' ∉ assigningEngine.document.text ∧
      assigningEngine.document.text.withReturns =
        "start()\r\n\r\n  job = Foo()\r\njob.run()\r\n".toList ∧
      ((assigningEngine.showing (.ofText "start()\r\n\r\n  job = Foo()\r\njob.run()\r\n"
        assigningEngine.document.url "later")).resolve onRun).target =
          ⟨some "https://github.com/o/r/blob/main/Foo.kt#L1".toList, true⟩ := by
  have hnone : '\r' ∉ assigningEngine.document.text := by decide
  have htext : assigningEngine.document.text.withReturns =
      "start()\r\n\r\n  job = Foo()\r\njob.run()\r\n".toList := by decide
  have htarget : (assigningEngine.resolve onRun).target =
      ⟨some "https://github.com/o/r/blob/main/Foo.kt#L1".toList, true⟩ := by decide +kernel
  obtain ⟨-, hclick, -⟩ :=
    Engine.resolve_withReturns hnone assigningEngine.document.url "now" "later"
  rw [htext] at hclick
  refine ⟨hnone, htext, ?_⟩
  rw [hclick]
  exact htarget

end CodeNav
