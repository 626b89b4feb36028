import CodeNav.Proofs.Lookup

/-!
Matching on one line of a text. A pattern that looks no further than the characters it passes
(`Pattern.IsLocal`) finds on the line alone what it finds in the whole text, as long as that ends on
the line, and it keeps the same (`Pattern.run_follows`).
-/

namespace CodeNav

theorem isBlank_of_isLineEnd {c : Char} (h : isLineEnd c) : isBlank c := by
  have hmem : c.toNat ∈ [10, 13, 11, 12, 28, 29, 30, 133, 8232, 8233] := by
    simp only [isLineEnd, Bool.or_eq_true, Bool.and_eq_true, decide_eq_true_eq] at h
    rcases h with ((((((rfl | rfl) | h) | h) | ⟨h, h'⟩) | h) | h) | h
    · decide
    · decide
    all_goals
      simp only [List.mem_cons, List.not_mem_nil, or_false]
      omega
  have hall : ∀ n ∈ [10, 13, 11, 12, 28, 29, 30, 133, 8232, 8233], withinSpans blankSpans n := by
    decide
  exact hall c.toNat hmem

theorem isWord_of_isLineEnd {c : Char} (h : isLineEnd c) : isWord c = false := by
  by_contra hword
  have hblank := isBlank_of_isWord (Bool.not_eq_false _ ▸ hword)
  rw [isBlank_of_isLineEnd h] at hblank
  cases hblank

namespace Text

/-- `line` is one line and stands as such between `before` and `after`. -/
structure LineBetween (before line after : Text) : Prop where
  single : ∀ c ∈ line, isLineEnd c = false
  start : ∀ c, before.getLast? = some c → isLineEnd c
  stop : ∀ c, after.head? = some c → isLineEnd c

theorem lineBetween_iff {before line after : Text} : LineBetween before line after ↔
    line.all (!isLineEnd ·) ∧ before.getLast?.all isLineEnd ∧ after.head?.all isLineEnd := by
  constructor
  · rintro ⟨hsingle, hstart, hstop⟩
    exact ⟨by simpa using hsingle, (Option.all_eq_true _ _).mpr hstart,
      (Option.all_eq_true _ _).mpr hstop⟩
  · rintro ⟨hsingle, hstart, hstop⟩
    exact ⟨by simpa using hsingle, (Option.all_eq_true _ _).mp hstart,
      (Option.all_eq_true _ _).mp hstop⟩

instance (before line after : Text) : Decidable (LineBetween before line after) :=
  decidable_of_iff _ lineBetween_iff.symm

theorem lines_cons_of_isLineEnd {c : Char} (h : isLineEnd c) {r : Text}
    (hr : c = '\r' → r.head? ≠ some '\n') : lines (c :: r) = [] :: lines r := by
  rw [lines]
  · rw [if_pos h]
  · rintro r' rfl rfl
    exact hr rfl rfl

theorem lines_feed (t : Text) : lines ('\n' :: t) = [] :: lines t :=
  lines_cons_of_isLineEnd rfl fun hreturn => by cases hreturn

theorem lines_cons {c : Char} (h : isLineEnd c = false) (r : Text) :
    lines (c :: r) = (c :: (lines r).headD []) :: (lines r).tail := by
  have hc : c ≠ '\r' := by
    rintro rfl
    cases h
  rw [lines]
  · rw [h, if_neg Bool.false_ne_true]
    cases lines r <;> rfl
  · exact fun r' hr => absurd hr hc

theorem lines_eq_nil {t : Text} (h : t.lines = []) : t = [] := by
  cases t with
  | nil => rfl
  | cons c r =>
    unfold lines at h
    split at h
    · rename_i heq
      cases heq
    · cases h
    · split at h
      · cases h
      · split at h <;> cases h

/-- The text has this line, and these lines before it. -/
def LineOf (t : Text) (pre : List Text) (line : Text) : Prop :=
  ∃ before after, t = before ++ line ++ after ∧ LineBetween before line after ∧ before.lines = pre

/-- Behind the end `w` of an empty line the lines of the rest follow. -/
theorem lineOf_append {w r line : Text} {pre post : List Text}
    (hstart : w.head?.any isLineEnd) (hend : w.getLast?.any isLineEnd)
    (hlines : ∀ r', r' <+: r → lines (w ++ r') = [] :: lines r')
    (ih : ∀ {pre : List Text}, lines r = pre ++ line :: post → LineOf r pre line)
    (h : lines (w ++ r) = pre ++ line :: post) : LineOf (w ++ r) pre line := by
  rw [hlines r List.prefix_rfl] at h
  cases pre with
  | nil =>
    obtain ⟨rfl, -⟩ := List.cons.inj h
    refine ⟨[], w ++ r, rfl, ⟨by simp, by simp, fun c hc => ?_⟩, rfl⟩
    cases w with
    | nil => cases hstart
    | cons d w =>
      obtain rfl := Option.some.inj hc
      exact hstart
  | cons x pre =>
    rw [List.cons_append] at h
    obtain ⟨hx, hrest⟩ := List.cons.inj h
    obtain ⟨before, after, rfl, hline, rfl⟩ := ih hrest
    refine ⟨w ++ before, after, by simp, ⟨hline.single, fun c hc => ?_, hline.stop⟩, ?_⟩
    · rw [List.getLast?_append] at hc
      rcases Option.or_eq_some_iff.mp hc with hc | ⟨-, hc⟩
      · exact hline.start c hc
      · rw [hc] at hend
        exact hend
    · rw [← hx]
      exact hlines before ((List.prefix_append _ _).trans (List.prefix_append _ _))

/-- Every line of a text stands as such behind the lines before it. -/
theorem lineOf_of_lines_eq {t line : Text} {pre post : List Text}
    (h : t.lines = pre ++ line :: post) : LineOf t pre line := by
  -- By the recursion of `lines`: line ends of two characters and of one, the last character of the
  -- text, and any other character of a line.
  induction t using lines.induct generalizing pre line post with
  | case1 => cases pre <;> cases h
  | case2 r ih => exact lineOf_append (w := ['\r', '\n']) rfl rfl (fun _ _ => rfl) ih h
  | case3 c r hno hend ih =>
    refine lineOf_append (w := [c]) (by simpa using hend) (by simpa using hend) ?_ ih h
    intro r' hr
    apply lines_cons_of_isLineEnd hend
    rintro rfl hfeed
    obtain ⟨s, rfl⟩ := List.head?_eq_some_iff.mp hfeed
    obtain ⟨u, rfl⟩ := hr
    exact hno _ rfl rfl
  | case4 c r hno hend hnil ih =>
    have hend : isLineEnd c = false := by simpa using hend
    obtain rfl := lines_eq_nil hnil
    rw [lines_cons hend] at h
    cases pre with
    | nil =>
      obtain ⟨rfl, -⟩ := List.cons.inj h
      exact ⟨[], [], rfl, ⟨by simpa [lines] using hend, by simp, by simp⟩, rfl⟩
    | cons x pre =>
      obtain ⟨-, hrest⟩ := List.cons.inj h
      cases pre <;> cases hrest
  | case5 c r hno hend l ls hcons ih =>
    have hend : isLineEnd c = false := by simpa using hend
    rw [lines_cons hend, hcons] at h
    cases pre with
    | nil =>
      obtain ⟨rfl, -⟩ := List.cons.inj h
      obtain ⟨before, after, hr, hline, hnone⟩ :=
        ih (show lines r = [] ++ l :: ls from hcons)
      obtain rfl := lines_eq_nil hnone
      refine ⟨[], after, by rw [hr]; rfl, ⟨?_, by simp, hline.stop⟩, rfl⟩
      intro d hd
      rcases List.mem_cons.mp hd with rfl | hd
      · exact hend
      · exact hline.single d hd
    | cons x pre =>
      rw [List.cons_append] at h
      obtain ⟨rfl, rfl⟩ := List.cons.inj h
      obtain ⟨before, after, hr, hline, hbefore⟩ :=
        ih (show lines r = (l :: pre) ++ line :: post from hcons)
      refine ⟨c :: before, after, by rw [hr]; rfl, ⟨hline.single, ?_, hline.stop⟩, ?_⟩
      · cases before with
        | nil => cases hbefore
        | cons d b =>
          rw [List.getLast?_cons_cons]
          exact hline.start
      · rw [lines_cons hend, hbefore]
        rfl

end Text

namespace Pattern

/-- A place of the text, and the same place when the line is taken alone. Behind the line stands
`after`; in the text `shift` more characters were passed, and on the line `total` are passed by its
end. -/
structure Place.Mirrors (after : Text) (shift total : Nat) (q q' : Place) : Prop where
  rest : q.rest = q'.rest ++ after
  passed : q.passed = q'.passed + shift
  captured : q.captured = q'.captured
  previous : q.previous = q'.previous ∨
    q'.previous = none ∧ ∀ c, q.previous = some c → isLineEnd c
  total : q'.passed + q'.rest.length = total

def Place.Beyond (after : Text) (q : Place) : Prop := q.rest.length < after.length

/-- What comes of the line alone when this comes of the text: nothing of nothing, and the same place
of a place that is not beyond the line. -/
def Follows (after : Text) (shift total : Nat) (o o' : Option Place) : Prop :=
  match o with
  | none => o' = none
  | some e => ¬e.Beyond after → ∃ e', o' = some e' ∧ e.Mirrors after shift total e'

structure Continues (after : Text) (shift total : Nat) (k k' : Continue) : Prop where
  follows : ∀ e e', e.Mirrors after shift total e' → Follows after shift total (k e) (k' e')
  beyond : ∀ e x, e.Beyond after → k e = some x → x.Beyond after

variable {after : Text} {shift total : Nat}

theorem continues_some : Continues after shift total some some :=
  ⟨fun _ e' he _ => ⟨e', rfl, he⟩, fun _ _ he hx => Option.some.inj hx ▸ he⟩

theorem Follows.of_beyond {o o' : Option Place} (hnone : o = none → o' = none)
    (hsome : ∀ e, o = some e → e.Beyond after) : Follows after shift total o o' := by
  cases o with
  | none => exact hnone rfl
  | some e => exact fun hnot => absurd (hsome e rfl) hnot

theorem Follows.firstOf {a a' b b' : Option Place} : Follows after shift total a a' →
    Follows after shift total b b' →
    Follows after shift total (match a with | some e => some e | none => b)
      (match a' with | some e => some e | none => b') := by
  intro ha hb
  cases a with
  | none =>
    obtain rfl : a' = none := ha
    exact hb
  | some e =>
    intro hnot
    obtain ⟨e', rfl, he⟩ := ha hnot
    exact ⟨e', rfl, he⟩

theorem Follows.findSome? {f f' : Text → Option Place} (ts : List Text)
    (h : ∀ t, Follows after shift total (f t) (f' t)) :
    Follows after shift total (ts.findSome? f) (ts.findSome? f') := by
  induction ts with
  | nil => rfl
  | cons t ts ih =>
    have hfirst := h t
    simp only [List.findSome?_cons]
    cases hf : f t with
    | none =>
      rw [hf] at hfirst
      rw [show f' t = none from hfirst]
      exact ih
    | some e =>
      rw [hf] at hfirst
      intro hnot
      obtain ⟨e', he', hmirrors⟩ := hfirst hnot
      exact ⟨e', by rw [he'], hmirrors⟩

namespace Place

theorem Spans.beyond {q e : Place} {w : Text} (h : q.Spans w e) (hq : q.Beyond after) :
    e.Beyond after := by
  have hrest := congrArg List.length h.rest
  rw [List.length_append] at hrest
  unfold Beyond at hq ⊢
  omega

/-- Passing anything at the end of the line leads beyond it. -/
theorem Spans.beyond_of_ne_nil {q q' e : Place} {w : Text} (h : q.Spans w e)
    (hq : q.Mirrors after shift total q') (hend : q'.rest = []) (hw : w ≠ []) :
    e.Beyond after := by
  have hrest := congrArg List.length (hq.rest.symm.trans h.rest)
  have hlen := List.length_pos_of_ne_nil hw
  rw [hend, List.nil_append, List.length_append] at hrest
  unfold Beyond
  omega

theorem Mirrors.step {q q' : Place} (h : q.Mirrors after shift total q') {c : Char} {r : Text}
    (hr : q'.rest = c :: r) :
    (q.movedTo (some c) (r ++ after) (q.passed + 1)).Mirrors after shift total
      (q'.movedTo (some c) r (q'.passed + 1)) := by
  have hpassed := h.passed
  have htotal := h.total
  rw [hr, List.length_cons] at htotal
  refine ⟨rfl, ?_, h.captured, .inl rfl, ?_⟩
  · dsimp only [movedTo]
    omega
  · dsimp only [movedTo]
    omega

/-- A step leads to the same place in the text and on the line, or it fails on the line and leads
beyond it in the text. -/
def StepFollows (after : Text) (shift total : Nat) (a a' : Option Place) : Prop :=
  (∃ e e', a = some e ∧ a' = some e' ∧ e.Mirrors after shift total e') ∨
    a' = none ∧ ∀ e, a = some e → e.Beyond after

theorem after?_follows {q q' : Place} (h : q.Mirrors after shift total q') (t : Text) :
    StepFollows after shift total (q.after? t) (q'.after? t) := by
  induction t generalizing q q' with
  | nil => exact .inl ⟨q, q', rfl, rfl, h⟩
  | cons c t ih =>
    cases hr : q'.rest with
    | nil =>
      refine .inr ⟨by simp only [after?, hr], fun e he => ?_⟩
      exact (spans_of_after? he).beyond_of_ne_nil h hr (List.cons_ne_nil c t)
    | cons d r =>
      have hrest : q.rest = d :: (r ++ after) := by rw [h.rest, hr, List.cons_append]
      by_cases hc : c = d
      · simp only [after?, hr, hrest, if_pos hc]
        exact ih (h.step hr)
      · simp only [after?, hr, hrest, if_neg hc]
        exact .inr ⟨rfl, fun e he => by cases he⟩

theorem afterOne?_follows {q q' : Place} (h : q.Mirrors after shift total q') (s : CharClass) :
    StepFollows after shift total (q.afterOne? s) (q'.afterOne? s) := by
  cases hr : q'.rest with
  | nil =>
    refine .inr ⟨by simp only [afterOne?, hr], fun e he => ?_⟩
    obtain ⟨c, -, hspan⟩ := spans_of_afterOne? he
    exact hspan.beyond_of_ne_nil h hr (List.cons_ne_nil c [])
  | cons d r =>
    have hrest : q.rest = d :: (r ++ after) := by rw [h.rest, hr, List.cons_append]
    by_cases hd : s.holds d
    · simp only [afterOne?, hr, hrest, if_pos hd]
      exact .inl ⟨_, _, rfl, rfl, h.step hr⟩
    · simp only [afterOne?, hr, hrest, if_neg hd]
      exact .inr ⟨rfl, fun e he => by cases he⟩

/-- Characters that end no line cannot tell what stands before the line. -/
theorem Mirrors.any_previous {q q' : Place} (h : q.Mirrors after shift total q')
    {f : Char → Bool} (hf : ∀ c, isLineEnd c → f c = false) :
    q.previous.any f = q'.previous.any f := by
  rcases h.previous with heq | ⟨hnone, hend⟩
  · rw [heq]
  · rw [hnone]
    cases hc : q.previous with
    | none => rfl
    | some c => simpa using hf c (hend c hc)

theorem Mirrors.isWordEdge {q q' : Place} (h : q.Mirrors after shift total q')
    (hafter : ∀ c, after.head? = some c → isLineEnd c) : q.isWordEdge = q'.isWordEdge := by
  have hnext : q.rest.head?.any isWord = q'.rest.head?.any isWord := by
    rw [h.rest]
    cases q'.rest with
    | cons d r => rfl
    | nil =>
      cases hc : after with
      | nil => rfl
      | cons c a => simpa using isWord_of_isLineEnd (hafter c (by rw [hc]; rfl))
  unfold Place.isWordEdge
  rw [h.any_previous fun c hc => isWord_of_isLineEnd hc, hnext]

end Place

variable {k k' : Continue}

theorem Continues.bind (hk : Continues after shift total k k') {a a' : Option Place}
    (h : Place.StepFollows after shift total a a') :
    Follows after shift total (a.bind k) (a'.bind k') := by
  rcases h with ⟨e, e', rfl, rfl, he⟩ | ⟨rfl, hbeyond⟩
  · exact hk.follows e e' he
  · apply Follows.of_beyond
    · exact fun _ => rfl
    · intro x hx
      obtain ⟨e, he, hke⟩ := Option.bind_eq_some_iff.mp hx
      exact hk.beyond e x (hbeyond e he) hke

/-- What a pattern finds behind the line lies behind it. -/
theorem run_beyond (p : Pattern) (hk : Continues after shift total k k') {q x : Place}
    (hq : q.Beyond after) (h : p.run k q = some x) : x.Beyond after := by
  obtain ⟨e, he, hke⟩ := p.run_decides.sound h
  obtain ⟨w, hspan, -⟩ := he.spans
  exact hk.beyond e x (hspan.beyond hq) hke

theorem runMany_follows (hk : Continues after shift total k k') (s : CharClass) {q q' : Place}
    {b b' : Option Char} {r : Text} {m n : Nat}
    (h : (q.movedTo b (r ++ after) m).Mirrors after shift total (q'.movedTo b' r n)) :
    Follows after shift total (runMany s k q b (r ++ after) m) (runMany s k' q' b' r n) := by
  induction r generalizing b b' m n with
  | nil =>
    have hhere := hk.follows _ _ h
    cases after with
    | nil => exact hhere
    | cons c a =>
      dsimp only [List.nil_append] at hhere ⊢
      unfold runMany
      split
      · -- The first character behind the line has been passed.
        cases hmore : runMany s k q (some c) a (m + 1) with
        | none => exact hhere
        | some x =>
          obtain ⟨e, he, hke⟩ := runMany_sound hmore
          obtain ⟨w, hspan, -⟩ := spans_of_run he
          have hbeyond : (q.movedTo (some c) a (m + 1)).Beyond (c :: a) := Nat.lt_succ_self _
          have hx := hk.beyond e x (hspan.beyond hbeyond) hke
          exact Follows.of_beyond (fun h => by cases h) (fun e he => Option.some.inj he ▸ hx)
      · exact hhere
  | cons c r ih =>
    have hhere := hk.follows _ _ h
    have hnext := ih (h.step rfl)
    simp only [List.cons_append, runMany]
    split
    · exact Follows.firstOf hnext hhere
    · exact hhere

theorem run_many_follows (hk : Continues after shift total k k') (s : CharClass) {q q' : Place}
    (h : q.Mirrors after shift total q') :
    Follows after shift total ((many s).run k q) ((many s).run k' q') := by
  unfold run
  rw [h.rest]
  exact runMany_follows hk s ⟨rfl, h.passed, h.captured, h.previous, h.total⟩

theorem continues_run (p : Pattern) (hk : Continues after shift total k k')
    (hrun : ∀ {q q' : Place}, q.Mirrors after shift total q' →
      Follows after shift total (p.run k q) (p.run k' q')) :
    Continues after shift total (p.run k) (p.run k') :=
  ⟨fun _ _ h => hrun h, fun _ _ he hx => p.run_beyond hk he hx⟩

/-- The text that is kept on the line is the same, since it ends on the line. -/
theorem Continues.capture (hk : Continues after shift total k k') (name : Text) {q q' : Place}
    (h : q.Mirrors after shift total q') : Continues after shift total
      (fun e => k { e with captured := (name, q.rest.take (e.passed - q.passed)) :: e.captured })
      (fun e => k' { e with
        captured := (name, q'.rest.take (e.passed - q'.passed)) :: e.captured }) := by
  constructor
  · intro e e' he
    have hlen : e.passed - q.passed = e'.passed - q'.passed := by
      have hq := h.passed
      have he := he.passed
      omega
    have hin : e'.passed - q'.passed ≤ q'.rest.length := by
      have hq := h.total
      have he := he.total
      omega
    have htake : q.rest.take (e.passed - q.passed) = q'.rest.take (e'.passed - q'.passed) := by
      rw [h.rest, hlen, List.take_append_of_le_length hin]
    refine hk.follows _ _ ⟨he.rest, he.passed, ?_, he.previous, he.total⟩
    dsimp only
    rw [htake, he.captured]
  · intro e x he hx
    refine hk.beyond _ x ?_ hx
    exact he

/-- What leads beyond the line passes the character behind it. -/
theorem Place.Spans.mem_of_beyond {q q' e : Place} {w : Text} (h : q.Spans w e)
    (hq : q.Mirrors after shift total q') (he : e.Beyond after) :
    ∃ c, after.head? = some c ∧ c ∈ w := by
  unfold Beyond at he
  rcases List.append_eq_append_iff.mp (hq.rest.symm.trans h.rest) with
    ⟨u, hw, hafter⟩ | ⟨u, -, hrest⟩
  · cases u with
    | nil =>
      rw [hafter, List.nil_append] at he
      omega
    | cons c u => exact ⟨c, by rw [hafter]; rfl, by rw [hw]; simp⟩
  · rw [hrest, List.length_append] at he
    omega

/-- The pattern looks no further than the characters it passes. It does not ask where a line starts,
and what it must not stand before or after ends no line. Of the ways to repeat it has only those
that take as many characters as possible. -/
def IsLocal : Pattern → Prop
  | chars _ | words _ | one _ | many _ | several _ | wordEdge => True
  | seq p r => p.IsLocal ∧ r.IsLocal
  | optional p | group p | capture _ p => p.IsLocal
  | notAhead p => p.IsLocal ∧ ∀ c, isLineEnd c → ¬p.reads c
  | notAfter s => ∀ c, isLineEnd c → s.holds c = false
  | fewest _ | repeated _ | lineStart => False

/-- On the line alone a local pattern finds what it finds in the text, as long as that ends on the
line, and nothing where it finds nothing. -/
theorem run_follows {p : Pattern} (hp : p.IsLocal)
    (hafter : ∀ c, after.head? = some c → isLineEnd c) (hk : Continues after shift total k k')
    {q q' : Place} (h : q.Mirrors after shift total q') :
    Follows after shift total (p.run k q) (p.run k' q') := by
  induction p generalizing k k' q q' with
  | chars t => exact hk.bind (Place.after?_follows h t)
  | words ts => exact Follows.findSome? ts fun t => hk.bind (Place.after?_follows h t)
  | one s => exact hk.bind (Place.afterOne?_follows h s)
  | many s => exact run_many_follows hk s h
  | several s =>
    exact (continues_run (.many s) hk (run_many_follows hk s)).bind (Place.afterOne?_follows h s)
  | seq p r ihp ihr => exact ihp hp.1 (continues_run r hk (ihr hp.2 hk)) h
  | optional p ih => exact Follows.firstOf (ih hp hk h) (hk.follows q q' h)
  | group p ih => exact ih hp hk h
  | capture name p ih => exact ih hp (hk.capture name h) h
  | notAhead p ih =>
    have hahead := ih hp.1 continues_some h
    unfold run
    cases hrun : p.run some q with
    | none =>
      rw [hrun] at hahead
      rw [show p.run some q' = none from hahead]
      exact hk.follows q q' h
    | some x =>
      rw [hrun] at hahead
      have hnot : ¬x.Beyond after := by
        intro hbeyond
        obtain ⟨e, he, hex⟩ := p.run_decides.sound hrun
        obtain ⟨w, hspan, hreads⟩ := he.spans
        obtain ⟨c, hc, hmem⟩ := (Option.some.inj hex ▸ hspan).mem_of_beyond h hbeyond
        exact hp.2 c (hafter c hc) (hreads c hmem)
      obtain ⟨x', hx', -⟩ := hahead hnot
      rw [hx']
      rfl
  | notAfter s =>
    unfold run
    rw [h.any_previous hp]
    split
    · rfl
    · exact hk.follows q q' h
  | wordEdge =>
    unfold run
    rw [h.isWordEdge hafter]
    split
    · exact hk.follows q q' h
    · rfl
  | fewest s => exact hp.elim
  | repeated p => exact hp.elim
  | lineStart => exact hp.elim

end Pattern

end CodeNav
