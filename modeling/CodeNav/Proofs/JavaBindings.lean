import CodeNav.Proofs.MethodLines

/-!
What a variable is bound to in Java. The text is searched for the creation of an object and then for
a type before the name, and of several places the first one counts. So the type is known exactly
(`Binding.assignedFrom?_java_iff`), and it is a keyword where a statement reads like a declaration
and its keyword is not refused (`Binding.declaredType?_java_iff`).
-/

namespace CodeNav

open Text (eq_of_span eq_of_span_cons)

namespace Pattern

variable {p : Pattern} {b : Option Char} {t : Text} {m : Place}

theorem exists_first_of_searchFrom? (h : p.searchFrom? b t = some m) : ∃ before rest,
    t = before ++ rest ∧ p.run some { previous := before.getLast?.or b, rest } = some m ∧
      ∀ before' rest', t = before' ++ rest' → before'.length < before.length →
        p.run some { previous := before'.getLast?.or b, rest := rest' } = none := by
  induction t generalizing b with
  | nil => exact ⟨[], [], rfl, h, fun _ _ _ hlen => absurd hlen (Nat.not_lt_zero _)⟩
  | cons c t ih =>
    rw [searchFrom?_cons] at h
    cases hrun : p.run some { previous := b, rest := c :: t } with
    | some e =>
      rw [hrun] at h
      refine ⟨[], c :: t, rfl, ?_, fun _ _ _ hlen => absurd hlen (Nat.not_lt_zero _)⟩
      exact hrun.trans h
    | none =>
      rw [hrun] at h
      obtain ⟨before, rest, rfl, hfound, hfirst⟩ := ih h
      refine ⟨c :: before, rest, rfl, by rwa [getLast?_cons_or], fun before' rest' heq hlen => ?_⟩
      cases before' with
      | nil =>
        obtain rfl := heq
        exact hrun
      | cons d before' =>
        obtain ⟨rfl, htail⟩ := List.cons.inj heq
        rw [getLast?_cons_or]
        exact hfirst before' rest' htail (Nat.lt_of_succ_lt_succ hlen)

theorem searchFrom?_eq_none_iff : p.searchFrom? b t = none ↔ ∀ before rest, t = before ++ rest →
    p.run some { previous := before.getLast?.or b, rest } = none := by
  induction t generalizing b with
  | nil =>
    refine ⟨fun h before rest heq => ?_, fun h => h [] [] rfl⟩
    obtain ⟨rfl, rfl⟩ := List.append_eq_nil_iff.mp heq.symm
    exact h
  | cons c t ih =>
    rw [searchFrom?_cons]
    constructor
    · intro h before rest heq
      cases hrun : p.run some { previous := b, rest := c :: t } with
      | some e => simp [hrun] at h
      | none =>
        rw [hrun] at h
        cases before with
        | nil =>
          obtain rfl := heq
          exact hrun
        | cons d before =>
          obtain ⟨rfl, htail⟩ := List.cons.inj heq
          rw [getLast?_cons_or]
          exact ih.mp h before rest htail
    · intro h
      rw [show p.run some { previous := b, rest := c :: t } = none from h [] (c :: t) rfl]
      refine ih.mpr fun before rest heq => ?_
      rw [← getLast?_cons_or]
      exact h (c :: before) rest (by rw [heq]; rfl)

/-- Where in a text the pattern matches, by what stands before the place, and the type that it keeps
there. -/
structure Finds (p : Pattern) (t : Text) (At : Text → Text → Prop) : Prop where
  sound : ∀ {before rest m}, t = before ++ rest →
    p.run some { previous := before.getLast?, rest } = some m →
      ∃ type, At before type ∧ m.text? "type" = some type
  complete : ∀ {before type}, At before type → ∃ rest, t = before ++ rest ∧
    (p.run some { previous := before.getLast?, rest }).isSome
  unique : ∀ {before type type'}, At before type → At before type' → type = type'

def IsFirst (At : Text → Text → Prop) (type : Text) : Prop :=
  ∃ before, At before type ∧ ∀ before' type', At before' type' → before.length ≤ before'.length

namespace Finds

variable {At : Text → Text → Prop}

theorem search?_eq_none_iff (h : p.Finds t At) :
    p.search? t = none ↔ ∀ before type, ¬At before type := by
  rw [search?, searchFrom?_eq_none_iff]
  simp only [Option.or_none]
  constructor
  · intro hnone before type hat
    obtain ⟨rest, heq, hsome⟩ := h.complete hat
    simp [hnone before rest heq] at hsome
  · intro hnot before rest heq
    by_contra hsome
    obtain ⟨m, hm⟩ := Option.ne_none_iff_exists'.mp hsome
    obtain ⟨type, hat, -⟩ := h.sound heq hm
    exact hnot before type hat

theorem isFirst_of_search? (h : p.Finds t At) (hm : p.search? t = some m) :
    ∃ type, IsFirst At type ∧ m.text? "type" = some type := by
  obtain ⟨before, rest, heq, hrun, hfirst⟩ := exists_first_of_searchFrom? hm
  simp only [Option.or_none] at hrun hfirst
  obtain ⟨type, hat, htype⟩ := h.sound heq hrun
  refine ⟨type, ⟨before, hat, fun before' type' hat' => ?_⟩, htype⟩
  obtain ⟨rest', heq', hsome⟩ := h.complete hat'
  by_contra hlen
  simp [hfirst before' rest' heq' (Nat.lt_of_not_ge hlen)] at hsome

theorem isFirst_unique (h : p.Finds t At) {type type' : Text} (htype : IsFirst At type)
    (htype' : IsFirst At type') : type = type' := by
  obtain ⟨before, hat, hfirst⟩ := htype
  obtain ⟨before', hat', hfirst'⟩ := htype'
  obtain ⟨rest, heq, -⟩ := h.complete hat
  obtain ⟨rest', heq', -⟩ := h.complete hat'
  have hlen : before.length = before'.length :=
    Nat.le_antisymm (hfirst _ _ hat') (hfirst' _ _ hat)
  obtain ⟨rfl, -⟩ := List.append_inj (heq.symm.trans heq') hlen
  exact h.unique hat hat'

/-- A search keeps the type at the first place. -/
theorem search?_map_eq_some_iff (h : p.Finds t At) {type : Text} :
    (p.search? t).map (fun m => (m.text? "type").getD []) = some type ↔ IsFirst At type := by
  constructor
  · intro hsearch
    obtain ⟨m, hm, rfl⟩ := Option.map_eq_some_iff.mp hsearch
    obtain ⟨type, hfirst, htype⟩ := h.isFirst_of_search? hm
    rwa [htype]
  · intro hfirst
    have hsome : p.search? t ≠ none := fun hnone => by
      obtain ⟨before, hat, -⟩ := hfirst
      exact h.search?_eq_none_iff.mp hnone before type hat
    obtain ⟨m, hm⟩ := Option.ne_none_iff_exists'.mp hsome
    obtain ⟨type', hfirst', htype'⟩ := h.isFirst_of_search? hm
    rw [hm, Option.map_some, htype', h.isFirst_unique hfirst hfirst']
    rfl

end Finds

/-- Where the rest succeeds everywhere, as many characters of the class as possible are passed. -/
theorem runMany_of_isSome {s : CharClass} {k : Continue} (hk : ∀ e, (k e).isSome) {q : Place}
    {w r : Text} (hw : ∀ c ∈ w, s.holds c) (hr : r.head?.any s.holds = false) (n : Nat) :
    runMany s k q b (w ++ r) n = k (q.movedTo (w.getLast?.or b) r (n + w.length)) := by
  induction w generalizing b n with
  | nil =>
    cases r with
    | nil => rfl
    | cons c r =>
      rw [List.nil_append, runMany, if_neg (by simpa using hr)]
      rfl
  | cons c w ih =>
    obtain ⟨hc, hw⟩ := List.forall_mem_cons.mp hw
    obtain ⟨x, hx⟩ := Option.isSome_iff_exists.mp
      (hk (q.movedTo (w.getLast?.or (some c)) r (n + (w.length + 1))))
    rw [List.cons_append, runMany, if_pos hc, ih hw, getLast?_cons_or, List.length_cons,
      Nat.add_assoc n 1, Nat.add_comm 1, hx]

end Pattern

namespace Language

open Pattern

def nameChars : CharClass := .oneOf [.word, .char '.']

theorem holds_nameChars {c : Char} : nameChars.holds c ↔ isWord c ∨ c = '.' := by
  simp [nameChars, CharClass.holds, ClassItem.holds]

theorem isDotted_iff {t : Text} : IsDotted t ↔ t ≠ [] ∧ ∀ c ∈ t, nameChars.holds c :=
  ⟨fun h => ⟨h.ne_nil, fun c hc => holds_nameChars.mpr (h.mem c hc)⟩,
    fun h => ⟨h.1, fun c hc => holds_nameChars.mp (h.2 c hc)⟩⟩

theorem head?_append_of_isDotted {type after : Text} (h : IsDotted type) :
    (type ++ after).head?.any CodeNav.isBlank = false := by
  obtain ⟨c, w, rfl⟩ := List.exists_cons_of_ne_nil h.ne_nil
  have hc : isBlank c = false := by
    rcases h.mem c List.mem_cons_self with hc | rfl
    · exact isBlank_of_isWord hc
    · decide
  exact hc

/-- Behind `before` an object is created and assigned to the name; `type` is all that is written of
its type up to the first character that is neither a dot nor part of a word. -/
inductive CreatedAt (name t before type : Text) : Prop where
  | mk {gap gap' gap'' after : Text}
      (heq : t = before ++ (name ++ gap ++ "=" ++ gap' ++ "new" ++ gap'' ++ type) ++ after)
      (hbefore : before.getLast?.any isWord = false) (hgap : Text.isBlank gap)
      (hgap' : Text.isBlank gap') (hgap'' : IsGap gap'') (htype : IsDotted type)
      (hafter : after.head?.any nameChars.holds = false)

/-- The arguments of a type, in brackets, or nothing. -/
inductive TypeArguments : Text → Prop where
  | absent : TypeArguments []
  | given {t : Text} (h : ∀ c ∈ t, c ∉ ['=', ';', '(', ')']) : TypeArguments ("<" ++ t ++ ">")

/-- Behind `before` the name stands behind a type, as it does in its declaration. -/
inductive TypedAt (name t before type : Text) : Prop where
  | mk {arguments gap gap' after : Text} {sign : Char}
      (heq : t = before ++ (type ++ arguments ++ gap ++ name ++ gap' ++ [sign]) ++ after)
      (hbefore : before.getLast?.any nameChars.holds = false) (htype : IsDotted type)
      (harguments : TypeArguments arguments) (hgap : IsGap gap) (hgap' : Text.isBlank gap')
      (hsign : sign = '=' ∨ sign = ';')

structure DeclaredAt (name t before type : Text) : Prop where
  typed : TypedAt name t before type
  free : KeywordFree type

theorem readsAt_dottedName_iff {b : Option Char} {w rest : Text} {kept : List (Text × Text)} :
    dottedName.ReadsAt b w rest kept ↔ IsDotted w ∧ kept = [("type".toList, w)] := by
  rw [isDotted_iff]
  constructor
  · rintro ⟨_, ⟨hne, hw, rfl⟩, rfl⟩
    exact ⟨⟨hne, hw⟩, rfl⟩
  · rintro ⟨⟨hne, hw⟩, rfl⟩
    exact ⟨[], ⟨hne, hw, rfl⟩, rfl⟩

/-- At the end of a pattern a name is read as a whole. -/
theorem run_dottedName {q : Place} {type after : Text} (htype : IsDotted type)
    (hafter : after.head?.any nameChars.holds = false) (hq : q.rest = type ++ after) :
    dottedName.run some q = some (q.behind type after [("type".toList, type)]) := by
  obtain ⟨hne, hholds⟩ := isDotted_iff.mp htype
  obtain ⟨c, w, rfl⟩ := List.exists_cons_of_ne_nil hne
  obtain ⟨hc, hw⟩ := List.forall_mem_cons.mp hholds
  have hone : q.afterOne? nameChars = some (q.behind [c] (w ++ after) []) :=
    Place.afterOne?_eq_some_iff.mpr ⟨c, w ++ after, hc, hq, rfl⟩
  change (q.afterOne? nameChars).bind _ = _
  rw [hone, Option.bind_some, Place.rest_behind]
  refine (runMany_of_isSome (s := nameChars) (fun _ => rfl) hw hafter _).trans ?_
  have hpassed : q.passed + 1 + w.length = q.passed + (c :: w).length := by
    rw [List.length_cons]
    omega
  simp [Place.behind, Place.movedTo, hq, hpassed, List.getLast?_cons]

/-- Where a name is read, a whole one is. -/
theorem exists_of_run_dottedName {q m : Place} (h : dottedName.run some q = some m) :
    ∃ type after, IsDotted type ∧ after.head?.any nameChars.holds = false ∧
      q.rest = type ++ after ∧ m.text? "type" = some type := by
  obtain ⟨w, rest, kept, hread, hrest, -⟩ := exists_readsAt_of_run h
  obtain ⟨hne, hholds⟩ := isDotted_iff.mp (readsAt_dottedName_iff.mp hread).1
  have hsplit := List.takeWhile_append_dropWhile (p := nameChars.holds) (l := q.rest)
  have htype : IsDotted (q.rest.takeWhile nameChars.holds) := by
    refine isDotted_iff.mpr ⟨?_, fun c hc => List.mem_takeWhile_imp hc⟩
    rw [hrest, List.takeWhile_append_of_pos hholds]
    simp [hne]
  have hafter : (q.rest.dropWhile nameChars.holds).head?.any nameChars.holds = false := by
    have hhead := List.head?_dropWhile_not nameChars.holds q.rest
    cases hd : (q.rest.dropWhile nameChars.holds).head? with
    | none => rfl
    | some c => simpa [hd] using hhead
  rw [run_dottedName htype hafter hsplit.symm] at h
  obtain rfl := Option.some.inj h
  exact ⟨_, _, htype, hafter, hsplit.symm, by simp [Place.text?, Place.behind]⟩

variable {name t : Text}

def creationFront (name : Text) : Pattern :=
  .wordEdge ++ .chars name ++ .many .blank ++ "=" ++ .many .blank ++ "new" ++ .several .blank

def argumentsPattern : Pattern :=
  .optional (.group ("<" ++ .many (.noneOf [.char '=', .char ';', .char '(', .char ')']) ++ ">"))

def typedName (name : Text) : Pattern :=
  dottedName ++ argumentsPattern ++ .several .blank ++ .chars name ++ .many .blank ++
    .one (.oneOf [.char '=', .char ';'])

theorem readsAt_creationFront_iff (hname : isWordRun name) {b : Option Char} {w rest : Text}
    {kept : List (Text × Text)} : (creationFront name).ReadsAt b w rest kept ↔
      b.any isWord = false ∧ kept = [] ∧ ∃ gap gap' gap'', Text.isBlank gap ∧ Text.isBlank gap' ∧
        IsGap gap'' ∧ w = name ++ gap ++ "=" ++ gap' ++ "new" ++ gap'' := by
  have hhead (x : Text) : (name ++ x).head?.any isWord := by
    rw [List.head?_append_of_ne_nil _ (ne_nil_of_isWordRun hname)]
    exact head?_of_isWordRun hname
  unfold creationFront
  simp only [readsAt_append_assoc, readsAt_wordEdge_append, readsAt_chars_append,
    readsAt_many_append]
  constructor
  · rintro ⟨hedge, _, rfl, gap, _, hgap, rfl, _, rfl, gap', _, hgap', rfl, gap'', rfl, hne, hgap'',
      rfl⟩
    rw [List.append_assoc, hhead] at hedge
    exact ⟨by simpa using hedge, rfl, gap, gap', gap'', List.all_eq_true.mpr hgap,
      List.all_eq_true.mpr hgap', isGap_iff.mpr ⟨hne, hgap''⟩, by simp⟩
  · rintro ⟨hb, rfl, gap, gap', gap'', hgap, hgap', hgap'', rfl⟩
    refine ⟨?_, _, by simp, gap, _, List.all_eq_true.mp hgap, rfl, _, rfl, gap', _,
      List.all_eq_true.mp hgap', rfl, gap'', rfl, hgap''.ne_nil, (isGap_iff.mp hgap'').2, rfl⟩
    simp only [List.append_assoc, hhead, hb]
    rfl

theorem readsAt_arguments_iff {b : Option Char} {w rest : Text} {kept : List (Text × Text)} :
    argumentsPattern.ReadsAt b w rest kept ↔ TypeArguments w ∧ kept = [] := by
  have hholds (c : Char) :
      CharClass.holds (.noneOf [.char '=', .char ';', .char '(', .char ')']) c ↔
        c ∉ ['=', ';', '(', ')'] := by
    simp [CharClass.holds, ClassItem.holds]
  rw [readsAt_iff_parses (by simp [argumentsPattern, IsPlain, isPlain_append])]
  constructor
  · rintro (⟨_, _, _, _, ⟨_, inner, _, _, ⟨rfl, rfl⟩, ⟨hinner, rfl⟩, rfl, rfl⟩, ⟨rfl, rfl⟩,
      rfl, rfl⟩ | ⟨rfl, rfl⟩)
    · exact ⟨.given fun c hc => (hholds c).mp (hinner c hc), rfl⟩
    · exact ⟨.absent, rfl⟩
  · rintro ⟨harguments, rfl⟩
    cases harguments with
    | absent => exact .inr ⟨rfl, rfl⟩
    | @given inner hinner =>
      have hparse : (many (.noneOf [.char '=', .char ';', .char '(', .char ')'])).Parses inner [] :=
        ⟨fun c hc => (hholds c).mpr (hinner c hc), rfl⟩
      exact .inl (((parses_chars "<").append hparse).append (parses_chars ">"))

theorem readsAt_typedName_iff {b : Option Char} {w rest : Text} {kept : List (Text × Text)} :
    (typedName name).ReadsAt b w rest kept ↔ ∃ type arguments gap gap' sign, IsDotted type ∧
      TypeArguments arguments ∧ IsGap gap ∧ Text.isBlank gap' ∧ (sign = '=' ∨ sign = ';') ∧
      w = type ++ arguments ++ gap ++ name ++ gap' ++ [sign] ∧ kept = [("type".toList, type)] := by
  have hholds (c : Char) :
      CharClass.holds (.oneOf [.char '=', .char ';']) c ↔ c = '=' ∨ c = ';' := by
    simp [CharClass.holds, ClassItem.holds]
  unfold typedName
  simp only [readsAt_append_assoc]
  constructor
  · rintro ⟨type, _, _, _, htype, hrest, rfl, rfl⟩
    obtain ⟨hdotted, rfl⟩ := readsAt_dottedName_iff.mp htype
    simp only [readsAt_part_append readsAt_arguments_iff, readsAt_several_append,
      readsAt_chars_append, readsAt_many_append] at hrest
    obtain ⟨arguments, _, harguments, rfl, gap, _, hgap, rfl, _, rfl, gap', _, hgap', rfl,
      ⟨sign, hsign, rfl⟩, rfl⟩ := hrest
    exact ⟨type, arguments, gap, gap', sign, hdotted, harguments, isGap_iff.mpr hgap,
      List.all_eq_true.mpr hgap', (hholds sign).mp hsign, by simp, rfl⟩
  · rintro ⟨type, arguments, gap, gap', sign, htype, harguments, hgap, hgap', hsign, rfl, rfl⟩
    refine ⟨type, arguments ++ (gap ++ (name ++ (gap' ++ [sign]))), _, [],
      readsAt_dottedName_iff.mpr ⟨htype, rfl⟩, ?_, by simp, by simp⟩
    simp only [readsAt_part_append readsAt_arguments_iff, readsAt_several_append,
      readsAt_chars_append, readsAt_many_append]
    exact ⟨arguments, _, harguments, rfl, gap, _, isGap_iff.mp hgap, rfl, _, rfl, gap', _,
      List.all_eq_true.mp hgap', rfl, ⟨sign, (hholds sign).mpr hsign, rfl⟩, rfl⟩

def guardedName (name : Text) : Pattern :=
  .notAfter nameChars ++ notJavaKeyword ++ dottedName ++ argumentsPattern ++ .several .blank ++
    .chars name ++ .many .blank ++ .one (.oneOf [.char '=', .char ';'])

theorem bindingPatterns_java (name : Text) :
    bindingPatterns .java name = [creationFront name ++ dottedName, guardedName name] := rfl

theorem readsAt_guardedName_iff {b : Option Char} {w rest : Text} {kept : List (Text × Text)} :
    (guardedName name).ReadsAt b w rest kept ↔ b.any nameChars.holds = false ∧
      KeywordFree (w ++ rest) ∧ (typedName name).ReadsAt b w rest kept := by
  unfold guardedName typedName notJavaKeyword
  simp only [readsAt_append_assoc, readsAt_notAfter_append, readsAt_notAhead_append,
    notAhead_keyword_iff]

theorem finds_creation (hname : isWordRun name) (t : Text) :
    (creationFront name ++ dottedName).Finds t (CreatedAt name t) where
  sound {before rest m} heq hrun := by
    obtain ⟨e, hfront, hm⟩ := (creationFront name).run_decides.sound hrun
    obtain ⟨w, rest', kept, hread, hrest, rfl⟩ := passes_iff_readsAt.mp hfront
    obtain ⟨hbefore, rfl, gap, gap', gap'', hgap, hgap', hgap'', rfl⟩ :=
      (readsAt_creationFront_iff hname).mp hread
    obtain ⟨type, after, htype, hafter, hbehind, htext⟩ := exists_of_run_dottedName hm
    obtain rfl : rest' = type ++ after := hbehind
    obtain rfl : rest = _ := hrest
    exact ⟨type, .mk (by simpa using heq) hbefore hgap hgap' hgap'' htype hafter, htext⟩
  complete {before type} h := by
    obtain @⟨gap, gap', gap'', after, heq, hbefore, hgap, hgap', hgap'', htype, -⟩ := h
    have hfront : (creationFront name).ReadsAt before.getLast? _ (type ++ after) [] :=
      (readsAt_creationFront_iff hname).mpr
        ⟨hbefore, rfl, gap, gap', gap'', hgap, hgap', hgap'', rfl⟩
    exact ⟨_, heq.trans (List.append_assoc ..),
      (hfront.append (readsAt_dottedName_iff.mpr ⟨htype, rfl⟩)).isSome_run rfl⟩
  unique {before type type'} h h' := by
    obtain @⟨gap, gap', gap'', after, heq, -, hgap, hgap', hgap'', htype, hafter⟩ := h
    obtain @⟨b, b', b'', after', heq', -, hb, hb', hb'', htype', hafter'⟩ := h'
    have hparts : gap ++ '=' :: (gap' ++ 'n' :: ('e' :: 'w' :: (gap'' ++ (type ++ after)))) =
        b ++ '=' :: (b' ++ 'n' :: ('e' :: 'w' :: (b'' ++ (type' ++ after')))) := by
      simpa using heq.symm.trans heq'
    have hsign : isBlank '=' = false := by decide
    have hnew : isBlank 'n' = false := by decide
    obtain ⟨-, h₁⟩ :=
      eq_of_span_cons (List.all_eq_true.mp hgap) (List.all_eq_true.mp hb) hsign hsign hparts
    obtain ⟨-, h₂⟩ :=
      eq_of_span_cons (List.all_eq_true.mp hgap') (List.all_eq_true.mp hb') hnew hnew h₁
    obtain ⟨-, h₃⟩ := eq_of_span (List.all_eq_true.mp hgap''.isBlank)
      (List.all_eq_true.mp hb''.isBlank) (head?_append_of_isDotted htype)
      (head?_append_of_isDotted htype') (by simpa using h₂)
    exact (eq_of_span (isDotted_iff.mp htype).2 (isDotted_iff.mp htype').2 hafter hafter' h₃).1

/-- Behind a type stands what is no part of it. -/
theorem exists_cons_behind {arguments gap : Text} (harguments : TypeArguments arguments)
    (hgap : IsGap gap) (r : Text) : ∃ c x, arguments ++ (gap ++ r) = c :: x ∧
      nameChars.holds c = false := by
  cases harguments with
  | absent =>
    obtain ⟨c, g, rfl⟩ := List.exists_cons_of_ne_nil hgap.ne_nil
    have hc : isBlank c := List.all_eq_true.mp hgap.isBlank c List.mem_cons_self
    refine ⟨c, g ++ r, rfl, ?_⟩
    by_contra hname
    rcases holds_nameChars.mp (by simpa using hname) with hword | rfl
    · rw [isBlank_of_isWord hword] at hc
      cases hc
    · exact absurd hc (by decide)
  | @given inner _ =>
    exact ⟨'<', inner ++ ">" ++ (gap ++ r), by simp, by decide⟩

theorem keywordFree_typed_iff (type : Text) {arguments gap : Text}
    (harguments : TypeArguments arguments) (hgap : IsGap gap) (r : Text) :
    KeywordFree (type ++ (arguments ++ (gap ++ r))) ↔ KeywordFree type := by
  obtain ⟨c, x, heq, hc⟩ := exists_cons_behind harguments hgap r
  have hword : isWord c = false := by
    by_contra hword
    rw [holds_nameChars.mpr (.inl (by simpa using hword))] at hc
    cases hc
  rw [heq, keywordFree_append_cons hword]

theorem TypedAt.unique {before type type' : Text} (h : TypedAt name t before type)
    (h' : TypedAt name t before type') : type = type' := by
  obtain @⟨arguments, gap, gap', after, sign, heq, -, htype, harguments, hgap, -, -⟩ := h
  obtain @⟨arguments', b, b', after', sign', heq', -, htype', harguments', hb, -, -⟩ := h'
  obtain ⟨c, x, hbehind, hc⟩ := exists_cons_behind harguments hgap (name ++ (gap' ++ sign :: after))
  obtain ⟨d, y, hbehind', hd⟩ :=
    exists_cons_behind harguments' hb (name ++ (b' ++ sign' :: after'))
  have hparts : type ++ c :: x = type' ++ d :: y := by
    rw [← hbehind, ← hbehind']
    simpa using heq.symm.trans heq'
  exact (eq_of_span_cons (isDotted_iff.mp htype).2 (isDotted_iff.mp htype').2 hc hd hparts).1

theorem typedAt_of_readsAt {before w rest : Text} {kept : List (Text × Text)}
    (heq : t = before ++ (w ++ rest)) (hbefore : before.getLast?.any nameChars.holds = false)
    (hread : (typedName name).ReadsAt before.getLast? w rest kept) :
    ∃ type, TypedAt name t before type ∧ kept = [("type".toList, type)] ∧
      (KeywordFree (w ++ rest) ↔ KeywordFree type) := by
  obtain ⟨type, arguments, gap, gap', sign, htype, harguments, hgap, hgap', hsign, rfl, rfl⟩ :=
    readsAt_typedName_iff.mp hread
  have hfree := keywordFree_typed_iff type harguments hgap (name ++ (gap' ++ sign :: rest))
  have htyped : TypedAt name t before type :=
    .mk (heq.trans (List.append_assoc ..).symm) hbefore htype harguments hgap hgap' hsign
  exact ⟨type, htyped, rfl, by simpa using hfree⟩

theorem TypedAt.exists_readsAt {before type : Text} (h : TypedAt name t before type) :
    ∃ w rest, t = before ++ (w ++ rest) ∧ before.getLast?.any nameChars.holds = false ∧
      (typedName name).ReadsAt before.getLast? w rest [("type".toList, type)] ∧
      (KeywordFree (w ++ rest) ↔ KeywordFree type) := by
  obtain @⟨arguments, gap, gap', after, sign, heq, hbefore, htype, harguments, hgap, hgap',
    hsign⟩ := h
  have hfree := keywordFree_typed_iff type harguments hgap (name ++ (gap' ++ sign :: after))
  exact ⟨_, after, heq.trans (List.append_assoc ..), hbefore, readsAt_typedName_iff.mpr
    ⟨type, arguments, gap, gap', sign, htype, harguments, hgap, hgap', hsign, rfl, rfl⟩,
    by simpa using hfree⟩

/-- At a typed place a run keeps the type. -/
theorem TypedAt.exists_run {before type : Text} (h : TypedAt name t before type) :
    ∃ rest m, t = before ++ rest ∧ before.getLast?.any nameChars.holds = false ∧
      (typedName name).run some { previous := before.getLast?, rest } = some m ∧
      m.text? "type" = some type := by
  obtain ⟨w, rest, heq, hbefore, hread, -⟩ := h.exists_readsAt
  obtain ⟨m, hm⟩ := Option.isSome_iff_exists.mp
    (hread.isSome_run (q := { previous := before.getLast?, rest := w ++ rest }) rfl)
  obtain ⟨w', rest', kept, hread', hrest, rfl⟩ := exists_readsAt_of_run hm
  obtain ⟨type', htyped, rfl, -⟩ := typedAt_of_readsAt (heq.trans (by rw [← hrest])) hbefore hread'
  exact ⟨_, _, heq, hbefore, hm, by simp [Place.text?, Place.behind, h.unique htyped]⟩

theorem finds_declaration (name t : Text) : (guardedName name).Finds t (DeclaredAt name t) where
  sound {before rest m} heq hrun := by
    obtain ⟨w, rest', kept, hread, hrest, rfl⟩ := exists_readsAt_of_run hrun
    obtain rfl : rest = w ++ rest' := hrest
    obtain ⟨hbefore, hfree, hread⟩ := readsAt_guardedName_iff.mp hread
    obtain ⟨type, htyped, rfl, hfree_iff⟩ := typedAt_of_readsAt heq hbefore hread
    exact ⟨type, ⟨htyped, hfree_iff.mp hfree⟩, by simp [Place.text?, Place.behind]⟩
  complete {before type} h := by
    obtain ⟨w, rest, heq, hbefore, hread, hfree⟩ := h.typed.exists_readsAt
    exact ⟨_, heq,
      (readsAt_guardedName_iff.mpr ⟨hbefore, hfree.mpr h.free, hread⟩).isSome_run rfl⟩
  unique h h' := h.typed.unique h'.typed

end Language

namespace Binding

open Pattern CodeNav.Language

variable {name : Text}

/-- What a variable is bound to is what it is created from first or else, where nothing is created
for it, the first type before it that is not refused. -/
theorem assignedFrom?_java_iff (hname : isWordRun name) {t type : Text} :
    assignedFrom? .java name t = some type ↔ IsFirst (CreatedAt name t) type ∨
      (∀ before type, ¬CreatedAt name t before type) ∧ IsFirst (DeclaredAt name t) type := by
  have hcreation := finds_creation hname t
  have hdeclaration := finds_declaration name t
  rw [assignedFrom?, bindingPatterns_java, List.findSome?_cons]
  cases hsearch : (creationFront name ++ dottedName).search? t with
  | none =>
    have hnot := hcreation.search?_eq_none_iff.mp hsearch
    have hfirst : ¬IsFirst (CreatedAt name t) type := by
      rintro ⟨before, hat, -⟩
      exact hnot before type hat
    have hsecond : [guardedName name].findSome? (fun p => (p.search? t).map fun m =>
        (m.text? "type").getD []) = ((guardedName name).search? t).map fun m =>
          (m.text? "type").getD [] := by
      cases hd : (guardedName name).search? t <;> simp [hd]
    rw [Option.map_none]
    dsimp only
    rw [hsecond, hdeclaration.search?_map_eq_some_iff]
    simp [hfirst, hnot]
  | some m =>
    obtain ⟨type', ⟨before, hat, -⟩, -⟩ := hcreation.isFirst_of_search? hsearch
    have hcreated : ¬∀ before type, ¬CreatedAt name t before type := fun h => h before type' hat
    rw [← hcreation.search?_map_eq_some_iff, hsearch]
    simp [hcreated]

def javaKeywords : List Text :=
  ["assert", "break", "case", "continue", "do", "else", "goto", "import", "instanceof", "new",
    "package", "return", "throw", "yield"]

theorem isWordRun_of_mem_javaKeywords {w : Text} (h : w ∈ javaKeywords) : isWordRun w := by
  revert w
  decide

theorem declaredType?_java (hname : isWordRun name) {t type : Text} :
    declaredType? .java name t = some type ↔
      isWordRun type ∧ assignedFrom? .java name t = some type := by
  rw [declaredType?, bareName_of_isWordRun hname, Option.filter_eq_some_iff]
  exact and_comm

/-- The keyword is not refused. -/
theorem keywordFree_iff {w : Text} (hw : isWordRun w) : KeywordFree w ↔ w ∉ statementKeywords := by
  refine ⟨fun h hmem => ?_, keywordFree_of_isWordRun hw⟩
  have hhead := h w hmem [] (List.append_nil w).symm
  cases hhead

/-- A declared type is a keyword exactly where the variable is created from one or where, without a
creation, the first type before it that is not refused is one. So in a text without creations and
with one declaration behind statements of keywords, the type is found exactly when all the keywords
are refused. -/
theorem declaredType_java_keyword_iff (hname : isWordRun name) (t : Text) :
    (∀ keyword ∈ javaKeywords, declaredType? .java name t = some keyword ↔
      IsFirst (CreatedAt name t) keyword ∨ keyword ∉ statementKeywords ∧
        (∀ before type, ¬CreatedAt name t before type) ∧
        IsFirst (DeclaredAt name t) keyword) ∧
    ∀ before type, (∀ before type, ¬CreatedAt name t before type) → TypedAt name t before type →
      isWordRun type → type ∉ javaKeywords →
      (∀ before' type', TypedAt name t before' type' → before'.length < before.length →
        type' ∈ javaKeywords) →
      (declaredType? .java name t = some type ↔ ∀ before' type', TypedAt name t before' type' →
        before'.length < before.length → type' ∈ statementKeywords) := by
  refine ⟨fun keyword hkeyword => ?_, fun before type hnot htyped hword htype hbefore => ?_⟩
  · have hrun := isWordRun_of_mem_javaKeywords hkeyword
    rw [declaredType?_java hname, assignedFrom?_java_iff hname]
    constructor
    · rintro ⟨-, hcreated | ⟨hnot, hdeclared⟩⟩
      · exact .inl hcreated
      · have ⟨_, hat, _⟩ := hdeclared
        exact .inr ⟨(keywordFree_iff hrun).mp hat.free, hnot, hdeclared⟩
    · rintro (hcreated | ⟨-, hnot, hdeclared⟩)
      · exact ⟨hrun, .inl hcreated⟩
      · exact ⟨hrun, .inr ⟨hnot, hdeclared⟩⟩
  · have hfirst : declaredType? .java name t = some type ↔ IsFirst (DeclaredAt name t) type := by
      rw [declaredType?_java hname, assignedFrom?_java_iff hname]
      have hcreated : ¬IsFirst (CreatedAt name t) type := fun ⟨before, hat, _⟩ =>
        hnot before type hat
      simp [hword, hnot, hcreated]
    rw [hfirst]
    constructor
    · rintro ⟨first, hat, hleast⟩ before' type' hat' hlen
      by_contra hother
      -- A keyword that is not refused would be found before the type.
      have hkeyword := hbefore before' type' hat' hlen
      have hfree := (keywordFree_iff (isWordRun_of_mem_javaKeywords hkeyword)).mpr hother
      have hearly := Nat.lt_of_le_of_lt (hleast before' type' ⟨hat', hfree⟩) hlen
      exact htype (hbefore first type hat.typed hearly)
    · intro hrefused
      have hnotrefused : type ∉ statementKeywords := fun hmem => htype (by
        have hsub : ∀ w ∈ statementKeywords, w ∈ javaKeywords := by decide
        exact hsub type hmem)
      refine ⟨before, ⟨htyped, (keywordFree_iff hword).mpr hnotrefused⟩,
        fun before' type' hat' => ?_⟩
      by_contra hlen
      have hmem := hrefused before' type' hat'.typed (Nat.lt_of_not_ge hlen)
      have hrun : isWordRun type' := isWordRun_of_keyword (by simp [hmem])
      exact (keywordFree_iff hrun).mp hat'.free hmem

def readyText (keyword : Text) : Text := keyword ++ " ready;\nFlag ready;"

theorem typedAt_readyText (keyword : Text) :
    TypedAt "ready" (readyText keyword) (keyword ++ " ready;\n") "Flag" := by
  have hflag : isWordRun "Flag" := by decide
  have hdotted : IsDotted "Flag" :=
    ⟨by simp, fun c hc => .inl (mem_of_isWordRun hflag c hc)⟩
  have hbefore : (keyword ++ " ready;\n").getLast?.any nameChars.holds = false := by
    have hlast : (keyword ++ " ready;\n").getLast? = some '\n' := by simp
    rw [hlast]
    decide
  have hgap : IsGap " " := ⟨by simp, rfl⟩
  refine @TypedAt.mk _ _ _ _ [] " " [] [] ';' ?_ hbefore hdotted .absent hgap rfl (.inr rfl)
  simp [readyText]

theorem declaredType_java_keyword_iff_return :
    isWordRun "ready" ∧ TypedAt "ready" (readyText "return") "return ready;\n" "Flag" ∧
      declaredType? .java "ready" (readyText "return") = some "Flag".toList := by
  have hname : isWordRun "ready" := by decide +kernel
  have htyped := typedAt_readyText "return"
  have hnot : ∀ before type, ¬CreatedAt "ready" (readyText "return") before type :=
    (finds_creation hname _).search?_eq_none_iff.mp (by decide +kernel)
  -- The places before the declaration, one by one.
  have hplaces : ∀ n < 14, ((readyText "return").take n).getLast?.any nameChars.holds = false →
      ((typedName "ready").run some ⟨((readyText "return").take n).getLast?,
        (readyText "return").drop n, 0, []⟩).all fun m =>
          m.text? "type" == some "return".toList := by
    decide +kernel
  have hreturn : ∀ before type, TypedAt "ready" (readyText "return") before type →
      before.length < 14 → type = "return" := by
    intro before type hat hlen
    obtain ⟨rest, m, heq, hlast, hrun, htext⟩ := hat.exists_run
    have hplace := hplaces before.length hlen
    rw [heq, List.take_left, List.drop_left] at hplace
    have hkept := hplace hlast
    rw [hrun, Option.all_some, beq_iff_eq] at hkept
    exact Option.some.inj (htext.symm.trans hkept)
  have hfound := (declaredType_java_keyword_iff hname (readyText "return")).2 "return ready;\n"
    "Flag" hnot htyped (by decide +kernel) (by decide)
    fun before type hat hlen => hreturn before type hat hlen ▸ by decide
  exact ⟨hname, htyped,
    hfound.mpr fun before type hat hlen => hreturn before type hat hlen ▸ by decide⟩

/-- The keyword of an assertion is taken for the type. -/
theorem declaredType_java_behind_assert :
    "assert".toList ∈ javaKeywords ∧
      (∀ before type, ¬CreatedAt "ready" (readyText "assert") before type) ∧
      TypedAt "ready" (readyText "assert") "assert ready;\n" "Flag" ∧
      declaredType? .java "ready" (readyText "assert") = some "assert".toList := by
  have hname : isWordRun "ready" := by decide +kernel
  exact ⟨by decide, (finds_creation hname _).search?_eq_none_iff.mp (by decide +kernel),
    typedAt_readyText "assert", by decide +kernel⟩

end Binding

end CodeNav
