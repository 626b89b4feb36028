import CodeNav.Proofs.Lookup
import CodeNav.Proofs.Tokens

/-!
The forms of tokens. Each token of a line is a run of blanks, a name, an accessor, a number, a
literal or a single sign (`Token.form_of_mem_ofLine`), and blanks, names and accessors are cut off
whole wherever they stand.
-/

namespace CodeNav

/-- Whether each of the spans lies in one of those with the given borders; both ascend. -/
def spansWithin : List (Nat × Nat) → List Nat → Bool
  | [], _ => true
  | (lo, hi) :: s, lo' :: hi' :: borders =>
    if hi' ≤ lo then lo' ≤ hi' && spansWithin ((lo, hi) :: s) borders
    else lo' ≤ lo && hi ≤ hi' && spansWithin s (lo' :: hi' :: borders)
  | _, _ => false
termination_by s borders => s.length + borders.length

theorem withinSpans_of_spansWithin {s : List (Nat × Nat)} {borders : List Nat} {n : Nat}
    (h : spansWithin s borders) (hs : s.Pairwise fun p q => p.1 ≤ q.1) :
    ∀ p ∈ s, p.1 ≤ n → n < p.2 → withinSpans borders n := by
  fun_induction spansWithin s borders with
  | case1 => simp
  | case2 lo hi s lo' hi' borders hpast ih =>
    obtain ⟨hle, hrest⟩ : lo' ≤ hi' ∧ spansWithin ((lo, hi) :: s) borders := by simpa using h
    intro p hp hlow hhigh
    have hfirst : lo ≤ p.1 := by
      rcases List.mem_cons.mp hp with rfl | hp
      · exact Nat.le_refl _
      · exact (List.pairwise_cons.mp hs).1 p hp
    have hn := ih hrest hs p hp hlow hhigh
    rw [withinSpans, if_neg (by omega), hn, Bool.or_true]
  | case3 lo hi s lo' hi' borders hpast ih =>
    obtain ⟨⟨hlo, hhi⟩, hrest⟩ : (lo' ≤ lo ∧ hi ≤ hi') ∧ spansWithin s (lo' :: hi' :: borders) := by
      simpa using h
    intro p hp hlow hhigh
    rcases List.mem_cons.mp hp with rfl | hp
    · have hin : n < hi' := Nat.lt_of_lt_of_le hhigh hhi
      rw [withinSpans, if_neg (Nat.not_lt.mpr (Nat.le_trans hlo hlow))]
      simp [hin]
    · exact ih hrest (List.pairwise_cons.mp hs).2 p hp hlow hhigh
  | case4 => cases h

theorem exists_zero_of_isDigit {c : Char} (h : isDigit c) :
    ∃ z ∈ digitZeros, z ≤ c.toNat ∧ c.toNat < z + 10 := by
  unfold isDigit digitValue? at h
  rw [Option.isSome_map, List.find?_isSome] at h
  obtain ⟨z, hz, hc⟩ := h
  exact ⟨z, hz, by simpa using hc⟩

theorem isWord_of_isDigit {c : Char} (h : isDigit c) : isWord c := by
  have hspans : spansWithin (digitZeros.map fun z => (z, z + 10)) wordSpans := by decide +kernel
  have hascend : digitZeros.Pairwise (· ≤ ·) := by decide
  obtain ⟨z, hz, hlow, hhigh⟩ := exists_zero_of_isDigit h
  exact withinSpans_of_spansWithin hspans (List.pairwise_map.mpr hascend) _
    (List.mem_map_of_mem hz) hlow hhigh

theorem toNat_of_isAlpha {c : Char} (h : c.isAlpha) :
    (65 ≤ c.toNat ∧ c.toNat ≤ 90) ∨ (97 ≤ c.toNat ∧ c.toNat ≤ 122) := by
  rcases (Bool.or_eq_true _ _).mp h with hupper | hlower
  · exact .inl (of_decide_eq_true hupper)
  · obtain ⟨hlow, hhigh⟩ := (Bool.and_eq_true _ _).mp hlower
    exact .inr ⟨of_decide_eq_true hlow, of_decide_eq_true hhigh⟩

theorem isWord_of_isAlpha {c : Char} (h : c.isAlpha) : isWord c := by
  obtain ⟨borders, hborders⟩ :
      ∃ r, wordSpans = 48 :: 58 :: 65 :: 91 :: 95 :: 96 :: 97 :: 123 :: r := ⟨_, rfl⟩
  have hletter := toNat_of_isAlpha h
  unfold isWord
  rw [hborders]
  simp only [withinSpans]
  grind

namespace Token

/-- No name starts with a digit. -/
theorem isNameStart_of_isDigit {c : Char} (h : isDigit c) : isNameStart c = false := by
  have hzeros : ∀ z ∈ digitZeros, z = 48 ∨ 1632 ≤ z := by decide
  obtain ⟨z, hz, hlow, hhigh⟩ := exists_zero_of_isDigit h
  rw [Bool.eq_false_iff]
  intro hstart
  have hcases : (c.isAlpha ∨ c = '_') ∨ c = '$' := by simpa [isNameStart] using hstart
  rcases hcases with (hletter | rfl) | rfl
  · have hbounds := toNat_of_isAlpha hletter
    have hzero := hzeros z hz
    omega
  · exact absurd h (by decide)
  · exact absurd h (by decide)

/-- What starts a name is a part of one. -/
theorem isNamePart_of_isNameStart {c : Char} (h : isNameStart c) : isNamePart c := by
  have hstart : (c.isAlpha ∨ c = '_') ∨ c = '$' := by simpa [isNameStart] using h
  rcases hstart with (hletter | rfl) | rfl
  · simp [isNamePart, isWord_of_isAlpha hletter]
  · decide
  · decide

theorem isNamePart_of_isWordRun {t : Text} (h : isWordRun t) : ∀ x ∈ t, isNamePart x := by
  intro x hx
  simp [isNamePart, mem_of_isWordRun h x hx]

theorem isBlank_of_isNamePart {c : Char} (h : isNamePart c) : isBlank c = false := by
  have hpart : isWord c ∨ c = '$' := by simpa [isNamePart] using h
  rcases hpart with hword | rfl
  · exact isBlank_of_isWord hword
  · decide

theorem isBlank_of_isNameStart {c : Char} (h : isNameStart c) : isBlank c = false :=
  isBlank_of_isNamePart (isNamePart_of_isNameStart h)

/-- What follows the opening quote of a literal, which may lack the closing one. A backslash stands
together with the character behind it, and that is no line feed. -/
inductive QuotedTail (quote : Char) : Text → Prop where
  | unclosed : QuotedTail quote []
  | closed : QuotedTail quote [quote]
  | plain {c : Char} {r : Text} (hquote : c ≠ quote) (hescape : c ≠ '\\')
      (hr : QuotedTail quote r) : QuotedTail quote (c :: r)
  | escaped {c : Char} {r : Text} (hline : c ≠ '\n') (hr : QuotedTail quote r) :
      QuotedTail quote ('\\' :: c :: r)

inductive Form : Text → Prop where
  | blanks {t : Text} (hne : t ≠ []) (h : Text.isBlank t) : Form t
  | name {c : Char} {r mark : Text} (hc : isNameStart c) (hr : ∀ x ∈ r, isNamePart x)
      (hmark : mark = [] ∨ mark = ['?']) : Form (c :: r ++ mark)
  | accessor {c : Char} {r mark : Text} (hc : isNameStart c) (hr : ∀ x ∈ r, isNamePart x)
      (hmark : mark = [] ∨ mark = ['?']) : Form ('.' :: (c :: r ++ mark))
  | number {c : Char} {r fraction letter : Text} (hc : isDigit c) (hr : ∀ x ∈ r, isDigit x)
      (hfraction : fraction = [] ∨ ∃ r' ≠ [], (∀ x ∈ r', isDigit x) ∧ fraction = '.' :: r')
      (hletter : letter = [] ∨ ∃ x ∈ "fFlLdD".toList, letter = [x]) :
      Form (c :: r ++ fraction ++ letter)
  | literal {quote : Char} {r : Text} (hquote : quote = '"' ∨ quote = '\x27')
      (hr : QuotedTail quote r) : Form (quote :: r)
  | sign {c : Char} (hblank : isBlank c = false) (hname : isNameStart c = false)
      (hdigit : isDigit c = false) : Form [c]

theorem mem_takeWhile {p : Char → Bool} (r : Text) : ∀ c ∈ r.takeWhile p, p c :=
  List.all_eq_true.mp List.all_takeWhile

theorem take_add_one_of_head? {r : Text} {n : Nat} {c : Char} (h : (r.drop n).head? = some c) :
    r.take (n + 1) = r.take n ++ [c] := by
  rw [List.take_add_one, ← List.head?_drop, h]
  rfl

theorem take_nameTail (r : Text) : ∃ mark, (mark = [] ∨ mark = ['?']) ∧
    r.take (nameTail r) = r.takeWhile isNamePart ++ mark := by
  unfold nameTail
  dsimp only
  split
  · next hmark => exact ⟨_, .inr rfl, by rw [take_add_one_of_head? hmark, take_length_takeWhile]⟩
  · exact ⟨[], .inl rfl, by rw [take_length_takeWhile, List.append_nil]⟩

theorem take_fractionLength (r : Text) :
    r.take (fractionLength r) = [] ∨
      ∃ r' ≠ [], (∀ x ∈ r', isDigit x) ∧ r.take (fractionLength r) = '.' :: r' := by
  unfold fractionLength
  split
  · next r =>
    split
    · exact .inl rfl
    · next hsome =>
      refine .inr ⟨r.takeWhile isDigit, fun hnil => ?_, mem_takeWhile r, ?_⟩
      · exact hsome (by rw [hnil, List.length_nil])
      · rw [List.take_succ_cons, take_length_takeWhile]
  · exact .inl rfl

theorem take_numberTail (r : Text) : ∃ fraction letter,
    (fraction = [] ∨ ∃ r' ≠ [], (∀ x ∈ r', isDigit x) ∧ fraction = '.' :: r') ∧
      (letter = [] ∨ ∃ x ∈ "fFlLdD".toList, letter = [x]) ∧
      r.take (numberTail r) = r.takeWhile isDigit ++ fraction ++ letter := by
  have hnumber : ∀ n, r.take ((r.takeWhile isDigit).length + n) =
      r.takeWhile isDigit ++ (r.drop (r.takeWhile isDigit).length).take n := by
    intro n
    rw [List.take_add, take_length_takeWhile]
  have hfraction := take_fractionLength (r.drop (r.takeWhile isDigit).length)
  unfold numberTail
  dsimp only
  split
  · next hletter =>
    obtain ⟨x, hx, hmem⟩ := (Option.any_eq_true _ _).mp hletter
    refine ⟨_, [x], hfraction, .inr ⟨x, by simpa using hmem, rfl⟩, ?_⟩
    rw [take_add_one_of_head? hx, hnumber]
  · exact ⟨_, [], hfraction, .inl rfl, by rw [hnumber, List.append_nil]⟩

theorem quotedTail_take (quote : Char) (r : Text) :
    QuotedTail quote (r.take (literalTail quote r)) := by
  fun_induction literalTail quote r with
  | case1 => exact .unclosed
  | case2 r => exact .unclosed
  | case3 c r hline ih => exact .escaped hline ih
  | case4 r => exact .closed
  | case5 => exact .unclosed
  | case6 c r _ hquote hescape ih => exact .plain hquote hescape ih

/-- How many characters the token that starts with `c` takes from the rest `r`. -/
inductive Tail : Char → Text → Nat → Prop where
  | blanks {c : Char} {r : Text} (hc : isBlank c) : Tail c r (r.takeWhile isBlank).length
  | name {c : Char} {r : Text} (hc : isNameStart c) : Tail c r (nameTail r)
  | accessor {c : Char} {r : Text} (hc : isNameStart c) : Tail '.' (c :: r) (nameTail r + 1)
  | number {c : Char} {r : Text} (hc : isDigit c) : Tail c r (numberTail r)
  | literal {quote : Char} {r : Text} (hquote : quote = '"' ∨ quote = '\x27') :
      Tail quote r (literalTail quote r)
  | sign {c : Char} {r : Text} (hblank : isBlank c = false) (hname : isNameStart c = false)
      (hdigit : isDigit c = false) : Tail c r 0

theorem tail_tailLength (c : Char) (r : Text) : Tail c r (tailLength c r) := by
  unfold tailLength
  split
  · next hblank => exact .blanks hblank
  · next hblank =>
    split
    · next hdot =>
      subst hdot
      split
      · split
        · next hstart => exact .accessor hstart
        · exact .sign (by decide) (by decide) (by decide)
      · exact .sign (by decide) (by decide) (by decide)
    · split
      · next hstart => exact .name hstart
      · next hstart =>
        split
        · next hdigit => exact .number hdigit
        · next hdigit =>
          split
          · next hquote => exact .literal (by simpa using hquote)
          · exact .sign (by simpa using hblank) (by simpa using hstart) (by simpa using hdigit)

theorem Tail.form {c : Char} {r : Text} {n : Nat} (h : Tail c r n) : Form (c :: r.take n) := by
  cases h with
  | blanks hc =>
    rw [take_length_takeWhile]
    refine .blanks (List.cons_ne_nil _ _) ?_
    rw [Text.isBlank, List.all_cons, hc, Bool.true_and]
    exact List.all_takeWhile
  | name hc =>
    obtain ⟨mark, hmark, htake⟩ := take_nameTail r
    rw [htake]
    exact .name hc (mem_takeWhile r) hmark
  | @accessor c r hc =>
    obtain ⟨mark, hmark, htake⟩ := take_nameTail r
    rw [List.take_succ_cons, htake]
    exact .accessor hc (mem_takeWhile r) hmark
  | number hc =>
    obtain ⟨fraction, letter, hfraction, hletter, htake⟩ := take_numberTail r
    rw [htake]
    simpa using Form.number hc (mem_takeWhile r) hfraction hletter
  | literal hquote => exact .literal hquote (quotedTail_take _ r)
  | sign hblank hname hdigit => exact .sign hblank hname hdigit

theorem form_of_mem_ofLine {line : Text} : ∀ t ∈ ofLine line, Form t :=
  forall_mem_ofLine fun c r _ => (tail_tailLength c r).form

theorem of_mem_number {r fraction letter : Text} (hr : ∀ x ∈ r, isDigit x)
    (hfraction : fraction = [] ∨ ∃ r' ≠ [], (∀ x ∈ r', isDigit x) ∧ fraction = '.' :: r')
    (hletter : letter = [] ∨ ∃ x ∈ "fFlLdD".toList, letter = [x]) :
    ∀ x ∈ r ++ fraction ++ letter, isWord x ∨ x = '.' := by
  intro x hx
  rw [List.mem_append, List.mem_append] at hx
  rcases hx with (hx | hx) | hx
  · exact .inl (isWord_of_isDigit (hr x hx))
  · rcases hfraction with rfl | ⟨r', -, hr', rfl⟩
    · cases hx
    · rcases List.mem_cons.mp hx with hx | hx
      · exact .inr hx
      · exact .inl (isWord_of_isDigit (hr' x hx))
  · rcases hletter with rfl | ⟨y, hy, rfl⟩
    · cases hx
    · obtain rfl := List.mem_singleton.mp hx
      have hword : "fFlLdD".toList.all isWord := by decide
      exact .inl (List.all_eq_true.mp hword x hy)

/-- A token that begins like a word has nothing else in it but the dot of a fraction, the question
mark of a nullable name and the dollar signs of a generated one. -/
theorem Form.mem {t : Text} (h : Form t) (hhead : t.head?.any isWord) :
    ∀ x ∈ t, isWord x ∨ x = '.' ∨ x = '?' ∨ x = '$' := by
  have hpart : ∀ x, isNamePart x → isWord x ∨ x = '$' := fun x hx => by
    simpa [isNamePart] using hx
  intro x hx
  cases h with
  | blanks hne hblank =>
    obtain ⟨c, r, rfl⟩ := List.exists_cons_of_ne_nil hne
    have hc := List.all_eq_true.mp hblank c List.mem_cons_self
    rw [isBlank_of_isWord (by simpa using hhead)] at hc
    cases hc
  | name hc hr hmark =>
    simp only [List.cons_append, List.mem_cons, List.mem_append] at hx
    rcases hx with rfl | hx | hx
    · exact (hpart x (isNamePart_of_isNameStart hc)).imp_right fun h => .inr (.inr h)
    · exact (hpart x (hr x hx)).imp_right fun h => .inr (.inr h)
    · rcases hmark with rfl | rfl
      · cases hx
      · exact .inr (.inr (.inl (List.mem_singleton.mp hx)))
  | accessor =>
    have hdot : isWord '.' := by simpa using hhead
    exact absurd hdot (by decide)
  | number hc hr hfraction hletter =>
    rcases List.mem_cons.mp hx with rfl | hx
    · exact .inl (isWord_of_isDigit hc)
    · exact (of_mem_number hr hfraction hletter x hx).imp_right .inl
  | literal hquote _ =>
    have hword : isWord '"' = false ∧ isWord '\x27' = false := by decide
    rcases hquote with rfl | rfl
    · exact absurd (by simpa using hhead) (Bool.eq_false_iff.mp hword.1)
    · exact absurd (by simpa using hhead) (Bool.eq_false_iff.mp hword.2)
  | sign =>
    obtain rfl := List.mem_singleton.mp hx
    exact .inl hhead

/-- A token is a word exactly when it begins like one and has no dot, question mark or dollar
sign. -/
theorem Form.isWordRun_iff {t : Text} (h : Form t) :
    isWordRun t ↔ t.head?.any isWord ∧ '.' ∉ t ∧ '?' ∉ t ∧ '$' ∉ t := by
  constructor
  · intro ht
    exact ⟨head?_of_isWordRun ht, not_mem_of_not_isWord (by decide) ht,
      not_mem_of_not_isWord (by decide) ht, not_mem_of_not_isWord (by decide) ht⟩
  · rintro ⟨hhead, hdot, hmark, hdollar⟩
    have hne : t ≠ [] := by
      rintro rfl
      cases hhead
    have hall : ∀ x ∈ t, isWord x := by
      intro x hx
      rcases h.mem hhead x hx with hword | rfl | rfl | rfl
      · exact hword
      all_goals contradiction
    simpa [isWordRun, hne] using hall

theorem Form.trim_eq_self {t : Text} (h : Form t) (hhead : t.head?.any isWord) : t.trim = t := by
  refine Text.trim_eq_self fun x hx => ?_
  rcases h.mem hhead x hx with hword | rfl | rfl | rfl
  · exact isBlank_of_isWord hword
  all_goals decide

/-- A token that is no literal has a dot at its front or inside of a number, and no second one. -/
theorem Form.count_dot {t : Text} (h : Form t)
    (hquote : t.head? ≠ some '"' ∧ t.head? ≠ some '\x27') : t.count '.' ≤ 1 := by
  have hdots {r : Text} {p : Char → Bool} (hr : ∀ x ∈ r, p x) (hp : p '.' = false) :
      r.count '.' = 0 := by
    refine List.count_eq_zero.mpr fun hmem => ?_
    rw [hr _ hmem] at hp
    cases hp
  have hname {c : Char} {r mark : Text} (hc : isNameStart c) (hr : ∀ x ∈ r, isNamePart x)
      (hmark : mark = [] ∨ mark = ['?']) : (c :: r ++ mark).count '.' = 0 := by
    have hpart : ∀ x ∈ c :: r, isNamePart x :=
      List.forall_mem_cons.mpr ⟨isNamePart_of_isNameStart hc, hr⟩
    rw [List.count_append, hdots hpart (by decide)]
    rcases hmark with rfl | rfl
    · rfl
    · rfl
  cases h with
  | blanks _ hblank => simp [hdots (List.all_eq_true.mp hblank) (by decide)]
  | name hc hr hmark =>
    rw [hname hc hr hmark]
    exact Nat.zero_le 1
  | accessor hc hr hmark => rw [List.count_cons_self, hname hc hr hmark]
  | @number c r fraction letter hc hr hfraction hletter =>
    have hdigits : (c :: r).count '.' = 0 :=
      hdots (List.forall_mem_cons.mpr ⟨hc, hr⟩) (by decide)
    have hpoint : fraction.count '.' ≤ 1 := by
      rcases hfraction with rfl | ⟨r', -, hr', rfl⟩
      · exact Nat.zero_le 1
      · rw [List.count_cons_self, hdots hr' (by decide)]
    have hlast : letter.count '.' = 0 := by
      have hnone : '.' ∉ "fFlLdD".toList := by decide
      rcases hletter with rfl | ⟨x, hx, rfl⟩
      · rfl
      · refine List.count_eq_zero.mpr fun hdot => hnone ?_
        rwa [List.mem_singleton.mp hdot]
    rw [List.count_append, List.count_append, hdigits, hlast]
    omega
  | literal hquote' =>
    rcases hquote' with rfl | rfl
    · exact absurd rfl hquote.1
    · exact absurd rfl hquote.2
  | sign => exact List.count_le_length

theorem count_dot_of_mem_ofLine {line : Text} (hline : '"' ∉ line ∧ '\x27' ∉ line) :
    ∀ t ∈ ofLine line, t.count '.' ≤ 1 := by
  intro t ht
  have hmem {c : Char} (hc : t.head? = some c) : c ∈ line := by
    rw [← flatten_ofLine line]
    exact List.mem_flatten.mpr ⟨t, ht, List.mem_of_head? hc⟩
  exact (form_of_mem_ofLine t ht).count_dot ⟨fun h => hline.1 (hmem h), fun h => hline.2 (hmem h)⟩

/-- A token is cut off at the front of what the tokens before it leave of the line. -/
theorem exists_of_ofLine_eq_append {line token : Text} {before after : List Text}
    (h : ofLine line = before ++ token :: after) :
    ∃ c r, line = before.flatten ++ c :: r ∧ token = c :: r.take (tailLength c r) ∧
      after = ofLine (r.drop (tailLength c r)) := by
  induction before generalizing line with
  | nil =>
    cases line with
    | nil => simp at h
    | cons c r =>
      rw [ofLine_cons] at h
      obtain ⟨htoken, hafter⟩ := List.cons.inj h
      exact ⟨c, r, rfl, htoken.symm, hafter.symm⟩
  | cons t before ih =>
    cases line with
    | nil => simp at h
    | cons d s =>
      rw [ofLine_cons] at h
      obtain ⟨ht, hrest⟩ := List.cons.inj h
      obtain ⟨c, r, hline, htoken, hafter⟩ := ih hrest
      refine ⟨c, r, ?_, htoken, hafter⟩
      rw [List.flatten_cons, List.append_assoc, ← hline, ← ht, List.cons_append,
        List.take_append_drop]

theorem length_takeWhile_le_nameTail (r : Text) :
    (r.takeWhile isNamePart).length ≤ nameTail r := by
  unfold nameTail
  dsimp only
  split <;> omega

theorem length_le_takeWhile {p : Char → Bool} {u : Text} (h : ∀ x ∈ u, p x) (v : Text) :
    u.length ≤ ((u ++ v).takeWhile p).length := by
  rw [List.takeWhile_append_of_pos h, List.length_append]
  exact Nat.le_add_right _ _

theorem length_le_nameTail {u r : Text} (h : ∀ x ∈ u, isNamePart x) :
    u.length ≤ nameTail (u ++ r) :=
  Nat.le_trans (length_le_takeWhile h r) (length_takeWhile_le_nameTail _)

theorem tailLength_of_isNameStart {c : Char} (hc : isNameStart c) (r : Text) :
    tailLength c r = nameTail r := by
  have hdot : c ≠ '.' := by
    rintro rfl
    exact absurd hc (by decide)
  unfold tailLength
  rw [if_neg (Bool.eq_false_iff.mp (isBlank_of_isNameStart hc)), if_neg hdot, if_pos hc]

theorem tailLength_dot {c : Char} (hc : isNameStart c) (r : Text) :
    tailLength '.' (c :: r) = nameTail r + 1 := by
  unfold tailLength
  rw [if_neg (by decide), if_pos rfl]
  exact if_pos hc

theorem tailLength_of_isDigit {c : Char} (hc : isDigit c) (r : Text) :
    tailLength c r = numberTail r := by
  have hdot : c ≠ '.' := by
    rintro rfl
    exact absurd hc (by decide)
  unfold tailLength
  rw [if_neg (Bool.eq_false_iff.mp (isBlank_of_isWord (isWord_of_isDigit hc))), if_neg hdot,
    if_neg (Bool.eq_false_iff.mp (isNameStart_of_isDigit hc)), if_pos hc]

theorem tailLength_of_quote {quote : Char} (hquote : quote = '"' ∨ quote = '\x27') (r : Text) :
    tailLength quote r = literalTail quote r := by
  rcases hquote with rfl | rfl
  · rfl
  · rfl

theorem takeWhile_append_of_stop {p : Char → Bool} {r u : Text} (hr : ∀ x ∈ r, p x)
    (hu : u.head?.any p = false) : (r ++ u).takeWhile p = r := by
  rw [List.takeWhile_append_of_pos hr]
  cases u with
  | nil => simp
  | cons c u => simp [show p c = false from hu]

theorem ofLine_cons_append {c : Char} {r u : Text} (h : tailLength c (r ++ u) = r.length) :
    ofLine (c :: (r ++ u)) = (c :: r) :: ofLine u := by
  rw [ofLine_cons, h, List.take_left, List.drop_left]

theorem ofLine_blank_run {c : Char} {r u : Text} (hc : isBlank c) (hr : Text.isBlank r)
    (hu : u.head?.any isBlank = false) : ofLine (c :: (r ++ u)) = (c :: r) :: ofLine u := by
  apply ofLine_cons_append
  rw [tailLength_of_isBlank hc, takeWhile_append_of_stop (List.all_eq_true.mp hr) hu]

/-- Blanks before anything else are tokens of their own. -/
theorem ofLine_blanks_append {g u : Text} (hg : Text.isBlank g) (hu : u.head?.any isBlank = false) :
    ofLine (g ++ u) = ofLine g ++ ofLine u := by
  cases g with
  | nil => simp
  | cons c r =>
    obtain ⟨hc, hr⟩ := (Bool.and_eq_true _ _).mp hg
    have halone := ofLine_blank_run (u := []) hc hr rfl
    rw [List.append_nil, ofLine_nil] at halone
    rw [List.cons_append, ofLine_blank_run hc hr hu, halone]
    rfl

/-- A name without a dot before it and without a mark behind it. -/
structure IsName (s : Text) : Prop where
  start : s.head?.any isNameStart
  mem : ∀ x ∈ s, isNamePart x

/-- What can stand behind a name without being taken for a part of it. -/
def EndsName (u : Text) : Prop := u.head?.any isNamePart = false ∧ u.head? ≠ some '?'

theorem nameTail_append {r u : Text} (hr : ∀ x ∈ r, isNamePart x) (hu : EndsName u) :
    nameTail (r ++ u) = r.length := by
  unfold nameTail
  rw [takeWhile_append_of_stop hr hu.1]
  dsimp only
  rw [List.drop_left, if_neg hu.2]

theorem ofLine_name_append {s u : Text} (hs : IsName s) (hu : EndsName u) :
    ofLine (s ++ u) = s :: ofLine u := by
  obtain ⟨hstart, hmem⟩ := hs
  cases s with
  | nil => cases hstart
  | cons c r =>
    apply ofLine_cons_append
    rw [tailLength_of_isNameStart (by simpa using hstart)]
    exact nameTail_append (fun x hx => hmem x (List.mem_cons_of_mem _ hx)) hu

theorem ofLine_accessor_append {s u : Text} (hs : IsName s) (hu : EndsName u) :
    ofLine ('.' :: (s ++ u)) = ('.' :: s) :: ofLine u := by
  obtain ⟨hstart, hmem⟩ := hs
  cases s with
  | nil => cases hstart
  | cons c r =>
    apply ofLine_cons_append
    rw [List.cons_append, tailLength_dot (by simpa using hstart),
      nameTail_append (fun x hx => hmem x (List.mem_cons_of_mem _ hx)) hu]
    rfl

end Token

end CodeNav
