import CodeNav.Proofs.TokenForms
import Mathlib.Data.List.Chain

/-!
Longest tokens. Each token of a line is the longest one that the line goes on with, and no other
texts that join to the line are cut off so (`Token.ofLine_eq_iff`). A text is one token by itself
exactly when it has the form of one (`Token.ofLine_eq_singleton_iff`). So tokens stay whole when
they are taken apart again, and blanks are never told apart (`Token.ofLine_lossless`).
-/

namespace CodeNav.Token

/-- A name goes on over its mark. -/
theorem length_le_nameTail_mark {r mark : Text} (hr : ∀ x ∈ r, isNamePart x)
    (hmark : mark = [] ∨ mark = ['?']) (v : Text) :
    (r ++ mark).length ≤ nameTail (r ++ mark ++ v) := by
  rcases hmark with rfl | rfl
  · rw [List.append_nil]
    exact length_le_nameTail hr
  · have hstop : ('?' :: v).head?.any isNamePart = false := show isNamePart '?' = false by decide
    rw [List.append_assoc, List.singleton_append]
    unfold nameTail
    rw [takeWhile_append_of_stop hr hstop]
    dsimp only
    rw [List.drop_left, List.length_append]
    exact Nat.le_refl _

theorem fractionLength_dot {r : Text} (h : r.takeWhile isDigit ≠ []) :
    fractionLength ('.' :: r) = (r.takeWhile isDigit).length + 1 := by
  have hpos := List.length_pos_of_ne_nil h
  simp only [fractionLength]
  split
  · omega
  · rfl

theorem fractionLength_of_head? {t : Text} (h : t.head? ≠ some '.') : fractionLength t = 0 := by
  unfold fractionLength
  split
  · exact absurd rfl h
  · rfl

/-- The part of a number before its letter. -/
theorem le_numberTail (t : Text) : (t.takeWhile isDigit).length +
    fractionLength (t.drop (t.takeWhile isDigit).length) ≤ numberTail t := by
  unfold numberTail
  dsimp only
  split
  · exact Nat.le_succ _
  · exact Nat.le_refl _

section
variable {r fraction : Text} (hr : ∀ x ∈ r, isDigit x)
  (hfraction : fraction = [] ∨ ∃ r' ≠ [], (∀ x ∈ r', isDigit x) ∧ fraction = '.' :: r')
include hr hfraction

theorem length_le_numberTail (v : Text) :
    (r ++ fraction).length ≤ numberTail (r ++ (fraction ++ v)) := by
  apply Nat.le_trans _ (le_numberTail _)
  rcases hfraction with rfl | ⟨r', hne, hr', rfl⟩
  · rw [List.append_nil]
    exact Nat.le_trans (length_le_takeWhile hr _) (Nat.le_add_right _ _)
  · have hdigits := length_le_takeWhile hr' v
    have hsome : (r' ++ v).takeWhile isDigit ≠ [] := by
      intro hnil
      rw [hnil] at hdigits
      exact hne (List.length_eq_zero_iff.mp (Nat.le_zero.mp hdigits))
    have hstop : ('.' :: (r' ++ v)).head?.any isDigit = false :=
      show isDigit '.' = false by decide
    rw [List.cons_append, takeWhile_append_of_stop hr hstop, List.drop_left,
      fractionLength_dot hsome, List.length_append, List.length_cons]
    omega

theorem numberTail_letter {x : Char} (hx : x ∈ "fFlLdD".toList) (v : Text) :
    numberTail (r ++ (fraction ++ x :: v)) = (r ++ fraction).length + 1 := by
  have hdigit : (x :: v).head?.any isDigit = false := by
    have hall : "fFlLdD".toList.all (fun x => !isDigit x) := by decide
    simpa using List.all_eq_true.mp hall x hx
  have hdot : (x :: v).head? ≠ some '.' := by
    rintro heq
    rw [Option.some.inj heq] at hx
    exact absurd hx (by decide)
  have htake : (r ++ (fraction ++ x :: v)).takeWhile isDigit = r := by
    apply takeWhile_append_of_stop hr
    rcases hfraction with rfl | ⟨r', -, -, rfl⟩
    · exact hdigit
    · exact (by decide : isDigit '.' = false)
  have hlength : fractionLength (fraction ++ x :: v) = fraction.length := by
    rcases hfraction with rfl | ⟨r', hne, hr', rfl⟩
    · exact fractionLength_of_head? hdot
    · have hdigits := takeWhile_append_of_stop hr' hdigit
      rw [List.cons_append, fractionLength_dot (by rwa [hdigits]), hdigits, List.length_cons]
  have hrest : (r ++ (fraction ++ x :: v)).drop (r.length + fraction.length) = x :: v := by
    rw [← List.append_assoc, ← List.length_append, List.drop_left]
  unfold numberTail
  dsimp only
  rw [htake, List.drop_left, hlength, hrest, if_pos (by simpa using hx), List.length_append]

end

theorem QuotedTail.length_le {quote : Char} {u : Text} (h : QuotedTail quote u)
    (hquote : quote ≠ '\\') (v : Text) : u.length ≤ literalTail quote (u ++ v) := by
  induction h with
  | unclosed => exact Nat.zero_le _
  | closed => simp [literalTail, hquote]
  | plain hplain hescape _ ih => simpa [literalTail, hplain, hescape] using ih
  | escaped hline _ ih => simpa [literalTail, hline] using ih

theorem Form.ne_nil {t : Text} (h : Form t) : t ≠ [] := by
  cases h with
  | blanks hne => exact hne
  | name | accessor | number | literal | sign => exact List.cons_ne_nil _ _

/-- A text with the form of a token is taken up to its end, whatever stands behind it. -/
theorem Form.length_le {c : Char} {u : Text} (h : Form (c :: u)) (v : Text) :
    u.length ≤ tailLength c (u ++ v) := by
  generalize ht : c :: u = t at h
  cases h with
  | blanks _ hblank =>
    subst ht
    obtain ⟨hc, hu⟩ := (Bool.and_eq_true _ _).mp hblank
    rw [tailLength_of_isBlank hc]
    exact length_le_takeWhile (List.all_eq_true.mp hu) v
  | name hc hr hmark =>
    obtain ⟨rfl, rfl⟩ := List.cons.inj ht
    rw [tailLength_of_isNameStart hc]
    exact length_le_nameTail_mark hr hmark v
  | accessor hc hr hmark =>
    obtain ⟨rfl, rfl⟩ := List.cons.inj ht
    rw [List.cons_append, List.cons_append, tailLength_dot hc]
    exact Nat.succ_le_succ (length_le_nameTail_mark hr hmark v)
  | number hc hr hfraction hletter =>
    obtain ⟨rfl, rfl⟩ := List.cons.inj ht
    rw [tailLength_of_isDigit hc]
    rcases hletter with rfl | ⟨x, hx, rfl⟩
    · simpa using length_le_numberTail hr hfraction v
    · have hexact := numberTail_letter hr hfraction hx v
      simpa [Nat.add_assoc] using Nat.le_of_eq hexact.symm
  | literal hquote hr =>
    obtain ⟨rfl, rfl⟩ := List.cons.inj ht
    rw [tailLength_of_quote hquote]
    refine hr.length_le ?_ v
    rintro rfl
    exact absurd hquote (by decide)
  | sign =>
    obtain ⟨-, rfl⟩ := List.cons.inj ht
    exact Nat.zero_le _

/-- A text is one token exactly when it has the form of one. -/
theorem ofLine_eq_singleton_iff {t : Text} : ofLine t = [t] ↔ Form t := by
  constructor
  · intro h
    exact form_of_mem_ofLine t (h ▸ List.mem_singleton_self t)
  · intro h
    obtain ⟨c, u, rfl⟩ := List.exists_cons_of_ne_nil h.ne_nil
    have hall : u.length ≤ tailLength c u := by simpa using h.length_le []
    rw [ofLine_cons, List.take_of_length_le hall, List.drop_of_length_le hall, ofLine_nil]

/-- The longest of the tokens that a text starts with. -/
structure IsLongest (text t : Text) : Prop where
  form : Form t
  isPrefix : t <+: text
  longest : ∀ s, Form s → s <+: text → s.length ≤ t.length

theorem IsLongest.unique {text s t : Text} (hs : IsLongest text s) (ht : IsLongest text t) :
    s = t := by
  have hle := ht.longest s hs.form hs.isPrefix
  have hpre := List.prefix_of_prefix_length_le hs.isPrefix ht.isPrefix hle
  exact hpre.eq_of_length_le (hs.longest t ht.form ht.isPrefix)

/-- The first token of a text is the longest one. -/
theorem isLongest_head (c : Char) (r : Text) :
    IsLongest (c :: r) (c :: r.take (tailLength c r)) where
  form := (tail_tailLength c r).form
  isPrefix := List.cons_prefix_cons.mpr ⟨rfl, List.take_prefix _ _⟩
  longest := by
    intro s hs hpre
    obtain ⟨d, u, rfl⟩ := List.exists_cons_of_ne_nil hs.ne_nil
    obtain ⟨rfl, v, rfl⟩ := List.cons_prefix_cons.mp hpre
    have hle := hs.length_le v
    simp only [List.length_cons, List.length_take, List.length_append]
    omega

theorem isLongest_of_ofLine_eq {line t : Text} {before after : List Text}
    (h : ofLine line = before ++ t :: after) : IsLongest (t ++ after.flatten) t := by
  obtain ⟨c, r, -, rfl, rfl⟩ := exists_of_ofLine_eq_append h
  rw [flatten_ofLine, List.cons_append, List.take_append_drop]
  exact isLongest_head c r

/-- The tokens of a line are the texts that join to it of which each is the longest token that the
rest of the line starts with. -/
theorem ofLine_eq_iff {line : Text} {tokens : List Text} :
    ofLine line = tokens ↔ tokens.flatten = line ∧
      ∀ before t after, tokens = before ++ t :: after → IsLongest (t ++ after.flatten) t := by
  constructor
  · rintro rfl
    exact ⟨flatten_ofLine line, fun _ _ _ h => isLongest_of_ofLine_eq h⟩
  · rintro ⟨rfl, hlongest⟩
    induction tokens with
    | nil => exact ofLine_nil
    | cons t tokens ih =>
      have hfirst := hlongest [] t tokens rfl
      have hrest := ih fun before s after h => hlongest (t :: before) s after (by rw [h]; rfl)
      obtain ⟨c, u, rfl⟩ := List.exists_cons_of_ne_nil hfirst.form.ne_nil
      rw [List.cons_append] at hfirst
      have hsame := hfirst.unique (isLongest_head c _)
      have htake := (List.cons.inj hsame).2
      have hdrop : (u ++ tokens.flatten).drop (tailLength c (u ++ tokens.flatten)) =
          tokens.flatten := by
        rw [← List.append_cancel_left_eq u]
        nth_rewrite 1 [htake]
        exact List.take_append_drop _ _
      rw [List.flatten_cons, List.cons_append, ofLine_cons, hdrop, ← hsame, hrest]

/-- Blanks next to each other are in one token. -/
theorem not_isBlank_of_isBlank {line s t : Text} {before after : List Text}
    (h : ofLine line = before ++ s :: t :: after) (hs : Text.isBlank s) : ¬Text.isBlank t := by
  intro ht
  have hfirst := isLongest_of_ofLine_eq h
  have hmem : t ∈ ofLine line := by simp [h]
  have hboth : Form (s ++ t) := by
    refine .blanks (List.append_ne_nil_of_left_ne_nil hfirst.form.ne_nil t) ?_
    rw [Text.isBlank, List.all_append]
    exact (Bool.and_eq_true _ _).mpr ⟨hs, ht⟩
  have hpre : s ++ t <+: s ++ (t :: after).flatten := by simp
  have hle := hfirst.longest _ hboth hpre
  rw [List.length_append] at hle
  exact (form_of_mem_ofLine t hmem).ne_nil (List.length_eq_zero_iff.mp (by omega))

/-- Nothing of a line is lost and nothing is added: its tokens join to it and none is empty. Blanks
next to each other make up one token, and each token stays whole when it is taken apart again. All
this would hold of shorter tokens too, but each of these is the longest one that the rest of the
line starts with. -/
theorem ofLine_lossless (line : Text) :
    (ofLine line).flatten = line ∧ [] ∉ ofLine line ∧
      (ofLine line).IsChain (fun s t => ¬(Text.isBlank s ∧ Text.isBlank t)) ∧
      (∀ t ∈ ofLine line, t.head?.any isBlank → Text.isBlank t) ∧
      (∀ t ∈ ofLine line, ofLine t = [t]) ∧
      ∀ before t after, ofLine line = before ++ t :: after → IsLongest (t ++ after.flatten) t := by
  have hform : ∀ t ∈ ofLine line, Form t := form_of_mem_ofLine
  refine ⟨flatten_ofLine line, fun hnil => (hform [] hnil).ne_nil rfl, ?_, isBlank_of_mem_ofLine,
    fun t ht => ofLine_eq_singleton_iff.mpr (hform t ht), fun _ _ _ => isLongest_of_ofLine_eq⟩
  rw [List.isChain_iff_forall_rel_of_append_cons_cons]
  rintro s t before after h ⟨hs, ht⟩
  exact not_isBlank_of_isBlank h hs ht

/-- A literal that a backslash leaves open, and a number before a name. -/
theorem ofLine_lossless_open :
    ofLine "1.5f.x \"a\\\n" = (["1.5f", ".x", " ", "\"a", "\\", "\n"] : List Text) ∧
      ofLine "\"a" = (["\"a"] : List Text) ∧ IsLongest ".x \"a\\\n" ".x" := by
  have htokens : ofLine "1.5f.x \"a\\\n" =
      (["1.5f", ".x", " ", "\"a", "\\", "\n"] : List Text) := by
    decide +kernel
  obtain ⟨-, -, -, -, hstable, hlongest⟩ := ofLine_lossless "1.5f.x \"a\\\n"
  refine ⟨htokens, hstable _ ?_, hlongest ["1.5f"] ".x" [" ", "\"a", "\\", "\n"] htokens⟩
  rw [htokens]
  decide

end CodeNav.Token
