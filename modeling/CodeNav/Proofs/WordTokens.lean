import CodeNav.Proofs.Clicks
import CodeNav.Proofs.TokenForms
import CodeNav.Proofs.WholeWords

/-!
Words and the tokens that cover them. A word is cut where a name cannot start with its first
character, so it is one token, on each of its columns, exactly when it starts like a name, has one
character only or goes on with the name that a dollar sign before it belongs to
(`TokenContext.word_click_iff`).
-/

namespace CodeNav

namespace Token

theorem nameTail_le (r : Text) : nameTail r ≤ (r.takeWhile isNamePart).length + 1 := by
  unfold nameTail
  dsimp only
  split <;> omega

/-- What a name goes on behind is a part of it. -/
theorem isNamePart_of_lt_nameTail {u r : Text} (h : u.length < nameTail (u ++ r)) :
    ∀ x ∈ u, isNamePart x := by
  have hshort := nameTail_le (u ++ r)
  rw [List.takeWhile_append] at hshort
  split at hshort
  · next hall =>
    have hself : u.takeWhile isNamePart = u :=
      (List.takeWhile_prefix isNamePart).eq_of_length hall
    exact List.takeWhile_eq_self_iff.mp hself
  · next hcut =>
    have hle := (List.takeWhile_prefix (l := u) isNamePart).length_le
    omega

/-- The part of a name that is no part of a word is a dollar sign. -/
theorem getLast?_eq_dollar {t : Text} (hne : t ≠ []) (ht : ∀ x ∈ t, isNamePart x)
    (hlast : t.getLast?.any isWord = false) : t.getLast? = some '$' := by
  rw [List.getLast?_eq_some_getLast hne] at hlast ⊢
  have hpart : isWord (t.getLast hne) ∨ t.getLast hne = '$' := by
    simpa [isNamePart] using ht _ (List.getLast_mem hne)
  have hword : ¬isWord (t.getLast hne) := by simpa using hlast
  rw [hpart.resolve_left hword]

/-- A name that ends in a dollar sign ends because nothing else goes on with it. -/
theorem head?_drop_nameTail {d : Char} {r : Text}
    (h : (d :: r.take (nameTail r)).getLast? = some '$') :
    (r.drop (nameTail r)).head?.any isNamePart = false := by
  by_cases hmark : (r.drop (r.takeWhile isNamePart).length).head? = some '?'
  · have htail : nameTail r = (r.takeWhile isNamePart).length + 1 := if_pos hmark
    rw [htail, take_add_one_of_head? hmark, ← List.cons_append, List.getLast?_concat] at h
    cases h
  · have htail : nameTail r = (r.takeWhile isNamePart).length := if_neg hmark
    rw [htail, drop_length_takeWhile]
    have hstop := List.head?_dropWhile_not isNamePart r
    cases hrest : (r.dropWhile isNamePart).head? with
    | none => rfl
    | some x => simpa [hrest] using hstop

/-- The characters that a number goes on with. -/
theorem of_mem_take_numberTail {r : Text} : ∀ x ∈ r.take (numberTail r), isWord x ∨ x = '.' := by
  obtain ⟨fraction, letter, hfraction, hletter, htake⟩ := take_numberTail r
  rw [htake]
  exact of_mem_number (mem_takeWhile r) hfraction hletter

theorem getLast?_of_isDigit {t : Text} (hne : t ≠ []) (ht : ∀ x ∈ t, isDigit x) :
    t.getLast?.any isWord := by
  rw [List.getLast?_eq_some_getLast hne]
  exact isWord_of_isDigit (ht _ (List.getLast_mem hne))

/-- A letter in a number stands right behind a digit. -/
theorem getLast?_of_lt_numberTail {c x : Char} {u r : Text} (hc : isDigit c) (hx : isWord x)
    (hletter : isDigit x = false) (h : u.length < numberTail (u ++ x :: r)) :
    (c :: u).getLast?.any isWord := by
  obtain ⟨fraction, letter, hfraction, hlast, htake⟩ := take_numberTail (u ++ x :: r)
  obtain ⟨k, hk⟩ := Nat.exists_eq_add_of_lt h
  have hfront : ∀ y ∈ (u ++ x :: r).takeWhile isDigit ++ fraction, y ≠ x := by
    intro y hy hyx
    rcases List.mem_append.mp hy with hy | hy
    · have hdigit := mem_takeWhile _ y hy
      rw [hyx, hletter] at hdigit
      cases hdigit
    · rcases hfraction with rfl | ⟨r', _, hr', rfl⟩
      · cases hy
      · rcases List.mem_cons.mp hy with hy | hy
        · rw [← hyx, hy] at hx
          revert hx
          decide
        · have hdigit := hr' y hy
          rw [hyx, hletter] at hdigit
          cases hdigit
  -- It is the letter for the type of the number, so all digits stand before it.
  have hu : u = (u ++ x :: r).takeWhile isDigit ++ fraction := by
    rw [hk, Nat.add_assoc, List.take_length_add_append, List.take_succ_cons] at htake
    rcases Text.append_cons_eq_append_iff.mp htake with ⟨s, hs, -⟩ | ⟨a, ha, hrest⟩
    · exact absurd rfl (hfront x (by rw [hs]; simp))
    · rcases hlast with rfl | ⟨y, -, rfl⟩
      · simp at hrest
      · cases a with
        | nil => simpa using ha
        | cons z a => simp at hrest
  rw [hu]
  rcases hfraction with rfl | ⟨r', hne, hr', rfl⟩
  · rw [List.append_nil]
    apply getLast?_of_isDigit (List.cons_ne_nil _ _)
    intro y hy
    rcases List.mem_cons.mp hy with rfl | hy
    · exact hc
    · exact mem_takeWhile _ y hy
  · rw [← List.cons_append, List.getLast?_append_of_ne_nil _ (List.cons_ne_nil _ _),
      List.getLast?_cons_of_ne_nil hne]
    exact getLast?_of_isDigit hne hr'

variable {c : Char} {r u run after : Text} {n : Nat}

/-- Behind a token that ends in a dollar sign no name goes on. -/
theorem Tail.head?_drop (h : Tail c r n) (hquote : c ≠ '"' ∧ c ≠ '\x27')
    (hlast : (c :: r.take n).getLast? = some '$') : (r.drop n).head?.any isNamePart = false := by
  have hmem := List.mem_of_getLast? hlast
  cases h with
  | blanks hc =>
    rw [take_length_takeWhile] at hmem
    have hblank : isBlank '$' := by
      rcases List.mem_cons.mp hmem with heq | hmem
      · exact heq ▸ hc
      · exact mem_takeWhile r _ hmem
    exact absurd hblank (by decide)
  | name => exact head?_drop_nameTail hlast
  | @accessor d r =>
    rw [List.take_succ_cons, List.getLast?_cons_cons] at hlast
    exact head?_drop_nameTail hlast
  | number hc =>
    have hword : isWord '$' ∨ '$' = '.' := by
      rcases List.mem_cons.mp hmem with heq | hmem
      · exact .inl (heq ▸ isWord_of_isDigit hc)
      · exact of_mem_take_numberTail _ hmem
    exact absurd hword (by decide)
  | literal h => exact absurd h (by simp [hquote])
  | sign _ hname =>
    obtain rfl : '$' = c := by simpa using hmem
    exact absurd hname (by decide)

section
variable (hrun : isWordRun run)
include hrun

/-- A token that starts with a word ends behind it exactly when a name can start so. -/
theorem Tail.length_le_iff (h : Tail c r n) (hr : c :: r = run ++ after)
    (hdigit : isDigit c = false) : run.length ≤ n + 1 ↔ isNameStart c ∨ run.length = 1 := by
  obtain ⟨d, word, rfl⟩ := List.exists_cons_of_ne_nil (ne_nil_of_isWordRun hrun)
  rw [List.cons_append] at hr
  obtain ⟨rfl, hrest⟩ := List.cons.inj hr
  have hword : isWord c := mem_of_isWordRun hrun c List.mem_cons_self
  have hmem := isNamePart_of_isWordRun hrun
  rw [List.length_cons, Nat.add_le_add_iff_right]
  cases h with
  | blanks hc =>
    rw [isBlank_of_isWord hword] at hc
    cases hc
  | name hc =>
    rw [hrest]
    exact ⟨fun _ => .inl hc, fun _ => length_le_nameTail fun x hx =>
      hmem x (List.mem_cons_of_mem _ hx)⟩
  | accessor => exact absurd hword (by decide)
  | number hc =>
    rw [hdigit] at hc
    cases hc
  | literal hquote =>
    rcases hquote with rfl | rfl
    · exact absurd hword (by decide)
    · exact absurd hword (by decide)
  | sign _ hname => simp [hname]

/-- Inside of a name a word is behind a dollar sign, and the name has all of it. -/
theorem length_le_of_lt_nameTail (hc : isNameStart c) (hlast : (c :: u).getLast?.any isWord = false)
    (hinside : u.length < nameTail (u ++ (run ++ after))) :
    u.length + run.length ≤ nameTail (u ++ (run ++ after)) ∧ (c :: u).getLast? = some '$' := by
  have hu := isNamePart_of_lt_nameTail hinside
  constructor
  · rw [← List.append_assoc, ← List.length_append]
    apply length_le_nameTail
    intro x hx
    rcases List.mem_append.mp hx with hx | hx
    · exact hu x hx
    · exact isNamePart_of_isWordRun hrun x hx
  · apply getLast?_eq_dollar (List.cons_ne_nil _ _) _ hlast
    intro x hx
    rcases List.mem_cons.mp hx with rfl | hx
    · exact isNamePart_of_isNameStart hc
    · exact hu x hx

/-- A token that starts before a word and goes on into it has all of it: it is an accessor of the
word, or a name with a dollar sign before it. -/
theorem Tail.length_le_of_lt (h : Tail c r n) (hr : r = u ++ (run ++ after))
    (hquote : c ≠ '"' ∧ c ≠ '\x27') (hdigit : run.head?.any isDigit = false)
    (hlast : (c :: u).getLast?.any isWord = false) (hinside : u.length < n) :
    u.length + run.length ≤ n ∧
      (run.head?.any isNameStart ∨ (c :: u).getLast? = some '$') := by
  obtain ⟨x, word, rfl⟩ := List.exists_cons_of_ne_nil (ne_nil_of_isWordRun hrun)
  have hx : isWord x := mem_of_isWordRun hrun x List.mem_cons_self
  cases h with
  | blanks =>
    have hstop : (x :: word ++ after).head?.any isBlank = false := by
      simp [isBlank_of_isWord hx]
    rw [hr, takeWhile_append_of_head hstop] at hinside
    have hle := (List.takeWhile_prefix isBlank (l := u)).length_le
    omega
  | name hc =>
    rw [hr] at hinside ⊢
    obtain ⟨hle, hdollar⟩ := length_le_of_lt_nameTail hrun hc hlast hinside
    exact ⟨hle, .inr hdollar⟩
  | @accessor d r hd =>
    cases u with
    | nil =>
      rw [List.nil_append, List.cons_append] at hr
      obtain ⟨rfl, rfl⟩ := List.cons.inj hr
      have hle : word.length ≤ nameTail (word ++ after) :=
        length_le_nameTail fun y hy =>
          isNamePart_of_isWordRun hrun y (List.mem_cons_of_mem _ hy)
      refine ⟨?_, .inl hd⟩
      simp only [List.length_nil, List.length_cons]
      omega
    | cons e u =>
      rw [List.cons_append] at hr
      obtain ⟨rfl, rfl⟩ := List.cons.inj hr
      rw [List.getLast?_cons_cons] at hlast ⊢
      rw [List.length_cons] at hinside ⊢
      obtain ⟨hle, hdollar⟩ :=
        length_le_of_lt_nameTail hrun hd hlast (Nat.lt_of_add_lt_add_right hinside)
      exact ⟨by omega, .inr hdollar⟩
  | number hc =>
    rw [hr] at hinside
    have hword := getLast?_of_lt_numberTail hc hx (by simpa using hdigit) hinside
    rw [hlast] at hword
    cases hword
  | literal h => exact absurd h (by simp [hquote])
  | sign => omega

end

/-- No token ends in a dollar sign before a part of a name. -/
theorem head?_of_getLast?_flatten {line token : Text} {before after : List Text}
    (hquote : '"' ∉ line ∧ '\x27' ∉ line) (h : ofLine line = before ++ token :: after)
    (hlast : before.flatten.getLast? = some '$') : token.head?.any isNamePart = false := by
  cases before using List.reverseRecOn with
  | nil => cases hlast
  | append_singleton before t =>
    rw [List.append_assoc, List.singleton_append] at h
    obtain ⟨c, r, hline, ht, hrest⟩ := exists_of_ofLine_eq_append h
    have hc : c ≠ '"' ∧ c ≠ '\x27' := by
      constructor
      · rintro rfl
        exact hquote.1 (by simp [hline])
      · rintro rfl
        exact hquote.2 (by simp [hline])
    have hhead : token.head? = (r.drop (tailLength c r)).head? := by
      cases hdrop : r.drop (tailLength c r) with
      | nil => simp [hdrop] at hrest
      | cons d s =>
        rw [hdrop, ofLine_cons] at hrest
        rw [(List.cons.inj hrest).1]
        rfl
    rw [hhead]
    apply (tail_tailLength c r).head?_drop hc
    rwa [List.flatten_concat, ht, List.getLast?_append_of_ne_nil _ (List.cons_ne_nil _ _)] at hlast

section
variable {line before : Text} {front rest : List Text} {token : Text}

/-- The token that the first character of a word belongs to has all of the word exactly when a name
can start with that character, the word has no other one, or a dollar sign stands before it. -/
theorem word_length_le_iff (hquote : '"' ∉ line ∧ '\x27' ∉ line) (hrun : isWordRun run)
    (hdigit : run.head?.any isDigit = false) (hstands : Text.StandsAlone run line before after)
    (htokens : ofLine line = front ++ token :: rest)
    (hstart : front.flatten.length ≤ before.length)
    (hstop : before.length < front.flatten.length + token.length) :
    before.length + run.length ≤ front.flatten.length + token.length ↔
      run.head?.any isNameStart ∨ run.length = 1 ∨ before.getLast? = some '$' := by
  obtain ⟨c, r, hline, htoken, -⟩ := exists_of_ofLine_eq_append htokens
  have hn : token.length = min (tailLength c r) r.length + 1 := by simp [htoken]
  obtain ⟨u, hbefore, hr⟩ : ∃ u, before = front.flatten ++ u ∧ c :: r = u ++ (run ++ after) := by
    have heq := hstands.eq
    rw [hline, List.append_assoc] at heq
    rcases List.append_eq_append_iff.mp heq with ⟨u, hu, hr⟩ | ⟨u, hu, hr⟩
    · exact ⟨u, hu, hr⟩
    · have hnil : u = [] := by
        rw [hu, List.length_append] at hstart
        exact List.length_eq_zero_iff.mp (by omega)
      rw [hnil, List.append_nil] at hu
      rw [hnil, List.nil_append] at hr
      exact ⟨[], by rw [hu, List.append_nil], hr.symm⟩
  rw [hbefore, List.length_append] at hstop ⊢
  have hlength := congrArg List.length hr
  rw [List.length_cons, List.length_append, List.length_append] at hlength
  cases u with
  | nil =>
    rw [List.append_nil] at hbefore ⊢
    rw [List.nil_append] at hr
    have hhead : run.head? = some c := by
      rw [← List.head?_append_of_ne_nil _ (ne_nil_of_isWordRun hrun), ← hr]
      rfl
    have hdollar : front.flatten.getLast? ≠ some '$' := by
      intro hlast
      have hend := head?_of_getLast?_flatten hquote htokens hlast
      have hc : isWord c := by simpa [hhead] using head?_of_isWordRun hrun
      simp [htoken, isNamePart, hc] at hend
    have hiff := (tail_tailLength c r).length_le_iff hrun hr (by simpa [hhead] using hdigit)
    simp only [hhead, Option.any_some, hdollar, or_false]
    rw [← hiff, List.length_nil]
    omega
  | cons d u =>
    rw [List.cons_append] at hr
    obtain ⟨rfl, hrest⟩ := List.cons.inj hr
    rw [List.length_cons] at hstop hlength ⊢
    have hlast : before.getLast? = (c :: u).getLast? := by
      rw [hbefore, List.getLast?_append_of_ne_nil _ (List.cons_ne_nil _ _)]
    have hc : c ≠ '"' ∧ c ≠ '\x27' := by
      constructor
      · rintro rfl
        exact hquote.1 (by simp [hline])
      · rintro rfl
        exact hquote.2 (by simp [hline])
    obtain ⟨hle, hcause⟩ := (tail_tailLength c r).length_le_of_lt hrun hrest hc hdigit
      (hlast ▸ hstands.start) (by omega)
    rw [← hbefore, hlast]
    refine iff_of_true (by omega) ?_
    rcases hcause with hstart | hdollar
    · exact .inl hstart
    · exact .inr (.inr hdollar)

end

end Token

namespace TokenContext

/-- The clicked token has all of the text that stands in its line between `before` and `after`. -/
def Holds (c : TokenContext) (before run after : Text) : Prop :=
  ∃ u v, before = c.preceding.flatten ++ u ∧ c.token = u ++ run ++ v ∧
    after = v ++ c.following.flatten

theorem holds_iff {c : TokenContext} {before run after : Text}
    (h : c.lineText = before ++ run ++ after) :
    c.Holds before run after ↔ c.preceding.flatten.length ≤ before.length ∧
      before.length + run.length ≤ c.preceding.flatten.length + c.token.length := by
  constructor
  · rintro ⟨u, v, rfl, htoken, -⟩
    simp only [htoken, List.length_append]
    omega
  · rintro ⟨hstart, hstop⟩
    rw [lineText, siblings, List.flatten_append, List.flatten_cons, List.append_assoc] at h
    obtain ⟨u, hu⟩ : c.preceding.flatten <+: before :=
      List.prefix_of_prefix_length_le (h ▸ List.prefix_append _ _) (List.prefix_append _ _) hstart
    rw [← hu, List.append_assoc, List.append_cancel_left_eq, ← List.append_assoc] at h
    obtain ⟨v, hv⟩ : u ++ run <+: c.token := by
      apply List.prefix_of_prefix_length_le (List.prefix_append _ _) (h ▸ List.prefix_append _ _)
      rw [← hu, List.length_append] at hstop
      rw [List.length_append]
      omega
    rw [← hv, List.append_assoc (u ++ run), List.append_cancel_left_eq] at h
    exact ⟨u, v, hu.symm, hv.symm, h.symm⟩

theorem getElem?_append_mid {a t b : Text} {k : Nat} (hstart : a.length ≤ k)
    (hstop : k < a.length + t.length) : ∃ x ∈ t, (a ++ t ++ b)[k]? = some x := by
  have hk : k - a.length < t.length := by omega
  refine ⟨t[k - a.length], List.getElem_mem hk, ?_⟩
  rw [List.append_assoc, List.getElem?_append_right hstart, List.getElem?_append_left hk,
    List.getElem?_eq_getElem hk]

section
variable {line run before after : Text} (hquote : '"' ∉ line ∧ '\x27' ∉ line)
  (hrun : isWordRun run) (hstands : Text.StandsAlone run line before after)
  (hletter : run.head?.any isDigit = false)
include hquote hrun hstands hletter

/-- A word that stands in a line without quotes and does not begin with a digit can be clicked on at
each of its columns. The click is on a token that has all of the word exactly when the word begins
with a letter from A to Z or the low line, has no other character, or stands behind a dollar
sign. -/
theorem word_click_iff {column : Int} (hstart : before.length ≤ column)
    (hstop : column < before.length + run.length) (cssClass : Option Text)
    (lineNumber : Option Int) :
    ∃ c, atColumn? line column cssClass lineNumber = some c ∧
      (c.Holds before run after ↔
        run.head?.any Token.isNameStart ∨ run.length = 1 ∨ before.getLast? = some '$') := by
  obtain ⟨k, rfl⟩ := Int.eq_ofNat_of_zero_le (Int.le_trans (Int.natCast_nonneg _) hstart)
  have hlow : before.length ≤ k := by omega
  have hhigh : k < before.length + run.length := by omega
  have hlength : line.length = before.length + run.length + after.length := by
    rw [hstands.eq, List.length_append, List.length_append]
  have hcolumn (j : Nat) (hj : j < line.length) : j < (Token.ofLine line).flatten.length := by
    rwa [Token.flatten_ofLine]
  obtain ⟨front, token, rest, hcover, htokens, hfront, htoken⟩ :=
    exists_covering? (hcolumn k (by omega))
  have hflat : line = front.flatten ++ token ++ rest.flatten := by
    rw [← Token.flatten_ofLine line, htokens]
    simp
  have hblank : Text.isBlank token = false := by
    obtain ⟨x, hx, hline⟩ := getElem?_append_mid (b := rest.flatten) hfront htoken
    obtain ⟨y, hy, hline'⟩ := getElem?_append_mid (b := after) hlow hhigh
    rw [← hflat] at hline
    rw [← hstands.eq, hline, Option.some_inj] at hline'
    rw [Bool.eq_false_iff]
    intro hall
    have hxblank := List.all_eq_true.mp hall x hx
    rw [hline', isBlank_of_isWord (mem_of_isWordRun hrun y hy)] at hxblank
    cases hxblank
  refine ⟨⟨front, token, rest, cssClass, lineNumber⟩, by simp [atColumn?, hcover, hblank], ?_⟩
  rw [holds_iff (by rw [← hstands.eq, hflat]; simp [lineText, siblings])]
  constructor
  · rintro ⟨hle, hreach⟩
    have hne := List.length_pos_of_ne_nil (ne_nil_of_isWordRun hrun)
    exact (Token.word_length_le_iff hquote hrun hletter hstands htokens hle
      (by dsimp only at hreach; omega)).mp hreach
  · intro hcause
    -- The token of the first character reaches over the column, so it is the clicked one.
    obtain ⟨front', token', rest', hcover', htokens', hfront', htoken'⟩ :=
      exists_covering? (hcolumn before.length (by omega))
    have hreach := (Token.word_length_le_iff hquote hrun hletter hstands htokens' hfront'
      htoken').mpr hcause
    have hsame : covering? (front' ++ token' :: rest') k = some (front', token', rest') :=
      covering?_append (by omega) (by omega)
    rw [← htokens', hcover] at hsame
    obtain ⟨rfl, rfl, rfl⟩ : front = front' ∧ token = token' ∧ rest = rest' := by
      simpa using hsame
    exact ⟨hfront', hreach⟩

end

theorem word_click_iff_umlaut :
    ('"' ∉ "fun prüfe(x: T)".toList ∧ '\x27' ∉ "fun prüfe(x: T)".toList) ∧ isWordRun "prüfe" ∧
      Text.StandsAlone "prüfe" "fun prüfe(x: T)" "fun " "(x: T)" ∧
      "prüfe".toList.head?.any isDigit = false ∧
      ∃ c, atColumn? "fun prüfe(x: T)" 7 none none = some c ∧
        c.Holds "fun " "prüfe" "(x: T)" := by
  have hquote : '"' ∉ "fun prüfe(x: T)".toList ∧ '\x27' ∉ "fun prüfe(x: T)".toList := by decide
  have hrun : isWordRun "prüfe" := by decide +kernel
  have hstands : Text.StandsAlone "prüfe" "fun prüfe(x: T)" "fun " "(x: T)" :=
    ⟨rfl, by decide +kernel, by decide +kernel⟩
  have hletter : "prüfe".toList.head?.any isDigit = false := by decide
  have hstart : ("fun ".toList.length : Int) ≤ 7 := by decide
  obtain ⟨c, hc, hiff⟩ := word_click_iff hquote hrun hstands hletter hstart (by decide) none none
  exact ⟨hquote, hrun, hstands, hletter, c, hc, hiff.mpr (.inl (by decide))⟩

/-- A name that begins with a letter of another alphabet falls apart behind it. -/
theorem word_click_of_accent :
    ('"' ∉ "val élan = 1".toList ∧ '\x27' ∉ "val élan = 1".toList) ∧ isWordRun "élan" ∧
      Text.StandsAlone "élan" "val élan = 1" "val " " = 1" ∧
      "élan".toList.head?.any isDigit = false ∧
      Token.ofLine "val élan = 1" = (["val", " ", "é", "lan", " ", "=", " ", "1"] : List Text) ∧
      ∀ c, atColumn? "val élan = 1" 4 none none = some c → ¬c.Holds "val " "élan" " = 1" := by
  have htokens : Token.ofLine "val élan = 1" =
      (["val", " ", "é", "lan", " ", "=", " ", "1"] : List Text) := by
    decide +kernel
  refine ⟨by decide, by decide +kernel, ⟨rfl, by decide +kernel, by decide +kernel⟩, by decide,
    htokens, ?_⟩
  rintro c hc ⟨u, v, -, htoken, -⟩
  have hclick : atColumn? "val élan = 1" 4 none none =
      some ⟨["val", " "], "é", ["lan", " ", "=", " ", "1"], none, none⟩ := by
    decide +kernel
  rw [hclick] at hc
  obtain rfl := Option.some.inj hc
  have hlength : 1 = u.length + (v.length + 4) := by simpa using congrArg List.length htoken
  omega

end TokenContext

end CodeNav
