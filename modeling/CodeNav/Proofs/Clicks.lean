import CodeNav.Proofs.Tokens
import CodeNav.Token.Context
import Mathlib.Algebra.Ring.Nat

namespace CodeNav.TokenContext

variable {before after tokens : List Text} {token line : Text} {cssClass : Option Text}
  {lineNumber : Option Int} {c : TokenContext}

theorem ofSiblings?_append (cssClass : Option Text) (lineNumber : Option Int) :
    ofSiblings? (before ++ token :: after) before.length cssClass lineNumber =
      some ⟨before, token, after, cssClass, lineNumber⟩ := by
  simp [ofSiblings?]

theorem ofSiblings?_eq_none_iff {i : Int} :
    ofSiblings? tokens i cssClass lineNumber = none ↔ i < 0 ∨ tokens.length ≤ i := by
  cases i with
  | ofNat k =>
    have hdrop : ofSiblings? tokens (.ofNat k) cssClass lineNumber = none ↔ tokens.drop k = [] := by
      cases h : tokens.drop k <;> simp [ofSiblings?, h]
    rw [hdrop, List.drop_eq_nil_iff]
    simp only [Int.ofNat_eq_natCast]
    omega
  | negSucc k => exact iff_of_true rfl (.inl (Int.negSucc_lt_zero k))

theorem ofSiblings?_eq_some_iff {i : Int} :
    ofSiblings? tokens i cssClass lineNumber = some c ↔
      ∃ before token after, tokens = before ++ token :: after ∧ i = before.length ∧
        c = ⟨before, token, after, cssClass, lineNumber⟩ := by
  constructor
  · intro h
    unfold ofSiblings? at h
    cases i with
    | ofNat k =>
      cases hdrop : tokens.drop k with
      | nil => simp [hdrop] at h
      | cons t r =>
        have hk : k < tokens.length := by
          rw [← Nat.not_le, ← List.drop_eq_nil_iff, hdrop]
          exact List.cons_ne_nil t r
        refine ⟨tokens.take k, t, r, ?_, ?_, ?_⟩
        · rw [← hdrop, List.take_append_drop]
        · rw [List.length_take_of_le (Nat.le_of_lt hk)]
          rfl
        · simpa [hdrop, eq_comm] using h
    | negSucc k => cases h
  · rintro ⟨before, token, after, rfl, rfl, rfl⟩
    exact ofSiblings?_append cssClass lineNumber

/-- A token covers the columns from where the tokens before it end. -/
theorem covering?_append {column : Nat} (hstart : before.flatten.length ≤ column)
    (hend : column < before.flatten.length + token.length) :
    covering? (before ++ token :: after) column = some (before, token, after) := by
  induction before generalizing column with
  | nil =>
    have hcolumn : column < token.length := by simpa using hend
    simp [covering?, hcolumn]
  | cons t before ih =>
    rw [List.flatten_cons, List.length_append] at hstart hend
    have hbehind : ¬column < t.length := by omega
    have hrest : covering? (before ++ token :: after) (column - t.length) =
        some (before, token, after) := ih (by omega) (by omega)
    simp [covering?, hbehind, hrest]

theorem covering?_eq_some_iff {column : Nat} :
    covering? tokens column = some (before, token, after) ↔ tokens = before ++ token :: after ∧
      before.flatten.length ≤ column ∧ column < before.flatten.length + token.length := by
  constructor
  · intro h
    induction tokens generalizing before column with
    | nil => cases h
    | cons t tokens ih =>
      unfold covering? at h
      split at h
      · next hcolumn =>
        obtain ⟨rfl, rfl, rfl⟩ : [] = before ∧ t = token ∧ tokens = after := by simpa using h
        simpa using hcolumn
      · next hbehind =>
        obtain ⟨⟨a, x, b⟩, hrest, hsame⟩ := Option.map_eq_some_iff.mp h
        obtain ⟨rfl, rfl, rfl⟩ : t :: a = before ∧ x = token ∧ b = after := by simpa using hsame
        obtain ⟨rfl, hbounds⟩ := ih hrest
        rw [List.flatten_cons, List.length_append]
        exact ⟨rfl, by omega⟩
  · rintro ⟨rfl, hstart, hend⟩
    exact covering?_append hstart hend

theorem covering?_eq_none_iff {column : Nat} :
    covering? tokens column = none ↔ tokens.flatten.length ≤ column := by
  induction tokens generalizing column with
  | nil => simp [covering?]
  | cons t tokens ih =>
    rw [List.flatten_cons, List.length_append]
    by_cases hfirst : column < t.length
    · simp only [covering?, if_pos hfirst, reduceCtorEq, false_iff]
      omega
    · simp only [covering?, if_neg hfirst, Option.map_eq_none_iff, ih]
      omega

/-- Every column of a line is covered by a token. -/
theorem exists_covering? {column : Nat} (h : column < tokens.flatten.length) :
    ∃ before token after, covering? tokens column = some (before, token, after) ∧
      tokens = before ++ token :: after ∧ before.flatten.length ≤ column ∧
      column < before.flatten.length + token.length := by
  cases hcover : covering? tokens column with
  | none => exact absurd (covering?_eq_none_iff.mp hcover) (Nat.not_le.mpr h)
  | some x => exact ⟨x.1, x.2.1, x.2.2, rfl, covering?_eq_some_iff.mp hcover⟩

/-- A click on a column is one on the token that covers it. -/
theorem atColumn?_eq_ofSiblings? {column : Int} (hblank : ¬Text.isBlank token)
    (hline : Token.ofLine line = before ++ token :: after)
    (hstart : (before.flatten.length : Int) ≤ column)
    (hend : column < before.flatten.length + token.length) (cssClass : Option Text)
    (lineNumber : Option Int) :
    atColumn? line column cssClass lineNumber =
      ofSiblings? (Token.ofLine line) before.length cssClass lineNumber := by
  obtain ⟨k, rfl⟩ := Int.eq_ofNat_of_zero_le (Int.le_trans (Int.natCast_nonneg _) hstart)
  have hcover : covering? (before ++ token :: after) k = some (before, token, after) :=
    covering?_append (by omega) (by omega)
  rw [hline, ofSiblings?_append]
  simp [atColumn?, hline, hcover, hblank]

theorem atColumn?_eq_some_iff {column : Int} :
    atColumn? line column cssClass lineNumber = some c ↔
      ∃ before token after, Token.ofLine line = before ++ token :: after ∧
        before.flatten.length ≤ column ∧ column < before.flatten.length + token.length ∧
        ¬Text.isBlank token ∧ c = ⟨before, token, after, cssClass, lineNumber⟩ := by
  constructor
  · intro h
    unfold atColumn? at h
    split at h
    · cases h
    · next k =>
      split at h
      · next before token after hcover =>
        split at h
        · cases h
        · next hblank =>
          obtain ⟨htokens, hstart, hend⟩ := covering?_eq_some_iff.mp hcover
          exact ⟨before, token, after, htokens, Int.ofNat_le.mpr hstart, Int.ofNat_lt.mpr hend,
            hblank, (Option.some.inj h).symm⟩
      · cases h
  · rintro ⟨before, token, after, htokens, hstart, hend, hblank, rfl⟩
    rw [atColumn?_eq_ofSiblings? hblank htokens hstart hend, htokens, ofSiblings?_append]

/-- A click on a column is one on a token of the line that shows something. -/
theorem of_atColumn? {column : Int} (h : atColumn? line column cssClass lineNumber = some c) :
    c.siblings = Token.ofLine line ∧ Text.isBlank c.token = false ∧ c.cssClass = cssClass := by
  obtain ⟨before, token, after, htokens, -, -, hblank, rfl⟩ := atColumn?_eq_some_iff.mp h
  exact ⟨htokens.symm, by simpa using hblank, rfl⟩

theorem lineText_of_atColumn? {column : Int}
    (h : atColumn? line column cssClass lineNumber = some c) : c.lineText = line := by
  rw [lineText, (of_atColumn? h).1, Token.flatten_ofLine]

/-- The column of the first character of the clicked token. -/
def startColumn (c : TokenContext) : Nat := (c.preceding.map List.length).sum

structure Covers (c : TokenContext) (column : Int) : Prop where
  start : c.startColumn ≤ column
  stop : column < c.startColumn + c.token.length

theorem startColumn_eq (c : TokenContext) : c.startColumn = c.preceding.flatten.length :=
  List.length_flatten.symm

/-- The clicks on a column, told from what they are on. -/
theorem atColumn?_eq_some_iff_covers {column : Int} :
    atColumn? line column cssClass lineNumber = some c ↔
      c.siblings = Token.ofLine line ∧ c.Covers column ∧ ¬Text.isBlank c.token ∧
        c.cssClass = cssClass ∧ c.lineNumber = lineNumber := by
  rw [atColumn?_eq_some_iff]
  constructor
  · rintro ⟨before, token, after, htokens, hstart, hend, hblank, rfl⟩
    refine ⟨htokens.symm, ⟨?_, ?_⟩, hblank, rfl, rfl⟩
    · rwa [startColumn_eq]
    · rwa [startColumn_eq]
  · rintro ⟨hsiblings, ⟨hstart, hend⟩, hblank, rfl, rfl⟩
    rw [startColumn_eq] at hstart hend
    exact ⟨_, _, _, hsiblings.symm, hstart, hend, hblank, rfl⟩

theorem covers_natCast_iff {k : Nat} : c.Covers k ↔
    covering? c.siblings k = some (c.preceding, c.token, c.following) := by
  rw [siblings, covering?_eq_some_iff, ← startColumn_eq]
  constructor
  · rintro ⟨hstart, hstop⟩
    exact ⟨rfl, by omega, by omega⟩
  · rintro ⟨-, hstart, hstop⟩
    exact ⟨by omega, by omega⟩

/-- A column is covered by one token only. -/
theorem exists_covers_iff {k : Nat} (hcover : covering? tokens k = some (before, token, after))
    (P : Text → Prop) :
    (∃ c : TokenContext, c.siblings = tokens ∧ c.Covers k ∧ P c.token) ↔ P token := by
  constructor
  · rintro ⟨c, hsiblings, hcovers, hP⟩
    rw [covers_natCast_iff, hsiblings, hcover] at hcovers
    obtain ⟨-, rfl, -⟩ : before = c.preceding ∧ token = c.token ∧ after = c.following := by
      simpa using hcovers
    exact hP
  · intro hP
    have hsiblings := (covering?_eq_some_iff.mp hcover).1
    refine ⟨⟨before, token, after, none, none⟩, hsiblings.symm, ?_, hP⟩
    rwa [covers_natCast_iff, siblings, ← hsiblings]

/-- There is no click outside of the line and on the columns of blank tokens. -/
theorem atColumn?_eq_none_iff {column : Int} :
    atColumn? line column cssClass lineNumber = none ↔ column < 0 ∨ line.length ≤ column ∨
      ∃ c : TokenContext, c.siblings = Token.ofLine line ∧ c.Covers column ∧
        Text.isBlank c.token := by
  cases column with
  | negSucc k => exact iff_of_true rfl (.inl (Int.negSucc_lt_zero k))
  | ofNat k =>
    cases hcover : covering? (Token.ofLine line) k with
    | none =>
      have hout : line.length ≤ k := by
        rwa [covering?_eq_none_iff, Token.flatten_ofLine] at hcover
      exact iff_of_true (by simp [atColumn?, hcover]) (.inr (.inl (Int.ofNat_le.mpr hout)))
    | some x =>
      obtain ⟨before, token, after⟩ := x
      have hlow : ¬(k : Int) < 0 := Int.not_lt.mpr (Int.natCast_nonneg k)
      have hhigh : ¬line.length ≤ k := by
        rw [← Token.flatten_ofLine line, ← covering?_eq_none_iff, hcover]
        exact Option.some_ne_none _
      rw [Int.ofNat_eq_natCast, exists_covers_iff hcover fun t => Text.isBlank t]
      simp [atColumn?, hcover, hlow, hhigh]

/-- The number of the clicked token among those of its line with the same text, counted from
one. -/
def occurrence (c : TokenContext) : Nat := (c.preceding ++ [c.token]).count c.token

theorem occurrence_eq (c : TokenContext) : c.occurrence = c.preceding.count c.token + 1 := by
  simp [occurrence]

theorem occurrence?_append (before : List Text) (token : Text) (after : List Text) :
    occurrence? token (before ++ token :: after) (before.count token + 1) =
      some (before, token, after) := by
  induction before with
  | nil => simp [occurrence?]
  | cons t before ih =>
    by_cases ht : t = token
    · rw [ht, List.count_cons_self]
      simp [occurrence?, ih]
    · rw [List.count_cons_of_ne ht]
      simp [occurrence?, ht, ih]

theorem ofToken?_occurrence (hsiblings : c.siblings = Token.ofLine line) :
    ofToken? line c.token c.occurrence c.cssClass c.lineNumber = some c := by
  have hfound := occurrence?_append c.preceding c.token c.following
  rw [← siblings, hsiblings] at hfound
  rw [occurrence_eq]
  show (occurrence? c.token (Token.ofLine line) (c.preceding.count c.token + 1)).map _ = _
  rw [hfound]
  rfl

/-- A column leads to no click exactly when it is outside of the line or the token that covers it is
blank. Every other one leads to the click on the token that covers it, as do all columns of the
token; and that is the click on the token with this text and this number of its occurrence. -/
theorem column_click (line : Text) (column : Int) (cssClass : Option Text)
    (lineNumber : Option Int) :
    (atColumn? line column cssClass lineNumber = none ↔ column < 0 ∨ line.length ≤ column ∨
      ∃ c : TokenContext, c.siblings = Token.ofLine line ∧ c.Covers column ∧
        Text.isBlank c.token) ∧
    ∀ c, atColumn? line column cssClass lineNumber = some c →
      c.siblings = Token.ofLine line ∧ c.lineText = line ∧ c.Covers column ∧
        (∀ k, c.Covers k → atColumn? line k cssClass lineNumber = some c) ∧
        ofToken? line c.token c.occurrence cssClass lineNumber = some c := by
  refine ⟨atColumn?_eq_none_iff, fun c hc => ?_⟩
  have hline := lineText_of_atColumn? hc
  obtain ⟨hsiblings, hcovers, hshown, rfl, rfl⟩ := atColumn?_eq_some_iff_covers.mp hc
  refine ⟨hsiblings, hline, hcovers, fun k hk => ?_, ofToken?_occurrence hsiblings⟩
  exact atColumn?_eq_some_iff_covers.mpr ⟨hsiblings, hk, hshown, rfl, rfl⟩

def secondId : TokenContext := ⟨["R", ".id", "+", "R"], ".id", [], none, some 3⟩

theorem column_click_second : atColumn? "R.id+R.id" 7 none (some 3) = some secondId ∧
    secondId.Covers 6 ∧ atColumn? "R.id+R.id" 6 none (some 3) = some secondId ∧
    ofToken? "R.id+R.id" ".id" 2 none (some 3) = some secondId := by
  have hclick : atColumn? "R.id+R.id" 7 none (some 3) = some secondId := by decide +kernel
  have hcovers : secondId.Covers 6 := ⟨by decide, by decide⟩
  obtain ⟨-, -, -, hcolumns, htoken⟩ := (column_click "R.id+R.id" 7 none (some 3)).2 _ hclick
  exact ⟨hclick, hcovers, hcolumns 6 hcovers, htoken⟩

end CodeNav.TokenContext
