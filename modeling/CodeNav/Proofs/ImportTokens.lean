import CodeNav.Proofs.Clicks
import CodeNav.Proofs.LinkedNames
import CodeNav.Proofs.Siblings
import CodeNav.Proofs.TokenForms

/-!
The tokens of an import line, told from its parts: those before the name, one for each segment of
the name, and those behind it. A click on a segment is one on its token
(`exists_segment_click`), and the tokens up to it spell the name up to there
(`directoryPackage_segments`).
-/

namespace CodeNav

/-- A segment of a name: a letter or the low line, and any word characters behind it. -/
structure IsSegment (s : Text) : Prop where
  start : s.head?.any fun c => c.isAlpha || c = '_'
  isWordRun : isWordRun s

instance (s : Text) : Decidable (IsSegment s) :=
  decidable_of_iff ((s.head?.any fun c => c.isAlpha || c = '_') ∧ isWordRun s)
    ⟨fun h => ⟨h.1, h.2⟩, fun h => ⟨h.start, h.isWordRun⟩⟩

theorem IsSegment.isName {s : Text} (h : IsSegment s) : Token.IsName s := by
  obtain ⟨hstart, hword⟩ := h
  refine ⟨?_, Token.isNamePart_of_isWordRun hword⟩
  obtain ⟨c, hc, hletter⟩ := (Option.any_eq_true _ _).mp hstart
  exact (Option.any_eq_true _ _).mpr ⟨c, hc, by simp_all [Token.isNameStart]⟩

theorem Text.join_cons (c : Char) (s : Text) (ss : List Text) :
    join [c] (s :: ss) = s ++ ss.flatMap (c :: ·) := by
  induction ss generalizing s with
  | nil => simp [join]
  | cons t ss ih =>
    have ih : [c].intercalate (t :: ss) = t ++ ss.flatMap (c :: ·) := ih t
    rw [join, List.intercalate_cons_of_ne_nil (List.cons_ne_nil _ _), ih]
    simp

theorem join_dot_cons (s : Text) (ss : List Text) :
    Text.join "." (s :: ss) = s ++ ss.flatMap ('.' :: ·) :=
  Text.join_cons '.' s ss

theorem swap_join {ss : List Text} (h : ∀ s ∈ ss, IsSegment s) :
    Text.swap '.' '/' (Text.join "." ss) = Text.join "/" ss := by
  have hsame : ∀ s ∈ ss, Text.swap '.' '/' s = s := fun s hs =>
    ImportRules.swap_dot_of_isWordRun (h s hs).isWordRun
  cases ss with
  | nil => rfl
  | cons s ss =>
    have hrest : Text.swap '.' '/' (ss.flatMap ('.' :: ·)) = ss.flatMap ('/' :: ·) := by
      rw [Text.swap, List.map_flatMap]
      refine List.flatMap_congr fun t ht => ?_
      exact congrArg ('/' :: ·) (hsame t (List.mem_cons_of_mem s ht))
    calc Text.swap '.' '/' (Text.join "." (s :: ss))
        = Text.swap '.' '/' s ++ Text.swap '.' '/' (ss.flatMap ('.' :: ·)) := by
          rw [join_dot_cons, Text.swap, List.map_append]
          rfl
      _ = s ++ ss.flatMap ('/' :: ·) := by rw [hsame s List.mem_cons_self, hrest]
      _ = Text.join "/" (s :: ss) := (Text.join_cons '/' s ss).symm

theorem isQualifiedName_join {ss : List Text} (hne : ss ≠ []) (h : ∀ s ∈ ss, IsSegment s) :
    isQualifiedName (Text.join "." ss) := by
  induction ss with
  | nil => exact absurd rfl hne
  | cons s ss ih =>
    obtain ⟨hs, hss⟩ := List.forall_mem_cons.mp h
    have hword := isQualifiedName_of_isWordRun hs.isWordRun
    cases ss with
    | nil => simpa [Text.join] using hword
    | cons t ss =>
      have hjoin : Text.join "." (s :: t :: ss) = s ++ '.' :: Text.join "." (t :: ss) := by
        rw [join_dot_cons, join_dot_cons, List.flatMap_cons]
        rfl
      rw [hjoin]
      exact isQualifiedName_append_iff.mpr ⟨hword, ih (List.cons_ne_nil _ _) hss⟩

inductive ImportLead : Text → Prop where
  | mk {front gap modifier : Text} {words : List Text} (hfront : Text.isBlank front)
      (hgap : IsGap gap) (hmodifier : Modifier modifier words) :
      ImportLead (front ++ "import" ++ gap ++ modifier)

/-- What stands behind the name of an import, with the alias that it gives. -/
inductive ImportTail : Option Text → Text → Prop where
  | mk {rename close : Text} {alias? : Option Text} (hrename : Renaming rename alias?)
      (hclose : IsClose close) : ImportTail alias? (rename ++ close)

/-- The line declares the import, with the name of it between `lead` and `tail`. -/
structure ImportLine (line : Text) (i : ImportStatement) (lead tail : Text) : Prop where
  isImport : ImportStatement.ofLine? line = some i
  eq : line = lead ++ i.name ++ tail
  lead : ImportLead lead
  tail : ImportTail i.alias? tail

theorem exists_importLine {line : Text} {i : ImportStatement}
    (h : ImportStatement.ofLine? line = some i) : ∃ lead tail, ImportLine line i lead tail := by
  cases ImportStatement.ofLine?_eq_some_iff.mp h with
  | mk hfront hgap hmodifier hname hrename hclose =>
    exact ⟨_, _, h, by simp, .mk hfront hgap hmodifier, .mk hrename hclose⟩

namespace Token

theorem isBlank_of_mem {g t : Text} (hg : Text.isBlank g) (ht : t ∈ ofLine g) : Text.isBlank t := by
  refine List.all_eq_true.mpr fun c hc => List.all_eq_true.mp hg c ?_
  rw [← flatten_ofLine g]
  exact List.mem_flatten.mpr ⟨t, ht, hc⟩

theorem isNamePart_of_isBlank {c : Char} (h : isBlank c) : isNamePart c = false := by
  by_contra hpart
  rw [isBlank_of_isNamePart (by simpa using hpart)] at h
  cases h

/-- Blanks end a name. -/
theorem endsName_blank {c : Char} (hc : isBlank c) (u : Text) : EndsName (c :: u) := by
  refine ⟨isNamePart_of_isBlank hc, ?_⟩
  intro hmark
  obtain rfl : c = '?' := by simpa using hmark
  revert hc
  decide

theorem endsName_of_isGap {g : Text} (hg : IsGap g) (u : Text) : EndsName (g ++ u) := by
  obtain ⟨c, r, rfl⟩ := List.exists_cons_of_ne_nil hg.ne_nil
  exact endsName_blank (List.all_eq_true.mp hg.isBlank c List.mem_cons_self) (r ++ u)

theorem endsName_blanks_append {g u : Text} (hg : Text.isBlank g) (hu : EndsName u) :
    EndsName (g ++ u) := by
  cases g with
  | nil => exact hu
  | cons c r => exact endsName_blank (List.all_eq_true.mp hg c List.mem_cons_self) (r ++ u)

/-- A word and the blanks behind it are tokens of their own. -/
theorem ofLine_word_gap {s gap u : Text} (hs : IsName s) (hgap : IsGap gap)
    (hu : u.head?.any isBlank = false) :
    ofLine (s ++ (gap ++ u)) = s :: (ofLine gap ++ ofLine u) := by
  rw [ofLine_name_append hs (endsName_of_isGap hgap u), ofLine_blanks_append hgap.isBlank hu]

end Token

def IsLeadToken (t : Text) : Prop := Text.isBlank t ∨ t = "import".toList ∨ t = "static".toList

theorem isName_import : Token.IsName "import" := IsSegment.isName (by decide)

theorem isName_static : Token.IsName "static" := IsSegment.isName (by decide)

theorem isName_as : Token.IsName "as" := IsSegment.isName (by decide)

theorem ImportLead.exists_tokens {lead : Text} (h : ImportLead lead) :
    ∃ ts : List Text, ts.flatten = lead ∧ (∀ t ∈ ts, IsLeadToken t) ∧
      ∀ u : Text, u.head?.any isBlank = false →
        Token.ofLine (lead ++ u) = ts ++ Token.ofLine u := by
  obtain @⟨front, gap, modifier, words, hfront, hgap, hmodifier⟩ := h
  have hblank : ∀ g, Text.isBlank g → ∀ t ∈ Token.ofLine g, IsLeadToken t :=
    fun g hg t ht => .inl (Token.isBlank_of_mem hg ht)
  cases hmodifier with
  | absent =>
    refine ⟨Token.ofLine front ++ "import".toList :: Token.ofLine gap, by simp, ?_, ?_⟩
    · intro t ht
      simp only [List.mem_append, List.mem_cons] at ht
      rcases ht with ht | rfl | ht
      · exact hblank front hfront t ht
      · exact .inr (.inl rfl)
      · exact hblank gap hgap.isBlank t ht
    · intro u hu
      have hword := Token.ofLine_word_gap isName_import hgap hu
      simp only [List.append_assoc, List.nil_append]
      rw [Token.ofLine_blanks_append hfront (by rfl), hword]
      simp
  | @static between hbetween =>
    refine ⟨Token.ofLine front ++ "import".toList :: (Token.ofLine gap ++
      "static".toList :: Token.ofLine between), by simp, ?_, ?_⟩
    · intro t ht
      simp only [List.mem_append, List.mem_cons] at ht
      rcases ht with ht | rfl | ht | rfl | ht
      · exact hblank front hfront t ht
      · exact .inr (.inl rfl)
      · exact hblank gap hgap.isBlank t ht
      · exact .inr (.inr rfl)
      · exact hblank between hbetween.isBlank t ht
    · intro u hu
      have hstatic := Token.ofLine_word_gap isName_static hbetween hu
      have himport := Token.ofLine_word_gap (u := "static" ++ (between ++ u)) isName_import hgap
        (by rfl)
      simp only [List.append_assoc]
      rw [Token.ofLine_blanks_append hfront (by rfl), himport, hstatic]
      simp

/-- The tokens of a name with these segments: each but the first has its dot. -/
def segmentTokens : List Text → List Text
  | [] => []
  | s :: ss => s :: ss.map ('.' :: ·)

theorem flatten_segmentTokens (ss : List Text) :
    (segmentTokens ss).flatten = Text.join "." ss := by
  cases ss with
  | nil => rfl
  | cons s ss => exact (join_dot_cons s ss).symm

theorem segmentTokens_append {ss ts : List Text} (h : ss ≠ []) :
    segmentTokens (ss ++ ts) = segmentTokens ss ++ ts.map ('.' :: ·) := by
  cases ss with
  | nil => exact absurd rfl h
  | cons s ss => simp [segmentTokens]

theorem endsName_dot (u : Text) : Token.EndsName ('.' :: u) :=
  ⟨show Token.isNamePart '.' = false by decide, by simp⟩

theorem endsName_accessors {u : Text} (hu : Token.EndsName u) (ss : List Text) :
    Token.EndsName (ss.flatMap ('.' :: ·) ++ u) := by
  cases ss with
  | nil => exact hu
  | cons s ss => exact endsName_dot _

theorem ofLine_accessors_append {ss : List Text} {u : Text} (hss : ∀ s ∈ ss, IsSegment s)
    (hu : Token.EndsName u) :
    Token.ofLine (ss.flatMap ('.' :: ·) ++ u) = ss.map ('.' :: ·) ++ Token.ofLine u := by
  induction ss with
  | nil => rfl
  | cons s ss ih =>
    obtain ⟨hs, hss⟩ := List.forall_mem_cons.mp hss
    have hfirst := Token.ofLine_accessor_append hs.isName (endsName_accessors hu ss)
    rw [ih hss] at hfirst
    simpa using hfirst

/-- In front of what ends a name, the tokens of a name are its segments. -/
theorem ofLine_join_append {ss : List Text} {u : Text} (hss : ∀ s ∈ ss, IsSegment s)
    (hu : Token.EndsName u) :
    Token.ofLine (Text.join "." ss ++ u) = segmentTokens ss ++ Token.ofLine u := by
  cases ss with
  | nil => rfl
  | cons s ss =>
    obtain ⟨hs, hss⟩ := List.forall_mem_cons.mp hss
    rw [join_dot_cons, List.append_assoc,
      Token.ofLine_name_append hs.isName (endsName_accessors hu ss),
      ofLine_accessors_append hss hu]
    rfl

theorem Text.trim_append_of_isBlank {g t : Text} (hg : Text.isBlank g)
    (ht : ∀ c ∈ t, CodeNav.isBlank c = false) : (g ++ t).trim = t := by
  have hdrop : (g ++ t).dropWhile CodeNav.isBlank = t.dropWhile CodeNav.isBlank :=
    List.dropWhile_append_of_pos (List.all_eq_true.mp hg)
  unfold trim
  rw [hdrop]
  exact trim_eq_self ht

theorem isBlank_of_mem_join {ss : List Text} (hss : ∀ s ∈ ss, IsSegment s) :
    ∀ c ∈ Text.join "." ss, isBlank c = false := by
  intro c hc
  cases ss with
  | nil => cases hc
  | cons s ss =>
    have hqualified := isQualifiedName_join (List.cons_ne_nil s ss) hss
    rcases mem_of_isQualifiedName hqualified c hc with hc | rfl
    · exact isBlank_of_isWord hc
    · decide

theorem trim_of_mem_segmentTokens {ss : List Text} (hss : ∀ s ∈ ss, IsSegment s) {t : Text}
    (ht : t ∈ segmentTokens ss) : t.trim = t := by
  refine Text.trim_eq_self fun c hc => isBlank_of_mem_join hss c ?_
  rw [← flatten_segmentTokens]
  exact List.mem_flatten.mpr ⟨t, ht, hc⟩

theorem head?_join_append {ss : List Text} (hne : ss ≠ []) (hss : ∀ s ∈ ss, IsSegment s)
    (u : Text) : (Text.join "." ss ++ u).head?.any isBlank = false := by
  obtain ⟨s, ss, rfl⟩ := List.exists_cons_of_ne_nil hne
  have hword := (hss s List.mem_cons_self).isWordRun
  obtain ⟨c, r, rfl⟩ := List.exists_cons_of_ne_nil (ne_nil_of_isWordRun hword)
  rw [join_dot_cons]
  exact isBlank_of_isWord (mem_of_isWordRun hword c List.mem_cons_self)

/-- No word before the name of an import is its first segment. -/
def StartsName (ss : List Text) : Prop :=
  ss.head? ≠ some "import".toList ∧ ss.head? ≠ some "static".toList

/-- Without the words before it, the tokens up to a segment are the name up to there. -/
theorem directoryPackage_segments {ts ss : List Text} (hts : ∀ t ∈ ts, IsLeadToken t)
    (hss : ∀ s ∈ ss, IsSegment s) (hfirst : StartsName ss) :
    directoryPackage (ts ++ segmentTokens ss) = Text.join "." ss := by
  have hkeep : ∀ t ∈ segmentTokens ss,
      (t.trim != "import".toList && t.trim != "static".toList) = true := by
    intro t ht
    rw [trim_of_mem_segmentTokens hss ht]
    cases ss with
    | nil => cases ht
    | cons s ss =>
      rcases List.mem_cons.mp ht with rfl | ht
      · simpa [StartsName] using hfirst
      · obtain ⟨x, -, rfl⟩ := List.mem_map.mp ht
        simp
  have hdrop : Text.isBlank ((ts.filter fun t =>
      t.trim != "import".toList && t.trim != "static".toList).flatten) := by
    refine List.all_eq_true.mpr fun c hc => ?_
    obtain ⟨t, ht, hct⟩ := List.mem_flatten.mp hc
    obtain ⟨ht, hkept⟩ := List.mem_filter.mp ht
    rcases hts t ht with hblank | rfl | rfl
    · exact List.all_eq_true.mp hblank c hct
    all_goals exact absurd hkept (by decide)
  unfold directoryPackage
  rw [List.filter_append, List.filter_eq_self.mpr hkeep, List.flatten_append,
    flatten_segmentTokens, Text.trim_append_of_isBlank hdrop (isBlank_of_mem_join hss)]

theorem exists_segmentTokens_concat (before : List Text) (s : Text) :
    ∃ front token, segmentTokens (before ++ [s]) = front ++ [token] ∧ s <:+ token := by
  cases before with
  | nil => exact ⟨[], s, rfl, List.suffix_refl s⟩
  | cons b before =>
    exact ⟨segmentTokens (b :: before), '.' :: s, by simp [segmentTokens],
      List.suffix_cons '.' s⟩

/-- The column is one of those that `s` takes up at the end of `t`. -/
def OnEnd (t s : Text) (column : Nat) : Prop := column < t.length ∧ t.length ≤ column + s.length

/-- A click on a segment is one on its token, with the tokens of the segments before it and those of
the segments behind it on its two sides. -/
theorem exists_segment_click {lead rest s : Text} {before after : List Text}
    (hlead : ImportLead lead) (hss : ∀ t ∈ before ++ s :: after, IsSegment t)
    (hrest : Token.EndsName rest) {column : Nat}
    (hcolumn : OnEnd (lead ++ Text.join "." (before ++ [s])) s column) (cssClass : Option Text)
    (lineNumber : Option Int) :
    ∃ c ts, TokenContext.atColumn? (lead ++ Text.join "." (before ++ s :: after) ++ rest) column
        cssClass lineNumber = some c ∧
      (∀ t ∈ ts, IsLeadToken t) ∧
      c.preceding ++ [c.token] = ts ++ segmentTokens (before ++ [s]) ∧
      c.following = after.map ('.' :: ·) ++ Token.ofLine rest := by
  obtain ⟨hend, hstart⟩ := hcolumn
  have hs : IsSegment s := hss s (by simp)
  -- The token of the segment is the segment, with a dot before it unless it is the first.
  obtain ⟨ts, hts, hleads, htokens⟩ := hlead.exists_tokens
  obtain ⟨front, token, htoken, hsuffix⟩ := exists_segmentTokens_concat before s
  have hline : Token.ofLine (lead ++ Text.join "." (before ++ s :: after) ++ rest) =
      (ts ++ front) ++ token :: (after.map ('.' :: ·) ++ Token.ofLine rest) := by
    rw [List.append_assoc, htokens _ (head?_join_append (by simp) hss rest),
      ofLine_join_append hss hrest, List.append_cons before s after,
      segmentTokens_append (by simp), htoken]
    simp
  have hlength : (ts ++ front).flatten.length + token.length =
      (lead ++ Text.join "." (before ++ [s])).length := by
    rw [← flatten_segmentTokens, htoken, ← hts]
    simp [Nat.add_assoc]
  have hle := hsuffix.length_le
  have hblank : ¬Text.isBlank token := by
    intro hblank
    obtain ⟨c, r, rfl⟩ := List.exists_cons_of_ne_nil (ne_nil_of_isWordRun hs.isWordRun)
    have hc := List.all_eq_true.mp hblank c (hsuffix.mem List.mem_cons_self)
    rw [isBlank_of_isWord (mem_of_isWordRun hs.isWordRun c List.mem_cons_self)] at hc
    cases hc
  refine ⟨⟨ts ++ front, token, after.map ('.' :: ·) ++ Token.ofLine rest, cssClass, lineNumber⟩, ts,
    ?_, hleads, ?_, rfl⟩
  · rw [TokenContext.atColumn?_eq_ofSiblings? hblank hline (by omega) (by omega), hline,
      TokenContext.ofSiblings?_append]
  · rw [htoken, List.append_assoc]

theorem Token.find?_shown_append {g u : Text} (hg : Text.isBlank g)
    (hu : u.head?.any isBlank = false) :
    (ofLine (g ++ u)).find? (fun t => !Text.isBlank t) =
      (ofLine u).find? fun t => !Text.isBlank t := by
  have hnone : (ofLine g).find? (fun t => !Text.isBlank t) = none := by
    rw [List.find?_eq_none]
    intro t ht
    simp [isBlank_of_mem hg ht]
  rw [ofLine_blanks_append hg hu, List.find?_append, hnone, Option.none_or]

/-- The first token behind the name that shows something: the word for an alias, else a semicolon
if there is one. -/
theorem ImportTail.find?_shown {alias? : Option Text} {tail : Text} (h : ImportTail alias? tail) :
    (Token.ofLine tail).find? (fun t => !Text.isBlank t) =
      if alias?.isSome then some "as".toList else if ';' ∈ tail then some [';'] else none := by
  obtain @⟨rename, close, alias?, hrename, hclose⟩ := h
  cases hrename with
  | absent =>
    rw [List.nil_append]
    cases hclose with
    | blank ha =>
      have hnone : ';' ∉ close := not_mem_of_isBlank (by decide) ha
      have hfind := Token.find?_shown_append (u := []) ha rfl
      rw [List.append_nil, Token.ofLine_nil] at hfind
      rw [hfind]
      simp [hnone]
    | @semicolon a b ha hb =>
      have hsign : Token.ofLine (';' :: b) = [';'] :: Token.ofLine b :=
        Token.ofLine_cons_append (r := []) rfl
      have hfind := Token.find?_shown_append (u := ';' :: b) ha rfl
      rw [hsign, List.find?_cons_of_pos (by decide)] at hfind
      simpa using hfind
  | @given before after symbol hbefore hafter hsymbol =>
    have hfind := Token.find?_shown_append (u := "as" ++ (after ++ (symbol ++ close)))
      hbefore.isBlank (by rfl)
    rw [Token.ofLine_name_append isName_as (Token.endsName_of_isGap hafter _),
      List.find?_cons_of_pos (by decide)] at hfind
    simpa using hfind

/-- What stands behind a name ends it. -/
theorem ImportTail.endsName {alias? : Option Text} {tail : Text} (h : ImportTail alias? tail) :
    Token.EndsName tail := by
  obtain @⟨rename, close, alias?, hrename, hclose⟩ := h
  cases hrename with
  | absent =>
    cases hclose with
    | blank ha =>
      have hnil : Token.EndsName [] := ⟨rfl, by simp⟩
      simpa using Token.endsName_blanks_append ha hnil
    | @semicolon a b ha hb =>
      have hsign : Token.EndsName (';' :: b) :=
        ⟨show Token.isNamePart ';' = false by decide, by simp⟩
      simpa using Token.endsName_blanks_append ha hsign
  | given hbefore _ _ =>
    simp only [List.append_assoc]
    exact Token.endsName_of_isGap hbefore _

end CodeNav
