import CodeNav.Engine
import CodeNav.Proofs.ClassTargets
import CodeNav.Proofs.Locality
import CodeNav.Proofs.SamePage

/-!
The numbers of lines. The host of a file ends a line at a line feed only, and a text is cut into
lines at more characters than that. The two agree exactly when the text has no other one
(`Text.lines_eq_hostLines_iff`); otherwise each of these characters moves the lines behind it one
number down.
-/

namespace CodeNav

namespace Text

/-- The lines that the host shows of a text: only a line feed ends a line, and what follows the last
one is a line only when it is not empty. -/
def hostLines (t : Text) : List Text :=
  if (parts '\n' t).getLast? = some [] then (parts '\n' t).dropLast else parts '\n' t

/-- A character that ends a line here and not on the host. -/
def isStrayEnd (c : Char) : Bool := isLineEnd c && c != '\n'

/-- No line ends but at a line feed. -/
def OnlyFeeds (t : Text) : Prop := ∀ c ∈ t, isLineEnd c → c = '\n'

instance (t : Text) : Decidable t.OnlyFeeds :=
  List.decidableBAll (fun c => isLineEnd c → c = '\n') t

theorem hostLines_feed (t : Text) : hostLines ('\n' :: t) = [] :: hostLines t := by
  have hparts : parts '\n' ('\n' :: t) = [] :: parts '\n' t := if_pos rfl
  obtain ⟨p, ps, hp⟩ := List.exists_cons_of_ne_nil (parts_ne_nil '\n' t)
  unfold hostLines
  rw [hparts, hp, List.getLast?_cons_cons, List.dropLast_cons_cons]
  split <;> rfl

theorem hostLines_cons {c : Char} (h : c ≠ '\n') (r : Text) :
    hostLines (c :: r) = (c :: (hostLines r).headD []) :: (hostLines r).tail := by
  obtain ⟨p, ps, hp⟩ := List.exists_cons_of_ne_nil (parts_ne_nil '\n' r)
  have hparts : parts '\n' (c :: r) = (c :: p) :: ps := by rw [parts, if_neg h, hp]
  unfold hostLines
  rw [hparts, hp]
  cases ps with
  -- The last part is not empty now, even if it was.
  | nil => by_cases hnil : p = [] <;> simp [hnil]
  | cons q qs =>
    rw [List.getLast?_cons_cons, List.getLast?_cons_cons, List.dropLast_cons_cons,
      List.dropLast_cons_cons]
    split <;> rfl

theorem exists_mem_hostLines {c : Char} {t : Text} (hc : c ∈ t) (h : c ≠ '\n') :
    ∃ l ∈ t.hostLines, c ∈ l := by
  induction t with
  | nil => cases hc
  | cons d r ih =>
    by_cases hd : d = '\n'
    · subst hd
      obtain ⟨l, hl, hcl⟩ := ih ((List.mem_cons.mp hc).resolve_left h)
      exact ⟨l, by rw [hostLines_feed]; exact List.mem_cons_of_mem _ hl, hcl⟩
    · rw [hostLines_cons hd]
      rcases List.mem_cons.mp hc with rfl | hc
      · exact ⟨_, List.mem_cons_self, List.mem_cons_self⟩
      · obtain ⟨l, hl, hcl⟩ := ih hc
        cases hlines : hostLines r with
        | nil => simp [hlines] at hl
        | cons x xs =>
          rw [hlines] at hl
          rcases List.mem_cons.mp hl with rfl | hl
          · exact ⟨_, List.mem_cons_self, List.mem_cons_of_mem _ hcl⟩
          · exact ⟨l, List.mem_cons_of_mem _ hl, hcl⟩

theorem not_isLineEnd_of_mem_lines {c : Char} {t l : Text} (hl : l ∈ t.lines) (hc : c ∈ l) :
    isLineEnd c = false := by
  obtain ⟨pre, post, hlines⟩ := List.append_of_mem hl
  obtain ⟨before, after, -, hline, -⟩ := lineOf_of_lines_eq hlines
  exact hline.single c hc

/-- A text is cut into the lines of the host exactly when only line feeds end its lines. -/
theorem lines_eq_hostLines_iff {t : Text} : t.lines = t.hostLines ↔ t.OnlyFeeds := by
  constructor
  · intro h c hc hend
    by_contra hfeed
    obtain ⟨l, hl, hcl⟩ := exists_mem_hostLines hc hfeed
    rw [← h] at hl
    rw [not_isLineEnd_of_mem_lines hl hcl] at hend
    cases hend
  · intro h
    induction t with
    | nil => rfl
    | cons c r ih =>
      have hrest := ih fun d hd => h d (List.mem_cons_of_mem c hd)
      by_cases hc : c = '\n'
      · rw [hc, lines_feed, hostLines_feed, hrest]
      · have hend : isLineEnd c = false := by
          by_contra hend
          exact hc (h c List.mem_cons_self (by simpa using hend))
        rw [lines_cons hend, hostLines_cons hc, hrest]

/-- Where a line begins, as many lines lie behind it as line ends. -/
theorem length_lines {t : Text} (hreturn : '\r' ∉ t)
    (hend : ∀ c, t.getLast? = some c → isLineEnd c) : t.lines.length = t.countP isLineEnd := by
  induction t with
  | nil => rfl
  | cons c r ih =>
    have hc : c ≠ '\r' := fun hc => hreturn (hc ▸ List.mem_cons_self)
    have hrest := ih (fun hr => hreturn (List.mem_cons_of_mem c hr)) fun d hd =>
      hend d (by rw [List.getLast?_cons, hd]; rfl)
    cases hcend : isLineEnd c with
    | true =>
      rw [lines_cons_of_isLineEnd hcend fun hr => absurd hr hc, List.length_cons, hrest,
        List.countP_cons_of_pos hcend]
    | false =>
      rw [lines_cons hcend, List.countP_cons_of_neg (by simp [hcend]), ← hrest]
      cases hlines : lines r with
      -- Nothing follows, so the text would end in a character that ends no line.
      | nil =>
        rw [lines_eq_nil hlines] at hend
        rw [hend c rfl] at hcend
        cases hcend
      | cons l ls => rfl

theorem countP_isLineEnd (t : Text) :
    t.countP isLineEnd = t.count '\n' + t.countP isStrayEnd := by
  induction t with
  | nil => rfl
  | cons c r ih =>
    rw [List.countP_cons, List.count_cons, List.countP_cons, ih]
    by_cases hc : c = '\n'
    · subst hc
      simp [isStrayEnd, isLineEnd]
      omega
    · simp [isStrayEnd, hc]
      omega

end Text

theorem CodeLine.getElem?_numberedFrom (k : Int) (ts : List Text) (n : Nat) :
    (numberedFrom k ts)[n]? = ts[n]?.map (⟨k + n, ·⟩) := by
  induction ts generalizing k n with
  | nil => rfl
  | cons t ts ih =>
    unfold numberedFrom
    cases n with
    | zero => simp
    | succ n =>
      have hnumber : k + 1 + n = k + ((n + 1 : Nat) : Int) := by omega
      rw [List.getElem?_cons_succ, List.getElem?_cons_succ, ih, hnumber]

/-- The numbers are those of the host exactly when the lines are. -/
theorem CodeLine.numbered_iff {t : Text} :
    (∀ n : Nat, (ofText t)[n]? = t.hostLines[n]?.map fun l => ⟨n + 1, l⟩) ↔ t.OnlyFeeds := by
  have hnumbered (n : Nat) : (ofText t)[n]? = t.lines[n]?.map (⟨n + 1, ·⟩) := by
    rw [ofText, getElem?_numberedFrom, Int.add_comm]
  rw [← Text.lines_eq_hostLines_iff]
  constructor
  · intro h
    apply List.ext_getElem?
    intro n
    have hinj : Function.Injective fun l : Text => (⟨n + 1, l⟩ : CodeLine) := fun _ _ hl =>
      (CodeLine.mk.inj hl).2
    exact Option.map_injective hinj ((hnumbered n).symm.trans (h n))
  · intro h n
    rw [hnumbered, h]

/-- Each line is numbered by the line ends before it, those that the host does not count as well. -/
theorem CodeLine.exists_number_eq {t : Text} (hreturn : '\r' ∉ t) {l : CodeLine}
    (hl : l ∈ ofText t) : ∃ before after, t = before ++ l.text ++ after ∧
      Text.LineBetween before l.text after ∧
      l.number = before.count '\n' + 1 + before.countP Text.isStrayEnd := by
  obtain ⟨pre, post, hlines, hnumber⟩ := exists_of_mem_numberedFrom hl
  obtain ⟨before, after, ht, hline, rfl⟩ := Text.lineOf_of_lines_eq hlines
  refine ⟨before, after, ht, hline, ?_⟩
  have hbefore : '\r' ∉ before := fun hr => hreturn (by rw [ht]; simp [hr])
  rw [hnumber, Text.length_lines hbefore hline.start, Text.countP_isLineEnd]
  omega

theorem Locator.first?_numberedFrom (p : Pattern) (k : Int) (ts : List Text) :
    first? (CodeLine.numberedFrom k ts) p =
      (ts.findIdx? (showsMatch p)).map fun n : Nat => k + n := by
  induction ts generalizing k with
  | nil => rfl
  | cons t ts ih =>
    rw [first?_numberedFrom_cons, List.findIdx?_cons, ih]
    split
    · simp
    · rw [Option.map_map]
      congr 1
      funext n
      simp only [Function.comp_apply]
      omega

/-- A second step points at the first line of the host that matches. -/
theorem Resolution.refine_url {r : Resolution} {f : Refinement} {address t : Text}
    (hf : r.refinement = some f) (hurl : r.target.url = some address) (ht : t.OnlyFeeds) :
    (r.refine t).target.url =
      some ((t.hostLines.findIdx? (Locator.showsMatch f.pattern)).elim address fun n : Nat =>
        Url.withLine address (n + 1)) := by
  have hanchor : Locator.anchor? (CodeLine.ofText t) f.pattern =
      (t.hostLines.findIdx? (Locator.showsMatch f.pattern)).map fun n : Nat => (n : Int) + 1 := by
    rw [Locator.anchor?, CodeLine.ofText, Text.lines_eq_hostLines_iff.mpr ht,
      Locator.first?_numberedFrom]
    cases t.hostLines.findIdx? (Locator.showsMatch f.pattern) with
    | none => rfl
    | some n =>
      have hpos : 0 < 1 + (n : Int) := by omega
      rw [Option.map_some, Option.filter_some, if_pos (by simpa using hpos), Int.add_comm]
      rfl
  unfold refine
  rw [hf, hurl]
  dsimp only
  rw [hanchor]
  cases t.hostLines.findIdx? (Locator.showsMatch f.pattern) with
  | none => exact hurl
  | some n => rfl

namespace Document

/-- The lines of a page are those of the host, under its numbers, exactly when the text has no line
ends but line feeds, and then a second step into the text points at a line of the host as well.
Otherwise a line is numbered too high by the number of the other line ends before it. -/
theorem lines_numbered_iff (t url snapshot : Text) :
    ((∀ n : Nat, (ofText t url snapshot).lines[n]? =
        t.hostLines[n]?.map fun l => ⟨n + 1, l⟩) ↔ t.OnlyFeeds) ∧
      (t.OnlyFeeds → ∀ (r : Resolution) (f : Refinement) (address : Text),
        r.refinement = some f → r.target.url = some address →
          (r.refine t).target.url =
            some ((t.hostLines.findIdx? (Locator.showsMatch f.pattern)).elim address fun n : Nat =>
              Url.withLine address (n + 1))) ∧
      ('\r' ∉ t → ∀ l ∈ (ofText t url snapshot).lines, ∃ before after,
        t = before ++ l.text ++ after ∧ Text.LineBetween before l.text after ∧
          l.number = before.count '\n' + 1 + before.countP Text.isStrayEnd) := by
  refine ⟨CodeLine.numbered_iff, fun ht r f address hf hurl => ?_, fun hreturn l hl => ?_⟩
  · exact Resolution.refine_url hf hurl ht
  · exact CodeLine.exists_number_eq hreturn hl

/-- A file, and one like it with a form feed between its parts. -/
def plainText : Text := "fun a() = 1\nfun b() = 2\n"

def sectionedText : Text := "fun a() = 1\n\x0c\nfun b() = 2\n"

def methodAnswer : Resolution where
  target := ⟨some "https://github.com/o/r/blob/main/b.kt#L1".toList, true⟩
  reference := .externalCall "x" "b"
  status := .resolved
  refinement := some
    ⟨"https://github.com/o/r/blob/main/b.kt#L1", Language.kotlin.methodPattern "b"⟩

theorem lines_numbered_iff_sections :
    plainText.OnlyFeeds ∧
      (∀ n : Nat, (ofText plainText [] []).lines[n]? =
        plainText.hostLines[n]?.map fun l => ⟨n + 1, l⟩) ∧
      (methodAnswer.refine plainText).target.url =
        some "https://github.com/o/r/blob/main/b.kt#L2".toList ∧
      '\r' ∉ sectionedText ∧
      ∃ before after, sectionedText = before ++ "fun b() = 2".toList ++ after ∧
        Text.LineBetween before "fun b() = 2" after ∧
        (4 : Int) = before.count '\n' + 1 + before.countP Text.isStrayEnd := by
  have hfeeds : plainText.OnlyFeeds := by decide
  have hreturn : '\r' ∉ sectionedText := by decide
  obtain ⟨hlines, hstep, -⟩ := lines_numbered_iff plainText [] []
  have hurl := hstep hfeeds methodAnswer _ _ rfl rfl
  have hnumber := (lines_numbered_iff sectionedText [] []).2.2 hreturn ⟨4, "fun b() = 2"⟩
    (by decide +kernel)
  refine ⟨hfeeds, hlines.mpr hfeeds, ?_, hreturn, hnumber⟩
  rw [hurl]
  decide +kernel

/-- The form feed ends a line here, and the host goes on with the same one: what the host shows on
its third line is the fourth, on the page and for a second step. -/
theorem line_behind_form_feed :
    '\r' ∉ sectionedText ∧ sectionedText.hostLines[2]? = some "fun b() = 2".toList ∧
      (ofText sectionedText [] []).lines[2]? = some ⟨3, []⟩ ∧
      (ofText sectionedText [] []).lines[3]? = some ⟨4, "fun b() = 2"⟩ ∧
      (methodAnswer.refine sectionedText).target.url =
        some "https://github.com/o/r/blob/main/b.kt#L4".toList := by
  decide +kernel

end Document

end CodeNav
