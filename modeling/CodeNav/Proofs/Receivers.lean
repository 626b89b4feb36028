import CodeNav.Proofs.Coherence
import CodeNav.Proofs.ImportLines
import CodeNav.Proofs.Lookup

/-!
Calls on variables seen from both sides: a click on the method, and a click on the receiver. The
receiver of such a call is taken for a variable of the same name exactly when it bears no mark of
nullability (`receiver_click_iff`); with a mark it is taken for any other name.
-/

namespace CodeNav

namespace TokenContext

/-- Of tokens read backwards, the `k`-th that shows something, counted from one, between those
before it and those after it; `after` are the tokens that follow. -/
def shownBack? : List Text → List Text → Nat → Option (List Text × Text × List Text)
  | [], _, _ => none
  | t :: ts, after, k =>
    if Text.isBlank t then shownBack? ts (t :: after) k
    else if k = 1 then some (ts.reverse, t, after)
    else shownBack? ts (t :: after) (k - 1)

def back? (c : TokenContext) (k : Nat) : Option TokenContext :=
  (shownBack? c.preceding.reverse (c.token :: c.following) k).map fun (a, t, b) =>
    { c with preceding := a, token := t, following := b }

theorem exists_shownBack? {ts : List Text} (after : List Text) {k : Nat} {t : Text}
    (h : (ts.filter fun t => !Text.isBlank t)[k]? = some t) :
    ∃ a passed, shownBack? ts after (k + 1) = some (a, t, passed ++ after) ∧
      ts.reverse = a ++ t :: passed ∧ Text.isBlank t = false ∧
      passed.filter (fun t => !Text.isBlank t) =
        ((ts.filter fun t => !Text.isBlank t).take k).reverse := by
  induction ts generalizing after k with
  | nil => simp at h
  | cons u ts ih =>
    unfold shownBack?
    cases hu : Text.isBlank u with
    | true =>
      have hskip : (u :: ts).filter (fun t => !Text.isBlank t) =
          ts.filter fun t => !Text.isBlank t := by simp [hu]
      rw [hskip] at h ⊢
      obtain ⟨a, passed, hback, hts, ht, hpassed⟩ := ih (u :: after) h
      refine ⟨a, passed ++ [u], ?_, ?_, ht, ?_⟩
      · simpa using hback
      · simp [hts]
      · simp [hu, hpassed]
    | false =>
      have hkeep : (u :: ts).filter (fun t => !Text.isBlank t) =
          u :: ts.filter fun t => !Text.isBlank t := by simp [hu]
      rw [hkeep] at h ⊢
      cases k with
      | zero =>
        obtain rfl : u = t := by simpa using h
        exact ⟨ts.reverse, [], by simp, by simp, hu, by simp⟩
      | succ k =>
        obtain ⟨a, passed, hback, hts, ht, hpassed⟩ := ih (u :: after) (by simpa using h)
        refine ⟨a, passed ++ [u], ?_, ?_, ht, ?_⟩
        · simpa using hback
        · simp [hts]
        · simp [hu, hpassed]

/-- The click on a token further back is one on the same line; what shows something in between are
the tokens nearer to where it started. -/
theorem exists_back? {c : TokenContext} {k : Nat} {t : Text}
    (h : c.previousNonBlank (k + 1) = some t) :
    ∃ b passed, c.back? (k + 1) = some b ∧ b.token = t ∧ Text.isBlank t = false ∧
      b.siblings = c.siblings ∧ b.cssClass = c.cssClass ∧
      b.following = passed ++ c.token :: c.following ∧
      passed.filter (fun t => !Text.isBlank t) =
        ((c.preceding.reverse.filter fun t => !Text.isBlank t).take k).reverse := by
  obtain ⟨a, passed, hback, hpreceding, ht, hpassed⟩ :=
    exists_shownBack? (c.token :: c.following) h
  rw [List.reverse_reverse] at hpreceding
  refine ⟨{ c with preceding := a, token := t, following := passed ++ c.token :: c.following },
    passed, ?_, rfl, ht, ?_, rfl, rfl, hpassed⟩
  · rw [back?, hback]
    rfl
  · simp [siblings, hpreceding]

end TokenContext

theorem Text.mem_trim {c : Char} {t : Text} (h : c ∈ t) (hc : CodeNav.isBlank c = false) :
    c ∈ t.trim := by
  have hdrop : ∀ u : Text, c ∈ u → c ∈ u.dropWhile CodeNav.isBlank := by
    intro u hu
    rw [← List.takeWhile_append_dropWhile (p := CodeNav.isBlank) (l := u), List.mem_append] at hu
    rcases hu with hu | hu
    · exact absurd hu (Token.not_mem_takeWhile hc u)
    · exact hu
  have hfront := List.mem_reverse.mpr (hdrop t h)
  exact List.mem_reverse.mpr (hdrop _ hfront)

/-- A token of a line that shows something starts as it does without the blanks around it. -/
theorem Token.head?_trim_of_mem_ofLine {line t : Text} (ht : t ∈ ofLine line)
    (hshown : Text.isBlank t = false) : (Text.trim t).head? = t.head? := by
  cases t with
  | nil => cases hshown
  | cons c r =>
    have hc : isBlank c = false := by
      by_contra hblank
      have hall := isBlank_of_mem_ofLine _ ht (by simpa using hblank)
      rw [hshown] at hall
      cases hall
    have hpre : Text.trim (c :: r) <+: (c :: r).dropWhile isBlank := List.rdropWhile_prefix _ _
    rw [List.dropWhile_cons_of_neg (by simp [hc])] at hpre
    have hmem : c ∈ Text.trim (c :: r) := Text.mem_trim List.mem_cons_self hc
    obtain ⟨d, s, hds⟩ := List.exists_cons_of_ne_nil (List.ne_nil_of_mem hmem)
    rw [hds] at hpre ⊢
    rw [(List.cons_prefix_cons.mp hpre).1]
    rfl

namespace Classifier

/-- The click on what a method is called on: the token before an accessor such as ".load", and
otherwise the token before the dot. -/
def receiverClick? (r : Request) : Option Request :=
  (r.context.back? (if r.token.trim.head? = some '.' then 1 else 2)).map Request.ofContext

theorem receiver?_eq_some {t v : Text} (h : receiver? t = some v) :
    isWordRun v ∧ (t.trim = v ∨ t.trim = v ++ ['?']) := by
  have hsplit := List.takeWhile_append_dropWhile (p := isWord) (l := t.trim)
  unfold receiver? at h
  dsimp only at h
  rw [Token.drop_length_takeWhile] at h
  split at h
  · next hcond =>
    obtain rfl := Option.some.inj h
    obtain ⟨hname, hrest⟩ := (Bool.and_eq_true _ _).mp hcond
    constructor
    · rw [isWordRun, hname, Bool.true_and]
      exact List.all_takeWhile
    · rcases (Bool.or_eq_true _ _).mp hrest with hnil | hmark
      · rw [List.isEmpty_iff.mp hnil, List.append_nil] at hsplit
        exact .inl hsplit.symm
      · rw [of_decide_eq_true hmark] at hsplit
        exact .inr hsplit.symm
  · cases h

/-- A called token follows what it is called on: right away, when it has the dot itself, else behind
a dot. -/
theorem calledOn?_eq {r : Request} {m t : Text} (h : calledOn? r = some (m, some t)) :
    (r.token.trim.head? = some '.' ∧ r.context.previousNonBlank 1 = some t) ∨
      (r.token.trim.head? ≠ some '.' ∧ r.context.previousNonBlank 1 = some ['.'] ∧
        r.context.previousNonBlank 2 = some t) := by
  unfold calledOn? at h
  dsimp only at h
  split at h
  · next name htoken =>
    split at h
    · exact .inl ⟨by rw [htoken]; rfl, (Prod.mk.inj (Option.some.inj h)).2⟩
    · cases h
  · next hno =>
    split at h
    · next hcond =>
      have hdot := (Bool.and_eq_true _ _).mp hcond
      refine .inr ⟨fun hhead => ?_, by simpa using hdot.2, (Prod.mk.inj (Option.some.inj h)).2⟩
      obtain ⟨rest, hrest⟩ := List.head?_eq_some_iff.mp hhead
      exact hno rest hrest
    · cases h

theorem of_classify_eq_externalCall {l : Language} {features : List ResourceFeature} {r : Request}
    {d : Document} {v m : Text} (h : classify l features r d = .externalCall v m) :
    isImportLine r.context.lineText = false ∧ externalCall? r = some (.externalCall v m) := by
  have hrule := rule_classify l features r d
  rw [h] at hrule
  cases hrule with
  | externalCall himport hcall => exact ⟨himport, hcall⟩

/-- No parenthesis stands right behind a token where a dot comes next. -/
theorem not_called_of_dot {c : TokenContext} {rest : Text}
    (h : c.nextNonBlank = some ('.' :: rest)) :
    (c.next.any ("(".toList.isPrefixOf ·)) = false := by
  unfold TokenContext.nextNonBlank at h
  unfold TokenContext.next
  cases hfollowing : c.following with
  | nil => rfl
  | cons u us =>
    rw [hfollowing] at h
    cases hu : Text.isBlank u with
    | true =>
      cases u with
      | nil => rfl
      | cons x xs =>
        have hx : x ≠ '(' := by
          rintro rfl
          rw [Text.isBlank, List.all_cons] at hu
          exact absurd ((Bool.and_eq_true _ _).mp hu).1 (by decide)
        simp [List.isPrefixOf, hx.symm]
    | false =>
      rw [List.find?_cons_of_pos (by simp [hu])] at h
      obtain rfl := Option.some.inj h
      rfl

/-- A word before a dot is taken for a variable, and another token for any name. -/
theorem classify_of_dot {l : Language} {features : List ResourceFeature} {q : Request}
    {d : Document} (hprim : l.isPrimitive q.token = false) (hfeature : feature? features q = none)
    (hmenu : q.context.previous ≠ some menuMarker)
    (himport : isImportLine q.context.lineText = false) (hplain : q.context.cssClass = none)
    {rest : Text} (hnext : q.context.nextNonBlank = some ('.' :: rest)) :
    classify l features q d =
      if isWordRun q.token.trim then .variableUse q.token.trim
      else if d.imports.statements.isEmpty then .unclassified
      else .symbol q.token.trim := by
  have hcall : isInternalCall q = false := by
    rw [isInternalCall, not_called_of_dot hnext]
    rfl
  have hvariable : isVariable q = isWordRun q.token.trim := by
    simp [isVariable, hplain, hnext]
  have hexternal : externalCall? q = none := by
    have hnot : (q.context.nextNonBlank.any ("(".toList.isPrefixOf ·)) = false := by
      rw [hnext]
      rfl
    unfold externalCall?
    rw [hnot]
    rfl
  unfold classify
  dsimp only
  rw [Language.isPrimitive_trim, hprim, hfeature, if_neg hmenu, himport, hcall, hvariable,
    hexternal]
  rfl

end Classifier

/-- A click on a token of a line that the host does not highlight. -/
structure Request.OnPlainLine (r : Request) (line : Text) : Prop where
  siblings : r.context.siblings = Token.ofLine line
  token : r.token = r.context.token
  plain : r.context.cssClass = none

theorem TokenContext.nextNonBlank_of_following {c : TokenContext} {passed rest : List Text}
    (h : c.following = passed ++ rest) :
    c.nextNonBlank = (passed.filter fun t => !Text.isBlank t).head?.or
      (rest.find? fun t => !Text.isBlank t) := by
  rw [nextNonBlank, h, List.find?_append, List.head?_filter]

theorem Request.OnPlainLine.mem {r : Request} {line : Text} (h : r.OnPlainLine line) :
    r.context.token ∈ Token.ofLine line := by
  rw [← h.siblings, TokenContext.siblings]
  exact List.mem_append_right _ List.mem_cons_self

theorem Text.not_isBlank_of_head?_trim_eq_dot {t : Text} (h : t.trim.head? = some '.') :
    Text.isBlank t = false := by
  by_contra hblank
  have hmem := mem_of_mem_trim (List.mem_of_head? h)
  rw [Bool.not_eq_false] at hblank
  have hdot := List.all_eq_true.mp hblank '.' hmem
  revert hdot
  decide

namespace Classifier

variable {l : Language} {features : List ResourceFeature} {r : Request} {d : Document}
  {line v m : Text}

/-- The receiver of a call stands on the line of the call, and a dot comes next. -/
theorem exists_receiverClick? (hr : r.OnPlainLine line)
    (hcall : externalCall? r = some (.externalCall v m)) :
    ∃ q rest, receiverClick? r = some q ∧ q.OnPlainLine line ∧
      calledOn? r = some (m, some q.token) ∧ receiver? q.token = some v ∧
      q.context.nextNonBlank = some ('.' :: rest) := by
  obtain ⟨method, t, receiver, hcalled, hreceiver, hsame⟩ := externalCall?_eq_some hcall
  obtain ⟨rfl, rfl⟩ := Reference.externalCall.inj hsame
  rcases calledOn?_eq hcalled with ⟨hdot, hprev⟩ | ⟨hdot, hprev, hprev₂⟩
  · obtain ⟨b, passed, hback, rfl, -, hsiblings, hcss, hfollowing, hpassed⟩ :=
      TokenContext.exists_back? hprev
    rw [hr.token] at hdot
    have hshown := Text.not_isBlank_of_head?_trim_eq_dot hdot
    obtain ⟨rest, hrest⟩ := List.head?_eq_some_iff.mp
      ((Token.head?_trim_of_mem_ofLine hr.mem hshown).symm.trans hdot)
    refine ⟨.ofContext b, rest, ?_, ⟨hsiblings.trans hr.siblings, rfl, hcss.trans hr.plain⟩,
      hcalled, hreceiver, ?_⟩
    · rw [receiverClick?, hr.token, if_pos hdot, hback]
      rfl
    · have hnext := TokenContext.nextNonBlank_of_following hfollowing
      rw [hpassed, List.find?_cons_of_pos (by simp [hshown]), hrest] at hnext
      exact hnext
  · obtain ⟨b, passed, hback, rfl, -, hsiblings, hcss, hfollowing, hpassed⟩ :=
      TokenContext.exists_back? hprev₂
    refine ⟨.ofContext b, [], ?_, ⟨hsiblings.trans hr.siblings, rfl, hcss.trans hr.plain⟩,
      hcalled, hreceiver, ?_⟩
    · rw [receiverClick?, if_neg hdot, hback]
      rfl
    · have hfirst : (r.context.preceding.reverse.filter fun t => !Text.isBlank t).head? =
          some ['.'] := by
        rw [List.head?_eq_getElem?]
        exact hprev
      obtain ⟨others, hothers⟩ := List.head?_eq_some_iff.mp hfirst
      have hnext := TokenContext.nextNonBlank_of_following hfollowing
      rw [hpassed, hothers] at hnext
      exact hnext

/-- The receiver of a call on a variable is itself taken for that variable exactly when it bears no
question mark, unless it is a primitive type or a resource. With a question mark it is taken for any
other name. -/
theorem receiver_click_iff (hr : r.OnPlainLine line)
    (hcall : classify l features r d = .externalCall v m) :
    ∃ q, receiverClick? r = some q ∧ q.OnPlainLine line ∧
      calledOn? r = some (m, some q.token) ∧ receiver? q.token = some v ∧
      (l.isPrimitive q.token = false → feature? features q = none →
        q.context.previous ≠ some menuMarker →
          (classify l features q d = .variableUse v ↔ '?' ∉ q.token) ∧
          ('?' ∈ q.token → classify l features q d =
            if d.imports.statements.isEmpty then .unclassified else .symbol (v ++ "?"))) := by
  obtain ⟨himport, hexternal⟩ := of_classify_eq_externalCall hcall
  obtain ⟨q, rest, hq, hplain, hcalled, hreceiver, hnext⟩ := exists_receiverClick? hr hexternal
  refine ⟨q, hq, hplain, hcalled, hreceiver, fun hprim hfeature hmenu => ?_⟩
  have hline : isImportLine q.context.lineText = false := by
    have hsame : q.context.lineText = r.context.lineText := by
      rw [TokenContext.lineText, TokenContext.lineText, hplain.siblings, hr.siblings]
    rw [hsame, himport]
  have hclass := classify_of_dot (d := d) hprim hfeature hmenu hline hplain.plain hnext
  obtain ⟨hword, htoken⟩ := receiver?_eq_some hreceiver
  have hmark : '?' ∉ v := by
    intro hmem
    have hall := List.all_eq_true.mp ((Bool.and_eq_true _ _).mp hword).2 '?' hmem
    revert hall
    decide +kernel
  rcases htoken with htrim | htrim
  · have hnone : '?' ∉ q.token := by
      intro hmem
      exact hmark (htrim ▸ Text.mem_trim hmem (by decide))
    rw [htrim, if_pos hword] at hclass
    exact ⟨⟨fun _ => hnone, fun _ => hclass⟩, fun hmem => absurd hmem hnone⟩
  · have hsome : '?' ∈ q.token := Text.mem_of_mem_trim (by rw [htrim]; simp)
    have hnot : isWordRun (v ++ ['?']) = false := by
      rw [isWordRun, List.all_append]
      have hquestion : ['?'].all isWord = false := by decide +kernel
      rw [hquestion, Bool.and_false, Bool.and_false]
    rw [htrim, hnot] at hclass
    refine ⟨⟨fun hvar => ?_, fun hno => absurd hsome hno⟩, fun _ => hclass⟩
    rw [hclass] at hvar
    simp only [Bool.false_eq_true, if_false] at hvar
    split at hvar <;> cases hvar

def repoPage : Document :=
  .ofText ("import a.Repo\n\nfun start(repo: Repo) =\n    repo . load ()\n".toList ++
    "\nfun reload(repo: Repo?) =\n    repo?.load()\n".toList)
    "https://github.com/o/r/blob/main/Main.kt" "now"

def spacedClick : Request :=
  ⟨"load", ⟨["    ", "repo", " ", ".", " "], "load", [" ", "(", ")"], none, none⟩, none⟩

theorem receiver_click_iff_spaced :
    spacedClick.OnPlainLine "    repo . load ()" ∧
      classify .kotlin [.layout, .menu, .string] spacedClick repoPage =
        .externalCall "repo" "load" ∧
      ∃ q, receiverClick? spacedClick = some q ∧ receiver? q.token = some "repo".toList ∧
        (classify .kotlin [.layout, .menu, .string] q repoPage = .variableUse "repo" ↔
          '?' ∉ q.token) := by
  have hr : spacedClick.OnPlainLine "    repo . load ()" := ⟨by decide +kernel, rfl, rfl⟩
  have hcall : classify .kotlin [.layout, .menu, .string] spacedClick repoPage =
      .externalCall "repo" "load" := by decide +kernel
  obtain ⟨q, hq, -, -, hreceiver, hclass⟩ := receiver_click_iff hr hcall
  have hsame : receiverClick? spacedClick =
      some (.ofContext ⟨["    "], "repo", [" ", ".", " ", "load", " ", "(", ")"], none, none⟩) := by
    decide +kernel
  obtain rfl := Option.some.inj (hq.symm.trans hsame)
  exact ⟨hr, hcall, _, hq, hreceiver,
    (hclass (by decide +kernel) (by decide +kernel) (by decide)).1⟩

def safeClick : Request :=
  ⟨".load", ⟨["    ", "repo?"], ".load", ["(", ")"], none, none⟩, none⟩

def safeReceiver : Request :=
  ⟨"repo?", ⟨["    "], "repo?", [".load", "(", ")"], none, none⟩, none⟩

/-- The call is one on the variable, but its receiver is looked for as a class. -/
theorem receiver_click_of_safe_call :
    safeClick.OnPlainLine "    repo?.load()" ∧
      classify .kotlin [.layout, .menu, .string] safeClick repoPage = .externalCall "repo" "load" ∧
      receiverClick? safeClick = some safeReceiver ∧
      Language.kotlin.isPrimitive safeReceiver.token = false ∧
      feature? [.layout, .menu, .string] safeReceiver = none ∧
      safeReceiver.context.previous ≠ some menuMarker ∧
      classify .kotlin [.layout, .menu, .string] safeReceiver repoPage = .symbol "repo?" := by
  refine ⟨⟨by decide +kernel, rfl, rfl⟩, ?_, ?_, ?_, ?_, ?_, ?_⟩
  all_goals decide +kernel

end Classifier

end CodeNav
