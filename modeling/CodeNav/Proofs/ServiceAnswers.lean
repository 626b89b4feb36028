import CodeNav.Proofs.EntryPoints
import CodeNav.Proofs.Validation

namespace CodeNav

namespace Query

/-- The query names no place: the place among its tokens is missing or outside of them, or there
are neither tokens nor a column, or the line is none of the document. -/
def Misplaced (q : Query) : Prop :=
  (∃ tokens, q.siblings = some tokens ∧ ∀ i, q.index = some i → i < 0 ∨ tokens.length ≤ i) ∨
    q.siblings = none ∧ (q.column = none ∨ ∀ l ∈ q.document.lines, l.number ≠ q.lineNumber)

/-- The tokens that a query clicks on. One that is named by its place may be any, and one that is
named by a column shows something. -/
inductive Clicks (q : Query) : TokenContext → Prop where
  | place {before after : List Text} {token : Text}
      (hsiblings : q.siblings = some (before ++ token :: after))
      (hindex : q.index = some (before.length : Int)) :
      Clicks q ⟨before, token, after, q.cssClass, some q.lineNumber⟩
  | column {before after : List Text} {token : Text} {l : CodeLine} {column : Int}
      (hsiblings : q.siblings = none) (hcolumn : q.column = some column)
      (hline : q.document.line? q.lineNumber = some l)
      (htokens : Token.ofLine l.text = before ++ token :: after)
      (hstart : before.flatten.length ≤ column)
      (hend : column < before.flatten.length + token.length) (hblank : ¬Text.isBlank token) :
      Clicks q ⟨before, token, after, q.cssClass, some q.lineNumber⟩

end Query

namespace Query

variable {q : Query}

theorem clicks_iff_of_siblings {tokens : List Text} (hs : q.siblings = some tokens)
    {c : TokenContext} : q.Clicks c ↔ ∃ i, q.index = some i ∧
      TokenContext.ofSiblings? tokens i q.cssClass (some q.lineNumber) = some c := by
  simp only [TokenContext.ofSiblings?_eq_some_iff]
  constructor
  · intro h
    cases h with
    | place hsiblings hindex =>
      obtain rfl := Option.some.inj (hs.symm.trans hsiblings)
      exact ⟨_, hindex, _, _, _, rfl, rfl, rfl⟩
    | column hsiblings => exact nomatch hs.symm.trans hsiblings
  · rintro ⟨i, hindex, before, token, after, rfl, rfl, rfl⟩
    exact .place hs hindex

theorem clicks_iff_of_column (hs : q.siblings = none) {c : TokenContext} :
    q.Clicks c ↔ ∃ column l, q.column = some column ∧ q.document.line? q.lineNumber = some l ∧
      TokenContext.atColumn? l.text column q.cssClass (some q.lineNumber) = some c := by
  simp only [TokenContext.atColumn?_eq_some_iff]
  constructor
  · intro h
    cases h with
    | place hsiblings => exact nomatch hs.symm.trans hsiblings
    | column _ hcolumn hline htokens hstart hend hblank =>
      exact ⟨_, _, hcolumn, hline, _, _, _, htokens, hstart, hend, hblank, rfl⟩
  · rintro ⟨column, l, hcolumn, hline, before, token, after, htokens, hstart, hend, hblank, rfl⟩
    exact .column hs hcolumn hline htokens hstart hend hblank

theorem misplaced_iff_of_siblings {tokens : List Text} (hs : q.siblings = some tokens) :
    q.Misplaced ↔ ∀ i, q.index = some i →
      TokenContext.ofSiblings? tokens i q.cssClass (some q.lineNumber) = none := by
  simp only [TokenContext.ofSiblings?_eq_none_iff, Misplaced, hs]
  simp

theorem misplaced_iff_of_column (hs : q.siblings = none) :
    q.Misplaced ↔ q.column = none ∨ q.document.line? q.lineNumber = none := by
  simp only [Document.line?, List.find?_eq_none, Misplaced, hs]
  simp

/-- What a query comes to: an error where it is misplaced, and otherwise the token that it clicks
on, if there is one. -/
theorem context_outcome (q : Query) :
    ((∃ e, q.context = .error e) ↔ q.Misplaced) ∧
      ∀ c, q.context = .ok (some c) ↔ q.Clicks c := by
  cases hs : q.siblings with
  | some tokens =>
    simp only [misplaced_iff_of_siblings hs, clicks_iff_of_siblings hs]
    cases hindex : q.index with
    | none =>
      have herror : q.context = .error .noIndex := by
        simp only [context, hs, hindex]
      simp [herror]
    | some i =>
      cases hat : TokenContext.ofSiblings? tokens i q.cssClass (some q.lineNumber) with
      | none =>
        have herror : q.context = .error (.indexOutside i tokens.length) := by
          simp only [context, hs, hindex, hat]
        simp [herror, hat]
      | some c =>
        have hclick : q.context = .ok (some c) := by
          simp only [context, hs, hindex, hat]
        simp [hclick, hat]
  | none =>
    simp only [misplaced_iff_of_column hs, clicks_iff_of_column hs]
    cases hcolumn : q.column with
    | none =>
      have herror : q.context = .error .noPlace := by
        simp only [context, hs, hcolumn]
      simp [herror]
    | some column =>
      cases hline : q.document.line? q.lineNumber with
      | none =>
        have herror : q.context = .error (.noLine q.lineNumber) := by
          simp only [context, hs, hcolumn, hline]
        simp [herror]
      | some l =>
        have hclick : q.context =
            .ok (TokenContext.atColumn? l.text column q.cssClass (some q.lineNumber)) := by
          simp only [context, hs, hcolumn, hline]
        simp [hclick]

end Query

def Resolution.followed (follows : Bool) (x : Remote) (r : Resolution) : Resolution :=
  match r.refinement with
  | some f =>
    match (x.fetch f.fetchUrl).answer with
    | .ok t => if follows then r.refine t else r
    | .error _ => r
  | none => r

/-- An answer leads to an address, where a file exists if links are checked. -/
structure Resolution.LiveAt (s : Settings) (x : Remote) (r : Resolution) (url : Text) : Prop where
  target : (r.followed s.followMethods x).target.url = some url
  existing : s.validateLinks → (x.lookUp url).answer = .ok true

namespace Navigator

variable {n : Navigator} {x : Remote} {r a : Resolution}

theorem eq_followed_of_followRefinement (h : (n.followRefinement (some x) r).result = .ok a) :
    a = r.followed n.settings.followMethods x := by
  unfold followRefinement at h
  unfold Resolution.followed
  cases hf : r.refinement with
  | none =>
    rw [hf] at h
    exact (Except.ok.inj h).symm
  | some f =>
    rw [hf] at h
    dsimp only at h ⊢
    split at h
    · next hfollows =>
      obtain ⟨answer, hcall, h⟩ := Stage.andThen_eq_ok h
      rw [call_eq_ok hcall, hfollows]
      cases answer with
      | ok t => exact (Except.ok.inj h).symm
      | error e =>
        cases e with
        | address m => cases h
        | fetch m | system m => exact (Except.ok.inj h).symm
    · next hnot =>
      rw [Bool.not_eq_true] at hnot
      rw [hnot, ← Except.ok.inj h]
      split <;> rfl

/-- A check keeps the address of an answer exactly if links are not checked or a file exists
there. -/
theorem validate_url_iff (h : (n.validate (some x) r).result = .ok a) {url : Text} :
    a.target.url = some url ↔
      r.target.url = some url ∧ (n.settings.validateLinks → (x.lookUp url).answer = .ok true) := by
  by_cases hchecks : n.settings.validateLinks
  · rw [forall_prop_of_true hchecks]
    rcases validate_eq_ok hchecks h with ⟨hnone, rfl⟩ | ⟨found, hfound, hcase⟩
    · simp [hnone]
    · rw [hfound, Option.some_inj]
      rcases hcase with ⟨hexists, rfl⟩ | ⟨hmissing, rfl⟩
      · rw [hfound, Option.some_inj]
        exact ⟨fun hurl => ⟨hurl, hurl ▸ hexists⟩, And.left⟩
      · refine iff_of_false (nomatch ·) ?_
        rintro ⟨rfl, hexists⟩
        rcases hmissing with hmissing | ⟨m, hmissing⟩
        · cases hmissing.symm.trans hexists
        · cases hmissing.symm.trans hexists
  · have hsame : a = r := by
      unfold validate at h
      split at h
      · rw [if_neg hchecks] at h
        exact (Except.ok.inj h).symm
      · exact (Except.ok.inj h).symm
    rw [hsame, and_iff_left fun h => absurd h hchecks]

/-- What comes of an answer leads to an address exactly if the answer does once it is followed, and
the address is live. -/
theorem pursue_url_iff {e : Engine} {req : Request}
    (h : (n.pursue (some x) e req).result = .ok a) {url : Text} :
    a.target.url = some url ↔ (e.resolve req).LiveAt n.settings x url := by
  obtain ⟨b, hfirst, hvalidate⟩ := Stage.andThen_eq_ok h
  obtain ⟨r, hr, hfollow⟩ := Stage.andThen_eq_ok hfirst
  obtain rfl := Except.ok.inj hr
  have hb : b = (e.resolve req).followed n.settings.followMethods x :=
    eq_followed_of_followRefinement hfollow
  let first : Stage Resolution :=
    { navigator := n, log := e.trace req, result := .ok (e.resolve req) }
  have hsettings : (first.andThen fun m r => m.followRefinement (some x) r).navigator.settings =
      n.settings :=
    (Stage.andThen_becomes (s := first) (.refl n)
      fun m r => followRefinement_becomes m (some x) r).settings
  rw [validate_url_iff hvalidate, hb, hsettings]
  exact ⟨fun ⟨htarget, hexists⟩ => ⟨htarget, hexists⟩, fun h => ⟨h.target, h.existing⟩⟩

end Navigator

/-- A query leads to an address: it clicks on a token, its page has an engine, and the answer of the
engine leads there. -/
def Query.LeadsTo (q : Query) (n : Navigator) (x : Remote) (url : Text) : Prop :=
  ∃ c e, q.Clicks c ∧ n.engineFor q.document = .ok (some e) ∧
    (e.resolve (Request.ofContext c)).LiveAt n.settings x url

namespace Service

variable {start : Navigator} {x : Remote} {q : Query}

theorem resolveWith_of_error {e : QueryError} (h : q.context = .error e) :
    (resolveWith start x q).answer = .refused e.message := by
  simp only [resolveWith, h]

theorem resolveWith_of_none (h : q.context = .ok none) :
    (resolveWith start x q).answer = .resolved {} := by
  simp only [resolveWith, h]

theorem resolveWith_of_unopened {c : TokenContext} (h : q.context = .ok (some c))
    (hfor : start.engineFor q.document = .ok none) :
    (resolveWith start x q).answer = .resolved {} := by
  have hactive : start.activate q.document = .ok { start with engine := none } := by
    rw [Navigator.activate, hfor]
    rfl
  simp only [resolveWith, h, hactive]
  rfl

/-- A click on a page that has an engine is answered, with a link that is live, or with none where
the page has changed meanwhile. -/
theorem resolveWith_of_opened (hready : start.Ready) (hx : x.Regular) {c : TokenContext}
    {e : Engine} (h : q.context = .ok (some c))
    (hfor : start.engineFor q.document = .ok (some e)) :
    ∃ t, (resolveWith start x q).answer = .resolved t ∧
      (∀ url, t.url = some url → (e.resolve (Request.ofContext c)).LiveAt start.settings x url) ∧
      (x.Still → ∀ url, (e.resolve (Request.ofContext c)).LiveAt start.settings x url →
        t.url = some url) := by
  let n : Navigator := { start with engine := some e }
  have hactive : start.activate q.document = .ok n := by
    rw [Navigator.activate, hfor]
    rfl
  have hn : n.Ready := hready
  let req := n.tag (Request.ofContext c)
  have hyields : (n.pursue (some x) e req).Yields (Navigator.EndsAs (e.resolve req)) :=
    Navigator.pursue_yields hn fun y hy => by
      obtain rfl := Option.some.inj hy
      exact hx.for _
  obtain ⟨a, ha, -⟩ := hyields
  have hlive (url : Text) : a.target.url = some url ↔
      (e.resolve (Request.ofContext c)).LiveAt start.settings x url := Navigator.pursue_url_iff ha
  have htag : ∀ t, req.snapshot = some t → t = e.document.snapshot := fun t ht =>
    (Option.some.inj ht).symm
  have hcurrent := (Navigator.navigate_of_current (n := n) rfl htag ha).2
  have hresult {r : Option Resolution} (hr : (n.navigate (some x) req).result = .ok r) :
      (resolveWith start x q).answer = .resolved (targetOf r) := by
    simp [resolveWith, h, hactive, n, req, hr]
  split at hcurrent
  · exact ⟨_, hresult hcurrent.1, fun url => (hlive url).mp, fun _ url => (hlive url).mpr⟩
  · next hchanged =>
    refine ⟨_, hresult hcurrent.1, fun _ hurl => (by cases hurl), fun hstill => ?_⟩
    rw [Navigator.pursue_navigator hstill] at hchanged
    exact absurd rfl hchanged

/-- What is answered is a live link that the query leads to, or none; as long as the page does not
change it is none only if the query leads nowhere. -/
def Truthful (start : Navigator) (x : Remote) (q : Query) (t : ServiceTarget) : Prop :=
  (∀ url, t.url = some url → q.LeadsTo start x url) ∧
    (x.Still → ∀ url, q.LeadsTo start x url → t.url = some url)

theorem truthful_of_not_leadsTo (h : ∀ url, ¬q.LeadsTo start x url) : Truthful start x q {} :=
  ⟨fun _ hurl => (nomatch hurl), fun _ url hleads => absurd hleads (h url)⟩

/-- A query that names a place is answered truthfully. -/
theorem resolveWith_truthful (hready : start.Ready) (hx : x.Regular) {click : Option TokenContext}
    (h : q.context = .ok click) :
    ∃ t, (resolveWith start x q).answer = .resolved t ∧ Truthful start x q t := by
  have hclicks := q.context_outcome.2
  cases click with
  | none =>
    refine ⟨{}, resolveWith_of_none h, truthful_of_not_leadsTo ?_⟩
    rintro url ⟨c, -, hc, -⟩
    cases h.symm.trans ((hclicks c).mpr hc)
  | some c =>
    obtain ⟨opened, hfor⟩ := hready.engineFor q.document
    have hleads {url : Text} : q.LeadsTo start x url ↔ ∃ e, opened = some e ∧
        (e.resolve (Request.ofContext c)).LiveAt start.settings x url := by
      constructor
      · rintro ⟨c', e, hc', he, hlive⟩
        obtain rfl : c = c' := by simpa [h] using (hclicks c').mpr hc'
        exact ⟨e, Except.ok.inj (hfor.symm.trans he), hlive⟩
      · rintro ⟨e, rfl, hlive⟩
        exact ⟨c, e, (hclicks c).mp h, hfor, hlive⟩
    cases opened with
    | none =>
      refine ⟨{}, resolveWith_of_unopened h hfor, truthful_of_not_leadsTo fun url hurl => ?_⟩
      obtain ⟨e, he, -⟩ := hleads.mp hurl
      cases he
    | some e =>
      obtain ⟨t, ht, hsound, hcomplete⟩ := resolveWith_of_opened hready hx h hfor
      refine ⟨t, ht, fun url hurl => hleads.mpr ⟨e, rfl, hsound url hurl⟩, ?_⟩
      intro hstill url hurl
      obtain ⟨e', he', hlive⟩ := hleads.mp hurl
      obtain rfl := Option.some.inj he'
      exact hcomplete hstill url hlive

/-- A query is refused exactly when it names no place, and answered otherwise. An address that is
answered is a live one that the query leads to, and as long as the page does not change every such
address is answered. -/
theorem resolveWith_answers (hready : start.Ready) (hx : x.Regular) (q : Query) :
    ((resolveWith start x q).answer.status = 400 ↔ q.Misplaced) ∧
      ((resolveWith start x q).answer.status = 200 ↔ ¬q.Misplaced) ∧
      ∀ t, (resolveWith start x q).answer = .resolved t → Truthful start x q t := by
  have hmisplaced := q.context_outcome.1
  cases hcontext : q.context with
  | error e =>
    have hplace : q.Misplaced := hmisplaced.mp ⟨e, hcontext⟩
    rw [resolveWith_of_error hcontext]
    exact ⟨iff_of_true rfl hplace, iff_of_false (by decide : 400 ≠ 200) (not_not.mpr hplace),
      fun _ h => nomatch h⟩
  | ok click =>
    have hplace : ¬q.Misplaced := fun h => by
      obtain ⟨e, he⟩ := hmisplaced.mpr h
      cases hcontext.symm.trans he
    obtain ⟨t, ht, htruthful⟩ := resolveWith_truthful hready hx hcontext
    rw [ht]
    refine ⟨iff_of_false (by decide : 200 ≠ 400) hplace, iff_of_true rfl hplace, fun u hu => ?_⟩
    obtain rfl := ServiceAnswer.resolved.inj hu
    exact htruthful

def closedRemote : Remote where
  lookUp _ := { answer := .ok true }
  fetch url := { answer := .error (.fetch url) }

theorem closedRemote_regular : closedRemote.Regular :=
  Remote.regular_of_lookUp (fun _ => ⟨true, rfl⟩) fun _ _ h => nomatch h

def startQuery (index : Int) : Query where
  url := "https://github.com/o/r/blob/main/src/p/Main.kt"
  text := "package p\n\nimport a.b.Home as Start\n"
  lineNumber := 3
  siblings := some (["import", " ", "a", ".b", ".Home", " ", "as", " ", "Start"].map String.toList)
  index := some index

theorem resolveWith_answers_start :
    (resolveWith {} closedRemote (startQuery 4)).answer.status = 200 ∧
      (startQuery 4).LeadsTo {} closedRemote
        "https://github.com/o/r/blob/main/src/a/b/Home.kt#L1" := by
  have hready : Navigator.Ready {} := ⟨[.layout, .menu, .string], rfl⟩
  have hplace : ¬(startQuery 4).Misplaced := by
    rintro (⟨tokens, htokens, hindex⟩ | ⟨hnone, -⟩)
    · obtain rfl := Option.some.inj htokens
      exact absurd (hindex 4 rfl) (by decide)
    · cases hnone
  obtain ⟨-, hstatus, htruthful⟩ :=
    resolveWith_answers hready closedRemote_regular (startQuery 4)
  have hanswer : (resolveWith {} closedRemote (startQuery 4)).answer = .resolved
      { url := some "https://github.com/o/r/blob/main/src/a/b/Home.kt#L1".toList,
        newTab := true } := by
    decide +kernel
  exact ⟨hstatus.mpr hplace, (htruthful _ hanswer).1 _ rfl⟩

/-- A click on the blank behind the imported name leads where the name leads. -/
theorem resolveWith_of_blank : ∃ c, (startQuery 5).Clicks c ∧ Text.isBlank c.token ∧
    (resolveWith {} closedRemote (startQuery 5)).answer = .resolved
      { url := some "https://github.com/o/r/blob/main/src/a/b/Home.kt#L1".toList,
        newTab := true } := by
  let before := ["import", " ", "a", ".b", ".Home"].map String.toList
  let after := ["as", " ", "Start"].map String.toList
  exact ⟨⟨before, " ", after, none, some 3⟩, .place rfl rfl, by decide, by decide +kernel⟩

end Service

end CodeNav
