import CodeNav.Proofs.Anchors
import CodeNav.Proofs.Validation
import Mathlib.Data.List.Forall2

/-!
Second steps. What is fetched for an answer moves the line that it points at and nothing else: two
clicks that differ in what is fetched for them end alike (`Navigator.Outcome.Alike`). The steps of a
click are compared one by one, and each keeps two answers in one file.
-/

namespace CodeNav

/-- Two targets that are opened alike and point into one file, or both nowhere. -/
structure Target.SameFile (t u : Target) : Prop where
  newTab : t.newTab = u.newTab
  url : t.url.map Url.stripAnchor = u.url.map Url.stripAnchor

/-- Two answers that differ at most in the line they point at. -/
structure Resolution.SameFile (r s : Resolution) : Prop where
  target : r.target.SameFile s.target
  reference : r.reference = s.reference
  status : r.status = s.status
  diagnostic : r.diagnostic = s.diagnostic

namespace Resolution

theorem SameFile.refl (r : Resolution) : r.SameFile r := ⟨⟨rfl, rfl⟩, rfl, rfl, rfl⟩

theorem SameFile.symm {r s : Resolution} (h : r.SameFile s) : s.SameFile r :=
  ⟨⟨h.target.newTab.symm, h.target.url.symm⟩, h.reference.symm, h.status.symm,
    h.diagnostic.symm⟩

theorem SameFile.trans {r s t : Resolution} (h : r.SameFile s) (h' : s.SameFile t) :
    r.SameFile t :=
  ⟨⟨h.target.newTab.trans h'.target.newTab, h.target.url.trans h'.target.url⟩,
    h.reference.trans h'.reference, h.status.trans h'.status, h.diagnostic.trans h'.diagnostic⟩

theorem refine_sameFile (r : Resolution) (t : Text) : r.SameFile (r.refine t) := by
  unfold refine
  split
  · next f url _ hurl =>
    split
    · refine ⟨⟨rfl, ?_⟩, rfl, rfl, rfl⟩
      rw [hurl, Option.map_some, Option.map_some, Url.stripAnchor_withLine]
    · exact .refl r
  · exact .refl r

end Resolution

namespace Navigator

open Resolution (SameFile)

/-- Both succeed with related results, or both fail for one reason. -/
inductive ResultsAlike {ε α : Type} (R : α → α → Prop) : Except ε α → Except ε α → Prop where
  | ok {a b : α} (h : R a b) : ResultsAlike R (.ok a) (.ok b)
  | error (e : ε) : ResultsAlike R (.error e) (.error e)

namespace Stage

variable {α β : Type} {R : α → α → Prop} {s t : Stage α}

structure Alike (R : α → α → Prop) (s t : Stage α) : Prop where
  navigator : s.navigator = t.navigator
  result : ResultsAlike R s.result t.result

theorem Alike.of_ok {a b : α} (hnavigator : s.navigator = t.navigator) (hs : s.result = .ok a)
    (ht : t.result = .ok b) (h : R a b) : s.Alike R t := by
  refine ⟨hnavigator, ?_⟩
  rw [hs, ht]
  exact .ok h

/-- Stages that are alike and go on alike. -/
theorem Alike.andThen {Q : β → β → Prop} {f g : Navigator → α → Stage β} (h : s.Alike R t)
    (hnext : ∀ m a b, R a b → (f m a).Alike Q (g m b)) : (s.andThen f).Alike Q (t.andThen g) := by
  obtain ⟨hnavigator, hresult⟩ := h
  unfold Stage.andThen
  rw [hnavigator]
  generalize s.result = a at hresult
  generalize t.result = b at hresult
  cases hresult with
  | ok hab =>
    have hgoes := hnext t.navigator _ _ hab
    exact ⟨hgoes.navigator, hgoes.result⟩
  | error e => exact ⟨rfl, .error e⟩

/-- Stages that go on to answers in the file of one answer. -/
theorem Alike.andThen_sameFile {P : α → Prop} {r : Resolution}
    {next : Navigator → α → Stage Resolution} (h : s.Alike (fun a b => P a ∧ P b) t)
    (hnext : ∀ m a, P a →
      (next m a).navigator = m ∧ ∃ x, (next m a).result = .ok x ∧ r.SameFile x) :
    (s.andThen next).Alike SameFile (t.andThen next) := by
  refine h.andThen fun m a b hab => ?_
  obtain ⟨hma, x, hx, hrx⟩ := hnext m a hab.1
  obtain ⟨hmb, y, hy, hry⟩ := hnext m b hab.2
  exact .of_ok (hma.trans hmb.symm) hx hy (hrx.symm.trans hry)

end Stage

/-- Calls during which the same happens to the page. -/
theorem call_alike {α : Type} {R : Except RemoteFault α → Except RemoteFault α → Prop}
    (n : Navigator) (c c' : RemoteCall) {r r' : Reply α} (hchange : r.change = r'.change)
    (hanswer : R r.answer r'.answer) : (n.call c r).Alike R (n.call c' r') := by
  unfold call
  rw [hchange]
  cases r'.change.elim (Except.ok n) n.change with
  | error e => exact ⟨rfl, .error _⟩
  | ok m => exact ⟨rfl, .ok hanswer⟩

/-- What a look up answers, and what happens to the page meanwhile, do not depend on the anchor of
the address. -/
def IgnoresAnchor (lookUp : Text → Reply Bool) : Prop :=
  ∀ u v, Url.stripAnchor u = Url.stripAnchor v →
    (lookUp u).change = (lookUp v).change ∧ (lookUp u).answer = (lookUp v).answer

section Clicks

variable {lookUp : Text → Reply Bool} {f g : Text → Reply Text}

/-- Whatever is fetched, and also if nothing is, the answer stays in its file. -/
theorem followRefinement_alike (hf : Remote.Regular ⟨lookUp, f⟩) (hg : Remote.Regular ⟨lookUp, g⟩)
    (hchange : ∀ url, (f url).change = (g url).change) (n : Navigator) (r : Resolution) :
    (n.followRefinement (some ⟨lookUp, f⟩) r).Alike SameFile
      (n.followRefinement (some ⟨lookUp, g⟩) r) := by
  unfold followRefinement
  cases r.refinement with
  | none => exact .of_ok rfl rfl rfl (.refl r)
  | some x =>
    by_cases hfollows : n.settings.followMethods
    · simp only [hfollows, if_true]
      have hcall : (n.call (.fetch x.fetchUrl) (f x.fetchUrl)).Alike
          (fun a b => (∀ m, a ≠ .error (.address m)) ∧ ∀ m, b ≠ .error (.address m))
          (n.call (.fetch x.fetchUrl) (g x.fetchUrl)) :=
        call_alike n _ _ (hchange _)
          ⟨fun m ha => hf.fetch _ _ m ha rfl, fun m hb => hg.fetch _ _ m hb rfl⟩
      refine hcall.andThen_sameFile (r := r) fun m a ha => ?_
      split
      · exact ⟨rfl, _, rfl, Resolution.refine_sameFile r _⟩
      · next e => exact absurd rfl (ha e)
      · exact ⟨rfl, _, rfl, .refl r⟩
    · simp only [hfollows]
      exact .of_ok rfl rfl rfl (.refl r)

theorem deadLink_sameFile {r s : Resolution} (h : r.SameFile s) :
    (deadLink r).SameFile (deadLink s) :=
  ⟨⟨h.target.newTab, rfl⟩, h.reference, rfl, h.diagnostic⟩

/-- The check does not tell two answers in one file apart. -/
theorem validate_alike (hlook : IgnoresAnchor lookUp) (n : Navigator) {r s : Resolution}
    (h : r.SameFile s) : (n.validate (some ⟨lookUp, f⟩) r).Alike SameFile
      (n.validate (some ⟨lookUp, g⟩) s) := by
  have hurl := h.target.url
  unfold validate
  cases hr : r.target.url with
  | none =>
    rw [hr, Option.map_none] at hurl
    rw [Option.map_eq_none_iff.mp hurl.symm]
    exact .of_ok rfl rfl rfl h
  | some u =>
    rw [hr, Option.map_some] at hurl
    obtain ⟨v, hs, hfile⟩ := Option.map_eq_some_iff.mp hurl.symm
    rw [hs]
    by_cases hvalidates : n.settings.validateLinks
    · simp only [hvalidates, if_true]
      obtain ⟨hchange, hanswer⟩ := hlook u v hfile.symm
      refine (call_alike (R := Eq) n _ _ hchange hanswer).andThen fun m a b hab => ?_
      subst hab
      split
      · exact .of_ok rfl rfl rfl h
      · exact .of_ok rfl rfl rfl (deadLink_sameFile h)
      · exact .of_ok rfl rfl rfl (deadLink_sameFile h)
      · exact ⟨rfl, .error _⟩
    · simp only [hvalidates]
      exact .of_ok rfl rfl rfl h

theorem pursue_alike (hlook : IgnoresAnchor lookUp) (hf : Remote.Regular ⟨lookUp, f⟩)
    (hg : Remote.Regular ⟨lookUp, g⟩) (hchange : ∀ url, (f url).change = (g url).change)
    (n : Navigator) (e : Engine) (req : Request) :
    (n.pursue (some ⟨lookUp, f⟩) e req).Alike SameFile
      (n.pursue (some ⟨lookUp, g⟩) e req) := by
  let first : Stage Resolution :=
    { navigator := n, log := e.trace req, result := .ok (e.resolve req) }
  have hfirst : first.Alike Eq first := .of_ok rfl rfl rfl rfl
  have hfollow : (first.andThen fun n r => n.followRefinement (some ⟨lookUp, f⟩) r).Alike SameFile
      (first.andThen fun n r => n.followRefinement (some ⟨lookUp, g⟩) r) := by
    refine hfirst.andThen fun m r s hrs => ?_
    subst hrs
    exact followRefinement_alike hf hg hchange m r
  exact hfollow.andThen fun m r s hrs => validate_alike hlook m hrs

end Clicks

/-- Two clicks that end alike: the same page is shown behind them, both are dropped or both are
answered, by answers that differ at most in the line they point at, and what they hand over differs
at most in that. -/
structure Outcome.Alike (o p : Outcome) : Prop where
  navigator : o.navigator = p.navigator
  result : (o.result = .ok none ∧ p.result = .ok none) ∨
    ∃ r s, o.result = .ok (some r) ∧ p.result = .ok (some s) ∧ r.SameFile s
  delivered : List.Forall₂ Target.SameFile o.delivered p.delivered

section Sessions

variable {lookUp : Text → Reply Bool} {f g : Text → Reply Text}

theorem deliveries_alike (n : Navigator) {r s : Resolution} (h : r.SameFile s) :
    List.Forall₂ Target.SameFile (n.deliveries r) (n.deliveries s) := by
  unfold deliveries
  split
  · exact .cons h.target .nil
  · exact .nil

theorem navigate_alike_of_current {n : Navigator} {e : Engine} (he : n.engine = some e)
    {x y : Remote} {req : Request} (ht : ∀ t, req.snapshot = some t → t = e.document.snapshot)
    (h : (n.pursue (some x) e req).Alike SameFile (n.pursue (some y) e req)) {r s : Resolution}
    (hr : (n.pursue (some x) e req).result = .ok r)
    (hs : (n.pursue (some y) e req).result = .ok s) :
    (n.navigate (some x) req).Alike (n.navigate (some y) req) := by
  have hsame : r.SameFile s := by
    have hresult := h.result
    rw [hr, hs] at hresult
    cases hresult with
    | ok hrs => exact hrs
  obtain ⟨hx, hxout⟩ := navigate_of_current he ht hr
  obtain ⟨hy, hyout⟩ := navigate_of_current he ht hs
  rw [← h.navigator] at hy hyout
  by_cases hshown : (n.pursue (some x) e req).navigator.activeSnapshot = some e.document.snapshot
  · rw [if_pos hshown] at hxout hyout
    refine ⟨hx.trans hy.symm, .inr ⟨r, s, hxout.1, hyout.1, hsame⟩, ?_⟩
    rw [hxout.2, hyout.2]
    exact deliveries_alike _ hsame
  · rw [if_neg hshown] at hxout hyout
    refine ⟨hx.trans hy.symm, .inl ⟨hxout.1, hyout.1⟩, ?_⟩
    rw [hxout.2, hyout.2]
    exact .nil

theorem Sound.navigate_alike {n : Navigator} (hn : n.Sound) (hlook : IgnoresAnchor lookUp)
    (hf : Remote.Regular ⟨lookUp, f⟩) (hg : Remote.Regular ⟨lookUp, g⟩)
    (hchange : ∀ url, (f url).change = (g url).change) (req : Request) :
    (n.navigate (some ⟨lookUp, f⟩) req).Alike (n.navigate (some ⟨lookUp, g⟩) req) := by
  cases he : n.engine with
  | none =>
    rw [navigate_of_idle he, navigate_of_idle he]
    exact ⟨rfl, .inr ⟨inactive, inactive, rfl, rfl, .refl inactive⟩,
      deliveries_alike n (.refl inactive)⟩
  | some e =>
    by_cases ht : ∀ t, req.snapshot = some t → t = e.document.snapshot
    · have hready := hn.ready he
      have hfor {x : Remote} (hx : x.Regular) : ∀ y, some x = some y →
          y.RegularFor (e.resolve req) := fun y hy => Option.some.inj hy ▸ hx.for (e.resolve req)
      obtain ⟨r, hr, -⟩ := pursue_yields hready (hfor hf)
      obtain ⟨s, hs, -⟩ := pursue_yields hready (hfor hg)
      exact navigate_alike_of_current he ht (pursue_alike hlook hf hg hchange n e req) hr hs
    · push Not at ht
      obtain ⟨t, htag, hne⟩ := ht
      rw [navigate_of_stale he _ htag hne, navigate_of_stale he _ htag hne]
      exact ⟨rfl, .inl ⟨rfl, rfl⟩, .nil⟩

/-- Two clicks on one page that differ only in what is fetched for them, or in why nothing is, end
alike, as long as the anchor of an address does not count when it is looked up. -/
theorem session_fetch_moves_line_only (s : Settings) (xs : List Extension) (hasSink : Bool)
    (steps : List Step) (hlook : IgnoresAnchor lookUp) (hf : Remote.Regular ⟨lookUp, f⟩)
    (hg : Remote.Regular ⟨lookUp, g⟩) (hchange : ∀ url, (f url).change = (g url).change)
    (req : Request) :
    let n := (idle s xs hasSink).after steps
    (n.navigate (some ⟨lookUp, f⟩) req).Alike (n.navigate (some ⟨lookUp, g⟩) req) :=
  (after_sound s xs hasSink steps).navigate_alike hlook hf hg hchange req

end Sessions

def findAll : Text → Reply Bool := fun _ => { answer := .ok true }

def fetchNothing : Text → Reply Text := fun _ => { answer := .error (.system "unreachable") }

theorem session_fetch_moves_line_only_failing :
    let n := (idle {} [] true).after [.change (.activate callPage)]
    let o := n.navigate (some ⟨findAll, secondLineOnly.fetch⟩) callClick
    let p := n.navigate (some ⟨findAll, fetchNothing⟩) callClick
    IgnoresAnchor findAll ∧ o.Alike p ∧
      o.delivered = [⟨some "https://github.com/o/r/blob/main/a/Home.kt#L2".toList, true⟩] ∧
      p.delivered = [⟨some "https://github.com/o/r/blob/main/a/Home.kt#L1".toList, true⟩] := by
  intro n o p
  have hlook : IgnoresAnchor findAll := fun _ _ _ => ⟨rfl, rfl⟩
  have hf : Remote.Regular ⟨findAll, secondLineOnly.fetch⟩ :=
    Remote.regular_of_lookUp (fun _ => ⟨true, rfl⟩) fun _ _ h => nomatch h
  have hg : Remote.Regular ⟨findAll, fetchNothing⟩ :=
    Remote.regular_of_lookUp (fun _ => ⟨true, rfl⟩) fun _ _ h => nomatch h
  refine ⟨hlook, ?_, ?_, ?_⟩
  · exact session_fetch_moves_line_only {} [] true [.change (.activate callPage)] hlook hf hg
      (fun _ => rfl) callClick
  · decide +kernel
  · decide +kernel

end Navigator

end CodeNav
