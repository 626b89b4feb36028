import CodeNav.Proofs.Session

namespace CodeNav.Navigator

/-- How a click on a navigator should go: it is answered, the target of its answer is handed over
and nothing else is, and an answer is one for the page that was clicked on and is still shown. -/
structure Outcome.Proper (n : Navigator) (req : Request) (o : Outcome) : Prop where
  answered : ∃ a, o.result = .ok a
  delivered : ∀ a, o.result = .ok a →
    o.delivered = if n.hasSink then a.toList.map (·.target) else []
  current : ∀ r, o.result = .ok (some r) → n.engine ≠ none →
    r.snapshot = n.activeSnapshot ∧ r.snapshot = o.navigator.activeSnapshot ∧
      ∀ t, req.snapshot = some t → r.snapshot = some t

theorem deliveries_eq {n m : Navigator} (h : m.hasSink = n.hasSink) (r : Resolution) :
    m.deliveries r = if n.hasSink then (some r).toList.map (·.target) else [] := by
  simp [deliveries, h]

theorem navigate_proper_of_idle {n : Navigator} (h : n.engine = none) (remote : Option Remote)
    (req : Request) : (n.navigate remote req).Proper n req := by
  rw [navigate_of_idle h]
  refine ⟨⟨_, rfl⟩, fun a ha => ?_, fun _ _ hne => absurd h hne⟩
  obtain rfl := Except.ok.inj ha
  exact deliveries_eq rfl inactive

theorem navigate_proper_of_stale {n : Navigator} {e : Engine} (he : n.engine = some e)
    (remote : Option Remote) {req : Request} {t : Text} (ht : req.snapshot = some t)
    (hne : t ≠ e.document.snapshot) : (n.navigate remote req).Proper n req := by
  rw [navigate_of_stale he remote ht hne]
  refine ⟨⟨_, rfl⟩, fun a ha => ?_, fun r hr => ?_⟩
  · obtain rfl := Except.ok.inj ha
    simp
  · cases Except.ok.inj hr

theorem navigate_proper_of_current {n : Navigator} (hn : n.Ready) {e : Engine}
    (he : n.engine = some e) {remote : Option Remote} (hr : ∀ x, remote = some x → x.Regular)
    {req : Request} (ht : ∀ t, req.snapshot = some t → t = e.document.snapshot) :
    (n.navigate remote req).Proper n req := by
  obtain ⟨r, hres, hends⟩ := pursue_yields hn fun x hx => (hr x hx).for (e.resolve req)
  have hsnap : r.snapshot = some e.document.snapshot := hends.snapshot
  have hsink := (pursue_becomes n remote e req).hasSink
  obtain ⟨hnav, hout⟩ := navigate_of_current he ht hres
  by_cases hshown : (n.pursue remote e req).navigator.activeSnapshot = some e.document.snapshot
  · rw [if_pos hshown] at hout
    refine ⟨⟨_, hout.1⟩, fun a ha => ?_, fun r' hr' _ => ?_⟩
    · obtain rfl := Except.ok.inj (hout.1.symm.trans ha)
      rw [hout.2]
      exact deliveries_eq hsink r
    · obtain rfl := Option.some.inj (Except.ok.inj (hout.1.symm.trans hr'))
      refine ⟨?_, ?_, fun t htag => ?_⟩
      · simp [activeSnapshot, he, hsnap]
      · rw [hnav, hshown, hsnap]
      · rw [hsnap, ht t htag]
  · rw [if_neg hshown] at hout
    refine ⟨⟨_, hout.1⟩, fun a ha => ?_, fun r' hr' _ => ?_⟩
    · obtain rfl := Except.ok.inj (hout.1.symm.trans ha)
      simp [hout.2]
    · cases Except.ok.inj (hout.1.symm.trans hr')

theorem Sound.navigate_proper {n : Navigator} (hn : n.Sound) {remote : Option Remote}
    (hr : ∀ x, remote = some x → x.Regular) (req : Request) :
    (n.navigate remote req).Proper n req := by
  cases he : n.engine with
  | none => exact navigate_proper_of_idle he remote req
  | some e =>
    have hready := hn.ready he
    cases htag : req.snapshot with
    | none => exact navigate_proper_of_current hready he hr (by simp [htag])
    | some t =>
      by_cases ht : t = e.document.snapshot
      · exact navigate_proper_of_current hready he hr (by simp [htag, ht])
      · exact navigate_proper_of_stale he remote htag ht

/-- Whatever was shown and clicked on before, and whatever happens to the page while files are
fetched and looked up, a click goes as it should. -/
theorem session_click_proper (s : Settings) (xs : List Extension) (hasSink : Bool)
    (steps : List Step) (remote : Option Remote) (hr : ∀ x, remote = some x → x.Regular)
    (req : Request) :
    let n := (idle s xs hasSink).after steps
    (n.navigate remote req).Proper n req :=
  (after_sound s xs hasSink steps).navigate_proper hr req

def homePage (snapshot : Text) : Document :=
  .ofText "import a.Home" "https://github.com/o/r/blob/main/Main.kt" snapshot

def homeClick (snapshot : Text) : Request :=
  ⟨"Home", ⟨["x", " "], "Home", [], none, none⟩, some snapshot⟩

/-- A remote side that finds every file, while another page is shown meanwhile. -/
def leaving : Remote where
  lookUp _ := { change := some (.activate (homePage "later")), answer := .ok true }
  fetch _ := { answer := .error (.fetch "not found") }

theorem leaving_regular : leaving.Regular :=
  Remote.regular_of_lookUp (fun _ => ⟨true, rfl⟩) fun _ _ h => nomatch h

def staying : Remote where
  lookUp _ := { answer := .ok true }
  fetch _ := { answer := .error (.fetch "not found") }

theorem staying_regular : staying.Regular :=
  Remote.regular_of_lookUp (fun _ => ⟨true, rfl⟩) fun _ _ h => nomatch h

theorem session_click_proper_leaving :
    let n := (idle {} [] true).after [.change (.activate (homePage "now"))]
    let seen := n.navigate (some staying) (homeClick "now")
    let lost := n.navigate (some leaving) (homeClick "now")
    let home : Target := ⟨some "https://github.com/o/r/blob/main/a/Home.kt#L1".toList, true⟩
    (∀ remote ∈ [staying, leaving], ∀ x, some remote = some x → x.Regular) ∧
      seen.Proper n (homeClick "now") ∧ seen.delivered = [home] ∧
        (∃ r, seen.result = .ok (some r) ∧ r.target = home ∧ r.snapshot = some "now".toList) ∧
      lost.Proper n (homeClick "now") ∧ lost.delivered = [] ∧ lost.result = .ok none := by
  intro n seen lost home
  have hstaying : ∀ x, some staying = some x → x.Regular := fun x h =>
    Option.some.inj h ▸ staying_regular
  have hleaving : ∀ x, some leaving = some x → x.Regular := fun x h =>
    Option.some.inj h ▸ leaving_regular
  have hseen := session_click_proper {} [] true [.change (.activate (homePage "now"))]
    (some staying) hstaying (homeClick "now")
  have hlost := session_click_proper {} [] true [.change (.activate (homePage "now"))]
    (some leaving) hleaving (homeClick "now")
  have hone : seen.delivered = [home] := by decide +kernel
  have hnone : lost.delivered = [] := by decide +kernel
  refine ⟨?_, hseen, hone, ?_, hlost, hnone, ?_⟩
  · rintro remote (_ | ⟨_, _ | ⟨_, hempty⟩⟩)
    · exact hstaying
    · exact hleaving
    · cases hempty
  · obtain ⟨a, ha⟩ := hseen.answered
    have hdelivered := hone.symm.trans (hseen.delivered a ha)
    cases a with
    | none => cases hdelivered
    | some r =>
      obtain ⟨-, -, htag⟩ := hseen.current r ha (Option.some_ne_none _)
      exact ⟨r, ha, (List.cons.inj hdelivered).1.symm, htag _ rfl⟩
  · obtain ⟨a, ha⟩ := hlost.answered
    have hdelivered := hnone.symm.trans (hlost.delivered a ha)
    cases a with
    | none => exact ha
    | some r => cases hdelivered

/-- A click tied to a snapshot that is not shown is dropped exactly when a page with an engine is
shown. On another page it gets the answer that every click there gets. It never touches the remote
side or the page. -/
theorem stale_click_dropped_iff (n : Navigator) (remote : Option Remote) {req : Request} {t : Text}
    (htag : req.snapshot = some t) (hgone : n.activeSnapshot ≠ some t) :
    let o := n.navigate remote req
    ((o.result = .ok none ∧ o.delivered = []) ↔ n.engine ≠ none) ∧
      (n.engine = none → o.result = .ok (some inactive) ∧ o.delivered = n.deliveries inactive) ∧
      o.navigator = n ∧ o.calls = [] ∧ o.requests = [] := by
  intro o
  cases he : n.engine with
  | none =>
    have ho : o = _ := navigate_of_idle he remote req
    rw [ho]
    refine ⟨⟨fun h => ?_, fun h => absurd rfl h⟩, fun _ => ⟨rfl, rfl⟩, rfl, rfl, rfl⟩
    cases Except.ok.inj h.1
  | some e =>
    have hne : t ≠ e.document.snapshot := by
      rintro rfl
      exact hgone (by simp [activeSnapshot, he])
    have ho : o = _ := navigate_of_stale he remote htag hne
    rw [ho]
    refine ⟨⟨fun _ => ?_, fun _ => ⟨rfl, rfl⟩⟩, fun h => ?_, rfl, rfl, rfl⟩
    · exact Option.some_ne_none e
    · cases h

theorem stale_click_dropped_iff_later :
    let n := (idle {} [] true).after
      [.change (.activate (homePage "now")), .change (.activate (homePage "later"))]
    let o := n.navigate none (homeClick "now")
    n.activeSnapshot ≠ some "now".toList ∧
      ((o.result = .ok none ∧ o.delivered = []) ↔ n.engine ≠ none) := by
  intro n o
  have hgone : n.activeSnapshot ≠ some "now".toList := by decide +kernel
  exact ⟨hgone, (stale_click_dropped_iff n none rfl hgone).1⟩

/-- A click on a page that was shown and then left for none is answered all the same. -/
theorem stale_click_answered_after_leaving :
    let n := idle {} [] true
    let shown := n.after [.change (.activate (homePage "now"))]
    let left := n.after [.change (.activate (homePage "now")), .change .deactivate]
    let o := left.navigate none (homeClick "now")
    shown.activeSnapshot = (homeClick "now").snapshot ∧ left.activeSnapshot = none ∧
      o.result = .ok (some inactive) ∧ o.delivered = [.nowhere] := by
  intro n shown left o
  have hleft : left.engine = none := rfl
  have ho : o = _ := navigate_of_idle hleft none (homeClick "now")
  refine ⟨?_, ?_, ?_, ?_⟩
  · decide +kernel
  · simp [activeSnapshot, hleft]
  · rw [ho]
  · rw [ho]
    decide +kernel

end CodeNav.Navigator
