import CodeNav.Navigator.Session

namespace CodeNav

/-- A remote side that fails only as the files of a host do: the system may report a failure, and a
file may not be fetched. No address is refused. -/
structure Remote.Regular (r : Remote) : Prop where
  lookUp : ∀ url e, (r.lookUp url).answer = .error e → ∃ m, e = .system m
  fetch : ∀ url e m, (r.fetch url).answer = .error e → e ≠ .address m

/-- Where looking up never fails, only the addresses that are fetched count. -/
theorem Remote.regular_of_lookUp {x : Remote} (hlookUp : ∀ url, ∃ b, (x.lookUp url).answer = .ok b)
    (hfetch : ∀ url m, (x.fetch url).answer ≠ .error (.address m)) : x.Regular where
  lookUp url e h := by
    obtain ⟨b, hb⟩ := hlookUp url
    cases hb.symm.trans h
  fetch url e m h := by
    rintro rfl
    exact hfetch url m h

/-- A remote side that fails only so at the addresses that an answer asks for: that of its second
step, and where it may lead after that. -/
structure Remote.RegularFor (x : Remote) (r : Resolution) : Prop where
  fetch : ∀ f e m, r.refinement = some f → (x.fetch f.fetchUrl).answer = .error e → e ≠ .address m
  lookUp : ∀ a url e, (a = r ∨ ∃ t, a = r.refine t) → a.target.url = some url →
    (x.lookUp url).answer = .error e → ∃ m, e = .system m

theorem Remote.Regular.for {x : Remote} (h : x.Regular) (r : Resolution) : x.RegularFor r :=
  ⟨fun f e m _ => h.fetch f.fetchUrl e m, fun _ url e _ _ => h.lookUp url e⟩

namespace Navigator

def idle (s : Settings) (xs : List Extension) (hasSink : Bool) : Navigator :=
  { settings := s, extensions := xs, hasSink }

/-- What is shown is the engine that its document gets. -/
def Sound (n : Navigator) : Prop := ∀ e, n.engine = some e → n.engineFor e.document = .ok (some e)

/-- The resource kinds in use can be found, so every document can be opened. -/
def Ready (n : Navigator) : Prop := ∃ fs, Catalog.features n.extensions n.settings.enabled = .ok fs

/-- What a navigator may become while it runs: only the page changes. -/
structure Becomes (n m : Navigator) : Prop where
  settings : m.settings = n.settings
  extensions : m.extensions = n.extensions
  hasSink : m.hasSink = n.hasSink
  sound : n.Sound → m.Sound

theorem Becomes.refl (n : Navigator) : n.Becomes n := ⟨rfl, rfl, rfl, id⟩

theorem Becomes.trans {n m o : Navigator} (h : n.Becomes m) (h' : m.Becomes o) : n.Becomes o :=
  ⟨h'.settings.trans h.settings, h'.extensions.trans h.extensions, h'.hasSink.trans h.hasSink,
    h'.sound ∘ h.sound⟩

theorem Becomes.ready {n m : Navigator} (h : n.Becomes m) (hn : n.Ready) : m.Ready := by
  unfold Ready
  rwa [h.settings, h.extensions]

theorem idle_sound (s : Settings) (xs : List Extension) (hasSink : Bool) :
    (idle s xs hasSink).Sound := by
  intro e he
  cases he

theorem open?_eq_ok_some {xs : List Extension} {s : Settings} {d : Document} {e : Engine}
    (h : Engine.open? xs s d = .ok (some e)) :
    e.document = d ∧ e.settings = s ∧ Language.ofUrl? d.url = some e.language ∧
      Catalog.features xs s.enabled = .ok e.features := by
  unfold Engine.open? at h
  cases hl : Language.ofUrl? d.url with
  | none => simp [hl] at h
  | some l =>
    cases hf : Catalog.features xs s.enabled with
    | error c => simp [hl, hf, Except.map] at h
    | ok fs =>
      simp only [hl, hf, Except.map, Except.ok.injEq, Option.some.injEq] at h
      subst h
      exact ⟨rfl, rfl, rfl, rfl⟩

theorem engineFor_eq_ok_some {n : Navigator} {d : Document} {e : Engine}
    (h : n.engineFor d = .ok (some e)) :
    Url.isFileView d.url ∧ Engine.open? n.extensions n.settings d = .ok (some e) := by
  unfold engineFor at h
  by_cases hv : Url.isFileView d.url
  · rw [if_pos hv] at h
    exact ⟨hv, h⟩
  · simp [if_neg hv] at h

theorem engineFor_document {n : Navigator} {d : Document} {e : Engine}
    (h : n.engineFor d = .ok (some e)) : e.document = d :=
  (open?_eq_ok_some (engineFor_eq_ok_some h).2).1

/-- The resource kinds do not depend on the document, so one that was opened shows that all can
be. -/
theorem Sound.ready {n : Navigator} (hn : n.Sound) {e : Engine} (he : n.engine = some e) :
    n.Ready :=
  ⟨e.features, (open?_eq_ok_some (engineFor_eq_ok_some (hn e he)).2).2.2.2⟩

theorem Ready.engineFor {n : Navigator} (hn : n.Ready) (d : Document) :
    ∃ e, n.engineFor d = .ok e := by
  obtain ⟨fs, hfs⟩ := hn
  unfold Navigator.engineFor Engine.open?
  by_cases hv : Url.isFileView d.url
  · cases hl : Language.ofUrl? d.url with
    | none => exact ⟨none, by simp [hv]⟩
    | some l => exact ⟨some ⟨d, l, fs, n.settings⟩, by simp [hv, hfs, Except.map]⟩
  · exact ⟨none, by simp [hv]⟩

theorem activate_eq_ok {n m : Navigator} {d : Document} (h : n.activate d = .ok m) :
    ∃ e, n.engineFor d = .ok e ∧ m = { n with engine := e } := by
  unfold activate at h
  cases he : n.engineFor d with
  | error c => simp [he, Except.map] at h
  | ok e =>
    simp only [he, Except.map, Except.ok.injEq] at h
    exact ⟨e, rfl, h.symm⟩

theorem change_becomes {n m : Navigator} {c : PageChange} (h : n.change c = .ok m) :
    n.Becomes m := by
  cases c with
  | activate d =>
    obtain ⟨e, he, rfl⟩ := activate_eq_ok h
    refine ⟨rfl, rfl, rfl, fun _ e' he' => ?_⟩
    have he' : e = some e' := he'
    subst he'
    rw [engineFor_document he]
    exact he
  | deactivate =>
    obtain rfl := Except.ok.inj h
    exact ⟨rfl, rfl, rfl, fun _ e he => by cases he⟩

theorem Ready.change {n : Navigator} (hn : n.Ready) (c : PageChange) : ∃ m, n.change c = .ok m := by
  cases c with
  | activate d =>
    obtain ⟨e, he⟩ := hn.engineFor d
    exact ⟨{ n with engine := e }, by simp [Navigator.change, activate, he, Except.map]⟩
  | deactivate => exact ⟨n.deactivate, rfl⟩

/-- A view of a file in a known language gets an engine with the built-in kinds of resources where
nothing else is asked for. -/
theorem activate_of_isFileView (n : Navigator) {d : Document} {l : Language}
    (hextensions : n.extensions = []) (henabled : n.settings.enabled = none)
    (hview : Url.isFileView d.url) (hlanguage : Language.ofUrl? d.url = some l) :
    n.activate d =
      .ok { n with engine := some ⟨d, l, [.layout, .menu, .string], n.settings⟩ } := by
  have hfeatures : Catalog.features [] none = .ok [.layout, .menu, .string] := rfl
  simp only [activate, engineFor, hview, if_true, Engine.open?, hlanguage, hextensions, henabled,
    hfeatures, Except.map]

namespace Stage

variable {α β : Type}

def Yields (s : Stage α) (P : α → Prop) : Prop := ∃ a, s.result = .ok a ∧ P a

theorem Yields.andThen {s : Stage α} {P : α → Prop} {Q : β → Prop}
    {next : Navigator → α → Stage β} (hs : s.Yields P)
    (hnext : ∀ a, P a → (next s.navigator a).Yields Q) : (s.andThen next).Yields Q := by
  obtain ⟨a, ha, hP⟩ := hs
  obtain ⟨b, hb, hQ⟩ := hnext a hP
  exact ⟨b, by simp only [Stage.andThen, ha, hb], hQ⟩

theorem andThen_becomes {n : Navigator} {s : Stage α} {next : Navigator → α → Stage β}
    (hs : n.Becomes s.navigator)
    (hnext : ∀ (m : Navigator) (a : α), m.Becomes (next m a).navigator) :
    n.Becomes (s.andThen next).navigator := by
  unfold Stage.andThen
  cases s.result with
  | error e => exact hs
  | ok a => exact hs.trans (hnext _ a)

end Stage

theorem call_becomes {α : Type} (n : Navigator) (c : RemoteCall) (r : Reply α) :
    n.Becomes (n.call c r).navigator := by
  unfold call
  cases hc : r.change with
  | none => exact .refl n
  | some c =>
    simp only [Option.elim]
    cases hm : n.change c with
    | error e => exact .refl n
    | ok m => exact change_becomes hm

theorem Ready.call_result {α : Type} {n : Navigator} (hn : n.Ready) (c : RemoteCall)
    (r : Reply α) : (n.call c r).result = .ok r.answer := by
  unfold call
  cases hc : r.change with
  | none => rfl
  | some c =>
    obtain ⟨m, hm⟩ := hn.change c
    simp only [Option.elim, hm]

theorem followRefinement_becomes (n : Navigator) (remote : Option Remote) (r : Resolution) :
    n.Becomes (n.followRefinement remote r).navigator := by
  unfold followRefinement
  split
  · split
    · refine Stage.andThen_becomes (call_becomes n _ _) fun m a => ?_
      split <;> exact .refl m
    · exact .refl n
  · exact .refl n

theorem validate_becomes (n : Navigator) (remote : Option Remote) (r : Resolution) :
    n.Becomes (n.validate remote r).navigator := by
  unfold validate
  split
  · split
    · refine Stage.andThen_becomes (call_becomes n _ _) fun m a => ?_
      dsimp only
      split <;> exact .refl m
    · exact .refl n
  · exact .refl n

theorem pursue_becomes (n : Navigator) (remote : Option Remote) (e : Engine) (req : Request) :
    n.Becomes (n.pursue remote e req).navigator := by
  refine Stage.andThen_becomes (Stage.andThen_becomes (.refl n) fun m r => ?_) fun m r => ?_
  · exact followRefinement_becomes m remote r
  · exact validate_becomes m remote r

/-- Following the second step of an answer gives it back as it is or refined. -/
theorem followRefinement_yields {n : Navigator} (hn : n.Ready) {remote : Option Remote}
    {r : Resolution} (hr : ∀ x, remote = some x → x.RegularFor r) :
    (n.followRefinement remote r).Yields fun a => a = r ∨ ∃ t, a = r.refine t := by
  unfold followRefinement
  split
  case h_1 f x hf =>
    split
    · have hcall : (n.call (.fetch f.fetchUrl) (x.fetch f.fetchUrl)).Yields
          (· = (x.fetch f.fetchUrl).answer) := ⟨_, hn.call_result _ _, rfl⟩
      refine hcall.andThen fun a ha => ?_
      split
      · exact ⟨_, rfl, .inr ⟨_, rfl⟩⟩
      -- No address is refused.
      · next m => exact absurd rfl ((hr x rfl).fetch f _ m hf ha.symm)
      · exact ⟨r, rfl, .inl rfl⟩
    · exact ⟨r, rfl, .inl rfl⟩
  case h_2 => exact ⟨r, rfl, .inl rfl⟩

/-- Checking an answer gives it back as it is or as a dead link. -/
theorem validate_yields {n : Navigator} (hn : n.Ready) {remote : Option Remote} {r : Resolution}
    (hr : ∀ x url e, remote = some x → r.target.url = some url →
      (x.lookUp url).answer = .error e → ∃ m, e = .system m) :
    (n.validate remote r).Yields fun a => a = r ∨ a = deadLink r := by
  unfold validate
  split
  case h_1 url x hurl =>
    split
    · have hcall : (n.call (.lookUp url) (x.lookUp url)).Yields (· = (x.lookUp url).answer) :=
        ⟨_, hn.call_result _ _, rfl⟩
      refine hcall.andThen fun a ha => ?_
      dsimp only
      split
      · exact ⟨r, rfl, .inl rfl⟩
      · exact ⟨_, rfl, .inr rfl⟩
      · exact ⟨_, rfl, .inr rfl⟩
      · next e hne =>
        obtain ⟨m, rfl⟩ := hr x url _ rfl hurl ha.symm
        exact absurd rfl (hne m)
    · exact ⟨r, rfl, .inl rfl⟩
  case h_2 => exact ⟨r, rfl, .inl rfl⟩

@[simp] theorem refine_snapshot (r : Resolution) (t : Text) :
    (r.refine t).snapshot = r.snapshot := by
  unfold Resolution.refine
  split
  · split <;> rfl
  · rfl

/-- What comes of an answer on the way: it may be refined, and then be given up as a dead link. -/
def EndsAs (r a : Resolution) : Prop :=
  ∃ b, (b = r ∨ ∃ t, b = r.refine t) ∧ (a = b ∨ a = deadLink b)

theorem EndsAs.snapshot {r a : Resolution} (h : EndsAs r a) : a.snapshot = r.snapshot := by
  obtain ⟨b, hb, ha⟩ := h
  have hsnapshot : b.snapshot = r.snapshot := by
    rcases hb with rfl | ⟨t, rfl⟩
    · rfl
    · exact refine_snapshot r t
  rcases ha with rfl | rfl <;> exact hsnapshot

/-- Whatever happens on the way, what comes of the answer is one for the snapshot it was asked
of. -/
theorem pursue_yields {n : Navigator} (hn : n.Ready) {remote : Option Remote} {e : Engine}
    {req : Request} (hr : ∀ x, remote = some x → x.RegularFor (e.resolve req)) :
    (n.pursue remote e req).Yields (EndsAs (e.resolve req)) := by
  -- The page may change while a file is fetched, but then too every document can be opened.
  have hm := (followRefinement_becomes n remote (e.resolve req)).ready hn
  refine Stage.Yields.andThen (P := fun a => a = e.resolve req ∨ ∃ t, a = (e.resolve req).refine t)
    ?_ fun a ha => ?_
  · exact followRefinement_yields hn hr
  · obtain ⟨b, hb, hcase⟩ := validate_yields hm fun x url c hx hurl hfails =>
      (hr x hx).lookUp a url c ha hurl hfails
    exact ⟨b, hb, a, ha, hcase⟩

theorem navigate_of_idle {n : Navigator} (h : n.engine = none) (remote : Option Remote)
    (req : Request) : n.navigate remote req =
      { navigator := n, delivered := n.deliveries inactive, result := .ok (some inactive) } := by
  simp only [navigate, h]

/-- A click tied to another snapshot than the one shown does nothing. -/
theorem navigate_of_stale {n : Navigator} {e : Engine} (he : n.engine = some e)
    (remote : Option Remote) {req : Request} {t : Text} (ht : req.snapshot = some t)
    (hne : t ≠ e.document.snapshot) : n.navigate remote req =
      { navigator := n, result := .ok none
        log := [.debug ("Dropping request for stale snapshot " ++ t)] } := by
  have hf : req.snapshot.filter (· != e.document.snapshot) = some t := by
    simp [ht, Option.filter, hne]
  simp only [navigate, he, hf]

/-- A click on the snapshot shown is answered unless the page has changed by then. -/
theorem navigate_of_current {n : Navigator} {e : Engine} (he : n.engine = some e)
    {remote : Option Remote} {req : Request}
    (ht : ∀ t, req.snapshot = some t → t = e.document.snapshot) {r : Resolution}
    (hr : (n.pursue remote e req).result = .ok r) :
    let m := (n.pursue remote e req).navigator
    let o := n.navigate remote req
    o.navigator = m ∧
      if m.activeSnapshot = some e.document.snapshot then
        o.result = .ok (some r) ∧ o.delivered = m.deliveries r
      else o.result = .ok none ∧ o.delivered = [] := by
  have hf : req.snapshot.filter (· != e.document.snapshot) = none := by
    cases hs : req.snapshot with
    | none => rfl
    | some t => simp [Option.filter, ht t hs]
  intro m o
  simp only [o, m, navigate, he, hf, hr]
  split <;> exact ⟨rfl, rfl, rfl⟩

theorem navigate_becomes (n : Navigator) (remote : Option Remote) (req : Request) :
    n.Becomes (n.navigate remote req).navigator := by
  unfold navigate
  split
  · exact .refl n
  · dsimp only
    split
    · exact .refl n
    · have h := pursue_becomes n remote
      split
      · exact h _ req
      · split <;> exact h _ req

theorem step_becomes (n : Navigator) (s : Step) : n.Becomes (n.step s).navigator := by
  cases s with
  | change c =>
    cases hm : n.change c with
    | ok m =>
      simp only [step, hm]
      exact change_becomes hm
    | error e =>
      simp only [step, hm]
      exact .refl n
  | click remote req => exact navigate_becomes n remote req

theorem after_becomes (n : Navigator) (steps : List Step) : n.Becomes (n.after steps) := by
  induction steps generalizing n with
  | nil => exact .refl n
  | cons s steps ih => exact (step_becomes n s).trans (ih _)

theorem after_sound (s : Settings) (xs : List Extension) (hasSink : Bool) (steps : List Step) :
    ((idle s xs hasSink).after steps).Sound :=
  (after_becomes _ steps).sound (idle_sound s xs hasSink)

end Navigator

end CodeNav
