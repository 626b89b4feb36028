import CodeNav.Proofs.Delivery

namespace CodeNav.Navigator

/-- The remote side has no file at the address, or the system fails to tell. -/
def Missing (x : Remote) (url : Text) : Prop :=
  (x.lookUp url).answer = .ok false ∨ ∃ m, (x.lookUp url).answer = .error (.system m)

/-- How a click should make use of the remote side when links are checked. -/
structure Outcome.Checked (n : Navigator) (x : Remote) (req : Request) (o : Outcome) : Prop where
  /-- What is handed over is the target of the answer. -/
  answered : ∀ t ∈ o.delivered, ∃ r, o.result = .ok (some r) ∧ r.target = t
  /-- An answer with an address comes right after looking up that address, where a file exists. -/
  existing : ∀ r url, o.result = .ok (some r) → r.target.url = some url →
    o.calls.getLast? = some (.lookUp url) ∧ (x.lookUp url).answer = .ok true
  /-- An answer after looking up an address where a file exists leads there. -/
  kept : ∀ r url, o.result = .ok (some r) → .lookUp url ∈ o.calls →
    (x.lookUp url).answer = .ok true → r.target.url = some url
  /-- An answer after looking up an address without a file leads nowhere and says so; it would open
  where the engine's answer would. -/
  dead : ∀ r url, o.result = .ok (some r) → .lookUp url ∈ o.calls → Missing x url →
    r.status = .deadLink ∧
      ∃ e, n.engine = some e ∧ r.target = .nowhere (e.resolve req).target.newTab
  /-- Fetching comes before looking up, and each is done once at most. -/
  ordered : ∃ fetched lookedUp : Option Text,
    o.calls = fetched.toList.map .fetch ++ lookedUp.toList.map .lookUp
  /-- Only the file of the second step is fetched, and only if second steps are taken. -/
  fetched : ∀ url, .fetch url ∈ o.calls → n.settings.followMethods ∧
    ∃ e f, n.engine = some e ∧ (e.resolve req).refinement = some f ∧ f.fetchUrl = url

theorem Stage.andThen_calls_of_ok {α β : Type} {s : Stage α} {a : α} (h : s.result = .ok a)
    (next : Navigator → α → Stage β) :
    (s.andThen next).calls = s.calls ++ (next s.navigator a).calls := by
  simp only [Stage.andThen, h]

theorem Stage.andThen_calls_of_error {α β : Type} {s : Stage α} {e : NavigationError}
    (h : s.result = .error e) (next : Navigator → α → Stage β) :
    (s.andThen next).calls = s.calls := by
  simp only [Stage.andThen, h]

/-- What follows a call and makes none leaves the calls at that one. -/
theorem Stage.call_andThen_calls {α β : Type} (n : Navigator) (c : RemoteCall) (r : Reply α)
    {next : Navigator → Except RemoteFault α → Stage β} (hnext : ∀ m a, (next m a).calls = []) :
    ((n.call c r).andThen next).calls = [c] := by
  have hcall : (n.call c r).calls = [c] := by
    unfold call
    dsimp only
    split <;> rfl
  cases hres : (n.call c r).result with
  | ok a => rw [Stage.andThen_calls_of_ok hres, hcall, hnext, List.append_nil]
  | error e => rw [Stage.andThen_calls_of_error hres, hcall]

theorem Stage.andThen_eq_ok {α β : Type} {s : Stage α} {next : Navigator → α → Stage β} {b : β}
    (h : (s.andThen next).result = .ok b) :
    ∃ a, s.result = .ok a ∧ (next s.navigator a).result = .ok b := by
  unfold Stage.andThen at h
  cases hs : s.result with
  | error e => simp [hs] at h
  | ok a => exact ⟨a, rfl, by simpa [hs] using h⟩

theorem call_eq_ok {α : Type} {n : Navigator} {c : RemoteCall} {r : Reply α}
    {a : Except RemoteFault α} (h : (n.call c r).result = .ok a) : r.answer = a := by
  unfold call at h
  dsimp only at h
  split at h
  · cases h
  · exact Except.ok.inj h

def fetchUrl? (n : Navigator) (r : Resolution) : Option Text :=
  if n.settings.followMethods then r.refinement.map (·.fetchUrl) else none

theorem followRefinement_calls (n : Navigator) (x : Remote) (r : Resolution) :
    (n.followRefinement (some x) r).calls = (n.fetchUrl? r).toList.map .fetch := by
  unfold followRefinement fetchUrl?
  cases hr : r.refinement with
  | none => simp
  | some f =>
    by_cases hfollows : n.settings.followMethods
    · simp only [hfollows, if_true]
      apply Stage.call_andThen_calls
      intro m a
      split <;> rfl
    · simp [hfollows]

theorem followRefinement_eq_ok {n : Navigator} {remote : Option Remote} {r a : Resolution}
    (h : (n.followRefinement remote r).result = .ok a) : a = r ∨ ∃ t, a = r.refine t := by
  unfold followRefinement at h
  split at h
  · split at h
    · obtain ⟨answer, -, h⟩ := Stage.andThen_eq_ok h
      cases answer with
      | ok t => exact .inr ⟨t, (Except.ok.inj h).symm⟩
      | error e =>
        cases e with
        | address m => cases h
        | fetch m => exact .inl (Except.ok.inj h).symm
        | system m => exact .inl (Except.ok.inj h).symm
    · exact .inl (Except.ok.inj h).symm
  · exact .inl (Except.ok.inj h).symm

theorem refine_newTab (r : Resolution) (t : Text) :
    (r.refine t).target.newTab = r.target.newTab := by
  unfold Resolution.refine
  split
  · split <;> rfl
  · rfl

theorem validate_calls {n : Navigator} (hn : n.settings.validateLinks) (x : Remote)
    (r : Resolution) :
    (n.validate (some x) r).calls = r.target.url.toList.map .lookUp := by
  unfold validate
  cases hurl : r.target.url with
  | none => rfl
  | some url =>
    simp only [hn, if_true]
    apply Stage.call_andThen_calls
    intro m a
    split <;> rfl

/-- A check passes an answer without an address on; it passes one with an address on where a file
exists, and gives up its address where none does. -/
theorem validate_eq_ok {n : Navigator} (hn : n.settings.validateLinks) {x : Remote}
    {r a : Resolution} (h : (n.validate (some x) r).result = .ok a) :
    (r.target.url = none ∧ a = r) ∨
      ∃ url, r.target.url = some url ∧
        ((x.lookUp url).answer = .ok true ∧ a = r ∨ Missing x url ∧ a = deadLink r) := by
  unfold validate at h
  cases hurl : r.target.url with
  | none =>
    rw [hurl] at h
    exact .inl ⟨rfl, (Except.ok.inj h).symm⟩
  | some url =>
    simp only [hurl, hn, if_true] at h
    obtain ⟨answer, hcall, h⟩ := Stage.andThen_eq_ok h
    have hanswer := call_eq_ok hcall
    refine .inr ⟨url, rfl, ?_⟩
    unfold Missing
    rw [hanswer]
    cases answer with
    | ok exists? =>
      cases exists? with
      | true => exact .inl ⟨rfl, (Except.ok.inj h).symm⟩
      | false => exact .inr ⟨.inl rfl, (Except.ok.inj h).symm⟩
    | error e =>
      cases e with
      | system m => exact .inr ⟨.inr ⟨m, rfl⟩, (Except.ok.inj h).symm⟩
      | fetch m => cases h
      | address m => cases h

section Pursue

variable {n : Navigator} {x : Remote} {e : Engine} {req : Request} {r a : Resolution}

theorem pursue_calls_of_ok (h : (n.followRefinement (some x) (e.resolve req)).result = .ok r) :
    (n.pursue (some x) e req).calls =
      (n.followRefinement (some x) (e.resolve req)).calls ++
        ((n.followRefinement (some x) (e.resolve req)).navigator.validate (some x) r).calls := by
  unfold pursue
  refine Stage.andThen_calls_of_ok ?_ _
  exact h

theorem pursue_calls_of_error {c : NavigationError}
    (h : (n.followRefinement (some x) (e.resolve req)).result = .error c) :
    (n.pursue (some x) e req).calls = (n.followRefinement (some x) (e.resolve req)).calls := by
  unfold pursue
  refine Stage.andThen_calls_of_error (e := c) ?_ _
  exact h

/-- The file of the second step is fetched, and then the address that came of it is looked up. -/
theorem pursue_calls (x : Remote) (e : Engine) (req : Request) (hn : n.settings.validateLinks) :
    ∃ lookedUp : Option Text, (n.pursue (some x) e req).calls =
        (n.fetchUrl? (e.resolve req)).toList.map .fetch ++ lookedUp.toList.map .lookUp ∧
      ∀ r, (n.followRefinement (some x) (e.resolve req)).result = .ok r →
        lookedUp = r.target.url := by
  have hsettings := (followRefinement_becomes n (some x) (e.resolve req)).settings
  rw [← followRefinement_calls n x]
  cases hres : (n.followRefinement (some x) (e.resolve req)).result with
  | error c =>
    refine ⟨none, ?_, fun r hr => by cases hr⟩
    rw [pursue_calls_of_error hres]
    simp
  | ok r =>
    refine ⟨r.target.url, ?_, fun a ha => by rw [Except.ok.inj ha]⟩
    rw [pursue_calls_of_ok hres, validate_calls (hsettings ▸ hn)]

/-- What came of the second step is passed on when it has no address, or one where a file exists;
otherwise its address is given up. -/
theorem pursue_eq_ok (hn : n.settings.validateLinks)
    (h : (n.pursue (some x) e req).result = .ok a) :
    ∃ r, (n.followRefinement (some x) (e.resolve req)).result = .ok r ∧
      ((r.target.url = none ∧ a = r) ∨
        ∃ url, r.target.url = some url ∧
          ((x.lookUp url).answer = .ok true ∧ a = r ∨ Missing x url ∧ a = deadLink r)) := by
  have hsettings := (followRefinement_becomes n (some x) (e.resolve req)).settings
  obtain ⟨r, hr, hvalid⟩ := Stage.andThen_eq_ok h
  exact ⟨r, hr, validate_eq_ok (hsettings ▸ hn) hvalid⟩

theorem pursue_existing (hn : n.settings.validateLinks)
    (h : (n.pursue (some x) e req).result = .ok a) {url : Text} (hurl : a.target.url = some url) :
    (n.pursue (some x) e req).calls.getLast? = some (.lookUp url) ∧
      (x.lookUp url).answer = .ok true := by
  obtain ⟨lookedUp, hcalls, hlooked⟩ := pursue_calls x e req hn
  obtain ⟨r, hr, hcase⟩ := pursue_eq_ok hn h
  have hlast := hlooked r hr
  rcases hcase with ⟨hnone, rfl⟩ | ⟨u, hu, ⟨hexists, rfl⟩ | ⟨-, rfl⟩⟩
  · rw [hnone] at hurl
    cases hurl
  · have hsame : u = url := Option.some.inj (hu.symm.trans hurl)
    rw [hcalls, hlast, hurl, ← hsame]
    exact ⟨by simp, hexists⟩
  · cases hurl

theorem lookUp_mem_pursue_calls (hn : n.settings.validateLinks)
    (hr : (n.followRefinement (some x) (e.resolve req)).result = .ok r) {url : Text} :
    .lookUp url ∈ (n.pursue (some x) e req).calls ↔ r.target.url = some url := by
  obtain ⟨lookedUp, hcalls, hlooked⟩ := pursue_calls x e req hn
  rw [hcalls, hlooked r hr]
  simp

theorem pursue_kept (hn : n.settings.validateLinks)
    (h : (n.pursue (some x) e req).result = .ok a) {url : Text}
    (hcall : .lookUp url ∈ (n.pursue (some x) e req).calls)
    (hexists : (x.lookUp url).answer = .ok true) : a.target.url = some url := by
  obtain ⟨r, hr, hcase⟩ := pursue_eq_ok hn h
  have hurl := (lookUp_mem_pursue_calls hn hr).mp hcall
  rcases hcase with ⟨-, rfl⟩ | ⟨u, hu, ⟨-, rfl⟩ | ⟨hmissing, rfl⟩⟩
  · exact hurl
  · exact hurl
  · have hsame : u = url := Option.some.inj (hu.symm.trans hurl)
    rw [hsame, Missing, hexists] at hmissing
    simp at hmissing

theorem pursue_dead (hn : n.settings.validateLinks)
    (h : (n.pursue (some x) e req).result = .ok a) {url : Text}
    (hcall : .lookUp url ∈ (n.pursue (some x) e req).calls) (hmissing : Missing x url) :
    a.status = .deadLink ∧ a.target = .nowhere (e.resolve req).target.newTab := by
  obtain ⟨r, hr, hcase⟩ := pursue_eq_ok hn h
  have hurl := (lookUp_mem_pursue_calls hn hr).mp hcall
  have htab : r.target.newTab = (e.resolve req).target.newTab := by
    rcases followRefinement_eq_ok hr with rfl | ⟨t, rfl⟩
    · rfl
    · exact refine_newTab _ t
  rcases hcase with ⟨hnone, rfl⟩ | ⟨u, hu, ⟨hexists, rfl⟩ | ⟨-, rfl⟩⟩
  · rw [hnone] at hurl
    cases hurl
  · have hsame : u = url := Option.some.inj (hu.symm.trans hurl)
    rw [hsame] at hexists
    simp [Missing, hexists] at hmissing
  · rw [← htab]
    exact ⟨rfl, rfl⟩

theorem fetch_mem_pursue_calls (hn : n.settings.validateLinks) {url : Text}
    (hcall : .fetch url ∈ (n.pursue (some x) e req).calls) :
    n.settings.followMethods ∧ ∃ f, (e.resolve req).refinement = some f ∧ f.fetchUrl = url := by
  obtain ⟨lookedUp, hcalls, -⟩ := pursue_calls x e req hn
  have hfetch : n.fetchUrl? (e.resolve req) = some url := by simpa [hcalls] using hcall
  unfold fetchUrl? at hfetch
  split at hfetch
  · next hfollows => exact ⟨hfollows, Option.map_eq_some_iff.mp hfetch⟩
  · cases hfetch

end Pursue

/-- A click on a page with an engine is dropped at once, or it goes as its answer is pursued. -/
theorem navigate_cases {n : Navigator} {e : Engine} (he : n.engine = some e)
    (remote : Option Remote) (req : Request) :
    let o := n.navigate remote req
    let s := n.pursue remote e req
    (o.calls = [] ∧ o.delivered = [] ∧ o.result = .ok none) ∨
      (o.calls = s.calls ∧ (∀ t ∈ o.delivered, ∃ r, o.result = .ok (some r) ∧ r.target = t) ∧
        ∀ r, o.result = .ok (some r) → s.result = .ok r) := by
  intro o s
  cases hf : req.snapshot.filter (· != e.document.snapshot) with
  | some other => exact .inl (by simp [o, navigate, he, hf])
  | none =>
    right
    simp only [o, s, navigate, he, hf]
    cases hs : (n.pursue remote e req).result with
    | error c => simp
    | ok r =>
      dsimp only
      split
      · simp [deliveries]
      · simp

theorem navigate_checked_of_idle {n : Navigator} (he : n.engine = none) (x : Remote)
    (req : Request) : (n.navigate (some x) req).Checked n x req := by
  rw [navigate_of_idle he]
  have hanswer : ∀ r, (Except.ok (some inactive) : Except NavigationError (Option Resolution)) =
      .ok (some r) → r.target.url = none := by
    intro r hr
    rw [← Option.some.inj (Except.ok.inj hr)]
    rfl
  refine ⟨?_, ?_, ?_, ?_, ⟨none, none, rfl⟩, ?_⟩
  · intro t ht
    refine ⟨inactive, rfl, ?_⟩
    unfold deliveries at ht
    split at ht
    · exact (List.mem_singleton.mp ht).symm
    · cases ht
  · intro r url hr hurl
    rw [hanswer r hr] at hurl
    cases hurl
  · intro r url _ hcall
    cases hcall
  · intro r url _ hcall
    cases hcall
  · intro url hcall
    cases hcall

/-- With checking on, whatever the remote side answers and whatever happens to the page meanwhile, a
click hands an address over only when it has just been found that a file exists there. -/
theorem navigate_checked {n : Navigator} (hn : n.settings.validateLinks) (x : Remote)
    (req : Request) : (n.navigate (some x) req).Checked n x req := by
  cases he : n.engine with
  | none => exact navigate_checked_of_idle he x req
  | some e =>
    rcases navigate_cases he (some x) req with
      ⟨hcalls, hdelivered, hresult⟩ | ⟨hcalls, hdelivered, hresult⟩
    · refine ⟨?_, ?_, ?_, ?_, ⟨none, none, hcalls⟩, ?_⟩
      · simp [hdelivered]
      · simp [hresult]
      · simp [hresult]
      · simp [hresult]
      · simp [hcalls]
    · obtain ⟨lookedUp, hordered, -⟩ := pursue_calls x e req hn
      refine ⟨hdelivered, ?_, ?_, ?_, ⟨_, lookedUp, hcalls.trans hordered⟩, ?_⟩
      · intro r url hr hurl
        rw [hcalls]
        exact pursue_existing hn (hresult r hr) hurl
      · intro r url hr hcall hexists
        exact pursue_kept hn (hresult r hr) (hcalls ▸ hcall) hexists
      · intro r url hr hcall hmissing
        obtain ⟨hstatus, htarget⟩ := pursue_dead hn (hresult r hr) (hcalls ▸ hcall) hmissing
        exact ⟨hstatus, e, he, htarget⟩
      · intro url hcall
        obtain ⟨hfollows, f, hf, hurl⟩ := fetch_mem_pursue_calls hn (hcalls ▸ hcall)
        exact ⟨hfollows, e, f, he, hf, hurl⟩

def callPage : Document :=
  .ofText "import a.Home\nval h = Home()\nh.show()" "https://github.com/o/r/blob/main/Main.kt" "now"

def callClick : Request := ⟨".show", ⟨["h"], ".show", ["(", ")"], none, none⟩, none⟩

/-- A remote side where the file of a class declares the method on its second line, and only that
line can be looked up. -/
def secondLineOnly : Remote where
  lookUp url := { answer := .ok (url == "https://github.com/o/r/blob/main/a/Home.kt#L2".toList) }
  fetch _ := { answer := .ok "class Home\nfun Home.show() = Unit" }

theorem navigate_checked_second_line :
    let n := (idle {} [] true).after [.change (.activate callPage)]
    let o := n.navigate (some secondLineOnly) callClick
    n.settings.validateLinks ∧ o.Checked n secondLineOnly callClick ∧
      o.calls = [.fetch "https://github.com/o/r/blob/main/a/Home.kt#L1",
        .lookUp "https://github.com/o/r/blob/main/a/Home.kt#L2"] ∧
      o.delivered = [⟨some "https://github.com/o/r/blob/main/a/Home.kt#L2".toList, true⟩] := by
  intro n o
  have hn : n.settings.validateLinks := by decide +kernel
  refine ⟨hn, navigate_checked hn secondLineOnly callClick, ?_, ?_⟩
  · decide +kernel
  · decide +kernel

end CodeNav.Navigator
