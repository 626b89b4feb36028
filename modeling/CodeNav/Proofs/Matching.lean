import CodeNav.Pattern
import Mathlib.Logic.Relation

/-!
What a pattern matches. A pattern can pass from one place of a text to another (`Pattern.Passes`),
and matching succeeds exactly when it can pass to a place from which the rest succeeds. So whether a
text matches does not depend on the order in which choices are tried. What a match keeps under a
name is made of characters that the pattern keeps under it (`Pattern.keeps`).
-/

namespace CodeNav.Pattern

open Relation (ReflTransGen)

namespace Place

/-- From the one place to the other lie the characters `w`. -/
structure Spans (q : Place) (w : Text) (e : Place) : Prop where
  rest : q.rest = w ++ e.rest
  passed : e.passed = q.passed + w.length
  previous : e.previous = w.getLast?.or q.previous

theorem Spans.refl (q : Place) : q.Spans [] q := ⟨rfl, rfl, rfl⟩

theorem Spans.trans {q m e : Place} {u v : Text} (h : q.Spans u m) (h' : m.Spans v e) :
    q.Spans (u ++ v) e := by
  refine ⟨?_, ?_, ?_⟩
  · rw [h.rest, h'.rest, List.append_assoc]
  · rw [h'.passed, h.passed, List.length_append, Nat.add_assoc]
  · rw [h'.previous, h.previous, List.getLast?_append, Option.or_assoc]

theorem Spans.length_rest {q e : Place} {w : Text} (h : q.Spans w e) :
    e.passed + e.rest.length = q.passed + q.rest.length := by
  rw [h.rest, h.passed, List.length_append]
  omega

theorem afterOne?_eq_some {q e : Place} {s : CharClass} :
    q.afterOne? s = some e ↔ ∃ c r, q.rest = c :: r ∧ s.holds c ∧
      q.movedTo (some c) r (q.passed + 1) = e := by
  unfold afterOne?
  constructor
  · intro h
    split at h
    · next c r hq =>
      split at h
      · next hc => exact ⟨c, r, hq, hc, Option.some.inj h⟩
      · cases h
    · cases h
  · rintro ⟨c, r, hq, hc, rfl⟩
    rw [hq]
    simp only [hc, if_true]
    rfl

theorem spans_of_afterOne? {q e : Place} {s : CharClass} (h : q.afterOne? s = some e) :
    ∃ c, s.holds c ∧ q.Spans [c] e := by
  obtain ⟨c, r, hq, hc, rfl⟩ := afterOne?_eq_some.mp h
  exact ⟨c, hc, hq, rfl, rfl⟩

theorem spans_of_after? {t : Text} {q e : Place} (h : q.after? t = some e) : q.Spans t e := by
  induction t generalizing q with
  | nil =>
    obtain rfl := Option.some.inj h
    exact .refl q
  | cons c t ih =>
    unfold after? at h
    split at h
    · next d r hq =>
      split at h
      · next hcd =>
        have hstep : q.Spans [c] (q.movedTo (some d) r (q.passed + 1)) :=
          ⟨by rw [hq, hcd]; rfl, rfl, by rw [hcd]; rfl⟩
        exact hstep.trans (ih h)
      · cases h
    · cases h

end Place

abbrev Run (s : CharClass) : Place → Place → Prop := ReflTransGen fun a b => a.afterOne? s = some b

abbrev Rounds (P : Place → Place → Prop) : Place → Place → Prop :=
  ReflTransGen fun a b => P a b ∧ a.passed < b.passed

/-- The pattern can lead from one place to another, whichever of its choices that takes. -/
def Passes : Pattern → Place → Place → Prop
  | chars t, q, e => q.after? t = some e
  | words ts, q, e => ∃ t ∈ ts, q.after? t = some e
  | one s, q, e => q.afterOne? s = some e
  | many s, q, e => Run s q e
  | several s, q, e | fewest s, q, e => ∃ m, q.afterOne? s = some m ∧ Run s m e
  | seq p r, q, e => ∃ m, Passes p q m ∧ Passes r m e
  | optional p, q, e => Passes p q e ∨ e = q
  | repeated p, q, e => Rounds (Passes p) q e
  | group p, q, e => Passes p q e
  | capture name p, q, e => ∃ m, Passes p q m ∧
    e = { m with captured := (name, q.rest.take (m.passed - q.passed)) :: m.captured }
  | notAhead p, q, e => e = q ∧ ∀ m, ¬Passes p q m
  | notAfter s, q, e => e = q ∧ !q.previous.any s.holds
  | wordEdge, q, e => e = q ∧ q.isWordEdge
  | lineStart, q, e => e = q ∧ q.isLineStart

def reads : Pattern → Char → Prop
  | chars t, c => c ∈ t
  | words ts, c => ∃ t ∈ ts, c ∈ t
  | one s, c | many s, c | several s, c | fewest s, c => s.holds c
  | seq p r, c => p.reads c ∨ r.reads c
  | optional p, c | repeated p, c | group p, c | capture _ p, c => p.reads c
  | notAhead _, _ | notAfter _, _ | wordEdge, _ | lineStart, _ => False

@[simp] theorem reads_append (p r : Pattern) (c : Char) :
    (p ++ r).reads c ↔ p.reads c ∨ r.reads c := Iff.rfl

theorem spans_of_run {s : CharClass} {q e : Place} (h : Run s q e) :
    ∃ w, q.Spans w e ∧ ∀ c ∈ w, s.holds c := by
  induction h with
  | refl => exact ⟨[], .refl q, by simp⟩
  | tail _ hstep ih =>
    obtain ⟨w, hw, hall⟩ := ih
    obtain ⟨c, hc, hspan⟩ := Place.spans_of_afterOne? hstep
    refine ⟨w ++ [c], hw.trans hspan, fun d hd => ?_⟩
    rcases List.mem_append.mp hd with hd | hd
    · exact hall d hd
    · rw [List.mem_singleton.mp hd]
      exact hc

/-- What lies between two places that a pattern passes between is made of characters it reads. -/
theorem Passes.spans {p : Pattern} {q e : Place} (h : p.Passes q e) :
    ∃ w, q.Spans w e ∧ ∀ c ∈ w, p.reads c := by
  induction p generalizing q e with
  | chars t => exact ⟨t, Place.spans_of_after? h, fun c hc => hc⟩
  | words ts =>
    obtain ⟨t, ht, hspan⟩ := h
    exact ⟨t, Place.spans_of_after? hspan, fun c hc => ⟨t, ht, hc⟩⟩
  | one s =>
    obtain ⟨c, hc, hspan⟩ := Place.spans_of_afterOne? h
    refine ⟨[c], hspan, fun d hd => ?_⟩
    rw [List.mem_singleton.mp hd]
    exact hc
  | many s => exact spans_of_run h
  | several s | fewest s =>
    obtain ⟨m, hone, hmany⟩ := h
    exact spans_of_run (.head hone hmany)
  | seq p r ihp ihr =>
    obtain ⟨m, hp, hr⟩ := h
    obtain ⟨u, hu, hpu⟩ := ihp hp
    obtain ⟨v, hv, hrv⟩ := ihr hr
    refine ⟨u ++ v, hu.trans hv, fun c hc => ?_⟩
    exact (List.mem_append.mp hc).imp (hpu c) (hrv c)
  | optional p ih =>
    rcases h with h | rfl
    · exact ih h
    · exact ⟨[], .refl _, by simp⟩
  | repeated p ih =>
    -- The hypothesis is about one round; the rounds are gone through on their own.
    have hrounds : Rounds p.Passes q e := h
    clear h
    induction hrounds with
    | refl => exact ⟨[], .refl q, by simp⟩
    | tail _ hstep ihrep =>
      obtain ⟨u, hu, hpu⟩ := ihrep
      obtain ⟨v, hv, hpv⟩ := ih hstep.1
      refine ⟨u ++ v, hu.trans hv, fun c hc => ?_⟩
      exact (List.mem_append.mp hc).elim (hpu c) (hpv c)
  | group p ih => exact ih h
  | capture name p ih =>
    obtain ⟨m, hm, rfl⟩ := h
    obtain ⟨w, hw, hpw⟩ := ih hm
    exact ⟨w, ⟨hw.rest, hw.passed, hw.previous⟩, hpw⟩
  | notAhead p | notAfter s | wordEdge | lineStart =>
    obtain ⟨rfl, -⟩ := h
    exact ⟨[], .refl _, by simp⟩

/-- Running `f` succeeds exactly when the continuation does at a place that `P` leads to, and its
result is that of the continuation there. -/
structure Decides (f : Continue → Place → Option Place) (P : Place → Place → Prop) : Prop where
  sound : ∀ {k q x}, f k q = some x → ∃ e, P q e ∧ k e = some x
  complete : ∀ {k q e}, P q e → (k e).isSome → (f k q).isSome

/-- Of two tries the first that succeeds counts, so one that succeeds is enough. -/
theorem isSome_firstOf {a b : Option Place} (h : a.isSome ∨ b.isSome) :
    (match a with | some e => some e | none => b).isSome := by
  cases a with
  | some e => rfl
  | none => exact h.resolve_left (by simp)

theorem of_firstOf_eq_some {a b : Option Place} {x : Place}
    (h : (match a with | some e => some e | none => b) = some x) : a = some x ∨ b = some x := by
  cases a with
  | some e => exact .inl h
  | none => exact .inr h

theorem decides_step (f : Place → Option Place) :
    Decides (fun k q => (f q).bind k) (fun q e => f q = some e) := by
  refine ⟨fun h => Option.bind_eq_some_iff.mp h, fun h hk => ?_⟩
  rw [h]
  exact hk

theorem decides_test (test : Place → Bool) :
    Decides (fun k q => if test q then k q else none) (fun q e => e = q ∧ test q) := by
  constructor
  · intro k q x h
    split at h
    · next ht => exact ⟨q, ⟨rfl, ht⟩, h⟩
    · cases h
  · rintro k q e ⟨rfl, ht⟩ hk
    simpa only [ht, if_true] using hk

theorem decides_words (ts : List Text) :
    Decides (fun k q => ts.findSome? fun t => (q.after? t).bind k)
      (fun q e => ∃ t ∈ ts, q.after? t = some e) := by
  constructor
  · intro k q x h
    obtain ⟨t, ht, hrun⟩ := List.exists_of_findSome?_eq_some h
    obtain ⟨e, he, hk⟩ := Option.bind_eq_some_iff.mp hrun
    exact ⟨e, ⟨t, ht, he⟩, hk⟩
  · rintro k q e ⟨t, ht, he⟩ hk
    refine List.findSome?_isSome_iff.mpr ⟨t, ht, ?_⟩
    rw [he]
    exact hk

theorem Decides.seq {f g : Continue → Place → Option Place} {P Q : Place → Place → Prop}
    (hf : Decides f P) (hg : Decides g Q) :
    Decides (fun k q => f (g k) q) (fun q e => ∃ m, P q m ∧ Q m e) := by
  constructor
  · intro k q x h
    obtain ⟨m, hm, hrest⟩ := hf.sound h
    obtain ⟨e, he, hk⟩ := hg.sound hrest
    exact ⟨e, ⟨m, hm, he⟩, hk⟩
  · rintro k q e ⟨m, hm, he⟩ hk
    exact hf.complete hm (hg.complete he hk)

theorem Decides.optional {f : Continue → Place → Option Place} {P : Place → Place → Prop}
    (hf : Decides f P) :
    Decides (fun k q => match f k q with | some e => some e | none => k q)
      (fun q e => P q e ∨ e = q) := by
  constructor
  · intro k q x h
    rcases of_firstOf_eq_some h with h | h
    · obtain ⟨e, he, hk⟩ := hf.sound h
      exact ⟨e, .inl he, hk⟩
    · exact ⟨q, .inr rfl, h⟩
  · intro k q e h hk
    apply isSome_firstOf
    rcases h with h | rfl
    · exact .inl (hf.complete h hk)
    · exact .inr hk

theorem Decides.capture {f : Continue → Place → Option Place} {P : Place → Place → Prop}
    (hf : Decides f P) (keep : Place → Place → Place) :
    Decides (fun k q => f (fun e => k (keep q e)) q) (fun q e => ∃ m, P q m ∧ e = keep q m) := by
  constructor
  · intro k q x h
    obtain ⟨m, hm, hk⟩ := hf.sound h
    exact ⟨_, ⟨m, hm, rfl⟩, hk⟩
  · rintro k q e ⟨m, hm, rfl⟩ hk
    exact hf.complete hm hk

theorem Decides.notAhead {f : Continue → Place → Option Place} {P : Place → Place → Prop}
    (hf : Decides f P) :
    Decides (fun k q => if (f some q).isSome then none else k q)
      (fun q e => e = q ∧ ∀ m, ¬P q m) := by
  constructor
  · intro k q x h
    split at h
    · cases h
    · next hnot => exact ⟨q, ⟨rfl, fun m hm => hnot (hf.complete hm rfl)⟩, h⟩
  · rintro k q e ⟨rfl, hnot⟩ hk
    split
    · next hsome =>
      obtain ⟨x, hx⟩ := Option.isSome_iff_exists.mp hsome
      obtain ⟨m, hm, -⟩ := hf.sound hx
      exact absurd hm (hnot m)
    · exact hk

theorem movedTo_afterOne? {s : CharClass} {c : Char} (hc : s.holds c) (q : Place) (b : Option Char)
    (r : Text) (n : Nat) :
    (q.movedTo b (c :: r) n).afterOne? s = some (q.movedTo (some c) r (n + 1)) :=
  Place.afterOne?_eq_some.mpr ⟨c, r, rfl, hc, rfl⟩

/-- A run from a place stays there, or begins with the next character. -/
theorem run_cases {s : CharClass} {q e : Place} {b : Option Char} {r : Text} {n : Nat}
    (h : Run s (q.movedTo b r n) e) :
    e = q.movedTo b r n ∨
      ∃ c t, r = c :: t ∧ s.holds c ∧ Run s (q.movedTo (some c) t (n + 1)) e := by
  rcases h.cases_head with h | ⟨m, hone, hrest⟩
  · exact .inl h.symm
  · obtain ⟨c, t, hr, hc, rfl⟩ := Place.afterOne?_eq_some.mp hone
    exact .inr ⟨c, t, hr, hc, hrest⟩

theorem runMany_sound {s : CharClass} {k : Continue} {q x : Place} {b : Option Char} {r : Text}
    {n : Nat} (h : runMany s k q b r n = some x) :
    ∃ e, Run s (q.movedTo b r n) e ∧ k e = some x := by
  induction r generalizing b n with
  | nil => exact ⟨_, .refl, h⟩
  | cons c r ih =>
    unfold runMany at h
    split at h
    · next hc =>
      rcases of_firstOf_eq_some h with h | h
      · obtain ⟨e, hreach, hk⟩ := ih h
        exact ⟨e, .head (movedTo_afterOne? hc q b r n) hreach, hk⟩
      · exact ⟨_, .refl, h⟩
    · exact ⟨_, .refl, h⟩

theorem runMany_complete {s : CharClass} {k : Continue} {q e : Place} {b : Option Char} {r : Text}
    {n : Nat} (h : Run s (q.movedTo b r n) e) (hk : (k e).isSome) :
    (runMany s k q b r n).isSome := by
  -- By induction on the text that is left, since that is what the run takes apart.
  induction r generalizing b n with
  | nil =>
    rcases run_cases h with rfl | ⟨c, t, hnil, -⟩
    · exact hk
    · cases hnil
  | cons c r ih =>
    unfold runMany
    rcases run_cases h with rfl | ⟨c', t, hcons, hc, hrest⟩
    · split
      · exact isSome_firstOf (.inr hk)
      · exact hk
    · obtain ⟨rfl, rfl⟩ := List.cons.inj hcons
      rw [if_pos hc]
      exact isSome_firstOf (.inl (ih hrest))

theorem runFewest_sound {s : CharClass} {k : Continue} {q x : Place} {b : Option Char} {r : Text}
    {n : Nat} (h : runFewest s k q b r n = some x) :
    ∃ e, Run s (q.movedTo b r n) e ∧ k e = some x := by
  induction r generalizing b n with
  | nil => exact ⟨_, .refl, h⟩
  | cons c r ih =>
    unfold runFewest at h
    rcases of_firstOf_eq_some h with h | h
    · exact ⟨_, .refl, h⟩
    · split at h
      · next hc =>
        obtain ⟨e, hreach, hk⟩ := ih h
        exact ⟨e, .head (movedTo_afterOne? hc q b r n) hreach, hk⟩
      · cases h

theorem runFewest_complete {s : CharClass} {k : Continue} {q e : Place} {b : Option Char}
    {r : Text} {n : Nat} (h : Run s (q.movedTo b r n) e) (hk : (k e).isSome) :
    (runFewest s k q b r n).isSome := by
  induction r generalizing b n with
  | nil =>
    rcases run_cases h with rfl | ⟨c, t, hnil, -⟩
    · exact hk
    · cases hnil
  | cons c r ih =>
    unfold runFewest
    apply isSome_firstOf
    rcases run_cases h with rfl | ⟨c', t, hcons, hc, hrest⟩
    · exact .inl hk
    · obtain ⟨rfl, rfl⟩ := List.cons.inj hcons
      rw [if_pos hc]
      exact .inr (ih hrest)

theorem decides_many (s : CharClass) :
    Decides (fun k q => runMany s k q q.previous q.rest q.passed) (Run s) :=
  ⟨runMany_sound, runMany_complete⟩

theorem decides_fewest (s : CharClass) :
    Decides (fun k q => runFewest s k q q.previous q.rest q.passed) (Run s) :=
  ⟨runFewest_sound, runFewest_complete⟩

section Repeated

variable {f : Continue → Place → Option Place} {P : Place → Place → Prop}

theorem runRepeated_sound (hf : Decides f P) {k : Continue} {n : Nat} {q x : Place}
    (h : runRepeated f k n q = some x) : ∃ e, Rounds P q e ∧ k e = some x := by
  induction n generalizing q x with
  | zero => exact ⟨q, .refl, h⟩
  | succ n ih =>
    unfold runRepeated at h
    rcases of_firstOf_eq_some h with h | h
    · obtain ⟨m, hm, hrest⟩ := hf.sound h
      split at hrest
      · next hlt =>
        obtain ⟨e, hreach, hk⟩ := ih hrest
        exact ⟨e, .head ⟨hm, hlt⟩ hreach, hk⟩
      · cases hrest
    · exact ⟨q, .refl, h⟩

/-- Each round shortens what is left, so no more rounds are needed than characters are left. -/
theorem runRepeated_complete (hf : Decides f P) (hspan : ∀ a b, P a b → ∃ w, a.Spans w b)
    {k : Continue} {n : Nat} {q e : Place} (h : Rounds P q e) (hk : (k e).isSome)
    (hn : q.rest.length ≤ n) : (runRepeated f k n q).isSome := by
  induction h using ReflTransGen.head_induction_on generalizing n with
  | refl =>
    cases n with
    | zero => exact hk
    | succ n => exact isSome_firstOf (.inr hk)
  | @head a m hstep hrest ih =>
    obtain ⟨w, hw⟩ := hspan a m hstep.1
    have hlen := hw.length_rest
    have hlt := hstep.2
    cases n with
    | zero => omega
    | succ n =>
      have hinner := ih (n := n) (by omega)
      have hround :
          (f (fun e => if a.passed < e.passed then runRepeated f k n e else none) a).isSome := by
        refine hf.complete hstep.1 ?_
        rw [if_pos hlt]
        exact hinner
      exact isSome_firstOf (.inl hround)

end Repeated

/-- Running a pattern succeeds exactly when it can pass to a place from which the rest succeeds. -/
theorem run_decides (p : Pattern) : Decides p.run p.Passes := by
  induction p with
  | chars t => exact decides_step (·.after? t)
  | words ts => exact decides_words ts
  | one s => exact decides_step (·.afterOne? s)
  | many s => exact decides_many s
  | several s => exact (decides_step (·.afterOne? s)).seq (decides_many s)
  | fewest s => exact (decides_step (·.afterOne? s)).seq (decides_fewest s)
  | seq p r ihp ihr => exact ihp.seq ihr
  | optional p ih => exact ih.optional
  | repeated p ih =>
    have hspan : ∀ a b, p.Passes a b → ∃ w, a.Spans w b := fun a b h =>
      h.spans.imp fun w hw => hw.1
    exact ⟨runRepeated_sound ih, fun h hk => runRepeated_complete ih hspan h hk (Nat.le_refl _)⟩
  | group p ih => exact ih
  | capture name p ih =>
    exact ih.capture fun q e =>
      { e with captured := (name, q.rest.take (e.passed - q.passed)) :: e.captured }
  | notAhead p ih => exact ih.notAhead
  | notAfter s =>
    -- This test is written the other way round.
    have hrun : (notAfter s).run = fun k q => if !q.previous.any s.holds then k q else none := by
      funext k q
      unfold run
      cases q.previous.any s.holds <;> rfl
    rw [hrun]
    exact decides_test fun q => !q.previous.any s.holds
  | wordEdge => exact decides_test Place.isWordEdge
  | lineStart => exact decides_test Place.isLineStart

theorem atEnd_eq_some {e x : Place} (h : atEnd e = some x) : e = x ∧ e.rest = [] := by
  unfold atEnd at h
  split at h
  · next hnil => exact ⟨Option.some.inj h, List.isEmpty_iff.mp hnil⟩
  · cases h

/-- A match of a whole text is a way of the pattern from its start to its end. -/
theorem passes_of_fullMatch? {p : Pattern} {t : Text} {m : Place} (h : p.fullMatch? t = some m) :
    p.Passes (.start t) m ∧ m.rest = [] := by
  obtain ⟨e, he, hk⟩ := p.run_decides.sound h
  obtain ⟨rfl, hnil⟩ := atEnd_eq_some hk
  exact ⟨he, hnil⟩

/-- A text matches exactly when the pattern can pass from its start to its end. -/
theorem matchesAll_iff {p : Pattern} {t : Text} :
    p.matchesAll t ↔ ∃ e, p.Passes (.start t) e ∧ e.rest = [] := by
  unfold matchesAll
  constructor
  · intro h
    obtain ⟨m, hm⟩ := Option.isSome_iff_exists.mp h
    exact ⟨m, passes_of_fullMatch? hm⟩
  · rintro ⟨e, he, hnil⟩
    exact p.run_decides.complete he (by simp [atEnd, hnil])

/-- A text that matches is made of characters that the pattern reads. -/
theorem reads_of_matchesAll {p : Pattern} {t : Text} (h : p.matchesAll t) : ∀ c ∈ t, p.reads c := by
  obtain ⟨e, he, hnil⟩ := matchesAll_iff.mp h
  obtain ⟨w, hspan, hall⟩ := he.spans
  have ht : t = w := by simpa [Place.start, hnil] using hspan.rest
  rwa [ht]

def keeps (name : Text) : Pattern → Char → Prop
  | capture n p, c => (n = name ∧ p.reads c) ∨ p.keeps name c
  | seq p r, c => p.keeps name c ∨ r.keeps name c
  | optional p, c | repeated p, c | group p, c => p.keeps name c
  | chars _, _ | words _, _ | one _, _ | many _, _ | several _, _ | fewest _, _ | notAhead _, _
  | notAfter _, _ | wordEdge, _ | lineStart, _ => False

@[simp] theorem keeps_append (name : Text) (p r : Pattern) (c : Char) :
    (p ++ r).keeps name c ↔ p.keeps name c ∨ r.keeps name c := Iff.rfl

theorem Place.captured_of_after? {t : Text} {q e : Place} (h : q.after? t = some e) :
    e.captured = q.captured := by
  induction t generalizing q with
  | nil => rw [Option.some.inj h]
  | cons c t ih =>
    unfold after? at h
    split at h
    · split at h
      · exact (ih h).trans rfl
      · cases h
    · cases h

theorem Place.captured_of_afterOne? {q e : Place} {s : CharClass} (h : q.afterOne? s = some e) :
    e.captured = q.captured := by
  obtain ⟨c, r, -, -, rfl⟩ := afterOne?_eq_some.mp h
  rfl

theorem captured_of_run {s : CharClass} {q e : Place} (h : Run s q e) :
    e.captured = q.captured := by
  induction h with
  | refl => rfl
  | tail _ hstep ih => exact (Place.captured_of_afterOne? hstep).trans ih

/-- What is kept on the way is made of characters that the pattern keeps under its name. -/
theorem Passes.kept {p : Pattern} {q e : Place} (h : p.Passes q e) :
    ∀ x ∈ e.captured, x ∈ q.captured ∨ ∀ c ∈ x.2, p.keeps x.1 c := by
  induction p generalizing q e with
  | chars t =>
    rw [Place.captured_of_after? h]
    exact fun x hx => .inl hx
  | words ts =>
    obtain ⟨t, -, h⟩ := h
    rw [Place.captured_of_after? h]
    exact fun x hx => .inl hx
  | one s =>
    rw [Place.captured_of_afterOne? h]
    exact fun x hx => .inl hx
  | many s =>
    rw [captured_of_run h]
    exact fun x hx => .inl hx
  | several s | fewest s =>
    obtain ⟨m, hone, hmany⟩ := h
    rw [captured_of_run hmany, Place.captured_of_afterOne? hone]
    exact fun x hx => .inl hx
  | seq p r ihp ihr =>
    obtain ⟨m, hp, hr⟩ := h
    intro x hx
    rcases ihr hr x hx with hx | hkeep
    · exact (ihp hp x hx).imp_right fun hkeep c hc => .inl (hkeep c hc)
    · exact .inr fun c hc => .inr (hkeep c hc)
  | optional p ih =>
    rcases h with h | rfl
    · exact ih h
    · exact fun x hx => .inl hx
  | repeated p ih =>
    have hrounds : Rounds p.Passes q e := h
    clear h
    induction hrounds with
    | refl => exact fun x hx => .inl hx
    | tail _ hstep ihrep =>
      intro x hx
      rcases ih hstep.1 x hx with hx | hkeep
      · exact ihrep x hx
      · exact .inr hkeep
  | group p ih => exact ih h
  | capture name p ih =>
    obtain ⟨m, hm, rfl⟩ := h
    intro x hx
    rcases List.mem_cons.mp hx with rfl | hx
    · -- The text that is kept lies between the two places.
      obtain ⟨w, hspan, hreads⟩ := hm.spans
      have hw : q.rest.take (m.passed - q.passed) = w := by
        rw [hspan.rest, hspan.passed, Nat.add_sub_cancel_left, List.take_left]
      refine .inr fun c hc => .inl ⟨rfl, hreads c ?_⟩
      rwa [← hw]
    · exact (ih hm x hx).imp_right fun hkeep c hc => .inr (hkeep c hc)
  | notAhead p | notAfter s | wordEdge | lineStart =>
    obtain ⟨rfl, -⟩ := h
    exact fun x hx => .inl hx

/-- What a match of a whole text keeps under a name is made of characters that the pattern keeps
under it. -/
theorem keeps_of_text? {p : Pattern} {t w name : Text} {m : Place} (h : p.fullMatch? t = some m)
    (hw : m.text? name = some w) : ∀ c ∈ w, p.keeps name c := by
  have hmem : (name, w) ∈ m.captured := by
    obtain ⟨l₁, l₂, hl, -⟩ := List.lookup_eq_some_iff.mp hw
    rw [hl]
    simp
  rcases (passes_of_fullMatch? h).1.kept _ hmem with hmem | hkeep
  · cases hmem
  · exact hkeep

end CodeNav.Pattern
