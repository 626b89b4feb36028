import CodeNav.Proofs.Coherence
import CodeNav.Proofs.Lookup
import CodeNav.Proofs.SecondSteps

namespace CodeNav

namespace Resolution

def withUrl (r : Resolution) (url : Option Text) : Resolution :=
  { r with target := { r.target with url } }

/-- Whether a line of the text shows something and matches the pattern of the second step. -/
def finds (r : Resolution) (t : Text) : Bool :=
  r.refinement.any fun f => t.lines.any (Locator.showsMatch f.pattern)

variable {r : Resolution} {t : Text}

theorem finds_iff : r.finds t ↔ ∃ f before line, r.refinement = some f ∧
    t.FirstLine (Locator.showsMatch f.pattern) before line := by
  rw [finds, Option.any_eq_true]
  constructor
  · rintro ⟨f, hf, hmatches⟩
    have hfound : (t.lines.find? (Locator.showsMatch f.pattern)).isSome :=
      List.find?_isSome.mpr (List.any_eq_true.mp hmatches)
    obtain ⟨line, hline⟩ := Option.isSome_iff_exists.mp hfound
    obtain ⟨before, hfirst⟩ := Text.find?_lines_eq_some_iff.mp hline
    exact ⟨f, before, line, hf, hfirst⟩
  · rintro ⟨f, before, line, hf, hfirst⟩
    obtain ⟨after, hlines⟩ := hfirst.stands
    exact ⟨f, hf, List.any_eq_true.mpr ⟨line, by rw [hlines]; simp, hfirst.holds⟩⟩

/-- A second step anchors the address at the first line that matches. -/
theorem refine_of_firstLine {f : Refinement} {before : List Text} {line : Text}
    (hf : r.refinement = some f) (hfirst : t.FirstLine (Locator.showsMatch f.pattern) before line) :
    r.refine t = r.withUrl (r.target.url.map (Url.withLine · (before.length + 1))) := by
  have hanchor := Locator.anchor?_ofText.mpr ⟨before, line, hfirst, rfl⟩
  obtain ⟨⟨url?, newTab⟩, reference, status, diagnostic, refinement, snapshot⟩ := r
  obtain rfl : refinement = some f := hf
  cases url? with
  | none => rfl
  | some url => simp [refine, withUrl, hanchor]

theorem refine_of_not_finds (h : ¬r.finds t) : r.refine t = r := by
  unfold refine
  split
  · next f url hf _ =>
    have hnone : ∀ line ∈ t.lines, ¬Locator.showsMatch f.pattern line := by
      simpa [finds, hf] using h
    rw [Locator.anchor?_ofText_eq_none_iff.mpr hnone]
  · rfl

theorem finds_refine (r : Resolution) (t u : Text) : (r.refine t).finds u = r.finds u := by
  rw [finds, (refine_moved r t).refinement, ← finds]

/-- Of two second steps the later one counts, if it finds a line. -/
theorem refine_refine (r : Resolution) (t u : Text) :
    (r.refine t).refine u = if r.finds u then r.refine u else r.refine t := by
  split
  · next hu =>
    obtain ⟨f, before, line, hf, hu⟩ := finds_iff.mp hu
    have hkept : (r.refine t).refinement = some f := (refine_moved r t).refinement.trans hf
    rw [refine_of_firstLine hkept hu, refine_of_firstLine hf hu]
    by_cases ht : r.finds t
    · obtain ⟨f', before', line', hf', ht⟩ := finds_iff.mp ht
      rw [refine_of_firstLine hf' ht]
      simp [withUrl, Function.comp_def, Url.withLine_withLine]
    · rw [refine_of_not_finds ht]
  · next hu => exact refine_of_not_finds (by rwa [finds_refine])

/-- Of several second steps the last one that finds a line counts. -/
theorem foldl_refine (r : Resolution) (ts : List Text) :
    ts.foldl refine r = (ts.filter r.finds).getLast?.elim r r.refine := by
  -- From the end, as it is the last step that the answer depends on.
  induction ts using List.reverseRecOn with
  | nil => rfl
  | append_singleton ts u ih =>
    have hlast (t? : Option Text) : (t?.elim r r.refine).refine u =
        if r.finds u then r.refine u else t?.elim r r.refine := by
      cases t? with
      | none =>
        split
        · rfl
        · next hu => exact refine_of_not_finds hu
      | some t => exact refine_refine r t u
    rw [List.foldl_append, List.foldl_cons, List.foldl_nil, ih, hlast, List.filter_append]
    by_cases hu : r.finds u
    · rw [if_pos hu, List.filter_cons_of_pos hu, List.filter_nil, List.getLast?_concat]
      rfl
    · rw [if_neg hu, List.filter_cons_of_neg hu, List.filter_nil, List.append_nil]

/-- What a second step into the text may make of the address: it stays where no line matches, else
it gets the anchor of the first one that does, in place of its own. -/
inductive Anchored (r : Resolution) (t : Text) : Option Text → Prop where
  | kept (h : ¬r.finds t) : Anchored r t r.target.url
  | moved {f : Refinement} {before : List Text} {line : Text} (hf : r.refinement = some f)
      (hfirst : t.FirstLine (Locator.showsMatch f.pattern) before line) :
      Anchored r t (r.target.url.map fun u =>
        Url.stripAnchor u ++ "#L" ++ Text.ofInt (before.length + 1))

theorem exists_anchored (r : Resolution) (t : Text) :
    ∃ url, r.Anchored t url ∧ r.refine t = r.withUrl url := by
  by_cases ht : r.finds t
  · obtain ⟨f, before, line, hf, hfirst⟩ := finds_iff.mp ht
    exact ⟨_, .moved hf hfirst, refine_of_firstLine hf hfirst⟩
  · exact ⟨_, .kept ht, refine_of_not_finds ht⟩

/-- A second step changes no more than the line that the address points at, and of several ones only
the last that finds a line counts, however often the others are taken. -/
theorem refine_again (r : Resolution) :
    (∀ t, (r.refine t).refine t = r.refine t) ∧
      (∀ t u, (r.refine t).refine u = if r.finds u then r.refine u else r.refine t) ∧
      (∀ t, ∃ url, r.Anchored t url ∧ r.refine t = r.withUrl url ∧
        url.map Url.stripAnchor = r.target.url.map Url.stripAnchor) ∧
      ∀ ts : List Text, ts.foldl refine r = (ts.filter r.finds).getLast?.elim r r.refine := by
  refine ⟨fun t => ?_, refine_refine r, fun t => ?_, foldl_refine r⟩
  · rw [refine_refine, ite_self]
  · obtain ⟨url, hanchored, hurl⟩ := exists_anchored r t
    have hfile := (refine_sameFile r t).target.url
    rw [hurl] at hfile
    exact ⟨url, hanchored, hurl, hfile.symm⟩

end Resolution

end CodeNav
