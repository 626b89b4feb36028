import CodeNav.Token

namespace CodeNav.Token

@[simp] theorem ofLine_nil : ofLine [] = [] := by rw [ofLine]

theorem ofLine_cons (c : Char) (r : Text) :
    ofLine (c :: r) = (c :: r.take (tailLength c r)) :: ofLine (r.drop (tailLength c r)) := by
  rw [ofLine]

/-- The tokens joined are the line. -/
@[simp] theorem flatten_ofLine (line : Text) : (ofLine line).flatten = line := by
  induction line using ofLine.induct with
  | case1 => simp
  | case2 c r ih => rw [ofLine_cons, List.flatten_cons, ih, List.cons_append, List.take_append_drop]

/-- What holds of the first token of every rest of a line holds of all its tokens. -/
theorem forall_mem_ofLine {P : Text → Prop} {line : Text}
    (h : ∀ c r, c :: r <:+ line → P (c :: r.take (tailLength c r))) : ∀ t ∈ ofLine line, P t := by
  induction line using ofLine.induct with
  | case1 => simp
  | case2 c r ih =>
    intro t ht
    rw [ofLine_cons] at ht
    rcases List.mem_cons.mp ht with rfl | ht
    · exact h c r (List.suffix_refl _)
    · refine ih (fun d s hs => h d s ?_) t ht
      exact (hs.trans (List.drop_suffix _ _)).trans (List.suffix_cons c r)

theorem take_length_takeWhile (p : Char → Bool) (r : Text) :
    r.take (r.takeWhile p).length = r.takeWhile p :=
  (List.prefix_iff_eq_take.mp (List.takeWhile_prefix p)).symm

theorem drop_length_takeWhile (p : Char → Bool) (r : Text) :
    r.drop (r.takeWhile p).length = r.dropWhile p := by
  calc r.drop (r.takeWhile p).length
      = (r.takeWhile p ++ r.dropWhile p).drop (r.takeWhile p).length := by
        rw [List.takeWhile_append_dropWhile]
    _ = r.dropWhile p := List.drop_left

theorem not_mem_takeWhile {p : Char → Bool} {c : Char} (hc : p c = false) (r : Text) :
    c ∉ r.takeWhile p := by
  intro hmem
  have htrue := List.all_eq_true.mp List.all_takeWhile c hmem
  rw [hc] at htrue
  cases htrue

theorem tailLength_of_isBlank {c : Char} (hc : isBlank c) (r : Text) :
    tailLength c r = (r.takeWhile isBlank).length := if_pos hc

/-- A token that starts with a blank is blank. -/
theorem isBlank_of_mem_ofLine {line : Text} :
    ∀ t ∈ ofLine line, t.head?.any isBlank → Text.isBlank t := by
  apply forall_mem_ofLine
  intro c r _ hc
  have hblank : isBlank c := by simpa using hc
  rw [tailLength_of_isBlank hblank, take_length_takeWhile, Text.isBlank, List.all_cons, hblank,
    Bool.true_and]
  exact List.all_takeWhile

end CodeNav.Token
