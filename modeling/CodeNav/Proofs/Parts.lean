import CodeNav.Proofs.Cuts

namespace CodeNav.Text

theorem parts_of_not_mem {c : Char} {t : Text} (h : c ∉ t) : parts c t = [t] := by
  induction t with
  | nil => rfl
  | cons x r ih =>
    rw [List.mem_cons, not_or] at h
    rw [parts, if_neg (Ne.symm h.1), ih h.2]

theorem parts_ne_nil (c : Char) (t : Text) : parts c t ≠ [] := by
  cases t with
  | nil => exact List.cons_ne_nil _ _
  | cons x r =>
    unfold parts
    repeat' split
    all_goals exact List.cons_ne_nil _ _

/-- A character of the text is the one that parts it or stands in a part. -/
theorem mem_parts {c x : Char} {t : Text} (h : x ∈ t) : x = c ∨ ∃ p ∈ parts c t, x ∈ p := by
  induction t with
  | nil => cases h
  | cons y r ih =>
    obtain ⟨p, ps, hp⟩ := List.exists_cons_of_ne_nil (parts_ne_nil c r)
    rw [hp] at ih
    unfold parts
    rw [hp]
    rcases List.mem_cons.mp h with rfl | h
    · by_cases hx : x = c
      · exact .inl hx
      · exact .inr ⟨x :: p, by simp [hx], List.mem_cons_self⟩
    · refine (ih h).imp_right ?_
      rintro ⟨q, hq, hxq⟩
      by_cases hy : y = c
      · exact ⟨q, by simp [hy, hq], hxq⟩
      · rcases List.mem_cons.mp hq with rfl | hq
        · exact ⟨y :: q, by simp [hy], List.mem_cons_of_mem y hxq⟩
        · exact ⟨q, by simp [hy, hq], hxq⟩

theorem parts_eq_splitOn (c : Char) (t : Text) : parts c t = t.splitOn c := by
  induction t with
  | nil => rfl
  | cons x r ih =>
    rw [List.splitOn_eq_splitOnP] at ih ⊢
    obtain ⟨p, ps, hp⟩ := List.exists_cons_of_ne_nil (parts_ne_nil c r)
    rw [parts, List.splitOnP_cons_eq_if_modifyHead, ← ih, hp]
    by_cases hx : x = c <;> simp [hx]

/-- A text falls into the parts of what stands on either side of the character. -/
theorem parts_append (c : Char) (a b : Text) : parts c (a ++ c :: b) = parts c a ++ parts c b := by
  simp only [parts_eq_splitOn, List.splitOn_eq_splitOnP]
  exact List.splitOnP_append_cons a b (by simp)

theorem parts_append_cons {c : Char} {b : Text} (hb : c ∉ b) (a : Text) :
    parts c (a ++ c :: b) = parts c a ++ [b] := by
  rw [parts_append, parts_of_not_mem hb]

/-- Of several parts the last one ends the text, behind an occurrence of the character. -/
theorem suffix_of_getLast?_parts {c : Char} {t s : Text} (h : (parts c t).getLast? = some s)
    (hparts : 2 ≤ (parts c t).length) : c :: s <:+ t := by
  rcases exists_last_cut c t with hnone | ⟨a, b, rfl, hb⟩
  · rw [parts_of_not_mem hnone] at hparts
    exact absurd hparts (by simp)
  · rw [parts_append_cons hb, List.getLast?_append, List.getLast?_singleton] at h
    obtain rfl := Option.some.inj h
    exact List.suffix_append a (c :: b)

theorem intercalate_append (sep : Text) {ls ms : List Text} (hls : ls ≠ []) (hms : ms ≠ []) :
    sep.intercalate (ls ++ ms) = sep.intercalate ls ++ sep ++ sep.intercalate ms := by
  induction ls with
  | nil => exact absurd rfl hls
  | cons l ls ih =>
    by_cases hnil : ls = []
    · simp [hnil, List.intercalate_cons_of_ne_nil hms]
    · have hne : ls ++ ms ≠ [] := by simp [hnil]
      rw [List.cons_append, List.intercalate_cons_of_ne_nil hne, ih hnil,
        List.intercalate_cons_of_ne_nil hnil]
      simp

/-- What stands between two occurrences of the character and does not hold it is one of the parts,
neither the first nor the last. -/
theorem infix_iff_mem_parts {c : Char} {s t : Text} (hs : c ∉ s) :
    c :: (s ++ [c]) <:+: t ↔ s ∈ (parts c t).tail.dropLast := by
  constructor
  · rintro ⟨a, b, rfl⟩
    have hparts : parts c (a ++ c :: (s ++ [c]) ++ b) = parts c a ++ s :: parts c b := by
      rw [List.append_assoc, List.cons_append, List.append_assoc, List.singleton_append,
        parts_append, parts_append, parts_of_not_mem hs]
      rfl
    rw [hparts, List.tail_append_of_ne_nil (parts_ne_nil c a),
      List.dropLast_append_of_ne_nil (List.cons_ne_nil _ _)]
    cases hb : parts c b with
    | nil => exact absurd hb (parts_ne_nil c b)
    | cons p ps => simp
  · intro h
    obtain ⟨p, ps, hp⟩ := List.exists_cons_of_ne_nil (parts_ne_nil c t)
    rw [hp, List.tail_cons] at h
    obtain ⟨init, z, rfl⟩ : ∃ init z, ps = init ++ [z] := by
      refine (List.eq_nil_or_concat' ps).resolve_left ?_
      rintro rfl
      cases h
    rw [List.dropLast_concat] at h
    obtain ⟨as, bs, rfl⟩ := List.append_of_mem h
    have hjoin : [c].intercalate (parts c t) = t := by
      rw [parts_eq_splitOn]
      exact List.intercalate_splitOn c
    have hparts : parts c t = (p :: as) ++ ([s] ++ (bs ++ [z])) := by simp [hp]
    rw [hparts, intercalate_append [c] (List.cons_ne_nil _ _) (by simp),
      intercalate_append [c] (List.cons_ne_nil _ _) (by simp)] at hjoin
    refine ⟨[c].intercalate (p :: as), [c].intercalate (bs ++ [z]), ?_⟩
    rw [← hjoin]
    simp

/-- A segment with the character around it occurs first where it stands when no part before, but
the first one of the text, is the same. -/
theorem firstBetween_segment_iff {c : Char} {s : Text} (hs : c ∉ s) (a b : Text) :
    FirstBetween (c :: (s ++ [c])) (a ++ c :: (s ++ [c]) ++ b) a b ↔ s ∉ (parts c a).tail := by
  have hinner : (parts c (a ++ c :: s)).tail.dropLast = (parts c a).tail := by
    rw [parts_append, parts_of_not_mem hs, List.tail_append_of_ne_nil (parts_ne_nil c a),
      List.dropLast_concat]
  have hfirst := @firstBetween_concat_iff (c :: s) c a b
  rw [List.cons_append] at hfirst
  rw [hfirst, infix_iff_mem_parts hs, hinner]

end CodeNav.Text
