import CodeNav.Text.Basic
import Mathlib.Data.List.Infix
import Mathlib.Data.List.TakeWhile

namespace CodeNav.Text

/-- The needle stands between `a` and `b`, and nowhere before. -/
structure FirstBetween (needle t a b : Text) : Prop where
  eq : t = a ++ needle ++ b
  first : ∀ a' b', t = a' ++ needle ++ b' → a.length ≤ a'.length

theorem cut?_of_startsWith {needle t : Text} (h : needle <+: t) :
    cut? needle t = some ([], t.drop needle.length) := by
  cases t with
  | nil =>
    obtain rfl := List.prefix_nil.mp h
    rfl
  | cons c r =>
    unfold cut?
    rw [if_pos (List.isPrefixOf_iff_prefix.mpr h)]

theorem cut?_cons_of_not_startsWith {needle r : Text} {c : Char} (h : ¬needle <+: c :: r) :
    cut? needle (c :: r) = (cut? needle r).map fun p => (c :: p.1, p.2) := by
  rw [cut?, if_neg (mt List.isPrefixOf_iff_prefix.mp h)]

theorem firstBetween_of_cut? {needle t a b : Text} (h : cut? needle t = some (a, b)) :
    FirstBetween needle t a b := by
  induction t generalizing a with
  | nil =>
    unfold cut? at h
    split at h
    · next hempty =>
      obtain ⟨rfl, rfl⟩ := Prod.mk.inj (Option.some.inj h)
      obtain rfl := List.isEmpty_iff.mp hempty
      exact ⟨rfl, fun _ _ _ => Nat.zero_le _⟩
    · cases h
  | cons c r ih =>
    by_cases hpre : needle <+: c :: r
    · rw [cut?_of_startsWith hpre] at h
      obtain ⟨rfl, rfl⟩ := Prod.mk.inj (Option.some.inj h)
      refine ⟨?_, fun _ _ _ => Nat.zero_le _⟩
      rw [List.nil_append]
      exact (List.prefix_iff_eq_append.mp hpre).symm
    · rw [cut?_cons_of_not_startsWith hpre] at h
      obtain ⟨⟨a₀, b₀⟩, hcut, hab⟩ := Option.map_eq_some_iff.mp h
      obtain ⟨rfl, rfl⟩ := Prod.mk.inj hab
      have hrest := ih hcut
      refine ⟨by rw [hrest.eq]; rfl, fun a' b' heq => ?_⟩
      cases a' with
      -- An occurrence at the front would have been found.
      | nil => exact absurd ⟨b', heq.symm⟩ hpre
      | cons d a' =>
        exact Nat.succ_le_succ (hrest.first a' b' (List.cons.inj heq).2)

theorem cut?_isSome_of_eq {needle t a b : Text} (h : t = a ++ needle ++ b) :
    (cut? needle t).isSome := by
  induction t generalizing a with
  | nil =>
    have hneedle : needle = [] := by
      have hnil := List.append_eq_nil_iff.mp h.symm
      exact (List.append_eq_nil_iff.mp hnil.1).2
    rw [hneedle]
    rfl
  | cons c r ih =>
    by_cases hpre : needle <+: c :: r
    · rw [cut?_of_startsWith hpre]
      rfl
    · rw [cut?_cons_of_not_startsWith hpre, Option.isSome_map]
      cases a with
      | nil => exact absurd ⟨b, h.symm⟩ hpre
      | cons d a => exact ih (List.cons.inj h).2

/-- A text is cut exactly at the first occurrence of the needle. -/
theorem cut?_eq_some_iff {needle t a b : Text} :
    cut? needle t = some (a, b) ↔ FirstBetween needle t a b := by
  refine ⟨firstBetween_of_cut?, fun h => ?_⟩
  obtain ⟨⟨a', b'⟩, hcut⟩ := Option.isSome_iff_exists.mp (cut?_isSome_of_eq h.eq)
  have h' := firstBetween_of_cut? hcut
  -- Both parts before the needle are the shortest one, so they are the same.
  have hlen : a.length = a'.length :=
    Nat.le_antisymm (h.first a' b' h'.eq) (h'.first a b h.eq)
  have heq : a ++ (needle ++ b) = a' ++ (needle ++ b') := by
    rw [← List.append_assoc, ← List.append_assoc, ← h.eq, ← h'.eq]
  obtain ⟨rfl, htail⟩ := List.append_inj heq hlen
  obtain rfl := List.append_cancel_left htail
  exact hcut

/-- A needle occurs first at one place only. -/
theorem FirstBetween.unique {needle t a b a' b' : Text} (h : FirstBetween needle t a b)
    (h' : FirstBetween needle t a' b') : a = a' ∧ b = b' := by
  have hsame := (cut?_eq_some_iff.mpr h).symm.trans (cut?_eq_some_iff.mpr h')
  exact Prod.mk.inj (Option.some.inj hsame)

/-- An occurrence is the first one exactly when none ends before its last character. -/
theorem firstBetween_concat_iff {stem : Text} {c : Char} (a b : Text) :
    FirstBetween (stem ++ [c]) (a ++ (stem ++ [c]) ++ b) a b ↔ ¬stem ++ [c] <:+: a ++ stem := by
  constructor
  · rintro h ⟨a', r, hoccurs⟩
    have heq : a ++ (stem ++ [c]) ++ b = a' ++ (stem ++ [c]) ++ (r ++ c :: b) := by
      calc a ++ (stem ++ [c]) ++ b
          = a ++ stem ++ c :: b := by simp
        _ = a' ++ (stem ++ [c]) ++ (r ++ c :: b) := by simp [← hoccurs]
    -- The other occurrence would begin before the one at `a`.
    have hle := h.first a' _ heq
    have hlength := congrArg List.length hoccurs
    simp only [List.length_append, List.length_singleton] at hlength
    omega
  · intro h
    refine ⟨rfl, fun a' b' heq => ?_⟩
    by_contra hlt
    have hoccurs : a' ++ (stem ++ [c]) <+: a ++ stem := by
      have hwhole : a ++ stem <+: a ++ (stem ++ [c]) ++ b := ⟨c :: b, by simp⟩
      refine List.prefix_of_prefix_length_le ⟨b', heq.symm⟩ hwhole ?_
      simp only [List.length_append, List.length_singleton]
      omega
    exact h ((List.suffix_append a' _).isInfix.trans hoccurs.isInfix)

theorem cutLast?_eq_none_iff {c : Char} {t : Text} : cutLast? c t = none ↔ c ∉ t := by
  induction t with
  | nil => simp [cutLast?]
  | cons x r ih =>
    unfold cutLast?
    rw [List.mem_cons, not_or, ← ih]
    cases cutLast? c r with
    | some p => simp
    | none => simp [eq_comm]

theorem cutLast?_append_cons {c : Char} {b : Text} (hb : c ∉ b) (a : Text) :
    cutLast? c (a ++ c :: b) = some (a, b) := by
  induction a with
  | nil => simp [cutLast?, cutLast?_eq_none_iff.mpr hb]
  | cons x a ih => simp [cutLast?, ih]

/-- A text is cut at the last occurrence of a character exactly when none is left behind it. -/
theorem cutLast?_eq_some_iff {c : Char} {t a b : Text} :
    cutLast? c t = some (a, b) ↔ t = a ++ c :: b ∧ c ∉ b := by
  refine ⟨fun h => ?_, fun ⟨ht, hb⟩ => ht ▸ cutLast?_append_cons hb a⟩
  induction t generalizing a with
  | nil => cases h
  | cons x r ih =>
    unfold cutLast? at h
    split at h
    · next a₀ b₀ hcut =>
      obtain ⟨rfl, rfl⟩ := Prod.mk.inj (Option.some.inj h)
      obtain ⟨hr, hb⟩ := ih hcut
      exact ⟨by rw [hr]; rfl, hb⟩
    · next hcut =>
      split at h
      · next hx =>
        obtain ⟨rfl, rfl⟩ := Prod.mk.inj (Option.some.inj h)
        exact ⟨by rw [hx]; rfl, cutLast?_eq_none_iff.mp hcut⟩
      · cases h

theorem beforeLast_append_cons {c : Char} {b : Text} (hb : c ∉ b) (a : Text) :
    beforeLast c (a ++ c :: b) = a := by
  simp [beforeLast, cutLast?_append_cons hb]

theorem beforeLast_of_not_mem {c : Char} {t : Text} (h : c ∉ t) : beforeLast c t = t := by
  simp [beforeLast, cutLast?_eq_none_iff.mpr h]

theorem before_of_not_mem {c : Char} {t : Text} (h : c ∉ t) : before c t = t := by
  refine List.takeWhile_eq_self_iff.mpr fun x hx => ?_
  have hne : x ≠ c := fun hmark => h (hmark ▸ hx)
  simpa using hne

/-- Every text ends in a part without the character, or is one. -/
theorem exists_last_cut (c : Char) (t : Text) : c ∉ t ∨ ∃ a b, t = a ++ c :: b ∧ c ∉ b := by
  cases hcut : cutLast? c t with
  | none => exact .inl (cutLast?_eq_none_iff.mp hcut)
  | some p => exact .inr ⟨p.1, p.2, cutLast?_eq_some_iff.mp hcut⟩

/-- A character that stands behind `a` in two parts put together stands in the first or in the
second. -/
theorem append_cons_eq_append_iff {a b s t : Text} {c : Char} : a ++ c :: b = s ++ t ↔
    (∃ s', s = a ++ c :: s' ∧ b = s' ++ t) ∨ ∃ a', a = s ++ a' ∧ t = a' ++ c :: b := by
  rw [List.append_eq_append_iff]
  constructor
  · rintro (⟨a', rfl, h⟩ | ⟨a', rfl, h⟩)
    · cases a' with
      | nil => exact .inr ⟨[], by simp, by simpa using h.symm⟩
      | cons x a' =>
        obtain ⟨rfl, rfl⟩ := List.cons.inj h
        exact .inl ⟨a', rfl, rfl⟩
    · exact .inr ⟨a', rfl, h⟩
  · rintro (⟨s', rfl, rfl⟩ | ⟨a', rfl, rfl⟩)
    · exact .inl ⟨c :: s', rfl, rfl⟩
    · exact .inr ⟨a', rfl, rfl⟩

/-- Where two cuts end a run of characters of one kind, they are the same. -/
theorem eq_of_span {p : Char → Bool} {u v r s : Text} (hu : ∀ c ∈ u, p c) (hv : ∀ c ∈ v, p c)
    (hr : r.head?.any p = false) (hs : s.head?.any p = false) (h : u ++ r = v ++ s) :
    u = v ∧ r = s := by
  have htake {w t : Text} (hw : ∀ c ∈ w, p c) (ht : t.head?.any p = false) :
      (w ++ t).takeWhile p = w := by
    rw [List.takeWhile_append_of_pos hw]
    cases t with
    | nil => simp
    | cons c t => simp [show p c = false from ht]
  have hrun : u = v := by rw [← htake hu hr, h, htake hv hs]
  subst hrun
  exact ⟨rfl, List.append_cancel_left h⟩

theorem eq_of_span_cons {p : Char → Bool} {u v r s : Text} {c d : Char} (hu : ∀ x ∈ u, p x)
    (hv : ∀ x ∈ v, p x) (hc : p c = false) (hd : p d = false) (h : u ++ c :: r = v ++ d :: s) :
    u = v ∧ r = s := by
  obtain ⟨rfl, hrest⟩ := eq_of_span (r := c :: r) (s := d :: s) hu hv hc hd h
  exact ⟨rfl, (List.cons.inj hrest).2⟩

end CodeNav.Text
