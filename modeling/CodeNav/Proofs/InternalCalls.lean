import CodeNav.Proofs.Clicks
import CodeNav.Proofs.Receivers
import CodeNav.Proofs.TokenForms

namespace CodeNav.Classifier

/-- Nothing that is tried before the calls applies to the click. -/
structure PassedOver (l : Language) (features : List ResourceFeature) (r : Request) : Prop where
  primitive : l.isPrimitive r.token = false
  feature : feature? features r = none
  menu : r.context.previous ≠ some menuMarker
  importLine : isImportLine r.context.lineText = false

/-- A parenthesis stands right behind the token and nothing but blanks right before it. -/
structure StandsAsCall (c : TokenContext) : Prop where
  next : ∃ r, c.next = some ('(' :: r)
  previous : ∀ t, c.previous = some t → Text.isBlank t
  plain : c.cssClass ≠ some callClass

variable {l : Language} {features : List ResourceFeature} {r : Request} {d : Document} {m : Text}

theorem isInternalCall_iff : isInternalCall r ↔ StandsAsCall r.context := by
  have hnext : (r.context.next.any ("(".toList.isPrefixOf ·)) ↔
      ∃ t, r.context.next = some ('(' :: t) := by
    rw [Option.any_eq_true]
    constructor
    · rintro ⟨t, ht, hstart⟩
      obtain ⟨rest, rfl⟩ := List.isPrefixOf_iff_prefix.mp hstart
      exact ⟨rest, ht⟩
    · rintro ⟨t, ht⟩
      exact ⟨_, ht, List.isPrefixOf_iff_prefix.mpr (List.prefix_append ['('] t)⟩
  have hprevious : r.context.previous.all Text.isBlank ↔
      ∀ t, r.context.previous = some t → Text.isBlank t := Option.all_eq_true _ _
  have hplain : (r.context.cssClass != some callClass) ↔ r.context.cssClass ≠ some callClass :=
    bne_iff_ne
  rw [isInternalCall, Bool.and_eq_true, Bool.and_eq_true, hnext, hprevious, hplain]
  constructor
  · rintro ⟨⟨hopens, hunstyled⟩, hblank⟩
    exact ⟨hopens, hblank, hunstyled⟩
  · intro h
    exact ⟨⟨h.next, h.plain⟩, h.previous⟩

theorem classify_eq_internalCall_iff : classify l features r d = .internalCall m ↔
    PassedOver l features r ∧ StandsAsCall r.context ∧ m = r.token.trim := by
  rw [← isInternalCall_iff]
  constructor
  · intro h
    unfold classify at h
    dsimp only at h
    split at h
    · cases h
    next hprimitive =>
    split at h
    · cases h
    next hfeature =>
    split at h
    · cases h
    next hmenu =>
    split at h
    · cases h
    next himport =>
    split at h
    · next hcall =>
      rw [Language.isPrimitive_trim] at hprimitive
      exact ⟨⟨by simpa using hprimitive, hfeature, hmenu, by simpa using himport⟩, hcall,
        (Reference.internalCall.inj h).symm⟩
    split at h
    · cases h
    split at h
    · next x hx =>
      obtain ⟨method, token, receiver, -, -, rfl⟩ := externalCall?_eq_some hx
      cases h
    · split at h <;> cases h
  · rintro ⟨⟨hprimitive, hfeature, hmenu, himport⟩, hcall, rfl⟩
    unfold classify
    dsimp only
    rw [Language.isPrimitive_trim, hprimitive, hfeature, if_neg hmenu, himport, hcall]
    rfl

/-- A token of a line shows a word when it begins with one and has no dot, question mark or dollar
sign. -/
theorem isWordRun_trim_iff {line t : Text} (ht : t ∈ Token.ofLine line)
    (hshown : Text.isBlank t = false) :
    isWordRun t.trim ↔ t.head?.any isWord ∧ '.' ∉ t ∧ '?' ∉ t ∧ '$' ∉ t := by
  have hform := Token.form_of_mem_ofLine t ht
  have htrim : isWordRun t.trim ↔ isWordRun t := by
    constructor
    · intro hword
      have hhead := head?_of_isWordRun hword
      rw [Token.head?_trim_of_mem_ofLine ht hshown] at hhead
      rwa [hform.trim_eq_self hhead] at hword
    · intro hword
      rwa [hform.trim_eq_self (head?_of_isWordRun hword)]
  rw [htrim, hform.isWordRun_iff]

/-- A click is taken for a call of the document's own method for what stands around the token, not
for the token itself. The name of the method is a word when the token begins like one and has no
dot, question mark or dollar sign, and only then. -/
theorem internalCall_iff {line : Text} {column : Int} {cssClass : Option Text}
    {lineNumber : Option Int} {c : TokenContext}
    (hclick : TokenContext.atColumn? line column cssClass lineNumber = some c) (l : Language)
    (features : List ResourceFeature) (d : Document) (m : Text) :
    (classify l features (.ofContext c) d = .internalCall m ↔
      PassedOver l features (.ofContext c) ∧ StandsAsCall c ∧ m = c.token.trim) ∧
    (classify l features (.ofContext c) d = .internalCall m →
      (isWordRun m ↔
        c.token.head?.any isWord ∧ '.' ∉ c.token ∧ '?' ∉ c.token ∧ '$' ∉ c.token)) := by
  refine ⟨classify_eq_internalCall_iff, fun hcall => ?_⟩
  obtain ⟨-, -, rfl⟩ := classify_eq_internalCall_iff.mp hcall
  obtain ⟨hsiblings, hshown, -⟩ := TokenContext.of_atColumn? hclick
  have hmem : c.token ∈ Token.ofLine line := by
    rw [← hsiblings]
    exact List.mem_append_right _ List.mem_cons_self
  exact isWordRun_trim_iff hmem hshown

def callPage : Document :=
  .ofText "fun main() \x7b\n    refresh(1)\n    repo\n        .load(1)\n\x7d\n"
    "https://github.com/o/r/blob/main/Main.kt" "now"

def refreshClick : TokenContext := ⟨["    "], "refresh", ["(", "1", ")"], none, some 2⟩

def loadClick : TokenContext := ⟨["        "], ".load", ["(", "1", ")"], none, some 4⟩

theorem internalCall_iff_refresh :
    TokenContext.atColumn? "    refresh(1)" 7 none (some 2) = some refreshClick ∧
      classify .kotlin [.layout, .menu, .string] (.ofContext refreshClick) callPage =
        .internalCall "refresh" ∧ isWordRun "refresh" := by
  have hclick : TokenContext.atColumn? "    refresh(1)" 7 none (some 2) = some refreshClick := by
    decide +kernel
  have hcall : classify .kotlin [.layout, .menu, .string] (.ofContext refreshClick) callPage =
      .internalCall "refresh" := by decide +kernel
  have hword := (internalCall_iff hclick .kotlin [.layout, .menu, .string] callPage _).2 hcall
  exact ⟨hclick, hcall, hword.mpr (by decide +kernel)⟩

/-- The method of a call that is continued on a line of its own is looked up with the dot. -/
theorem internalCall_of_continued_call :
    (4, "        .load(1)".toList) ∈ callPage.lines.map (fun l => (l.number, l.text)) ∧
      TokenContext.atColumn? "        .load(1)" 9 none (some 4) = some loadClick ∧
      classify .kotlin [.layout, .menu, .string] (.ofContext loadClick) callPage =
        .internalCall ".load" ∧ isWordRun ".load" = false := by
  refine ⟨?_, ?_, ?_, ?_⟩ <;> decide +kernel

end CodeNav.Classifier
