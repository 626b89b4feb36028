import CodeNav.Proofs.EnabledKinds
import CodeNav.Proofs.Rounding
import CodeNav.Settings.File

namespace CodeNav

namespace Settings

open Yaml (Value)

/-- The text that a value stands for: itself, or a truth value or a number as it is printed. -/
inductive StandsFor : Value → Text → Prop where
  | text (t : Text) : StandsFor (.text t) t
  | bool (b : Bool) : StandsFor (.bool b) (if b then "True" else "False")
  | int (n : Int) : StandsFor (.int n) (Text.ofInt n)
  | float (x : Float) : StandsFor (.float x) (Binary64.text x)

/-- The texts that items stand for, without the items that stand for none. -/
inductive ItemsStandFor : List Value → List Text → Prop where
  | nil : ItemsStandFor [] []
  | text {v : Value} {t : Text} {vs : List Value} {ts : List Text} (h : StandsFor v t)
      (hs : ItemsStandFor vs ts) : ItemsStandFor (v :: vs) (t :: ts)
  | skipped {v : Value} {vs : List Value} {ts : List Text} (h : ∀ t, ¬StandsFor v t)
      (hs : ItemsStandFor vs ts) : ItemsStandFor (v :: vs) ts

/-- The texts that a value lists: a text itself, or those of the items of a list. -/
inductive ListsTexts : Value → List Text → Prop where
  | text (t : Text) : ListsTexts (.text t) [t]
  | list {items : List Value} {ts : List Text} (h : ItemsStandFor items ts) :
      ListsTexts (.list items) ts
  | other {v : Value} (htext : ∀ t, v ≠ .text t) (hlist : ∀ items, v ≠ .list items) :
      ListsTexts v []

def truthTexts : Bool → List Text
  | true => ["true", "yes", "1"]
  | false => ["false", "no", "0"]

inductive StandsForTruth : Value → Bool → Prop where
  | bool (b : Bool) : StandsForTruth (.bool b) b
  | text {t : Text} {b : Bool} (h : t.trim.lower ∈ truthTexts b) : StandsForTruth (.text t) b

/-- The length of time that a value stands for: a number, or a text that reads as one. -/
inductive StandsForTime : Value → Seconds → Prop where
  | int {n : Int} {x : Float} (h : Binary64.ofInt? n = some x) : StandsForTime (.int n) (.float x)
  | float (x : Float) : StandsForTime (.float x) (.float x)
  | text {t : Text} {x : Float} (h : Number.readFloat? t = some x) :
      StandsForTime (.text t) (.float x)

/-- The root segment that a value gives: its text without the slashes around it, if there is any. -/
def GivesRoot (v : Value) (root : Text) : Prop :=
  ∃ t, StandsFor v t ∧ t ≠ [] ∧ root = Text.trimChar '/' t

/-- What is given as `source` counts where it can be read, and the standard otherwise. -/
def Chosen {α β : Type} (reads : α → β → Prop) (source : Option α) (standard b : β) : Prop :=
  (∃ a, source = some a ∧ reads a b) ∨ (∀ a c, source = some a → ¬reads a c) ∧ b = standard

/-- Each setting is what the value of a document and the environment say or, where that cannot be
read, what it is without them. -/
structure Reflects (s : Settings) (v : Value) (timeout : Option Text) : Prop where
  rootSegment : Chosen GivesRoot (value? v "resources" "root_segment") "main" s.rootSegment
  enabled : Chosen (fun w names => ∃ ts, names = some ts ∧ ListsTexts w ts)
    (value? v "resources" "enabled") none s.enabled
  deniedPrefixes : Chosen ListsTexts (value? v "resolution" "denied_prefixes") [] s.deniedPrefixes
  validateLinks : Chosen StandsForTruth (value? v "navigation" "validate_links") true
    s.validateLinks
  followMethods : Chosen StandsForTruth (value? v "navigation" "follow_methods") true
    s.followMethods
  requestTimeout : ∃ time,
    Chosen StandsForTime (value? v "navigation" "request_timeout") .standard time ∧
    Chosen (fun t time => ∃ x, Number.readFloat? t = some x ∧ time = .float x) timeout time
      s.requestTimeout

/-- A whole number is not too long to be written. -/
def IsShort (v : Value) : Prop := ∀ n, v = .int n → n.natAbs < Nat.pow 10 Number.maxDigits

def HasShortItems (v : Value) : Prop := ∀ items, v = .list items → ∀ w ∈ items, IsShort w

def IsTimely (v : Value) : Prop := ∀ n, v = .int n → n.natAbs < Binary64.overflow

/-- The numbers that the value of a document gives for settings fit: those for texts are not too
long, and the one for a time is not too large. -/
structure Fits (v : Value) : Prop where
  rootSegment : ∀ w, value? v "resources" "root_segment" = some w → IsShort w
  enabled : ∀ w, value? v "resources" "enabled" = some w → HasShortItems w
  deniedPrefixes : ∀ w, value? v "resolution" "denied_prefixes" = some w → HasShortItems w
  requestTimeout : ∀ w, value? v "navigation" "request_timeout" = some w → IsTimely w

end Settings

/-- The errors that say that a settings file is wrong, and which file. -/
inductive SettingsError.IsRefusal : SettingsError → Prop where
  | malformed (fileName : Text) : IsRefusal (.document fileName .malformed)
  | noMapping : IsRefusal .noMapping

inductive SettingsError.OfNumber : SettingsError → Prop where
  | tooManyDigits : OfNumber .tooManyDigits
  | tooLong : OfNumber .tooLong

theorem SettingsError.OfNumber.not_isRefusal {e : SettingsError} (h : e.OfNumber) :
    ¬e.IsRefusal := by
  cases h <;> exact fun hr => nomatch hr

namespace Settings

open Yaml (Value)

/-- The outcome of reading a value: with numbers that fit it comes to what the value stands for, and
otherwise the number is at fault. -/
structure ReadsAs {α : Type} (outcome : Except SettingsError α) (fits : Prop) (P : α → Prop) :
    Prop where
  sound : ∀ a, outcome = .ok a → P a
  error : ∀ e, outcome = .error e → e.OfNumber
  isOk_iff : (∃ a, outcome = .ok a) ↔ fits

namespace ReadsAs

variable {α β : Type} {x : Except SettingsError α} {fits fits' : Prop} {P : α → Prop}
  {Q : β → Prop}

theorem of_ok {a : α} (hx : x = .ok a) (hfits : fits) (h : P a) : ReadsAs x fits P where
  sound _ ha := Except.ok.inj (hx.symm.trans ha) ▸ h
  error _ he := nomatch hx.symm.trans he
  isOk_iff := iff_of_true ⟨a, hx⟩ hfits

theorem of_error {e : SettingsError} (hx : x = .error e) (hfits : ¬fits) (he : e.OfNumber) :
    ReadsAs x fits P where
  sound _ ha := nomatch hx.symm.trans ha
  error _ h := Except.error.inj (hx.symm.trans h) ▸ he
  isOk_iff := iff_of_false (fun ⟨_, ha⟩ => nomatch hx.symm.trans ha) hfits

theorem bind {f : α → Except SettingsError β} (hx : ReadsAs x fits P)
    (hf : ∀ a, P a → ReadsAs (f a) fits' Q) : ReadsAs (x >>= f) (fits ∧ fits') Q := by
  cases x with
  | error e =>
    refine ⟨fun _ hb => (nomatch hb), fun _ he => ?_, iff_of_false (fun ⟨_, hb⟩ => nomatch hb) ?_⟩
    · obtain rfl := Except.error.inj he
      exact hx.error _ rfl
    · rintro ⟨hfits, -⟩
      obtain ⟨_, ha⟩ := hx.isOk_iff.mpr hfits
      cases ha
  | ok a =>
    have hnext := hf a (hx.sound a rfl)
    have hfits : fits := hx.isOk_iff.mp ⟨a, rfl⟩
    exact ⟨hnext.sound, hnext.error, hnext.isOk_iff.trans (and_iff_right hfits).symm⟩

theorem imp {Q : α → Prop} (h : ReadsAs x fits P) (hPQ : ∀ a, P a → Q a) : ReadsAs x fits Q :=
  ⟨fun a ha => hPQ a (h.sound a ha), h.error, h.isOk_iff⟩

theorem congr (h : ReadsAs x fits P) (hfits : fits ↔ fits') : ReadsAs x fits' P :=
  ⟨h.sound, h.error, h.isOk_iff.trans hfits⟩

theorem map {f : α → β} (hx : ReadsAs x fits P) (hf : ∀ a, P a → Q (f a)) :
    ReadsAs (x.map f) fits Q :=
  (hx.bind fun a ha => of_ok rfl trivial (hf a ha)).congr (and_iff_left trivial)

end ReadsAs

theorem isShort_int {n : Int} : IsShort (.int n) ↔ n.natAbs < Nat.pow 10 Number.maxDigits :=
  ⟨fun h => h n rfl, fun h _ hm => Value.int.inj hm ▸ h⟩

theorem isTimely_int {n : Int} : IsTimely (.int n) ↔ n.natAbs < Binary64.overflow :=
  ⟨fun h => h n rfl, fun h _ hm => Value.int.inj hm ▸ h⟩

theorem asText?_readsAs (v : Value) :
    ReadsAs (asText? v) (IsShort v) fun given => ∀ t, given = some t ↔ StandsFor v t := by
  have hsome {u : Text} (hvalue : asText? v = .ok (some u)) (hshort : IsShort v)
      (hstands : ∀ t, u = t ↔ StandsFor v t) :
      ReadsAs (asText? v) (IsShort v) fun given => ∀ t, given = some t ↔ StandsFor v t :=
    .of_ok hvalue hshort fun t => Option.some_inj.trans (hstands t)
  cases v with
  | text t => exact hsome rfl (fun _ h => nomatch h) fun u => ⟨(· ▸ .text t), fun | .text _ => rfl⟩
  | bool b => exact hsome rfl (fun _ h => nomatch h) fun u => ⟨(· ▸ .bool b), fun | .bool _ => rfl⟩
  | float x =>
    exact hsome rfl (fun _ h => nomatch h) fun u => ⟨(· ▸ .float x), fun | .float _ => rfl⟩
  | int n =>
    by_cases hn : IsShort (.int n)
    · refine hsome ?_ hn fun u => ⟨(· ▸ .int n), fun | .int _ => rfl⟩
      rw [asText?, if_pos (isShort_int.mp hn)]
    · refine .of_error ?_ hn .tooManyDigits
      rw [asText?, if_neg (hn ∘ isShort_int.mpr)]
  | null | time | list | record =>
    exact .of_ok rfl (fun _ h => nomatch h) fun t => iff_of_false (nomatch ·) (nomatch ·)

theorem itemsOf_readsAs (items : List Value) :
    ReadsAs (items.mapM asText?) (∀ w ∈ items, IsShort w)
      fun found => ItemsStandFor items (found.filterMap id) := by
  induction items with
  | nil => exact .of_ok rfl (by simp) .nil
  | cons v vs ih =>
    rw [List.mapM_cons, List.forall_mem_cons]
    refine (asText?_readsAs v).bind fun given hgiven => ?_
    refine (ih.bind fun found hfound => .of_ok rfl trivial ?_).congr (and_iff_left trivial)
    cases given with
    | none => exact .skipped (fun t ht => nomatch (hgiven t).mpr ht) hfound
    | some t => exact .text ((hgiven t).mp rfl) hfound

theorem asTexts_readsAs (v : Value) : ReadsAs (asTexts v) (HasShortItems v) (ListsTexts v) := by
  cases v with
  | text t => exact .of_ok rfl (fun _ h => nomatch h) (.text t)
  | list items =>
    refine ((itemsOf_readsAs items).map fun found hfound => .list hfound).congr ?_
    refine ⟨fun h us hus => ?_, fun h => h items rfl⟩
    obtain rfl := Value.list.inj hus
    exact h
  | null | bool | int | float | time | record =>
    exact .of_ok rfl (fun _ h => nomatch h) (.other (fun _ h => nomatch h) fun _ h => nomatch h)

theorem asBool?_eq_some_iff {v : Value} {b : Bool} : asBool? v = some b ↔ StandsForTruth v b := by
  cases v with
  | bool b' =>
    refine ⟨fun h => ?_, fun h => by cases h; rfl⟩
    obtain rfl := Option.some.inj h
    exact .bool b'
  | text t =>
    have htexts : asBool? (.text t) =
        if truthTexts true |>.contains t.trim.lower then some true
        else if truthTexts false |>.contains t.trim.lower then some false
        else none := rfl
    have hdisjoint (htrue : t.trim.lower ∈ truthTexts true) :
        t.trim.lower ∉ truthTexts false := by
      revert htrue
      generalize t.trim.lower = u
      intro htrue hfalse
      simp only [truthTexts, List.mem_cons, List.not_mem_nil, or_false] at htrue hfalse
      rcases htrue with rfl | rfl | rfl <;> exact absurd hfalse (by decide)
    have hiff : asBool? (.text t) = some b ↔ t.trim.lower ∈ truthTexts b := by
      rw [htexts]
      simp only [List.contains_iff_mem]
      cases b <;> grind
    exact hiff.trans ⟨.text, fun h => by cases h; assumption⟩
  | null | int | float | time | list | record =>
    exact iff_of_false (fun h => by cases h) fun h => by cases h

theorem asSeconds?_readsAs (v : Value) :
    ReadsAs (asSeconds? v) (IsTimely v) fun given => ∀ s, given = some s ↔ StandsForTime v s := by
  cases v with
  | int n =>
    have hfits : (∃ x, Binary64.ofInt? n = some x) ↔ IsTimely (.int n) := by
      rw [isTimely_int, ← Binary64.ofInt?_isSome_iff, Option.isSome_iff_exists]
    cases hx : Binary64.ofInt? n with
    | some x =>
      refine .of_ok (by rw [asSeconds?, hx]) (hfits.mp ⟨x, hx⟩) fun s => ?_
      refine ⟨fun h => Option.some.inj h ▸ .int hx, ?_⟩
      rintro ⟨hy⟩
      rw [Option.some.inj (hx.symm.trans hy)]
    | none =>
      refine .of_error (by rw [asSeconds?, hx]) (fun h => ?_) .tooLong
      obtain ⟨x, hsome⟩ := hfits.mpr h
      exact nomatch hx.symm.trans hsome
  | float x =>
    refine .of_ok rfl (fun _ h => nomatch h) fun s => ?_
    exact ⟨fun h => Option.some.inj h ▸ .float x, fun | .float _ => rfl⟩
  | text t =>
    refine .of_ok rfl (fun _ h => nomatch h) fun s => ?_
    rw [Option.map_eq_some_iff]
    exact ⟨fun ⟨_, hx, hs⟩ => hs ▸ .text hx, fun | .text hx => ⟨_, hx, rfl⟩⟩
  | null | bool | time | list | record =>
    exact .of_ok rfl (fun _ h => nomatch h) fun s => iff_of_false (nomatch ·) (nomatch ·)

section Chosen

variable {α β : Type} {reads : α → β → Prop} {source : Option α} {standard b : β}

theorem Chosen.of_some_iff {given : Option β} {a : α} (h : ∀ b, given = some b ↔ reads a b) :
    Chosen reads (some a) standard (given.getD standard) := by
  cases given with
  | some b => exact .inl ⟨a, rfl, (h b).mp rfl⟩
  | none => exact .inr ⟨fun a' b ha hb => (nomatch (h b).mpr (Option.some.inj ha ▸ hb)), rfl⟩

theorem Chosen.of_getD {other : α} (hother : ∀ b, reads other b → b = standard)
    (h : Chosen reads (some (source.getD other)) standard b) : Chosen reads source standard b := by
  cases source with
  | some a => exact h
  | none =>
    refine .inr ⟨fun _ _ ha => (nomatch ha), ?_⟩
    obtain ⟨a, ha, hb⟩ | ⟨-, hb⟩ := h
    · obtain rfl : other = a := Option.some.inj ha
      exact hother b hb
    · exact hb

end Chosen

/-- A reading that takes the null value for an absent one, and nothing from that. -/
theorem ReadsAs.of_getD {α β : Type} {f : Value → Except SettingsError α} {g : α → β}
    {fits : Value → Prop} {reads : Value → β → Prop} {standard : β}
    (hf : ∀ w, ReadsAs (f w) (fits w) fun a => Chosen reads (some w) standard (g a))
    (hfits : fits .null) (hreads : ∀ b, reads .null b → b = standard) (source : Option Value) :
    ReadsAs (f (source.getD .null)) (∀ w, source = some w → fits w)
      fun a => Chosen reads source standard (g a) := by
  refine ((hf _).imp fun a => Chosen.of_getD hreads).congr ?_
  cases source with
  | some w => exact ⟨fun h _ hw => Option.some.inj hw ▸ h, fun h => h w rfl⟩
  | none => exact iff_of_true hfits fun _ hw => nomatch hw

theorem rootSegmentOf_readsAs (w : Value) :
    ReadsAs (rootSegmentOf w) (IsShort w) (Chosen GivesRoot (some w) "main") := by
  refine ((asText?_readsAs w).bind fun given hgiven => ?_).congr (and_iff_left trivial)
  have hnone (h : ∀ t, given = some t → t = []) : Chosen GivesRoot (some w) "main" "main" :=
    .inr ⟨fun a root ha ⟨t, ht, hne, _⟩ =>
      hne (h t ((hgiven t).mpr (Option.some.inj ha ▸ ht))), rfl⟩
  rcases given with _ | _ | ⟨c, cs⟩
  · exact .of_ok rfl trivial (hnone fun _ h => nomatch h)
  · exact .of_ok rfl trivial (hnone fun _ h => (Option.some.inj h).symm)
  · exact .of_ok rfl trivial (.inl ⟨w, rfl, c :: cs, (hgiven _).mp rfl, by simp, rfl⟩)

theorem enabled_readsAs (source : Option Value) :
    ReadsAs (source.mapM asTexts) (∀ w, source = some w → HasShortItems w)
      (Chosen (fun w names => ∃ ts, names = some ts ∧ ListsTexts w ts) source none) := by
  cases source with
  | none => exact .of_ok rfl (fun _ h => nomatch h) (.inr ⟨fun _ _ h => (nomatch h), rfl⟩)
  | some w =>
    have hfits : HasShortItems w ↔ ∀ w', some w = some w' → HasShortItems w' :=
      ⟨fun h _ hw => Option.some.inj hw ▸ h, fun h => h w rfl⟩
    have hmap : (some w).mapM asTexts = (asTexts w).map some := rfl
    rw [hmap]
    exact ((asTexts_readsAs w).map fun ts hts => .inl ⟨w, rfl, ts, rfl, hts⟩).congr hfits

theorem chosen_truth (source : Option Value) :
    Chosen StandsForTruth source true ((source.bind asBool?).getD true) := by
  cases source with
  | none => exact .inr ⟨fun _ _ h => (nomatch h), rfl⟩
  | some w => exact .of_some_iff fun b => asBool?_eq_some_iff

theorem chosen_texts {w : Value} {ts : List Text} (h : ListsTexts w ts) :
    Chosen ListsTexts (some w) [] ts :=
  .inl ⟨w, rfl, h⟩

theorem ListsTexts.eq_nil {ts : List Text} (h : ListsTexts .null ts) : ts = [] := by
  cases h
  rfl

theorem ofValue_readsAs (fields : List (Value × Value)) :
    ReadsAs (ofValue (.record fields)) (Fits (.record fields))
      fun s => Reflects s (.record fields) none := by
  have hroot := ReadsAs.of_getD (g := id) rootSegmentOf_readsAs (fun _ h => nomatch h)
    fun _ ⟨_, ht, _⟩ => nomatch ht
  have hdenied := ReadsAs.of_getD (g := id)
    (fun w => (asTexts_readsAs w).imp fun _ => chosen_texts) (fun _ h => nomatch h)
    fun _ => ListsTexts.eq_nil
  have htime (w : Value) : ReadsAs (asSeconds? w) (IsTimely w) fun given =>
      Chosen StandsForTime (some w) .standard (given.getD .standard) :=
    (asSeconds?_readsAs w).imp fun _ => Chosen.of_some_iff
  have htime := ReadsAs.of_getD htime (fun _ h => nomatch h) fun _ h => nomatch h
  refine ReadsAs.congr ?_ (⟨fun ⟨h₁, h₂, h₃, h₄, _⟩ => ⟨h₁, h₂, h₃, h₄⟩,
    fun ⟨h₁, h₂, h₃, h₄⟩ => ⟨h₁, h₂, h₃, h₄, trivial⟩⟩ :
      (_ ∧ _ ∧ _ ∧ _ ∧ True) ↔ Fits (.record fields))
  refine (hroot _).bind fun _ hroot => ?_
  refine (enabled_readsAs _).bind fun _ henabled => ?_
  refine (hdenied _).bind fun _ hdenied => ?_
  refine (htime _).bind fun _ htime => .of_ok rfl trivial ?_
  exact {
    rootSegment := hroot
    enabled := henabled
    deniedPrefixes := hdenied
    validateLinks := chosen_truth _
    followMethods := chosen_truth _
    requestTimeout := ⟨_, htime, .inr ⟨fun _ _ h => (nomatch h), rfl⟩⟩ }

theorem Reflects.withTimeout {s : Settings} {v : Value} (h : Reflects s v none)
    (timeout : Option Text) : Reflects (s.withTimeout timeout) v timeout := by
  obtain ⟨time, htime, hnone⟩ := h.requestTimeout
  have hold : s.requestTimeout = time := by
    obtain ⟨_, ht, _⟩ | ⟨-, hold⟩ := hnone
    · cases ht
    · exact hold
  unfold Settings.withTimeout
  cases hread : timeout.bind Number.readFloat? with
  | some x =>
    obtain ⟨t, ht, hx⟩ := Option.bind_eq_some_iff.mp hread
    exact { h with requestTimeout := ⟨time, htime, .inl ⟨t, ht, x, hx, rfl⟩⟩ }
  | none =>
    refine { h with requestTimeout := ⟨time, htime, .inr ⟨?_, hold⟩⟩ }
    rintro t _ ht ⟨x, hx, -⟩
    exact nomatch hread.symm.trans (Option.bind_eq_some_iff.mpr ⟨t, ht, hx⟩)

section

variable {α β : Type} {x : Except SettingsError α} {f : α → β}

theorem map_eq_ok_iff {b : β} : x.map f = .ok b ↔ ∃ a, x = .ok a ∧ f a = b := by
  cases x with
  | ok a => exact ⟨fun h => ⟨a, rfl, Except.ok.inj h⟩, fun ⟨_, ha, h⟩ => Except.ok.inj ha ▸ h ▸ rfl⟩
  | error e => exact iff_of_false (nomatch ·) fun ⟨_, ha, _⟩ => nomatch ha

theorem map_eq_error_iff {e : SettingsError} : x.map f = .error e ↔ x = .error e := by
  cases x with
  | ok a => exact iff_of_false (nomatch ·) (nomatch ·)
  | error e' => exact ⟨fun h => Except.error.inj h ▸ rfl, fun h => Except.error.inj h ▸ rfl⟩

end

section File

variable {read : Text → Except Yaml.Fault Value} {files : Files} {timeout : Option Text}
  {p : FilePath} {bytes : List UInt8}

/-- The bytes of a settings file are a text with these fields in it. -/
def HoldsFields (read : Text → Except Yaml.Fault Value) (bytes : List UInt8)
    (fields : List (Value × Value)) : Prop :=
  ∃ t, Utf8.decode bytes = .ok t ∧ t.unifyLineEnds.isBlank = false ∧
    read t.unifyLineEnds = .ok (.record fields)

/-- A text has a value, if it shows anything, or is malformed, and the numbers that it gives for
settings fit. -/
def IsSettled (read : Text → Except Yaml.Fault Value) (t : Text) : Prop :=
  t.isBlank = false → (∀ f, read t = .error f → f = .malformed) ∧
    ∀ fields, read t = .ok (.record fields) → Fits (.record fields)

/-- What stands at the path of a settings file is no directory, and if it is a file then its bytes
are a text with numbers that fit. -/
def Legible (read : Text → Except Yaml.Fault Value) : FileState → Prop
  | .missing | .blocked => True
  | .directory => False
  | .file bytes => ∃ t, Utf8.decode bytes = .ok t ∧ IsSettled read t.unifyLineEnds

theorem ReadsAs.regular_iff {α : Type} {x : Except SettingsError α} {fits : Prop} {P : α → Prop}
    (h : ReadsAs x fits P) : (∀ e, x = .error e → e.IsRefusal) ↔ fits := by
  rw [← h.isOk_iff]
  cases x with
  | ok a => exact iff_of_true (fun _ he => nomatch he) ⟨a, rfl⟩
  | error e =>
    exact iff_of_false (fun hall => (h.error e rfl).not_isRefusal (hall e rfl))
      fun ⟨_, ha⟩ => nomatch ha

theorem ofTextWith_regular_iff (fileName t : Text) :
    (∀ e, ofTextWith read fileName t = .error e → e.IsRefusal) ↔ IsSettled read t := by
  unfold ofTextWith
  by_cases hblank : t.isBlank
  · rw [if_pos hblank]
    exact iff_of_true (fun _ he => nomatch he) fun hnot => absurd hblank (hnot ▸ nofun)
  rw [if_neg hblank]
  have hshown : IsSettled read t ↔ (∀ f, read t = .error f → f = .malformed) ∧
      ∀ fields, read t = .ok (.record fields) → Fits (.record fields) :=
    forall_prop_of_true (Bool.eq_false_iff.mpr hblank)
  rw [hshown]
  cases hvalue : read t with
  | error f =>
    constructor
    · intro h
      refine ⟨fun g hg => ?_, fun _ hv => nomatch hv⟩
      obtain rfl := Except.error.inj hg
      exact match h _ rfl with | .malformed _ => rfl
    · rintro ⟨h, -⟩ e he
      obtain rfl := Except.error.inj he
      rw [h f rfl]
      exact .malformed fileName
  | ok v =>
    cases v with
    | record fields =>
      refine (ofValue_readsAs fields).regular_iff.trans ⟨fun h => ?_, fun h => h.2 fields rfl⟩
      exact ⟨fun _ hf => (nomatch hf), fun _ hv => Value.record.inj (Except.ok.inj hv) ▸ h⟩
    | null =>
      exact iff_of_true (fun _ he => nomatch he)
        ⟨fun _ hf => (nomatch hf), fun _ hv => (nomatch hv)⟩
    | bool | int | float | text | time | list =>
      refine iff_of_true (fun e he => ?_) ⟨fun _ hf => (nomatch hf), fun _ hv => (nomatch hv)⟩
      obtain rfl := Except.error.inj he
      exact .noMapping

theorem loadWith_of_read_error {e : FileError} (hread : files.read (filePath files p) = .error e)
    (hmissing : ∀ q, e ≠ .missing q) (hblocked : ∀ q, e ≠ .blocked q) (timeout : Option Text) :
    loadWith read files timeout p = .error (.unreadable e) := by
  unfold loadWith
  dsimp only
  rw [hread]
  cases e with
  | missing q => exact absurd rfl (hmissing q)
  | blocked q => exact absurd rfl (hblocked q)
  | directory | encoding => rfl

theorem loadWith_of_decode {t : Text} (hfile : files (filePath files p) = .file bytes)
    (hdecode : Utf8.decode bytes = .ok t) (timeout : Option Text) :
    loadWith read files timeout p =
      (ofTextWith read (filePath files p).name t.unifyLineEnds).map (·.withTimeout timeout) := by
  have hread : files.read (filePath files p) = .ok t.unifyLineEnds := by
    rw [Files.read, hfile]
    dsimp only
    rw [hdecode]
  unfold loadWith
  dsimp only
  rw [hread]
  rfl

/-- Settings are loaded, or refused with an error that says that the file is wrong, exactly when
what stands at the path is legible. -/
theorem loadWith_regular_iff (timeout : Option Text) :
    (∀ e, loadWith read files timeout p = .error e → e.IsRefusal) ↔
      Legible read (files (filePath files p)) := by
  cases hstate : files (filePath files p) with
  | missing | blocked =>
    unfold loadWith Files.read
    dsimp only
    rw [hstate]
    exact iff_of_true (fun _ he => nomatch he) trivial
  | directory =>
    have hread : files.read (filePath files p) = .error (.directory (filePath files p)) := by
      rw [Files.read, hstate]
    rw [loadWith_of_read_error hread (by simp) (by simp)]
    exact iff_of_false (fun hall => nomatch hall _ rfl) id
  | file bytes =>
    cases hdecode : Utf8.decode bytes with
    | error e =>
      have hread : files.read (filePath files p) = .error (.encoding e) := by
        rw [Files.read, hstate]
        dsimp only
        rw [hdecode]
      rw [loadWith_of_read_error hread (by simp) (by simp)]
      refine iff_of_false (fun hall => nomatch hall _ rfl) fun ⟨_, ht, _⟩ => ?_
      exact nomatch hdecode.symm.trans ht
    | ok t =>
      simp only [loadWith_of_decode hstate hdecode, map_eq_error_iff]
      rw [ofTextWith_regular_iff]
      refine ⟨fun h => ⟨t, hdecode, h⟩, fun ⟨t', ht', h⟩ => ?_⟩
      obtain rfl := Except.ok.inj (hdecode.symm.trans ht')
      exact h

/-- Where reading a document fails only if it is malformed, the numbers alone decide. -/
theorem legible_file_iff (hread : ∀ t f, read t = .error f → f = .malformed) :
    Legible read (.file bytes) ↔ (∃ t, Utf8.decode bytes = .ok t) ∧
      ∀ fields, HoldsFields read bytes fields → Fits (.record fields) := by
  constructor
  · rintro ⟨t, hdecode, h⟩
    refine ⟨⟨t, hdecode⟩, ?_⟩
    rintro fields ⟨t', ht', hblank, hvalue⟩
    obtain rfl := Except.ok.inj (hdecode.symm.trans ht')
    exact (h hblank).2 fields hvalue
  · rintro ⟨⟨t, hdecode⟩, h⟩
    exact ⟨t, hdecode, fun hblank =>
      ⟨hread _, fun fields hvalue => h fields ⟨t, hdecode, hblank, hvalue⟩⟩⟩

/-- Whatever the bytes of a settings file and the time of the environment are, the settings are
loaded, or refused with an error that says that the file is wrong, exactly when the bytes are a text
and the numbers in it fit. A file of fields is loaded exactly when the numbers fit, and then each
setting is what the file and the environment say or else what it is without them. -/
theorem loadWith_file_iff (hread : ∀ t f, read t = .error f → f = .malformed)
    (hfile : files (filePath files p) = .file bytes) (timeout : Option Text) :
    ((∀ e, loadWith read files timeout p = .error e → e.IsRefusal) ↔
      (∃ t, Utf8.decode bytes = .ok t) ∧
        ∀ fields, HoldsFields read bytes fields → Fits (.record fields)) ∧
    ∀ fields, HoldsFields read bytes fields →
      ((∃ s, loadWith read files timeout p = .ok s) ↔ Fits (.record fields)) ∧
        ∀ s, loadWith read files timeout p = .ok s → Reflects s (.record fields) timeout := by
  refine ⟨?_, ?_⟩
  · rw [loadWith_regular_iff, hfile]
    exact legible_file_iff hread
  rintro fields ⟨t, hdecode, hblank, hvalue⟩
  have hload : loadWith read files timeout p =
      (ofValue (.record fields)).map (·.withTimeout timeout) := by
    rw [loadWith_of_decode hfile hdecode, ofTextWith, if_neg (Bool.eq_false_iff.mp hblank), hvalue]
  have hreads := (ofValue_readsAs fields).map
    (Q := fun s => Reflects s (.record fields) timeout) fun s hs => hs.withTimeout timeout
  rw [hload]
  exact ⟨hreads.isOk_iff, hreads.sound⟩

end File

/-- The value of a document, where a number that cannot be read makes it malformed. -/
def readStrictly (t : Text) : Except Yaml.Fault Value :=
  (Value.ofText t).mapError fun _ => .malformed

theorem readStrictly_error (t : Text) (f : Yaml.Fault) (h : readStrictly t = .error f) :
    f = .malformed := by
  unfold readStrictly at h
  cases hvalue : Value.ofText t with
  | ok v => rw [hvalue] at h; cases h
  | error g => rw [hvalue] at h; exact (Except.error.inj h).symm

def settingsIn (t : Text) : Files :=
  FileTree.files ⟨[([settingsFileName], .file (t.map (·.toUInt8)))]⟩

def rootAndTime : Text :=
  "resources:\n  root_segment: /app/\nnavigation:\n  request_timeout: soon\n"

theorem exists_fields_rootAndTime : ∃ fields, readStrictly rootAndTime = .ok (.record fields) := by
  have hfield : (readStrictly rootAndTime).map (fun v => (v.field? "resources").isSome) =
      .ok true := by decide +kernel
  cases hvalue : readStrictly rootAndTime with
  | error f => rw [hvalue] at hfield; cases hfield
  | ok v =>
    rw [hvalue] at hfield
    cases v with
    | record fields => exact ⟨fields, rfl⟩
    | null | bool | int | float | text | time | list => cases hfield

theorem loadWith_file_iff_app : ∃ fields s,
    HoldsFields readStrictly (rootAndTime.map (·.toUInt8)) fields ∧
      loadWith readStrictly (settingsIn rootAndTime) none ⟨[], []⟩ = .ok s ∧
      Reflects s (.record fields) none ∧ s.rootSegment = "app" := by
  obtain ⟨fields, hvalue⟩ := exists_fields_rootAndTime
  obtain ⟨s, hload, hroot⟩ := map_eq_ok_iff.mp
    (by decide +kernel : (loadWith readStrictly (settingsIn rootAndTime) none ⟨[], []⟩).map
      (·.rootSegment) = .ok "app".toList)
  have hholds : HoldsFields readStrictly (rootAndTime.map (·.toUInt8)) fields :=
    ⟨rootAndTime, by decide +kernel, by decide +kernel, hvalue⟩
  have hfile : settingsIn rootAndTime (filePath (settingsIn rootAndTime) ⟨[], []⟩) =
      .file (rootAndTime.map (·.toUInt8)) := by decide +kernel
  have hreflects := ((loadWith_file_iff readStrictly_error hfile none).2 fields hholds).2 s hload
  exact ⟨fields, s, hholds, hload, hreflects, hroot⟩

def largeTime : Text := "navigation:\n  request_timeout: 1" ++ List.replicate 400 '0' ++ "\n"

/-- A time that is too large is refused, but the error does not say that the file is wrong. -/
theorem load_of_large_time : ∃ e,
    load (settingsIn largeTime) (some "1.5") ⟨[], []⟩ = .error e ∧ ¬e.IsRefusal := by
  have htooLong : (load (settingsIn largeTime) (some "1.5") ⟨[], []⟩).map (fun _ => ()) =
      .error .tooLong := by decide +kernel
  exact ⟨.tooLong, map_eq_error_iff.mp htooLong, SettingsError.OfNumber.tooLong.not_isRefusal⟩

end Settings

end CodeNav
